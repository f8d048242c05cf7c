import Oxibus.Daemon.XmlTokens

/-!
# Tags as they are written

What the tokenizer makes of a tag that is written as usual: white space before
each attribute, a quote around each value. Names and values that are written so
are read back (`readTag_text`), whatever they are, as long as the value does not
contain the quote.
-/

namespace Oxibus

namespace Xml

/-- The tokens of a list of characters. -/
def tokens (cs : List Char) : List XmlToken := tokenizeFrom cs.length cs

theorem tokenizeXml_ofList (cs : List Char) : tokenizeXml (String.ofList cs) = tokens cs := by
  unfold tokenizeXml tokens
  rw [String.toList_ofList]

/-- Text outside of tags is skipped. -/
theorem tokens_text {text : List Char} (h : '<' ∉ text) (cs : List Char) :
    tokens (text ++ cs) = tokens cs := by
  induction text with
  | nil => rfl
  | cons c text ih =>
    have hc : c ≠ '<' := fun hc => h (hc ▸ List.mem_cons_self)
    rw [← ih fun hmem => h (List.mem_cons_of_mem _ hmem)]
    show tokenizeFrom ((text ++ cs).length + 1) (c :: (text ++ cs)) = _
    rw [tokenizeFrom, if_neg hc]
    rfl

/-- A tag that does not start like a comment is read as a tag. -/
theorem tokens_tag {c : Char} {cs : List Char} (hc : c ≠ '!') :
    tokens ('<' :: c :: cs) = (readTag (c :: cs)).1 :: tokens (readTag (c :: cs)).2 := by
  have hmarkup : readMarkup (c :: cs) = ([(readTag (c :: cs)).1], (readTag (c :: cs)).2) := by
    unfold readMarkup
    split
    · next heq => exact absurd (List.cons.inj heq).1 hc
    · next heq => exact absurd (List.cons.inj heq).1 hc
    · next heq => exact absurd (List.cons.inj heq).1 hc
    · rfl
  show tokenizeFrom ((c :: cs).length + 1) ('<' :: c :: cs) = _
  rw [tokenizeFrom, if_pos rfl, hmarkup]
  show (readTag (c :: cs)).1 :: tokenizeFrom (c :: cs).length (readTag (c :: cs)).2 = _
  rw [tokenizeFrom_eq (length_readTag _)]
  rfl

theorem skipWhitespace_append {gap : List Char} (h : ∀ c ∈ gap, isWhitespace c = true)
    (cs : List Char) : skipWhitespace (gap ++ cs) = skipWhitespace cs :=
  List.dropWhile_append_of_pos h

theorem readUntil_append {q : Char} {value : List Char} (h : q ∉ value) (rest : List Char) :
    readUntil q (value ++ q :: rest) = (value, rest) := by
  induction value with
  | nil => exact if_pos rfl
  | cons c value ih =>
    have hc : c ≠ q := fun hc => h (hc ▸ List.mem_cons_self)
    rw [List.cons_append, readUntil, if_neg hc, ih fun hmem => h (List.mem_cons_of_mem _ hmem)]

/-- **How attributes are written**: white space before each, and a quote around
each value. -/
structure Writing where
  gap : List Char
  gap_ne : gap ≠ []
  gap_space : ∀ c ∈ gap, isWhitespace c = true
  quote : Char
  quote_eq : quote = '"' ∨ quote = '\''

/-- An attribute that can be written: a name that is not broken, and a value
without the quote. -/
structure Writing.Writable (W : Writing) (name value : String) : Prop where
  name_ne : name.toList ≠ []
  name_plain : ∀ c ∈ name.toList, endsAttrName c = false
  value_plain : W.quote ∉ value.toList

/-- The text of the attributes of a tag. -/
def Writing.attrsText (W : Writing) : List (String × String) → List Char
  | [] => []
  | (name, value) :: attrs =>
    W.gap ++ (name.toList ++ '=' :: W.quote :: (value.toList ++ W.quote :: W.attrsText attrs))

namespace Writing

variable {W : Writing} {name value : String} {attrs : List (String × String)}

theorem length_attrsText (W : Writing) (attrs : List (String × String)) :
    attrs.length ≤ (W.attrsText attrs).length := by
  induction attrs with
  | nil => exact le_rfl
  | cons attr attrs ih =>
    simp only [attrsText, List.length_cons, List.length_append]
    omega

theorem isWhitespace_quote (W : Writing) : isWhitespace W.quote = false := by
  rcases W.quote_eq with h | h
  · rw [h]
    decide
  · rw [h]
    decide

theorem openQuote_quote (W : Writing) (rest : List Char) :
    openQuote (W.quote :: rest) = (W.quote, rest) := by
  rcases W.quote_eq with h | h
  · rw [h]
    rfl
  · rw [h]
    rfl

/-- **A written attribute is read.** -/
theorem readAttr_text (h : W.Writable name value) (acc : Attrs) (rest : List Char) :
    readAttr acc (skipWhitespace (W.gap ++ (name.toList ++ '=' :: W.quote ::
      (value.toList ++ W.quote :: rest)))) = some ((name, value) :: acc, rest) := by
  have hplain : ∀ c ∈ name.toList, (!endsAttrName c) = true := fun c hc => by
    rw [h.name_plain c hc]
    rfl
  obtain ⟨c, cs, hname⟩ := List.exists_cons_of_ne_nil h.name_ne
  have hc : endsAttrName c = false := h.name_plain c (by rw [hname]; exact List.mem_cons_self)
  unfold endsAttrName at hc
  simp only [Bool.or_eq_false_iff] at hc
  obtain ⟨⟨⟨-, hws⟩, hgt⟩, hslash⟩ := hc
  have hskip : ∀ tail, skipWhitespace (W.gap ++ (name.toList ++ tail)) = name.toList ++ tail := by
    intro tail
    rw [skipWhitespace_append W.gap_space, hname]
    exact skipWhitespace_of_not hws
  have hround : ∀ tail, readAttr acc (name.toList ++ '=' :: tail)
      = some (readValue acc name.toList ('=' :: tail)) := by
    intro tail
    have htake := takeWhile_append_stop (r := tail) hplain (by decide : (!endsAttrName '=') = false)
    have hdrop := dropWhile_append_stop (r := tail) hplain (by decide : (!endsAttrName '=') = false)
    rw [hname] at htake hdrop ⊢
    show (if (c == '>' || c == '/') = true then none else some (readValue acc
      ((c :: cs ++ '=' :: tail).takeWhile fun c => !endsAttrName c)
      (skipWhitespace ((c :: cs ++ '=' :: tail).dropWhile fun c => !endsAttrName c)))) = _
    rw [hgt, hslash, htake, hdrop, skipWhitespace_of_not (by decide)]
    rfl
  rw [hskip, hround]
  have hvalue :
      readUntil (openQuote (skipWhitespace (W.quote :: (value.toList ++ W.quote :: rest)))).1
      (openQuote (skipWhitespace (W.quote :: (value.toList ++ W.quote :: rest)))).2
        = (value.toList, rest) := by
    rw [skipWhitespace_of_not W.isWhitespace_quote, W.openQuote_quote]
    exact readUntil_append h.value_plain rest
  have hinsert : insertAttr acc name.toList value.toList = (name, value) :: acc := by
    unfold insertAttr
    rw [hname]
    show (String.ofList (c :: cs), String.ofList value.toList) :: acc = _
    rw [← hname, String.ofList_toList, String.ofList_toList]
  unfold readValue
  simp only [hvalue, hinsert]

/-- The attributes of a tag are read up to its end. -/
theorem readAttrsFrom_text {c : Char} (hc : c = '>' ∨ c = '/') (rest : List Char) {fuel : ℕ}
    (acc : Attrs) (h : ∀ attr ∈ attrs, W.Writable attr.1 attr.2) (hfuel : attrs.length < fuel) :
    readAttrsFrom fuel acc (W.attrsText attrs ++ c :: rest) =
      (attrs.reverse ++ acc, c :: rest) := by
  induction attrs generalizing fuel acc with
  | nil =>
    cases fuel with
    | zero => exact absurd hfuel (Nat.not_lt_zero _)
    | succ fuel =>
      have hskip : skipWhitespace (c :: rest) = c :: rest := by
        refine skipWhitespace_of_not ?_
        rcases hc with rfl | rfl <;> decide
      have hend : readAttr acc (c :: rest) = none := by
        rcases hc with rfl | rfl <;> rfl
      show readAttrsFrom (fuel + 1) acc (c :: rest) = _
      rw [readAttrsFrom, hskip, hend]
      rfl
  | cons attr attrs ih =>
    cases fuel with
    | zero => exact absurd hfuel (Nat.not_lt_zero _)
    | succ fuel =>
      obtain ⟨name, value⟩ := attr
      have htext : W.attrsText ((name, value) :: attrs) ++ c :: rest = W.gap ++ (name.toList ++
          '=' :: W.quote :: (value.toList ++ W.quote :: (W.attrsText attrs ++ c :: rest))) := by
        simp [attrsText]
      rw [htext, readAttrsFrom, readAttr_text (h _ List.mem_cons_self)]
      show readAttrsFrom fuel ((name, value) :: acc) (W.attrsText attrs ++ c :: rest) = _
      rw [ih _ (fun attr hattr => h attr (List.mem_cons_of_mem _ hattr))
        (Nat.lt_of_succ_lt_succ hfuel)]
      simp

theorem readAttrs_text {c : Char} (hc : c = '>' ∨ c = '/') (rest : List Char)
    (h : ∀ attr ∈ attrs, W.Writable attr.1 attr.2) :
    readAttrs (W.attrsText attrs ++ c :: rest) = (attrs.reverse, c :: rest) := by
  have hlength := W.length_attrsText attrs
  have hfuel : attrs.length < (W.attrsText attrs ++ c :: rest).length + 1 := by
    rw [List.length_append]
    omega
  unfold readAttrs
  rw [readAttrsFrom_text hc rest [] h hfuel, List.append_nil]

/-- What may be written as the name of a tag. -/
structure TagName (tag : String) : Prop where
  ne : tag.toList ≠ []
  plain : ∀ c ∈ tag.toList, endsTagName c = false

/-- What is not the name of an end tag is left. -/
theorem TagName.dropChar_slash {tag : String} (htag : TagName tag) (rest : List Char) :
    dropChar '/' (tag.toList ++ rest) = (false, tag.toList ++ rest) := by
  obtain ⟨c, cs, hname⟩ := List.exists_cons_of_ne_nil htag.ne
  have hc : endsTagName c = false := htag.plain c (by rw [hname]; exact List.mem_cons_self)
  have hslash : c ≠ '/' := by
    rintro rfl
    exact absurd hc (by decide)
  rw [hname, List.cons_append, dropChar, if_neg hslash]

/-- The name of a tag ends before its attributes, or at its end. -/
theorem TagName.text {tag : String} (htag : TagName tag) (attrs : List (String × String)) {c : Char}
    (hc : c = '>' ∨ c = '/') (rest : List Char) :
    ((tag.toList ++ (W.attrsText attrs ++ c :: rest)).takeWhile fun c => !endsTagName c)
        = tag.toList ∧
      ((tag.toList ++ (W.attrsText attrs ++ c :: rest)).dropWhile fun c => !endsTagName c)
        = W.attrsText attrs ++ c :: rest := by
  have hplain : ∀ c ∈ tag.toList, (!endsTagName c) = true := fun c hc => by
    rw [htag.plain c hc]
    rfl
  obtain ⟨d, tail, htail, hd⟩ : ∃ d tail, W.attrsText attrs ++ c :: rest = d :: tail ∧
      (!endsTagName d) = false := by
    cases attrs with
    | nil =>
      refine ⟨c, rest, rfl, ?_⟩
      rcases hc with rfl | rfl <;> decide
    | cons attr attrs =>
      obtain ⟨d, gap, hgap⟩ := List.exists_cons_of_ne_nil W.gap_ne
      have hspace : isWhitespace d = true := W.gap_space d (by rw [hgap]; exact List.mem_cons_self)
      refine ⟨d, _, by rw [attrsText, hgap]; rfl, ?_⟩
      unfold endsTagName
      rw [hspace]
      rfl
  rw [htail]
  exact ⟨takeWhile_append_stop hplain hd, dropWhile_append_stop hplain hd⟩

/-- **A written tag is read.** -/
theorem readTag_text {tag : String} (htag : TagName tag) (rest : List Char)
    (h : ∀ attr ∈ attrs, W.Writable attr.1 attr.2) :
    readTag (tag.toList ++ (W.attrsText attrs ++ '>' :: rest))
        = (.startTag tag attrs.reverse, rest) ∧
      readTag (tag.toList ++ (W.attrsText attrs ++ '/' :: '>' :: rest))
        = (.selfClosingTag tag attrs.reverse, rest) := by
  constructor
  · obtain ⟨htake, hdrop⟩ := htag.text attrs (.inl rfl) rest
    unfold readTag
    rw [htag.dropChar_slash]
    simp only [Bool.false_eq_true, if_false]
    rw [htake, hdrop, readAttrs_text (.inl rfl) rest h, String.ofList_toList]
    rfl
  · obtain ⟨htake, hdrop⟩ := htag.text attrs (.inr rfl) ('>' :: rest)
    unfold readTag
    rw [htag.dropChar_slash]
    simp only [Bool.false_eq_true, if_false]
    rw [htake, hdrop, readAttrs_text (.inr rfl) ('>' :: rest) h, String.ofList_toList]
    rfl

/-- An end tag is read. -/
theorem TagName.readTag_end {tag : String} (htag : TagName tag) (rest : List Char) :
    readTag ('/' :: (tag.toList ++ '>' :: rest)) = (.endTag tag, rest) := by
  have hplain : ∀ c ∈ tag.toList, (!endsTagName c) = true := fun c hc => by
    rw [htag.plain c hc]
    rfl
  have htake := takeWhile_append_stop (r := rest) hplain (by decide : (!endsTagName '>') = false)
  have hdrop := dropWhile_append_stop (r := rest) hplain (by decide : (!endsTagName '>') = false)
  unfold readTag
  rw [dropChar, if_pos rfl]
  simp only [if_true]
  rw [htake, hdrop, String.ofList_toList]
  rfl

end Writing

end Xml

end Oxibus
