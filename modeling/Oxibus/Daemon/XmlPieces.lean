import Oxibus.Daemon.XmlPolicy
import Oxibus.Daemon.XmlWriting

/-!
# Documents in pieces

A document is a sequence of pieces: characters of text, comments, declarations
and tags. Where a piece ends the tokenizer stands between two rounds of its
main loop, and what it makes of the piece does not depend on what follows
(`Piece.settled`). A position with only whole pieces before it is outside of
every tag, comment and declaration, and whatever is inserted there is read on
its own.

In particular a comment is. Nothing in it is read, not even what looks like a
tag, so that rules in comments are without effect, and neither of the loops of
the tokenizer runs forever (`comment_inert`).
-/

namespace Oxibus

namespace Xml

/-! ## The pieces -/

/-- White space only. -/
def Space (cs : List Char) : Prop := ∀ c ∈ cs, isWhitespace c = true

/-- Characters of the name of an attribute only. -/
def PlainAttrName (name : List Char) : Prop := ∀ c ∈ name, endsAttrName c = false

instance (name : List Char) : Decidable (PlainAttrName name) :=
  decidable_of_iff (name.all fun c => !endsAttrName c) (by simp [PlainAttrName])

/-- Characters of the name of a tag only. -/
def PlainTagName (name : List Char) : Prop := ∀ c ∈ name, endsTagName c = false

instance (name : List Char) : Decidable (PlainTagName name) :=
  decidable_of_iff (name.all fun c => !endsTagName c) (by simp [PlainTagName])

/-- **What a tag may have between its name and its end**: white space, words,
and assignments with a value in quotes. A value without an opening quote ends
at a double quote. -/
inductive AttrsText : List Char → Prop where
  | space {gap : List Char} : Space gap → AttrsText gap
  /-- A word without a value, before white space and no assignment. -/
  | word {gap name rest : List Char} : Space gap → name ≠ [] → PlainAttrName name →
      (∀ c ∈ rest.head?, isWhitespace c = true) → (skipWhitespace rest).head? ≠ some '=' →
      AttrsText rest → AttrsText (gap ++ (name ++ rest))
  | quoted {gap name before after value rest : List Char} {q : Char} : Space gap →
      PlainAttrName name → Space before → Space after → q = '"' ∨ q = '\'' → q ∉ value →
      AttrsText rest →
      AttrsText (gap ++ (name ++ (before ++ '=' :: (after ++ q :: (value ++ q :: rest)))))
  | unquoted {gap name before after value rest : List Char} {c : Char} : Space gap →
      PlainAttrName name → Space before → Space after → isWhitespace c = false → c ≠ '"' →
      c ≠ '\'' → '"' ∉ value → AttrsText rest →
      AttrsText (gap ++ (name ++ (before ++ '=' :: (after ++ c :: (value ++ '"' :: rest)))))

/-- The end of a tag. Behind a slash nothing is read. -/
inductive TagEnd : List Char → Prop where
  | bracket : TagEnd ['>']
  | slash {junk : List Char} : '<' ∉ junk → '>' ∉ junk → TagEnd ('/' :: (junk ++ ['>']))

/-- What a tag begins with, behind its bracket: nothing, or the beginning of a
comment that is none. -/
inductive TagOpening : List Char → List Char → Prop where
  | plain {body : List Char} : body.head? ≠ some '!' → TagOpening [] body
  | dash {body : List Char} : body.head? ≠ some '-' → TagOpening ['!', '-'] body

/-- **A piece of a document.** -/
inductive Piece : List Char → Prop where
  | text {c : Char} : c ≠ '<' → Piece [c]
  | comment {c : List Char} : ¬ "-->".toList <:+: c →
      Piece ("<!--".toList ++ (c ++ "-->".toList))
  | declaration {text : List Char} : text.head? ≠ some '-' → '>' ∉ text →
      Piece ('<' :: '!' :: (text ++ ['>']))
  | tag {opening name attrs close : List Char} :
      TagOpening opening (name ++ (attrs ++ close)) → PlainTagName name →
      (name ++ (attrs ++ close)).head? ≠ some '/' → (∀ c ∈ attrs.head?, isWhitespace c = true) →
      AttrsText attrs → TagEnd close → Piece ('<' :: (opening ++ (name ++ (attrs ++ close))))
  | endTag {opening name junk : List Char} :
      TagOpening opening ('/' :: (name ++ (junk ++ ['>']))) → PlainTagName name →
      (∀ c ∈ junk.head?, endsTagName c = true) → '<' ∉ junk → '>' ∉ junk →
      Piece ('<' :: (opening ++ '/' :: (name ++ (junk ++ ['>']))))

/-- **A position outside of tags, comments and declarations**: before it there
are only whole pieces. -/
inductive Outside : List Char → Prop where
  | start : Outside []
  | piece {p rest : List Char} : Piece p → Outside rest → Outside (p ++ rest)

/-- **What the tokenizer makes of a text does not depend on what follows.** -/
def Settled (p : List Char) : Prop := ∃ toks, ∀ rest, tokens (p ++ rest) = toks ++ tokens rest

/-! ## Comments, declarations and text -/

/-- What a bracket begins is read, and then the rest. -/
theorem tokens_markup (cs : List Char) :
    tokens ('<' :: cs) = (readMarkup cs).1 ++ tokens (readMarkup cs).2 := by
  show tokenizeFrom (cs.length + 1) ('<' :: cs) = _
  rw [tokenizeFrom, if_pos rfl, tokenizeFrom_eq (length_readMarkup cs)]
  rfl

/-- **A comment ends at the first `-->`.** -/
theorem skipComment_append {c : List Char} (h : ¬ "-->".toList <:+: c) (rest : List Char) :
    skipComment (c ++ ("-->".toList ++ rest)) = rest := by
  induction c with
  | nil => rfl
  | cons d c ih =>
    have htail : ¬ "-->".toList <:+: c := fun hc => h (List.infix_cons hc)
    have hstart : ∀ more, d = '-' → c ++ ("-->".toList ++ rest) ≠ '-' :: '>' :: more := by
      rintro more rfl hc
      -- the end of the comment cannot begin before it
      match c, hc with
      | [], hc => exact absurd (List.cons.inj (List.cons.inj hc).2).1 (by decide)
      | [x], hc => exact absurd (List.cons.inj (List.cons.inj hc).2).1 (by decide)
      | x :: y :: c, hc =>
        obtain ⟨rfl, hy⟩ := List.cons.inj hc
        obtain ⟨rfl, -⟩ := List.cons.inj hy
        exact h ⟨[], c, rfl⟩
    rw [List.cons_append, skipComment]
    · exact ih htail
    · exact hstart

theorem tokens_comment {c : List Char} (h : ¬ "-->".toList <:+: c) (rest : List Char) :
    tokens ("<!--".toList ++ (c ++ "-->".toList) ++ rest) = tokens rest := by
  show tokens ('<' :: '!' :: '-' :: '-' :: (c ++ "-->".toList ++ rest)) = _
  rw [tokens_markup, List.append_assoc]
  show [] ++ tokens (skipComment (c ++ ("-->".toList ++ rest))) = _
  rw [skipComment_append h]
  rfl

theorem tokens_declaration {text : List Char} (hdash : text.head? ≠ some '-')
    (h : '>' ∉ text) (rest : List Char) :
    tokens ('<' :: '!' :: (text ++ ['>']) ++ rest) = tokens rest := by
  have hmarkup : readMarkup ('!' :: (text ++ '>' :: rest)) = ([], rest) := by
    have huntil := readUntil_append h rest
    cases text with
    | nil => rfl
    | cons d text =>
      have hd : d ≠ '-' := fun hd => hdash (congrArg some hd)
      show readMarkup ('!' :: d :: (text ++ '>' :: rest)) = _
      rw [readMarkup]
      · exact congrArg (fun cs => (([] : List XmlToken), cs))
          (congrArg Prod.snd huntil)
      · intro cs hcs
        exact hd (List.cons.inj hcs).1
      · intro cs hcs
        exact hd (List.cons.inj hcs).1
  show tokens ('<' :: '!' :: (text ++ ['>'] ++ rest)) = _
  rw [List.append_assoc]
  show tokens ('<' :: '!' :: (text ++ '>' :: rest)) = _
  rw [tokens_markup, hmarkup]
  rfl

/-! ## Attributes -/

/-- The attributes that are read after some others, and what follows them. -/
def attrsFrom (acc : Attrs) (cs : List Char) : Attrs × List Char :=
  readAttrsFrom (cs.length + 1) acc cs

theorem attrsFrom_eq (acc : Attrs) (cs : List Char) :
    attrsFrom acc cs = match readAttr acc (skipWhitespace cs) with
      | some (attrs, rest) => attrsFrom attrs rest
      | none => (acc, skipWhitespace cs) := by
  rw [attrsFrom, readAttrsFrom]
  cases hround : readAttr acc (skipWhitespace cs) with
  | none => rfl
  | some round =>
    obtain ⟨attrs, rest⟩ := round
    have hlt := length_readAttr hround
    have hle := length_skipWhitespace cs
    exact readAttrsFrom_eq (by omega) (Nat.lt_succ_self _) attrs

theorem skipWhitespace_idem (cs : List Char) :
    skipWhitespace (skipWhitespace cs) = skipWhitespace cs := by
  cases hcs : skipWhitespace cs with
  | nil => rfl
  | cons c rest => exact skipWhitespace_of_not (head_skipWhitespace hcs)

theorem attrsFrom_skipWhitespace (acc : Attrs) (cs : List Char) :
    attrsFrom acc (skipWhitespace cs) = attrsFrom acc cs := by
  rw [attrsFrom_eq, attrsFrom_eq acc cs, skipWhitespace_idem]

theorem PlainAttrName.head {c : Char} {cs : List Char} (h : PlainAttrName (c :: cs)) :
    isWhitespace c = false ∧ (c == '>' || c == '/') = false := by
  have hc := h c List.mem_cons_self
  unfold endsAttrName at hc
  simp only [Bool.or_eq_false_iff] at hc ⊢
  exact ⟨hc.1.1.2, hc.1.2, hc.2⟩

/-- A name is read up to a character that ends it. -/
theorem PlainAttrName.take_drop {name : List Char} (h : PlainAttrName name) {d : Char}
    (hd : endsAttrName d = true) (rest : List Char) :
    (name ++ d :: rest).takeWhile (fun c => !endsAttrName c) = name ∧
      (name ++ d :: rest).dropWhile (fun c => !endsAttrName c) = d :: rest := by
  have hname : ∀ c ∈ name, (!endsAttrName c) = true := fun c hc => by
    rw [h c hc]
    rfl
  have hstop : (!endsAttrName d) = false := by
    rw [hd]
    rfl
  exact ⟨takeWhile_append_stop hname hstop, dropWhile_append_stop hname hstop⟩

/-- The first of two texts that ends names ends the name before it. -/
theorem exists_stop {before : List Char} {d : Char} (hbefore : Space before)
    (hd : endsAttrName d = true) (rest : List Char) :
    ∃ e tail, before ++ d :: rest = e :: tail ∧ endsAttrName e = true := by
  cases before with
  | nil => exact ⟨d, rest, rfl, hd⟩
  | cons e before =>
    refine ⟨e, before ++ d :: rest, rfl, ?_⟩
    unfold endsAttrName
    rw [hbefore e List.mem_cons_self]
    simp

/-- **A round for an assignment.** -/
theorem readAttr_assign {acc : Attrs} {gap name before : List Char} (hgap : Space gap)
    (hname : PlainAttrName name) (hbefore : Space before) (rest : List Char) :
    readAttr acc (skipWhitespace (gap ++ (name ++ (before ++ '=' :: rest))))
      = some (readValue acc name ('=' :: rest)) := by
  have hassign : skipWhitespace ('=' :: rest) = '=' :: rest := skipWhitespace_of_not (by decide)
  have hafter : skipWhitespace (before ++ '=' :: rest) = '=' :: rest := by
    rw [skipWhitespace_append hbefore, hassign]
  rw [skipWhitespace_append hgap]
  cases name with
  | nil =>
    show readAttr acc (skipWhitespace (before ++ '=' :: rest)) = _
    rw [hafter]
    show (if ('=' == '>' || '=' == '/') = true then none else some (readValue acc
      (('=' :: rest).takeWhile fun c => !endsAttrName c)
      (skipWhitespace (('=' :: rest).dropWhile fun c => !endsAttrName c)))) = _
    rw [if_neg (by decide), List.takeWhile_cons_of_neg (by decide),
      List.dropWhile_cons_of_neg (by decide), hassign]
  | cons c name =>
    obtain ⟨hws, hend⟩ := hname.head
    obtain ⟨e, tail, htail, he⟩ := exists_stop hbefore (d := '=') rfl rest
    obtain ⟨htake, hdrop⟩ := hname.take_drop he tail
    rw [List.cons_append, skipWhitespace_of_not hws, readAttr, hend, if_neg (by decide),
      ← List.cons_append, htail, htake, hdrop, ← htail, hafter]

/-- A round for a word. -/
theorem readAttr_word {acc : Attrs} {gap name rest : List Char} {d : Char} (hgap : Space gap)
    (hne : name ≠ []) (hname : PlainAttrName name) (hd : endsAttrName d = true)
    (hassign : (skipWhitespace (d :: rest)).head? ≠ some '=') :
    readAttr acc (skipWhitespace (gap ++ (name ++ d :: rest)))
      = some (acc, skipWhitespace (d :: rest)) := by
  rw [skipWhitespace_append hgap]
  cases name with
  | nil => exact absurd rfl hne
  | cons c name =>
    obtain ⟨hws, hend⟩ := hname.head
    obtain ⟨htake, hdrop⟩ := hname.take_drop hd rest
    have hvalue : readValue acc (c :: name) (skipWhitespace (d :: rest))
        = (acc, skipWhitespace (d :: rest)) := by
      unfold readValue
      split
      · next more hmore =>
        rw [hmore] at hassign
        exact absurd rfl hassign
      · rfl
    rw [List.cons_append, skipWhitespace_of_not hws, readAttr, hend, if_neg (by decide),
      ← List.cons_append, htake, hdrop, hvalue]

/-- What ends a tag ends a name, and is neither white space nor an equals sign. -/
theorem ends_of_close {d : Char} (hd : d = '>' ∨ d = '/') :
    endsAttrName d = true ∧ isWhitespace d = false ∧ d ≠ '=' := by
  rcases hd with rfl | rfl
  · decide
  · decide

/-- A value in quotes is read up to the quote. -/
theorem readValue_quoted {after value : List Char} {q : Char} (hafter : Space after)
    (hq : q = '"' ∨ q = '\'') (hvalue : q ∉ value) (acc : Attrs) (name rest : List Char) :
    readValue acc name ('=' :: (after ++ q :: (value ++ q :: rest)))
      = (insertAttr acc name value, rest) := by
  have hqws : isWhitespace q = false := by rcases hq with rfl | rfl <;> decide
  have hopen : ∀ cs, openQuote (q :: cs) = (q, cs) := by
    intro cs
    rcases hq with rfl | rfl <;> rfl
  rw [readValue, skipWhitespace_append hafter, skipWhitespace_of_not hqws, hopen,
    readUntil_append hvalue]

/-- One without an opening quote is read up to a double quote. -/
theorem readValue_unquoted {after value : List Char} {c : Char} (hafter : Space after)
    (hws : isWhitespace c = false) (hq : c ≠ '"') (hq' : c ≠ '\'') (hvalue : '"' ∉ value)
    (acc : Attrs) (name rest : List Char) :
    readValue acc name ('=' :: (after ++ c :: (value ++ '"' :: rest)))
      = (insertAttr acc name (c :: value), rest) := by
  have hopen : ∀ cs, openQuote (c :: cs) = ('"', c :: cs) := by
    intro cs
    unfold openQuote
    split
    · next heq => exact absurd (List.cons.inj heq).1 hq
    · next heq => exact absurd (List.cons.inj heq).1 hq'
    · rfl
  have hnot : '"' ∉ c :: value := by
    rw [List.mem_cons, not_or]
    exact ⟨Ne.symm hq, hvalue⟩
  rw [readValue, skipWhitespace_append hafter, skipWhitespace_of_not hws, hopen,
    ← List.cons_append, readUntil_append hnot]

/-- Behind a word there is no equals sign, also where nothing but the end of the tag is
left. -/
theorem head_skipWhitespace_ne {more : List Char} {d : Char} (hd : d = '>' ∨ d = '/')
    (hassign : (skipWhitespace more).head? ≠ some '=') (rest : List Char) :
    (skipWhitespace (more ++ d :: rest)).head? ≠ some '=' := by
  obtain ⟨-, hws, hneq⟩ := ends_of_close hd
  cases hmore : skipWhitespace more with
  | nil =>
    have hall : Space more := List.dropWhile_eq_nil_iff.mp hmore
    rw [skipWhitespace_append hall, skipWhitespace_of_not hws]
    exact fun heq => hneq (Option.some.inj heq)
  | cons x xs =>
    have hskip : skipWhitespace (more ++ d :: rest) = x :: xs ++ d :: rest := by
      unfold skipWhitespace at hmore ⊢
      rw [List.dropWhile_append, hmore]
      rfl
    rw [hskip]
    rw [hmore] at hassign
    exact hassign

/-- **The attributes of a tag are read up to its end.** -/
theorem AttrsText.read {text : List Char} (h : AttrsText text) (acc : Attrs) :
    ∃ attrs, ∀ d rest, d = '>' ∨ d = '/' →
      attrsFrom acc (text ++ d :: rest) = (attrs, d :: rest) := by
  induction h generalizing acc with
  | @space gap hgap =>
    refine ⟨acc, fun d rest hd => ?_⟩
    have hnone : readAttr acc (d :: rest) = none := by
      rcases hd with rfl | rfl <;> rfl
    rw [attrsFrom_eq, skipWhitespace_append hgap, skipWhitespace_of_not (ends_of_close hd).2.1,
      hnone]
  | @word gap name more hgap hne hname hspace hassign _ ih =>
    obtain ⟨attrs, hread⟩ := ih acc
    refine ⟨attrs, fun d rest hd => ?_⟩
    have hnot := head_skipWhitespace_ne hd hassign rest
    obtain ⟨e, tail, htail, he⟩ : ∃ e tail, more ++ d :: rest = e :: tail ∧
        endsAttrName e = true := by
      cases more with
      | nil => exact ⟨d, rest, rfl, (ends_of_close hd).1⟩
      | cons e more =>
        refine ⟨e, more ++ d :: rest, rfl, ?_⟩
        unfold endsAttrName
        rw [hspace e rfl]
        simp
    rw [htail] at hnot
    rw [List.append_assoc, List.append_assoc, htail, attrsFrom_eq,
      readAttr_word hgap hne hname he hnot]
    show attrsFrom acc (skipWhitespace (e :: tail)) = _
    rw [attrsFrom_skipWhitespace, ← htail, hread d rest hd]
  | @quoted gap name before after value more q hgap hname hbefore hafter hq hvalue _ ih =>
    obtain ⟨attrs, hread⟩ := ih (insertAttr acc name value)
    refine ⟨attrs, fun d rest hd => ?_⟩
    have htext : gap ++ (name ++ (before ++ '=' :: (after ++ q :: (value ++ q :: more))))
          ++ d :: rest
        = gap ++ (name ++
          (before ++ '=' :: (after ++ q :: (value ++ q :: (more ++ d :: rest))))) := by
      simp
    rw [htext, attrsFrom_eq, readAttr_assign hgap hname hbefore,
      readValue_quoted hafter hq hvalue]
    exact hread d rest hd
  | @unquoted gap name before after value more c hgap hname hbefore hafter hws hq hq' hvalue _ ih =>
    obtain ⟨attrs, hread⟩ := ih (insertAttr acc name (c :: value))
    refine ⟨attrs, fun d rest hd => ?_⟩
    have htext : gap ++ (name ++ (before ++ '=' :: (after ++ c :: (value ++ '"' :: more))))
          ++ d :: rest
        = gap ++ (name ++ (before ++ '=' ::
            (after ++ c :: (value ++ '"' :: (more ++ d :: rest))))) := by
      simp
    rw [htext, attrsFrom_eq, readAttr_assign hgap hname hbefore,
      readValue_unquoted hafter hws hq hq' hvalue]
    exact hread d rest hd

/-! ## Tags -/

/-- The bracket at the end of a tag is dropped; what comes before it stays. -/
theorem exists_dropChar {junk : List Char} (hlt : '<' ∉ junk) :
    ∃ left, '<' ∉ left ∧ ∀ rest, (dropChar '>' (junk ++ '>' :: rest)).2 = left ++ rest := by
  cases junk with
  | nil => exact ⟨[], List.not_mem_nil, fun rest => rfl⟩
  | cons c junk =>
    by_cases hc : c = '>'
    · subst hc
      refine ⟨junk ++ ['>'], ?_, fun rest => ?_⟩
      · rw [List.mem_append]
        rintro (hmem | hmem)
        · exact hlt (List.mem_cons_of_mem _ hmem)
        · exact absurd hmem (by decide)
      · rw [List.append_assoc]
        rfl
    · refine ⟨c :: junk ++ ['>'], ?_, fun rest => ?_⟩
      · rw [List.mem_append]
        rintro (hmem | hmem)
        · exact hlt hmem
        · exact absurd hmem (by decide)
      · rw [List.append_assoc, List.cons_append, dropChar, if_neg hc]
        rfl

theorem dropChar_of_head {c : Char} {cs : List Char} (h : cs.head? ≠ some c) :
    dropChar c cs = (false, cs) := by
  cases cs with
  | nil => rfl
  | cons d cs => exact if_neg fun hd => h (congrArg some hd)

/-- The name of a tag is read up to a character that ends it. -/
theorem PlainTagName.take_drop {name : List Char} (h : PlainTagName name) {d : Char}
    (hd : endsTagName d = true) (rest : List Char) :
    (name ++ d :: rest).takeWhile (fun c => !endsTagName c) = name ∧
      (name ++ d :: rest).dropWhile (fun c => !endsTagName c) = d :: rest := by
  have hname : ∀ c ∈ name, (!endsTagName c) = true := fun c hc => by
    rw [h c hc]
    rfl
  have hstop : (!endsTagName d) = false := by
    rw [hd]
    rfl
  exact ⟨takeWhile_append_stop hname hstop, dropWhile_append_stop hname hstop⟩

/-- **A tag is read in the same way whatever its end is**, up to its end. -/
theorem exists_readTag_attrs {name attrs : List Char} (hname : PlainTagName name)
    (hspace : ∀ c ∈ attrs.head?, isWhitespace c = true) (hattrs : AttrsText attrs) :
    ∃ as, ∀ d tail, d = '>' ∨ d = '/' → (name ++ (attrs ++ d :: tail)).head? ≠ some '/' →
      readTag (name ++ (attrs ++ d :: tail))
        = (if (dropChar '/' (d :: tail)).1 then .selfClosingTag (String.ofList name) as
            else .startTag (String.ofList name) as,
          (dropChar '>' (dropChar '/' (d :: tail)).2).2) := by
  obtain ⟨as, hread⟩ := hattrs.read []
  refine ⟨as, fun d tail hd hfirst => ?_⟩
  obtain ⟨e, more, hmore, he⟩ : ∃ e more, attrs ++ d :: tail = e :: more ∧
      endsTagName e = true := by
    cases attrs with
    | nil =>
      refine ⟨d, tail, rfl, ?_⟩
      rcases hd with rfl | rfl <;> decide
    | cons e attrs =>
      refine ⟨e, attrs ++ d :: tail, rfl, ?_⟩
      unfold endsTagName
      rw [hspace e rfl]
      rfl
  obtain ⟨htake, hdrop⟩ := hname.take_drop he more
  have hreadAttrs : readAttrs (attrs ++ d :: tail) = (as, d :: tail) := hread d tail hd
  unfold readTag
  rw [dropChar_of_head hfirst]
  simp only [Bool.false_eq_true, if_false]
  rw [hmore, htake, hdrop, ← hmore, hreadAttrs]

/-- **A tag is read up to its end**, and at most text is left of it. -/
theorem exists_readTag {name attrs close : List Char} (hname : PlainTagName name)
    (hhead : (name ++ (attrs ++ close)).head? ≠ some '/')
    (hspace : ∀ c ∈ attrs.head?, isWhitespace c = true) (hattrs : AttrsText attrs)
    (hclose : TagEnd close) :
    ∃ tok left, '<' ∉ left ∧
      ∀ rest, readTag (name ++ (attrs ++ close) ++ rest) = (tok, left ++ rest) := by
  obtain ⟨as, hbegin⟩ := exists_readTag_attrs hname hspace hattrs
  have hassoc : ∀ rest, name ++ (attrs ++ close) ++ rest = name ++ (attrs ++ (close ++ rest)) := by
    intro rest
    rw [List.append_assoc, List.append_assoc]
  have hhead' : ∀ rest, (name ++ (attrs ++ (close ++ rest))).head? ≠ some '/' := by
    intro rest
    rw [← hassoc]
    cases hall : name ++ (attrs ++ close) with
    | nil =>
      cases hclose with
      | bracket => simp at hall
      | slash => simp at hall
    | cons c cs =>
      rw [hall] at hhead
      exact hhead
  cases hclose with
  | bracket =>
    refine ⟨.startTag (String.ofList name) as, [], List.not_mem_nil, fun rest => ?_⟩
    rw [hassoc]
    exact hbegin '>' rest (.inl rfl) (hhead' rest)
  | @slash junk hlt hgt =>
    obtain ⟨left, hleft, hdrop⟩ := exists_dropChar hlt
    refine ⟨.selfClosingTag (String.ofList name) as, left, hleft, fun rest => ?_⟩
    have hrest : '/' :: (junk ++ ['>']) ++ rest = '/' :: (junk ++ '>' :: rest) := by
      rw [List.cons_append, List.append_assoc]
      rfl
    rw [hassoc, hrest]
    have hfirst := hhead' rest
    rw [hrest] at hfirst
    rw [hbegin '/' (junk ++ '>' :: rest) (.inr rfl) hfirst]
    show (XmlToken.selfClosingTag (String.ofList name) as,
      (dropChar '>' (junk ++ '>' :: rest)).2) = _
    rw [hdrop]

/-- An end tag is read up to its end. -/
theorem exists_readTag_end {name junk : List Char} (hname : PlainTagName name)
    (hjunk : ∀ c ∈ junk.head?, endsTagName c = true) (hlt : '<' ∉ junk) :
    ∃ tok left, '<' ∉ left ∧
      ∀ rest, readTag ('/' :: (name ++ (junk ++ ['>'])) ++ rest) = (tok, left ++ rest) := by
  obtain ⟨after, hafter, hslash⟩ : ∃ after, '<' ∉ after ∧
      ∀ rest, (dropChar '/' (junk ++ '>' :: rest)).2 = after ++ '>' :: rest := by
    cases junk with
    | nil => exact ⟨[], List.not_mem_nil, fun rest => rfl⟩
    | cons c junk =>
      by_cases hc : c = '/'
      · subst hc
        exact ⟨junk, fun hmem => hlt (List.mem_cons_of_mem _ hmem), fun rest => rfl⟩
      · refine ⟨c :: junk, hlt, fun rest => ?_⟩
        rw [List.cons_append, dropChar, if_neg hc]
  obtain ⟨left, hleft, hdrop⟩ := exists_dropChar hafter
  refine ⟨.endTag (String.ofList name), left, hleft, fun rest => ?_⟩
  obtain ⟨e, more, hmore, he⟩ : ∃ e more, junk ++ '>' :: rest = e :: more ∧
      endsTagName e = true := by
    cases junk with
    | nil => exact ⟨'>', rest, rfl, by decide⟩
    | cons e junk => exact ⟨e, junk ++ '>' :: rest, rfl, hjunk e rfl⟩
  obtain ⟨htake, hskip⟩ := hname.take_drop he more
  have htext :
      '/' :: (name ++ (junk ++ ['>'])) ++ rest = '/' :: (name ++ (junk ++ '>' :: rest)) := by
    simp
  rw [htext]
  unfold readTag
  rw [dropChar, if_pos rfl]
  simp only [if_true]
  rw [hmore, htake, hskip, ← hmore, hslash, hdrop]

/-- What begins like a tag is read as one. -/
theorem readMarkup_opening {opening body : List Char} (h : TagOpening opening body)
    (hne : body ≠ []) (rest : List Char) :
    readMarkup (opening ++ (body ++ rest))
      = ([(readTag (body ++ rest)).1], (readTag (body ++ rest)).2) := by
  obtain ⟨c, cs, rfl⟩ := List.exists_cons_of_ne_nil hne
  cases h with
  | plain hbang =>
    have hc : c ≠ '!' := fun hc => hbang (congrArg some hc)
    rw [List.nil_append, List.cons_append]
    unfold readMarkup
    split
    · next heq => exact absurd (List.cons.inj heq).1 hc
    · next heq => exact absurd (List.cons.inj heq).1 hc
    · next heq => exact absurd (List.cons.inj heq).1 hc
    · rfl
  | dash hdash =>
    have hc : c ≠ '-' := fun hc => hdash (congrArg some hc)
    show readMarkup ('!' :: '-' :: c :: (cs ++ rest)) = _
    rw [readMarkup]
    · rfl
    · intro more hmore
      exact hc (List.cons.inj hmore).1

/-! ## Every piece is settled -/

/-- **What the tokenizer makes of a piece does not depend on what follows.** -/
theorem Piece.settled {p : List Char} (h : Piece p) : Settled p := by
  cases h with
  | @text c hc =>
    refine ⟨[], fun rest => ?_⟩
    exact tokens_text (List.mem_singleton.not.mpr (Ne.symm hc)) rest
  | comment hc => exact ⟨[], fun rest => tokens_comment hc rest⟩
  | declaration hdash hgt => exact ⟨[], fun rest => tokens_declaration hdash hgt rest⟩
  | @tag opening name attrs close hopening hname hhead hspace hattrs hclose =>
    obtain ⟨tok, left, hleft, hread⟩ := exists_readTag hname hhead hspace hattrs hclose
    have hne : name ++ (attrs ++ close) ≠ [] := by
      cases hclose with
      | bracket => simp
      | slash => simp
    refine ⟨[tok], fun rest => ?_⟩
    rw [List.cons_append, List.append_assoc, tokens_markup, readMarkup_opening hopening hne, hread]
    exact congrArg (List.cons tok) (tokens_text hleft rest)
  | @endTag opening name junk hopening hname hjunk hlt hgt =>
    obtain ⟨tok, left, hleft, hread⟩ := exists_readTag_end hname hjunk hlt
    refine ⟨[tok], fun rest => ?_⟩
    rw [List.cons_append, List.append_assoc, tokens_markup,
      readMarkup_opening hopening (List.cons_ne_nil _ _), hread]
    exact congrArg (List.cons tok) (tokens_text hleft rest)

/-- **What stands before a position outside of everything is settled.** -/
theorem Outside.settled {pre : List Char} (h : Outside pre) : Settled pre := by
  induction h with
  | start => exact ⟨[], fun rest => rfl⟩
  | @piece p rest hp _ ih =>
    obtain ⟨toks, htoks⟩ := hp.settled
    obtain ⟨toks', htoks'⟩ := ih
    refine ⟨toks ++ toks', fun tail => ?_⟩
    rw [List.append_assoc, htoks, htoks', List.append_assoc]

/-! ## Both loops end -/

/-- **A run of the loop over attributes**, as many rounds as it takes. -/
inductive AttrsRun : Attrs → List Char → Attrs × List Char → Prop where
  | done {acc : Attrs} {cs : List Char} : readAttr acc (skipWhitespace cs) = none →
      AttrsRun acc cs (acc, skipWhitespace cs)
  | round {acc acc' : Attrs} {cs rest : List Char} {result : Attrs × List Char} :
      readAttr acc (skipWhitespace cs) = some (acc', rest) → AttrsRun acc' rest result →
      AttrsRun acc cs result

/-- **A run of the main loop.** -/
inductive TokensRun : List Char → List XmlToken → Prop where
  | done : TokensRun [] []
  | text {c : Char} {cs : List Char} {toks : List XmlToken} : c ≠ '<' → TokensRun cs toks →
      TokensRun (c :: cs) toks
  | markup {cs : List Char} {toks : List XmlToken} : TokensRun (readMarkup cs).2 toks →
      TokensRun ('<' :: cs) ((readMarkup cs).1 ++ toks)

/-- Each round for an attribute leaves less. -/
theorem attrsRun_attrsFrom (acc : Attrs) (cs : List Char) : AttrsRun acc cs (attrsFrom acc cs) := by
  induction hn : cs.length using Nat.strong_induction_on generalizing acc cs with
  | _ n ih =>
    rw [attrsFrom_eq]
    cases hround : readAttr acc (skipWhitespace cs) with
    | none => exact .done hround
    | some round =>
      obtain ⟨attrs, rest⟩ := round
      have hlt := length_readAttr hround
      have hle := length_skipWhitespace cs
      exact .round hround (ih rest.length (by omega) attrs rest rfl)

/-- Each round of the main loop leaves less. -/
theorem tokensRun_tokens (cs : List Char) : TokensRun cs (tokens cs) := by
  induction hn : cs.length using Nat.strong_induction_on generalizing cs with
  | _ n ih =>
    cases cs with
    | nil => exact .done
    | cons c cs =>
      subst hn
      by_cases hc : c = '<'
      · subst hc
        rw [tokens_markup]
        have hle := length_readMarkup cs
        exact .markup (ih _ (Nat.lt_succ_of_le hle) _ rfl)
      · have htext : tokens (c :: cs) = tokens cs :=
          tokens_text (List.mem_singleton.not.mpr (Ne.symm hc)) cs
        rw [htext]
        exact .text hc (ih _ (Nat.lt_succ_self _) _ rfl)

/-! ## Comments have no effect -/

/-- **Comments are inert, and the tokenizer ends.** Outside of tags, comments
and declarations a comment can be put anywhere without a change to the tokens
of the document or its rules, and on every text both loops of the tokenizer
have a run that ends. -/
theorem comment_inert :
    (∀ pre c post : String, Outside pre.toList → ¬ "-->".toList <:+: c.toList →
      tokenizeXml (pre ++ ("<!--" ++ c ++ "-->") ++ post) = tokenizeXml (pre ++ post) ∧
        parseXmlPolicy (pre ++ ("<!--" ++ c ++ "-->") ++ post) = parseXmlPolicy (pre ++ post)) ∧
      (∀ xml, TokensRun xml.toList (tokenizeXml xml)) ∧ ∀ cs, AttrsRun [] cs (readAttrs cs) := by
  refine ⟨fun pre c post hpre hc => ?_, fun xml => tokensRun_tokens xml.toList,
    fun cs => attrsRun_attrsFrom [] cs⟩
  obtain ⟨toks, htoks⟩ := hpre.settled
  have hsame : tokenizeXml (pre ++ ("<!--" ++ c ++ "-->") ++ post) = tokenizeXml (pre ++ post) := by
    show tokens (pre ++ ("<!--" ++ c ++ "-->") ++ post).toList = tokens (pre ++ post).toList
    have hcomment : (pre ++ ("<!--" ++ c ++ "-->") ++ post).toList
        = pre.toList ++ ("<!--".toList ++ (c.toList ++ "-->".toList) ++ post.toList) := by
      simp only [String.toList_append, List.append_assoc]
    rw [hcomment, String.toList_append, htoks, tokens_comment hc, htoks]
  refine ⟨hsame, ?_⟩
  unfold parseXmlPolicy
  rw [hsame]

/-- The start of a policy is a whole piece. -/
theorem outside_policy : Outside "<policy>".toList := by
  have htag : Piece ('<' :: ([] ++ ("policy".toList ++ ([] ++ ['>'])))) := by
    refine .tag (.plain (by decide)) ?_ (by decide) ?_ (.space ?_) .bracket
    · decide
    · exact fun c hc => absurd hc (by simp)
    · exact fun c hc => absurd hc List.not_mem_nil
  have htext : "<policy>".toList = '<' :: ([] ++ ("policy".toList ++ ([] ++ ['>']))) ++ [] := by
    decide
  rw [htext]
  exact .piece htag .start

/-- A commented-out rule in a policy. -/
theorem comment_inert_policy :
    tokenizeXml ("<policy>" ++ ("<!--" ++ "<allow own='*'/>" ++ "-->") ++ "</policy>")
      = tokenizeXml ("<policy>" ++ "</policy>") :=
  (comment_inert.1 "<policy>" "<allow own='*'/>" "</policy>" outside_policy fun h =>
    absurd (h.subset List.mem_cons_self : '-' ∈ "<allow own='*'/>".toList) (by decide)).1

end Xml

end Oxibus
