import Oxibus.Lib.Text

/-!
# Tokens of policy documents

Policies also come as XML documents. The daemon reads them with a tokenizer of
its own, which knows tags, attributes and comments and nothing else: it does
not check that tags are balanced, and it takes the text between quotes as it
stands. Anything outside a tag is skipped.

Every round of the two loops consumes a character, so that the length of the
text bounds their number; more rounds change nothing (`tokenizeFrom_eq`,
`readAttrsFrom_eq`).
-/

namespace Oxibus

namespace Xml

/-- The attributes of a tag, the latest first; a name that comes twice has its
latest value. -/
abbrev Attrs : Type := List (String × String)

/-- The value of an attribute. -/
def Attrs.get (attrs : Attrs) (name : String) : Option String := List.lookup name attrs

/-- **A token.** -/
inductive XmlToken where
  | startTag (name : String) (attrs : Attrs)
  | endTag (name : String)
  | selfClosingTag (name : String) (attrs : Attrs)
  deriving DecidableEq, Repr

/-- Whether a character ends the name of a tag. -/
def endsTagName (c : Char) : Bool := isWhitespace c || c == '>' || c == '/'

/-- Whether a character ends the name of an attribute. -/
def endsAttrName (c : Char) : Bool := c == '=' || isWhitespace c || c == '>' || c == '/'

/-- What comes after white space. -/
def skipWhitespace (cs : List Char) : List Char := cs.dropWhile isWhitespace

/-- The characters before the first `q`, and those after it. -/
def readUntil (q : Char) : List Char → List Char × List Char
  | [] => ([], [])
  | c :: cs => if c = q then ([], cs) else (c :: (readUntil q cs).1, (readUntil q cs).2)

/-- What comes after a comment, whose opening has been read. -/
def skipComment : List Char → List Char
  | [] => []
  | '-' :: '-' :: '>' :: rest => rest
  | _ :: rest => skipComment rest

/-- The quote a value starts with, and what follows it. A value without a quote
ends at a double quote. -/
def openQuote : List Char → Char × List Char
  | '"' :: rest => ('"', rest)
  | '\'' :: rest => ('\'', rest)
  | rest => ('"', rest)

/-- Remember an attribute, unless it has no name. -/
def insertAttr (attrs : Attrs) (name value : List Char) : Attrs :=
  if name.isEmpty then attrs else (String.ofList name, String.ofList value) :: attrs

/-- The value of an attribute whose name has been read; a name without a value
is dropped. -/
def readValue (attrs : Attrs) (name : List Char) : List Char → Attrs × List Char
  | '=' :: rest =>
    let value := readUntil (openQuote (skipWhitespace rest)).1 (openQuote (skipWhitespace rest)).2
    (insertAttr attrs name value.1, value.2)
  | rest => (attrs, rest)

/-- **One round for an attribute**: the attributes with one more, and what
follows; none at the end of the tag. -/
def readAttr (attrs : Attrs) : List Char → Option (Attrs × List Char)
  | [] => none
  | c :: cs =>
    if c == '>' || c == '/' then none
    else some (readValue attrs ((c :: cs).takeWhile fun c => !endsAttrName c)
      (skipWhitespace ((c :: cs).dropWhile fun c => !endsAttrName c)))

/-- The attributes of a tag, up to its end, and what follows them. The fuel is
the number of rounds. -/
def readAttrsFrom : ℕ → Attrs → List Char → Attrs × List Char
  | 0, attrs, cs => (attrs, cs)
  | fuel + 1, attrs, cs =>
    match readAttr attrs (skipWhitespace cs) with
    | some (attrs, rest) => readAttrsFrom fuel attrs rest
    | none => (attrs, skipWhitespace cs)

def readAttrs (cs : List Char) : Attrs × List Char := readAttrsFrom (cs.length + 1) [] cs

/-- Remove a character from the front, if it is there. -/
def dropChar (c : Char) : List Char → Bool × List Char
  | [] => (false, [])
  | d :: cs => if d = c then (true, cs) else (false, d :: cs)

/-- **A tag**, whose opening bracket has been read, and what follows it. -/
def readTag (cs : List Char) : XmlToken × List Char :=
  let (isEnd, cs) := dropChar '/' cs
  let name := String.ofList (cs.takeWhile fun c => !endsTagName c)
  let cs := cs.dropWhile fun c => !endsTagName c
  let (attrs, cs) := if isEnd then ([], cs) else readAttrs cs
  let (isSelfClosing, cs) := dropChar '/' cs
  let cs := (dropChar '>' cs).2
  (if isEnd then .endTag name
    else if isSelfClosing then .selfClosingTag name attrs
    else .startTag name attrs, cs)

/-- What an opening bracket begins: a comment, a declaration or a tag. After
`<!-` and something else, a tag is read as if they were a bracket. -/
def readMarkup : List Char → List XmlToken × List Char
  | '!' :: '-' :: '-' :: cs => ([], skipComment cs)
  | '!' :: '-' :: cs => ([(readTag cs).1], (readTag cs).2)
  | '!' :: cs => ([], (readUntil '>' cs).2)
  | cs => ([(readTag cs).1], (readTag cs).2)

/-- The tokens of a text. The fuel is the number of characters. -/
def tokenizeFrom : ℕ → List Char → List XmlToken
  | 0, _ => []
  | _, [] => []
  | fuel + 1, c :: cs =>
    if c = '<' then (readMarkup cs).1 ++ tokenizeFrom fuel (readMarkup cs).2
    else tokenizeFrom fuel cs

/-- **The tokens of a document.** -/
def tokenizeXml (xml : String) : List XmlToken := tokenizeFrom xml.toList.length xml.toList

/-! ## What is left is shorter -/

theorem length_skipWhitespace (cs : List Char) : (skipWhitespace cs).length ≤ cs.length :=
  (List.dropWhile_sublist _).length_le

theorem length_readUntil (q : Char) (cs : List Char) : (readUntil q cs).2.length ≤ cs.length := by
  induction cs with
  | nil => exact le_rfl
  | cons c cs ih =>
    unfold readUntil
    split
    · exact Nat.le_succ _
    · exact ih.trans (Nat.le_succ _)

theorem length_skipComment (cs : List Char) : (skipComment cs).length ≤ cs.length := by
  induction cs using skipComment.induct with
  | case1 => exact le_rfl
  | case2 rest =>
    rw [skipComment]
    simp only [List.length_cons]
    omega
  | case3 c rest hcomment ih =>
    rw [skipComment]
    · exact ih.trans (Nat.le_succ _)
    · exact hcomment

theorem length_openQuote (cs : List Char) : (openQuote cs).2.length ≤ cs.length := by
  unfold openQuote
  split
  · exact Nat.le_succ _
  · exact Nat.le_succ _
  · exact le_rfl

theorem length_dropChar (c : Char) (cs : List Char) : (dropChar c cs).2.length ≤ cs.length := by
  cases cs with
  | nil => exact le_rfl
  | cons d cs =>
    by_cases hd : d = c
    · rw [dropChar, if_pos hd]
      exact Nat.le_succ _
    · rw [dropChar, if_neg hd]

/-- White space is skipped as a whole. -/
theorem head_skipWhitespace {c : Char} {cs rest : List Char} (h : skipWhitespace cs = c :: rest) :
    isWhitespace c = false := by
  unfold skipWhitespace at h
  have hne : cs.dropWhile isWhitespace ≠ [] := by
    rw [h]
    exact List.cons_ne_nil _ _
  have hhead := List.head_dropWhile_not isWhitespace hne
  simpa only [h, List.head_cons] using hhead

theorem skipWhitespace_of_not {c : Char} {cs : List Char} (h : isWhitespace c = false) :
    skipWhitespace (c :: cs) = c :: cs :=
  List.dropWhile_cons_of_neg (by rw [h]; exact Bool.false_ne_true)

/-- Without an assignment nothing is read. -/
theorem length_readValue (attrs : Attrs) (name cs : List Char) :
    (readValue attrs name cs).2.length < cs.length ∨
      (readValue attrs name cs).2 = cs ∧ cs.head? ≠ some '=' := by
  unfold readValue
  split
  · next rest =>
    have hvalue := length_readUntil (openQuote (skipWhitespace rest)).1
      (openQuote (skipWhitespace rest)).2
    have hquote := length_openQuote (skipWhitespace rest)
    have hspace := length_skipWhitespace rest
    refine .inl ?_
    simp only [List.length_cons]
    omega
  · next hassign =>
    refine .inr ⟨rfl, fun hhead => ?_⟩
    obtain ⟨rest, hrest⟩ := List.head?_eq_some_iff.mp hhead
    exact hassign rest hrest

/-- A round consumes something. -/
theorem length_readAttr {attrs attrs' : Attrs} {cs rest : List Char}
    (h : readAttr attrs (skipWhitespace cs) = some (attrs', rest)) :
    rest.length < (skipWhitespace cs).length := by
  cases hcs : skipWhitespace cs with
  | nil =>
    rw [hcs] at h
    cases h
  | cons c tail =>
    have hws := head_skipWhitespace hcs
    rw [hcs, readAttr] at h
    split at h
    · cases h
    next hend =>
    have hrest : (readValue attrs _ _).2 = rest := congrArg Prod.snd (Option.some.inj h)
    have hdrop := length_skipWhitespace ((c :: tail).dropWhile fun c => !endsAttrName c)
    have hle := (List.dropWhile_sublist (l := c :: tail) fun c => !endsAttrName c).length_le
    rcases length_readValue attrs ((c :: tail).takeWhile fun c => !endsAttrName c)
      (skipWhitespace ((c :: tail).dropWhile fun c => !endsAttrName c)) with hlt | ⟨hsame, hassign⟩
    · rw [hrest] at hlt
      exact hlt.trans_le (hdrop.trans hle)
    · -- without an assignment the name has at least one character
      rw [← hrest, hsame]
      have hname : endsAttrName c = false := by
        rw [Bool.eq_false_iff]
        intro hc
        have hassigned : c = '=' := by
          unfold endsAttrName at hc
          rw [hws] at hc
          simpa [Bool.or_assoc, hend] using hc
        refine hassign ?_
        rw [List.dropWhile_cons_of_neg (by rw [hc]; exact Bool.false_ne_true),
          skipWhitespace_of_not hws, hassigned]
        rfl
      rw [List.dropWhile_cons_of_pos (by rw [hname]; rfl)]
      exact Nat.lt_succ_of_le ((length_skipWhitespace _).trans (List.dropWhile_sublist _).length_le)

theorem length_readAttrsFrom (fuel : ℕ) (attrs : Attrs) (cs : List Char) :
    (readAttrsFrom fuel attrs cs).2.length ≤ cs.length := by
  induction fuel generalizing attrs cs with
  | zero => exact le_rfl
  | succ fuel ih =>
    unfold readAttrsFrom
    split
    · next attrs' rest h =>
      exact (ih attrs' rest).trans
        ((length_readAttr h).le.trans (length_skipWhitespace cs))
    · exact length_skipWhitespace cs

/-- **More rounds change nothing.** -/
theorem readAttrsFrom_eq {fuel fuel' : ℕ} {cs : List Char} (h : cs.length < fuel)
    (h' : cs.length < fuel') (attrs : Attrs) :
    readAttrsFrom fuel attrs cs = readAttrsFrom fuel' attrs cs := by
  induction fuel generalizing fuel' attrs cs with
  | zero => exact absurd h (Nat.not_lt_zero _)
  | succ fuel ih =>
    cases fuel' with
    | zero => exact absurd h' (Nat.not_lt_zero _)
    | succ fuel' =>
      unfold readAttrsFrom
      split
      · next attrs' rest hround =>
        have hlt := length_readAttr hround
        have hle := length_skipWhitespace cs
        exact ih (by omega) (by omega) attrs'
      · rfl

theorem length_readTag (cs : List Char) : (readTag cs).2.length ≤ cs.length := by
  unfold readTag
  have hend := length_dropChar '/' cs
  have hname := (List.dropWhile_sublist (l := (dropChar '/' cs).2)
    fun c => !endsTagName c).length_le
  have hattrs : ∀ (b : Bool) (cs : List Char),
      (if b then (([], cs) : Attrs × List Char) else readAttrs cs).2.length ≤ cs.length := by
    intro b cs
    cases b with
    | true => exact le_rfl
    | false => exact length_readAttrsFrom _ _ _
  have hattrs := hattrs (dropChar '/' cs).1 ((dropChar '/' cs).2.dropWhile fun c => !endsTagName c)
  refine (length_dropChar '>' _).trans ((length_dropChar '/' _).trans ?_)
  exact hattrs.trans (hname.trans hend)

theorem length_readMarkup (cs : List Char) : (readMarkup cs).2.length ≤ cs.length := by
  unfold readMarkup
  split
  · have := length_skipComment (by assumption)
    simp only [List.length_cons]
    omega
  · next cs _ =>
    have := length_readTag cs
    simp only [List.length_cons]
    omega
  · next cs _ _ =>
    have := length_readUntil '>' cs
    simp only [List.length_cons]
    omega
  · exact length_readTag _

/-- **More characters' worth of rounds change nothing.** -/
theorem tokenizeFrom_eq {fuel : ℕ} {cs : List Char} (h : cs.length ≤ fuel) :
    tokenizeFrom fuel cs = tokenizeFrom cs.length cs := by
  suffices hboth : ∀ {fuel fuel' : ℕ} {cs : List Char}, cs.length ≤ fuel → cs.length ≤ fuel' →
      tokenizeFrom fuel cs = tokenizeFrom fuel' cs from hboth h le_rfl
  clear h
  intro fuel
  induction fuel with
  | zero =>
    intro fuel' cs h h'
    rw [List.length_eq_zero_iff.mp (Nat.le_zero.mp h)]
    cases fuel' <;> rfl
  | succ fuel ih =>
    intro fuel' cs h h'
    cases cs with
    | nil => cases fuel' <;> rfl
    | cons c cs =>
      cases fuel' with
      | zero => exact absurd h' (Nat.not_succ_le_zero _)
      | succ fuel' =>
        rw [List.length_cons, Nat.add_le_add_iff_right] at h h'
        unfold tokenizeFrom
        have hmarkup := length_readMarkup cs
        rw [ih (hmarkup.trans h) (hmarkup.trans h'), ih h h']

end Xml

end Oxibus
