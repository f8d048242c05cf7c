import Oxibus.Core.Types

/-!
# The signature parser

A signature is a string of type codes with no separators, read by recursive
descent. The parser's state is what is left of the string and two counters,
the arrays and the structs currently open, which the limits of
`Oxibus.Core.Types` bound.

Two functions make the descent: `parseOne` reads one complete type and
`parseFields` the fields of a struct up to its closing parenthesis. Every
step down consumes a byte, so a budget of steps linear in the length is
never used up; a run that uses it up is a run that does not return.
-/

namespace Oxibus

/-- A byte as the character with its code: `as char`. -/
def byteChar (b : UInt8) : Char := Char.ofNat b.toNat

/-- The type a code stands for on its own, without anything after it. -/
def DType.ofCode : Char → Option DType
  | 'y' => some .byte
  | 'b' => some .boolean
  | 'n' => some .int16
  | 'q' => some .uint16
  | 'i' => some .int32
  | 'u' => some .uint32
  | 'x' => some .int64
  | 't' => some .uint64
  | 'd' => some .double
  | 's' => some .string
  | 'o' => some .objectPath
  | 'g' => some .signature
  | 'h' => some .unixFd
  | 'v' => some .variant
  | _ => none

/-- **The state of the parser**: the bytes not yet read, and how many arrays
and structs enclose the current position. -/
structure Parser where
  /-- The bytes from the current position on. -/
  rest : List UInt8
  /-- The arrays open here. -/
  arrayDepth : ℕ
  /-- The structs and dict entries open here. -/
  structDepth : ℕ

namespace Parser

/-- The next byte, left in place. -/
def peek (p : Parser) : Option UInt8 := p.rest.head?

/-- The next byte, consumed. -/
def advance (p : Parser) : Option (UInt8 × Parser) :=
  match p.rest with
  | [] => none
  | b :: bs => some (b, { p with rest := bs })

/-- The error of every depth check. -/
def tooDeep : CoreError := .nestingTooDeep maxArrayDepth maxStructDepth

/-- An error of the grammar, which reports no text. -/
def syntaxError (reason : String) : CoreError := .invalidSignature "" reason

mutual

/-- **One complete type**: `parse_one`. The first argument bounds the steps
of the descent. -/
def parseOne : ℕ → Bool → Parser → CoreResult (DType × Parser)
  | 0, _, _ => .diverge
  | n + 1, allowDictEntry, p =>
    match p.advance with
    | none => .err (syntaxError "unexpected end of signature")
    | some (b, p) =>
      match DType.ofCode (byteChar b) with
      | some t => .ok (t, p)
      | none =>
      if byteChar b = 'a' then
        if p.arrayDepth + 1 > maxArrayDepth then .err tooDeep
        else do
          let (elem, p) ← parseOne n true { p with arrayDepth := p.arrayDepth + 1 }
          .ok (.array elem, { p with arrayDepth := p.arrayDepth - 1 })
      else if byteChar b = '(' then
        if p.structDepth + 1 > maxStructDepth then .err tooDeep
        else do
          let (fields, p) ← parseFields n { p with structDepth := p.structDepth + 1 }
          let p := { p with structDepth := p.structDepth - 1 }
          if fields.isEmpty then .err (syntaxError "struct must have at least one field")
          else .ok (.struct fields, p)
      else if byteChar b = '\x7b' then
        if !allowDictEntry then
          .err (syntaxError "dict-entry '\x7b' only allowed as an array element type")
        else if p.structDepth + 1 > maxStructDepth then .err tooDeep
        else do
          let (key, p) ← parseOne n false { p with structDepth := p.structDepth + 1 }
          if !key.isBasic then .err (syntaxError "dict-entry key must be a basic type")
          else do
            let (val, p) ← parseOne n false p
            match p.advance with
            | some (b, p) =>
              if byteChar b = '\x7d' then
                .ok (.dictEntry key val, { p with structDepth := p.structDepth - 1 })
              else .err (syntaxError "unterminated dict-entry: missing '\x7d'")
            | none => .err (syntaxError "unterminated dict-entry: missing '\x7d'")
      else if byteChar b = ')' ∨ byteChar b = '\x7d' then
        .err (syntaxError "unexpected closing bracket")
      else .err (.invalidSignature (String.singleton (byteChar b)) "unknown type code")

/-- The fields of a struct, up to and with its closing parenthesis. -/
def parseFields : ℕ → Parser → CoreResult (List DType × Parser)
  | 0, _ => .diverge
  | n + 1, p =>
    match p.peek with
    | none => .err (syntaxError "unterminated struct: missing ')'")
    | some b =>
      if byteChar b = ')' then .ok ([], { p with rest := p.rest.tail })
      else do
        let (field, p) ← parseOne n false p
        let (fields, p) ← parseFields n p
        .ok (field :: fields, p)

end

/-- The complete types a signature lists: the loop of `parse_signature`. -/
def parseAll : ℕ → Parser → CoreResult (List DType)
  | 0, _ => .diverge
  | n + 1, p =>
    match p.peek with
    | none => .ok []
    | some _ => do
      let (t, p) ← parseOne n false p
      let ts ← parseAll n p
      .ok (t :: ts)

end Parser

/-- Whether every byte is ASCII. -/
def isAscii (bs : List UInt8) : Bool := bs.all (· < 128)

/-- **The list of types a signature stands for.** -/
def parseSignature (s : String) : CoreResult (List DType) :=
  let bytes := asBytes s
  if bytes.length > maxSignatureLen then .err (.signatureTooLong bytes.length)
  else if !isAscii bytes then .err (.invalidSignature s "signature must be ASCII")
  else Parser.parseAll (2 * bytes.length + 2) ⟨bytes, 0, 0⟩

/-- The type of a signature that lists exactly one. -/
def parseSingleCompleteType (s : String) : CoreResult DType := do
  let types ← parseSignature s
  match types with
  | [t] => .ok t
  | _ => .err (.invalidSignature s "expected exactly one complete type")

/-- The checking constructor of a signature value. -/
def Signature.new (s : String) : CoreResult Signature :=
  if (asBytes s).length > maxSignatureLen then .err (.signatureTooLong (asBytes s).length)
  else do
    let _ ← parseSignature s
    .ok ⟨s⟩

/-! ## Signatures are uniquely readable

No signature of a type is a proper prefix of another's, so a string that
starts with the signature of some type determines it. This is about the
printer alone and holds of every type, the ones no parser produces
included. -/

namespace DType

/-- The bytes of a type's signature. -/
def sigBytes (t : DType) : List UInt8 := t.signatureChars.map asciiByte

/-- The bytes of a list of types' signatures. -/
def sigBytesList (ts : List DType) : List UInt8 := (signatureCharsList ts).map asciiByte

@[simp] theorem sigBytesList_nil : sigBytesList [] = [] := rfl

@[simp] theorem sigBytesList_cons (t : DType) (ts : List DType) :
    sigBytesList (t :: ts) = t.sigBytes ++ sigBytesList ts := by
  simp [sigBytesList, sigBytes, signatureCharsList]

/-- A basic type's signature is its code alone. -/
theorem signatureChars_of_isBasic {t : DType} (h : t.isBasic = true) :
    t.signatureChars = [t.code] := by
  cases t with
  | array _ => simp [isBasic] at h
  | struct _ => simp [isBasic] at h
  | dictEntry _ _ => simp [isBasic] at h
  | variant => simp [isBasic] at h
  | _ => rw [signatureChars]

/-- Every signature starts with the type's own code. -/
theorem signatureChars_eq_cons (t : DType) : ∃ cs, t.signatureChars = t.code :: cs := by
  cases t with
  | array elem => exact ⟨_, by rw [signatureChars]; rfl⟩
  | struct fields => exact ⟨_, by rw [signatureChars]; rfl⟩
  | dictEntry k v => exact ⟨_, by rw [signatureChars]; rfl⟩
  | _ => exact ⟨[], by rw [signatureChars]⟩

/-- No type starts with a closing bracket. -/
theorem code_ne_close (t : DType) : t.code ≠ ')' := by
  cases t <;> simp [code]

/-- A basic type is known by its code. -/
theorem eq_of_code_eq {t t' : DType} (h : t.isBasic = true ∨ t = .variant)
    (hc : t.code = t'.code) : t = t' := by
  cases t <;> cases t' <;> simp_all [code, isBasic]

/-- The signatures of two lists of fields that start a string up to a closing
parenthesis are the same list, when each field is uniquely readable. -/
theorem signatureCharsList_append_inj {ts ts' : List DType} {r r' : List Char}
    (ih : ∀ t ∈ ts, ∀ t' : DType, ∀ r r' : List Char,
      t.signatureChars ++ r = t'.signatureChars ++ r' → t = t' ∧ r = r')
    (h : signatureCharsList ts ++ ')' :: r = signatureCharsList ts' ++ ')' :: r') :
    ts = ts' ∧ r = r' := by
  induction ts generalizing ts' with
  | nil =>
    cases ts' with
    | nil => simpa [signatureCharsList] using h
    | cons t' ts' =>
      obtain ⟨cs, hcs⟩ := t'.signatureChars_eq_cons
      rw [signatureCharsList, signatureCharsList, hcs] at h
      exact absurd (List.cons.inj h).1.symm t'.code_ne_close
  | cons t ts iht =>
    cases ts' with
    | nil =>
      obtain ⟨cs, hcs⟩ := t.signatureChars_eq_cons
      rw [signatureCharsList, signatureCharsList, hcs] at h
      exact absurd (List.cons.inj h).1 t.code_ne_close
    | cons t' ts' =>
      rw [signatureCharsList, signatureCharsList, List.append_assoc, List.append_assoc] at h
      obtain ⟨rfl, hrest⟩ := ih t List.mem_cons_self t' _ _ h
      obtain ⟨rfl, hr⟩ := iht (fun u hu => ih u (List.mem_cons_of_mem _ hu)) hrest
      exact ⟨rfl, hr⟩

/-- **Signatures are uniquely readable.** -/
theorem signatureChars_append_inj (t : DType) : ∀ (t' : DType) (r r' : List Char),
    t.signatureChars ++ r = t'.signatureChars ++ r' → t = t' ∧ r = r' := by
  -- Two signatures that start a common string start with the same code, and
  -- the code is the head constructor.
  have hcode : ∀ {t t' : DType} {r r' : List Char},
      t.signatureChars ++ r = t'.signatureChars ++ r' → t.code = t'.code := by
    intro t t' r r' h
    obtain ⟨cs, hcs⟩ := t.signatureChars_eq_cons
    obtain ⟨cs', hcs'⟩ := t'.signatureChars_eq_cons
    rw [hcs, hcs'] at h
    exact (List.cons.inj h).1
  induction t using DType.inductionOn with
  | basic t ht =>
    intro t' r r' h
    obtain rfl := eq_of_code_eq (Or.inl ht) (hcode h)
    exact ⟨rfl, List.append_cancel_left h⟩
  | variant =>
    intro t' r r' h
    obtain rfl := eq_of_code_eq (Or.inr rfl) (hcode h)
    exact ⟨rfl, List.append_cancel_left h⟩
  | array elem ih =>
    intro t' r r' h
    cases t' with
    | array elem' =>
      rw [signatureChars, signatureChars] at h
      obtain ⟨rfl, hr⟩ := ih elem' r r' (List.cons.inj h).2
      exact ⟨rfl, hr⟩
    | _ => exact absurd (hcode h) (by simp [code])
  | struct fields ih =>
    intro t' r r' h
    cases t' with
    | struct fields' =>
      simp only [signatureChars, List.cons_append, List.append_assoc, List.nil_append,
        List.cons.injEq, true_and] at h
      obtain ⟨rfl, hr⟩ := signatureCharsList_append_inj ih h
      exact ⟨rfl, hr⟩
    | _ => exact absurd (hcode h) (by simp [code])
  | dictEntry k v ihk ihv =>
    intro t' r r' h
    cases t' with
    | dictEntry k' v' =>
      simp only [signatureChars, List.cons_append, List.append_assoc,
        List.cons.injEq, true_and] at h
      obtain ⟨rfl, hv⟩ := ihk k' _ _ h
      obtain ⟨rfl, hr⟩ := ihv v' _ _ hv
      exact ⟨rfl, (List.cons.inj hr).2⟩
    | _ => exact absurd (hcode h) (by simp [code])

/-- A list of types is determined by its signatures. -/
theorem signatureCharsList_inj {ts ts' : List DType}
    (h : signatureCharsList ts = signatureCharsList ts') : ts = ts' := by
  have hclose : signatureCharsList ts ++ ')' :: [] = signatureCharsList ts' ++ ')' :: [] := by
    rw [h]
  exact (signatureCharsList_append_inj (fun t _ => t.signatureChars_append_inj) hclose).1

/-- A type nests fewer containers than its signature has characters. -/
theorem height_lt_length (t : DType) : t.height < t.signatureChars.length := by
  induction t using DType.inductionOn with
  | basic t ht =>
    rw [signatureChars_of_isBasic ht]
    cases t <;> simp_all [height, isBasic]
  | variant => simp [height, signatureChars]
  | array elem ih =>
    rw [height, signatureChars, List.length_cons]
    omega
  | struct fields ih =>
    have hlist : height.heightList fields ≤ (signatureCharsList fields).length := by
      induction fields with
      | nil => simp [height.heightList]
      | cons t ts iht =>
        have ht := ih t List.mem_cons_self
        have hts := iht (fun f hf => ih f (List.mem_cons_of_mem _ hf))
        rw [height.heightList, signatureCharsList, List.length_append]
        omega
    rw [height, signatureChars, List.length_cons, List.length_append]
    simp only [List.length_cons, List.length_nil]
    omega
  | dictEntry k v ihk ihv =>
    rw [height, signatureChars]
    simp only [List.length_cons, List.length_append, List.length_nil]
    omega

end DType

/-! ## What the parser accepts -/

mutual

/-- **The shape every parsed type has**: structs have fields, and a dict
entry stands directly under an array and has a basic key. -/
def DType.WellFormed : Bool → DType → Prop
  | _, .array elem => elem.WellFormed true
  | _, .struct fields => fields ≠ [] ∧ DType.FieldsWellFormed fields
  | allowDictEntry, .dictEntry k v =>
    allowDictEntry = true ∧ k.isBasic = true ∧ v.WellFormed false
  | _, _ => True

/-- Every field of a struct has the shape of a parsed type. -/
def DType.FieldsWellFormed : List DType → Prop
  | [] => True
  | t :: ts => t.WellFormed false ∧ DType.FieldsWellFormed ts

end

theorem DType.fieldsWellFormed_iff {ts : List DType} :
    DType.FieldsWellFormed ts ↔ ∀ t ∈ ts, t.WellFormed false := by
  induction ts with
  | nil => simp [DType.FieldsWellFormed]
  | cons t ts ih => simp [DType.FieldsWellFormed, ih]

/-- A byte is the byte of its character. -/
@[simp] theorem asciiByte_byteChar (b : UInt8) : asciiByte (byteChar b) = b := asciiByte_ofNat b

/-- A code that stands on its own is the whole signature of its type. -/
theorem DType.signatureChars_of_ofCode {c : Char} {t : DType} (h : DType.ofCode c = some t) :
    t.signatureChars = [c] ∧ (∀ allow, t.WellFormed allow) := by
  unfold DType.ofCode at h
  split at h
  all_goals cases h
  all_goals exact ⟨by rw [DType.signatureChars]; rfl, fun _ => by simp [DType.WellFormed]⟩

namespace Parser

theorem advance_eq_some {p q : Parser} {b : UInt8} (h : p.advance = some (b, q)) :
    p.rest = b :: q.rest ∧ q.arrayDepth = p.arrayDepth ∧ q.structDepth = p.structDepth := by
  unfold advance at h
  split at h
  · cases h
  · next hrest =>
    cases h
    exact ⟨hrest, rfl, rfl⟩

/-- **What a successful parse says of its input**: the string starts with
the signature of the type, the type has the shape of a parsed one, and the
depth counters are back where they were. -/
structure Reads (allowDictEntry : Bool) (p : Parser) (t : DType) (q : Parser) : Prop where
  rest_eq : p.rest = t.sigBytes ++ q.rest
  wellFormed : t.WellFormed allowDictEntry
  arrayDepth_eq : q.arrayDepth = p.arrayDepth
  structDepth_eq : q.structDepth = p.structDepth

/-- The same for the fields of a struct, which end at its parenthesis. -/
structure ReadsFields (p : Parser) (ts : List DType) (q : Parser) : Prop where
  rest_eq : p.rest = DType.sigBytesList ts ++ asciiByte ')' :: q.rest
  wellFormed : ∀ t ∈ ts, t.WellFormed false
  arrayDepth_eq : q.arrayDepth = p.arrayDepth
  structDepth_eq : q.structDepth = p.structDepth

/-- **How a type is parsed**, one level of the descent: by its first byte, within the
limits of the depths. -/
inductive ParsesOne (n : ℕ) (allowDictEntry : Bool) (p : Parser) : DType → Parser → Prop where
  /-- A code that stands on its own. -/
  | code {b : UInt8} {p₁ : Parser} {t : DType} (hadv : p.advance = some (b, p₁))
    (hcode : DType.ofCode (byteChar b) = some t) : ParsesOne n allowDictEntry p t p₁
  /-- An array. -/
  | array {b : UInt8} {p₁ p₂ : Parser} {elem : DType} (hadv : p.advance = some (b, p₁))
    (hb : byteChar b = 'a') (hdepth : p₁.arrayDepth + 1 ≤ maxArrayDepth)
    (helem : parseOne n true { p₁ with arrayDepth := p₁.arrayDepth + 1 } = .ok (elem, p₂)) :
    ParsesOne n allowDictEntry p (.array elem) { p₂ with arrayDepth := p₂.arrayDepth - 1 }
  /-- A struct with its fields. -/
  | struct {b : UInt8} {p₁ p₂ : Parser} {fields : List DType} (hadv : p.advance = some (b, p₁))
    (hb : byteChar b = '(') (hdepth : p₁.structDepth + 1 ≤ maxStructDepth)
    (hfields : parseFields n { p₁ with structDepth := p₁.structDepth + 1 } = .ok (fields, p₂))
    (hne : fields ≠ []) :
    ParsesOne n allowDictEntry p (.struct fields) { p₂ with structDepth := p₂.structDepth - 1 }
  /-- A dict entry, where one may stand. -/
  | dictEntry {b b' : UInt8} {p₁ p₂ p₃ p₄ : Parser} {key val : DType}
    (hadv : p.advance = some (b, p₁)) (hb : byteChar b = '\x7b') (hallow : allowDictEntry = true)
    (hdepth : p₁.structDepth + 1 ≤ maxStructDepth)
    (hkey : parseOne n false { p₁ with structDepth := p₁.structDepth + 1 } = .ok (key, p₂))
    (hbasic : key.isBasic = true) (hval : parseOne n false p₂ = .ok (val, p₃))
    (hadv' : p₃.advance = some (b', p₄)) (hb' : byteChar b' = '\x7d') :
    ParsesOne n allowDictEntry p (.dictEntry key val)
      { p₄ with structDepth := p₄.structDepth - 1 }

/-- There is no other way. -/
theorem parseOne_cases {n : ℕ} {allow : Bool} {p q : Parser} {t : DType}
    (h : parseOne (n + 1) allow p = .ok (t, q)) : ParsesOne n allow p t q := by
  rw [parseOne] at h
  split at h
  · cases h
  · next b p₁ hadv =>
    split at h
    · next t' hcode =>
      cases h
      exact .code hadv hcode
    · split at h
      · next hb =>
        split at h
        · cases h
        · next hdepth =>
          obtain ⟨⟨elem, p₂⟩, helem, h⟩ := Outcome.bind_eq_ok.mp h
          cases h
          exact .array hadv hb (Nat.not_lt.mp hdepth) helem
      · split at h
        · next hb =>
          split at h
          · cases h
          · next hdepth =>
            obtain ⟨⟨fields, p₂⟩, hfields, h⟩ := Outcome.bind_eq_ok.mp h
            simp only at h
            split at h
            · cases h
            · next hne =>
              cases h
              exact .struct hadv hb (Nat.not_lt.mp hdepth) hfields (by simpa using hne)
        · split at h
          · next hb =>
            split at h
            · cases h
            · next hallow =>
              split at h
              · cases h
              · next hdepth =>
                obtain ⟨⟨key, p₂⟩, hkey, h⟩ := Outcome.bind_eq_ok.mp h
                simp only at h
                split at h
                · cases h
                · next hbasic =>
                  obtain ⟨⟨val, p₃⟩, hval, h⟩ := Outcome.bind_eq_ok.mp h
                  simp only at h
                  split at h
                  · next b' p₄ hadv' =>
                    split at h
                    · next hb' =>
                      cases h
                      exact .dictEntry hadv hb (by simpa using hallow) (Nat.not_lt.mp hdepth) hkey
                        (by simpa using hbasic) hval hadv' hb'
                    · cases h
                  · cases h
          · split at h
            · cases h
            · cases h

/-- How the fields of a struct are parsed: its parenthesis comes, or a field and
more. -/
theorem parseFields_cases {n : ℕ} {p q : Parser} {ts : List DType}
    (h : parseFields (n + 1) p = .ok (ts, q)) :
    (ts = [] ∧ ∃ b, p.peek = some b ∧ byteChar b = ')' ∧ q = { p with rest := p.rest.tail }) ∨
      ∃ t ts' p₁, ts = t :: ts' ∧ parseOne n false p = .ok (t, p₁) ∧
        parseFields n p₁ = .ok (ts', q) := by
  rw [parseFields] at h
  split at h
  · cases h
  · next b hpeek =>
    split at h
    · next hb =>
      cases h
      exact .inl ⟨rfl, b, hpeek, hb, rfl⟩
    · obtain ⟨⟨t, p₁⟩, ht, h⟩ := Outcome.bind_eq_ok.mp h
      obtain ⟨⟨ts', p₂⟩, hts, h⟩ := Outcome.bind_eq_ok.mp h
      cases h
      exact .inr ⟨t, ts', p₁, rfl, ht, hts⟩

/-- One level of the descent: if both functions read correctly one level
down, `parseOne` does. -/
theorem parseOne_step {n : ℕ}
    (ihOne : ∀ {allow p t q}, parseOne n allow p = .ok (t, q) → Reads allow p t q)
    (ihFields : ∀ {p ts q}, parseFields n p = .ok (ts, q) → ReadsFields p ts q)
    {allow : Bool} {p q : Parser} {t : DType}
    (h : parseOne (n + 1) allow p = .ok (t, q)) : Reads allow p t q := by
  cases parseOne_cases h with
  | code hadv hcode =>
    obtain ⟨hrest, ha, hs⟩ := advance_eq_some hadv
    obtain ⟨hchars, hwf⟩ := DType.signatureChars_of_ofCode hcode
    exact ⟨by simp [hrest, DType.sigBytes, hchars], hwf allow, ha, hs⟩
  | @array b _ _ _ hadv hb hdepth helem =>
    obtain ⟨hrest, ha, hs⟩ := advance_eq_some hadv
    have r := ihOne helem
    refine ⟨?_, ?_, ?_, ?_⟩
    · rw [hrest, ← asciiByte_byteChar b, hb, r.rest_eq, DType.sigBytes, DType.sigBytes,
        DType.signatureChars]
      rfl
    · rw [DType.WellFormed]
      exact r.wellFormed
    · have := r.arrayDepth_eq
      simp only at this ⊢
      omega
    · exact r.structDepth_eq.trans hs
  | @struct b _ _ _ hadv hb hdepth hfields hne =>
    obtain ⟨hrest, ha, hs⟩ := advance_eq_some hadv
    have r := ihFields hfields
    refine ⟨?_, ?_, ?_, ?_⟩
    · rw [hrest, ← asciiByte_byteChar b, hb, r.rest_eq, DType.sigBytes, DType.signatureChars]
      simp [DType.sigBytesList]
    · rw [DType.WellFormed, DType.fieldsWellFormed_iff]
      exact ⟨hne, r.wellFormed⟩
    · exact r.arrayDepth_eq.trans ha
    · have := r.structDepth_eq
      simp only at this ⊢
      omega
  | @dictEntry b b' _ _ _ _ key val hadv hb hallow hdepth hkey hbasic hval hadv' hb' =>
    obtain ⟨hrest, ha, hs⟩ := advance_eq_some hadv
    obtain ⟨hrest', ha', hs'⟩ := advance_eq_some hadv'
    have rk := ihOne hkey
    have rv := ihOne hval
    refine ⟨?_, ?_, ?_, ?_⟩
    · have hsig : (DType.dictEntry key val).sigBytes
          = asciiByte '\x7b' :: (key.sigBytes ++ val.sigBytes ++ [asciiByte '\x7d']) := by
        simp [DType.sigBytes, DType.signatureChars]
      rw [hrest, ← asciiByte_byteChar b, hb, rk.rest_eq, rv.rest_eq, hrest',
        ← asciiByte_byteChar b', hb', hsig]
      simp
    · rw [DType.WellFormed]
      exact ⟨hallow, hbasic, rv.wellFormed⟩
    · exact ha'.trans (rv.arrayDepth_eq.trans (rk.arrayDepth_eq.trans ha))
    · have h₁ := rk.structDepth_eq
      have h₂ := rv.structDepth_eq
      simp only at h₁ h₂ ⊢
      omega

/-- One level of the loop over a struct's fields. -/
theorem parseFields_step {n : ℕ}
    (ihOne : ∀ {allow p t q}, parseOne n allow p = .ok (t, q) → Reads allow p t q)
    (ihFields : ∀ {p ts q}, parseFields n p = .ok (ts, q) → ReadsFields p ts q)
    {p q : Parser} {ts : List DType}
    (h : parseFields (n + 1) p = .ok (ts, q)) : ReadsFields p ts q := by
  rcases parseFields_cases h with ⟨rfl, b, hpeek, hb, rfl⟩ | ⟨t, ts', p₁, rfl, ht, hts⟩
  · refine ⟨?_, by simp, rfl, rfl⟩
    obtain ⟨bs, hbs⟩ : ∃ bs, p.rest = b :: bs := List.head?_eq_some_iff.mp hpeek
    rw [hbs, ← hb, asciiByte_byteChar]
    rfl
  · have r := ihOne ht
    have rs := ihFields hts
    refine ⟨?_, ?_, rs.arrayDepth_eq.trans r.arrayDepth_eq,
      rs.structDepth_eq.trans r.structDepth_eq⟩
    · rw [r.rest_eq, rs.rest_eq]
      simp
    · intro u hu
      rcases List.mem_cons.mp hu with rfl | hu
      · exact r.wellFormed
      · exact rs.wellFormed u hu

/-- **The parser reads the signature of the type it returns.** -/
theorem parse_reads (n : ℕ) :
    (∀ {allow p t q}, parseOne n allow p = .ok (t, q) → Reads allow p t q) ∧
      (∀ {p ts q}, parseFields n p = .ok (ts, q) → ReadsFields p ts q) := by
  induction n with
  | zero =>
    constructor
    · intro allow p t q h
      rw [parseOne] at h
      cases h
    · intro p ts q h
      rw [parseFields] at h
      cases h
  | succ n ih => exact ⟨parseOne_step ih.1 ih.2, parseFields_step ih.1 ih.2⟩

/-- The loop over complete types reads the whole string. -/
theorem parseAll_reads {n : ℕ} {p : Parser} {ts : List DType} (h : parseAll n p = .ok ts) :
    p.rest = DType.sigBytesList ts ∧ ∀ t ∈ ts, t.WellFormed false := by
  induction n generalizing p ts with
  | zero =>
    rw [parseAll] at h
    cases h
  | succ n ih =>
    rw [parseAll] at h
    split at h
    · next hpeek =>
      cases h
      exact ⟨List.head?_eq_none_iff.mp hpeek, by simp⟩
    · obtain ⟨⟨t, p₁⟩, ht, h⟩ := Outcome.bind_eq_ok.mp h
      obtain ⟨ts', hts, h⟩ := Outcome.bind_eq_ok.mp h
      cases h
      have r := (parse_reads n).1 ht
      obtain ⟨hrest, hwf⟩ := ih hts
      refine ⟨by rw [r.rest_eq, hrest, DType.sigBytesList_cons], ?_⟩
      intro u hu
      rcases List.mem_cons.mp hu with rfl | hu
      · exact r.wellFormed
      · exact hwf u hu

end Parser

/-- **A parsed signature is the signatures of its types**, and the types
have the shape of parsed ones. -/
theorem parseSignature_reads {s : String} {ts : List DType} (h : parseSignature s = .ok ts) :
    asBytes s = DType.sigBytesList ts ∧ (asBytes s).length ≤ maxSignatureLen ∧
      ∀ t ∈ ts, t.WellFormed false := by
  unfold parseSignature at h
  simp only at h
  split at h
  · cases h
  · next hlen =>
    split at h
    · cases h
    · obtain ⟨hrest, hwf⟩ := Parser.parseAll_reads h
      exact ⟨hrest, by omega, hwf⟩

theorem parseSingleCompleteType_eq_ok {s : String} {t : DType} :
    parseSingleCompleteType s = .ok t ↔ parseSignature s = .ok [t] := by
  unfold parseSingleCompleteType
  rw [Outcome.bind_eq_ok]
  constructor
  · rintro ⟨types, htypes, h⟩
    split at h
    · cases h
      exact htypes
    · cases h
  · intro h
    exact ⟨[t], h, rfl⟩

/-- `Signature::new` accepts exactly what the parser does. -/
theorem Signature.new_eq_ok {s : String} {sig : Signature} :
    Signature.new s = .ok sig ↔ sig = ⟨s⟩ ∧ (parseSignature s).isOk = true := by
  unfold Signature.new
  constructor
  · intro h
    split at h
    · cases h
    · obtain ⟨ts, hts, h⟩ := Outcome.bind_eq_ok.mp h
      cases h
      simp [hts]
  · rintro ⟨rfl, h⟩
    obtain ⟨ts, hts⟩ := Outcome.isOk_iff.mp h
    have hlen := (parseSignature_reads hts).2.1
    rw [if_neg (by omega), hts]
    rfl

/-! ## Parsing what was printed -/

/-- A printed signature has one byte per character. -/
theorem DType.utf8Size_of_mem_signatureChars (t : DType) :
    ∀ c ∈ t.signatureChars, c.utf8Size = 1 := by
  have hcode : ∀ t : DType, t.code.utf8Size = 1 := by
    intro t
    cases t <;> rfl
  induction t using DType.inductionOn with
  | basic t ht =>
    rw [signatureChars_of_isBasic ht]
    simpa using hcode t
  | variant =>
    rw [signatureChars]
    simpa using hcode .variant
  | array elem ih =>
    rw [signatureChars]
    simp only [List.mem_cons, forall_eq_or_imp]
    exact ⟨rfl, ih⟩
  | struct fields ih =>
    have hfields : ∀ c ∈ signatureCharsList fields, c.utf8Size = 1 := by
      induction fields with
      | nil => simp [signatureCharsList]
      | cons t ts iht =>
        rw [signatureCharsList]
        intro c hc
        rcases List.mem_append.mp hc with hc | hc
        · exact ih t List.mem_cons_self c hc
        · exact iht (fun f hf => ih f (List.mem_cons_of_mem _ hf)) c hc
    rw [signatureChars]
    simp only [List.mem_cons, List.mem_append, List.not_mem_nil, or_false]
    rintro c (rfl | hc | rfl)
    · rfl
    · exact hfields c hc
    · rfl
  | dictEntry k v ihk ihv =>
    rw [signatureChars]
    simp only [List.mem_cons, List.mem_append, List.not_mem_nil, or_false]
    rintro c (rfl | (hc | hc) | rfl)
    · rfl
    · exact ihk c hc
    · exact ihv c hc
    · rfl

/-- The bytes of a printed signature. -/
@[simp] theorem DType.asBytes_toSignatureString (t : DType) :
    asBytes t.toSignatureString = t.sigBytes :=
  asBytes_ofList t.utf8Size_of_mem_signatureChars

/-- The signature of a list of types, one after the other. -/
def signatureOf (ts : List DType) : String :=
  (ts.map DType.toSignatureString).foldr (· ++ ·) ""

theorem asBytes_signatureOf (ts : List DType) :
    asBytes (signatureOf ts) = DType.sigBytesList ts := by
  induction ts with
  | nil => rfl
  | cons t ts ih =>
    have hcons : signatureOf (t :: ts) = t.toSignatureString ++ signatureOf ts := rfl
    rw [hcons, asBytes_append, ih, DType.asBytes_toSignatureString, DType.sigBytesList_cons]

/-- The bytes of signatures determine the types. -/
theorem DType.sigBytesList_inj {ts ts' : List DType}
    (h : sigBytesList ts = sigBytesList ts') : ts = ts' := by
  apply signatureCharsList_inj
  have hchars : ∀ ts : List DType, ∀ c ∈ signatureCharsList ts, c.utf8Size = 1 := by
    intro ts
    induction ts with
    | nil => simp [signatureCharsList]
    | cons t ts ih =>
      rw [signatureCharsList]
      intro c hc
      rcases List.mem_append.mp hc with hc | hc
      · exact t.utf8Size_of_mem_signatureChars c hc
      · exact ih c hc
  have hstr : String.ofList (signatureCharsList ts) = String.ofList (signatureCharsList ts') := by
    rw [← asBytes_inj, asBytes_ofList (hchars ts), asBytes_ofList (hchars ts')]
    exact h
  exact String.ofList_inj.mp hstr

/-- **The signature of parsed types is the string that was parsed.** -/
theorem signatureOf_of_parseSignature {s : String} {ts : List DType}
    (h : parseSignature s = .ok ts) : signatureOf ts = s := by
  rw [← asBytes_inj, asBytes_signatureOf, (parseSignature_reads h).1]

/-- **Parsing what was printed** gives the printed types, where it succeeds. -/
theorem eq_of_parseSignature_signatureOf {ts ts' : List DType}
    (h : parseSignature (signatureOf ts) = .ok ts') : ts' = ts := by
  apply DType.sigBytesList_inj
  rw [← asBytes_signatureOf ts, (parseSignature_reads h).1]

theorem signatureOf_singleton (t : DType) : signatureOf [t] = t.toSignatureString := by
  simp [signatureOf]

end Oxibus
