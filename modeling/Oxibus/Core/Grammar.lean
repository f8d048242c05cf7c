import Oxibus.Core.Signature

/-!
# The grammar of signatures

`parseSignature` is a recursive descent with two counters, a flag and a
bound on the length. The grammar it implements needs none of them: a
signature is the printed form of a list of types, each of which has the
shape `DType.WellFormed` and nests no position in too many arrays or too
many structs (`DType.Admitted`).

That the parser accepts nothing else says that its counters are right at
every position, so that none is left raised by a branch already read
(`parse_within`). That it accepts all of the grammar is the other
induction, over the types: a type is parsed wherever its signature starts,
with as many steps as the signature has characters
(`parseOne_of_sigBytes`).
-/

namespace Oxibus

/-! ## How deep a type nests -/

namespace DType

mutual

/-- The largest number of arrays around a position of the type. -/
def arrayNesting : DType → ℕ
  | array elem => arrayNesting elem + 1
  | struct fields => arrayNestingList fields
  | dictEntry k v => max (arrayNesting k) (arrayNesting v)
  | _ => 0

/-- The largest number of arrays around a position of a list of types. -/
def arrayNestingList : List DType → ℕ
  | [] => 0
  | t :: ts => max (arrayNesting t) (arrayNestingList ts)

end

mutual

/-- The largest number of structs and dict entries around a position of the
type. -/
def structNesting : DType → ℕ
  | array elem => structNesting elem
  | struct fields => structNestingList fields + 1
  | dictEntry k v => max (structNesting k) (structNesting v) + 1
  | _ => 0

/-- The largest number of structs and dict entries around a position of a
list of types. -/
def structNestingList : List DType → ℕ
  | [] => 0
  | t :: ts => max (structNesting t) (structNestingList ts)

end

theorem arrayNestingList_le_iff {ts : List DType} {m : ℕ} :
    arrayNestingList ts ≤ m ↔ ∀ t ∈ ts, t.arrayNesting ≤ m := by
  induction ts with
  | nil => simp [arrayNestingList]
  | cons t ts ih => simp only [arrayNestingList, Nat.max_le, List.forall_mem_cons, ih]

theorem structNestingList_le_iff {ts : List DType} {m : ℕ} :
    structNestingList ts ≤ m ↔ ∀ t ∈ ts, t.structNesting ≤ m := by
  induction ts with
  | nil => simp [structNestingList]
  | cons t ts ih => simp only [structNestingList, Nat.max_le, List.forall_mem_cons, ih]

/-- A type that is its code alone nests nothing. -/
theorem nesting_of_ofCode {c : Char} {t : DType} (h : ofCode c = some t) :
    t.arrayNesting = 0 ∧ t.structNesting = 0 := by
  unfold ofCode at h
  split at h
  all_goals cases h
  all_goals exact ⟨by simp [arrayNesting], by simp [structNesting]⟩

/-- **A type of the grammar**: it has the shape of one, and no position of
it is nested in more arrays or more structs than a signature may open. -/
structure Admitted (t : DType) : Prop where
  wellFormed : t.WellFormed false
  arrayNesting_le : t.arrayNesting ≤ maxArrayDepth
  structNesting_le : t.structNesting ≤ maxStructDepth

end DType

/-! ## Nothing else is accepted -/

namespace Parser

/-- The counters are within their limits. -/
def InLimits (p : Parser) : Prop :=
  p.arrayDepth ≤ maxArrayDepth ∧ p.structDepth ≤ maxStructDepth

/-- **There is room for a type where the parser stands**: with the arrays
and structs open here, no position of it is nested too deep. -/
structure HasRoom (p : Parser) (t : DType) : Prop where
  arrays : p.arrayDepth + t.arrayNesting ≤ maxArrayDepth
  structs : p.structDepth + t.structNesting ≤ maxStructDepth

theorem Reads.inLimits {allow : Bool} {p q : Parser} {t : DType} (h : Reads allow p t q)
    (hp : p.InLimits) : q.InLimits := by
  rw [InLimits, h.arrayDepth_eq, h.structDepth_eq]
  exact hp

/-- What follows a type is parsed with the counters the type was parsed
with. -/
theorem Reads.hasRoom_iff {allow : Bool} {p q : Parser} {t u : DType} (h : Reads allow p t q) :
    q.HasRoom u ↔ p.HasRoom u := by
  constructor
  · rintro ⟨ha, hs⟩
    rw [h.arrayDepth_eq] at ha
    rw [h.structDepth_eq] at hs
    exact ⟨ha, hs⟩
  · rintro ⟨ha, hs⟩
    rw [← h.arrayDepth_eq] at ha
    rw [← h.structDepth_eq] at hs
    exact ⟨ha, hs⟩

/-- One level of the descent: what it parses has room, if what the level
below parses has. -/
theorem hasRoom_step {n : ℕ}
    (ihOne : ∀ {allow p t q}, parseOne n allow p = .ok (t, q) → p.InLimits → p.HasRoom t)
    (ihFields : ∀ {p ts q}, parseFields n p = .ok (ts, q) → p.InLimits → ∀ t ∈ ts, p.HasRoom t)
    {allow : Bool} {p q : Parser} {t : DType}
    (h : parseOne (n + 1) allow p = .ok (t, q)) (hp : p.InLimits) : p.HasRoom t := by
  obtain ⟨hpa, hps⟩ := hp
  cases parseOne_cases h with
  | code hadv hcode =>
    obtain ⟨ha, hs⟩ := DType.nesting_of_ofCode hcode
    exact ⟨by rw [ha]; exact hpa, by rw [hs]; exact hps⟩
  | @array _ p₁ _ elem hadv hb hdepth helem =>
    obtain ⟨-, ha, hs⟩ := advance_eq_some hadv
    obtain ⟨harr, hstr⟩ := ihOne helem ⟨hdepth, hs ▸ hps⟩
    simp only at harr hstr
    constructor
    · rw [DType.arrayNesting]
      omega
    · rw [DType.structNesting]
      omega
  | @struct _ p₁ _ fields hadv hb hdepth hfields hne =>
    obtain ⟨-, ha, hs⟩ := advance_eq_some hadv
    have hall := ihFields hfields ⟨ha ▸ hpa, hdepth⟩
    have harr : DType.arrayNestingList fields ≤ maxArrayDepth - p.arrayDepth := by
      refine DType.arrayNestingList_le_iff.mpr fun t ht => ?_
      have := (hall t ht).arrays
      simp only at this
      omega
    have hstr : DType.structNestingList fields ≤ maxStructDepth - (p.structDepth + 1) := by
      refine DType.structNestingList_le_iff.mpr fun t ht => ?_
      have := (hall t ht).structs
      simp only at this
      omega
    constructor
    · rw [DType.arrayNesting]
      omega
    · rw [DType.structNesting]
      omega
  | @dictEntry _ _ p₁ _ _ _ key val hadv hb hallow hdepth hkey hbasic hval hadv' hb' =>
    obtain ⟨-, ha, hs⟩ := advance_eq_some hadv
    have rk := (parse_reads n).1 hkey
    have hin : InLimits { p₁ with structDepth := p₁.structDepth + 1 } := ⟨ha ▸ hpa, hdepth⟩
    obtain ⟨hka, hks⟩ := ihOne hkey hin
    -- the key leaves the counters as they were, so the value has the same room
    obtain ⟨hva, hvs⟩ := rk.hasRoom_iff.mp (ihOne hval (rk.inLimits hin))
    simp only at hka hks hva hvs
    constructor
    · rw [DType.arrayNesting]
      omega
    · rw [DType.structNesting]
      omega

/-- **Whatever is parsed has room where it is parsed.** -/
theorem parse_hasRoom (n : ℕ) :
    (∀ {allow p t q}, parseOne n allow p = .ok (t, q) → p.InLimits → p.HasRoom t) ∧
      (∀ {p ts q}, parseFields n p = .ok (ts, q) → p.InLimits → ∀ t ∈ ts, p.HasRoom t) := by
  induction n with
  | zero =>
    constructor
    · intro allow p t q h
      rw [parseOne] at h
      cases h
    · intro p ts q h
      rw [parseFields] at h
      cases h
  | succ n ih =>
    obtain ⟨ihOne, ihFields⟩ := ih
    refine ⟨hasRoom_step ihOne ihFields, ?_⟩
    intro p ts q h hp
    rcases parseFields_cases h with ⟨rfl, -⟩ | ⟨t, ts', p₁, rfl, ht, hts⟩
    · exact fun _ ht => absurd ht List.not_mem_nil
    · have r := (parse_reads n).1 ht
      refine List.forall_mem_cons.mpr ⟨ihOne ht hp, fun t' ht' => ?_⟩
      exact r.hasRoom_iff.mp (ihFields hts (r.inLimits hp) t' ht')

/-- The same for the loop over complete types, which starts each with the
counters it started with. -/
theorem parseAll_hasRoom {n : ℕ} {p : Parser} {ts : List DType} (h : parseAll n p = .ok ts)
    (hp : p.InLimits) : ∀ t ∈ ts, p.HasRoom t := by
  induction n generalizing p ts with
  | zero =>
    rw [parseAll] at h
    cases h
  | succ n ih =>
    rw [parseAll] at h
    split at h
    · cases h
      exact fun _ ht => absurd ht List.not_mem_nil
    · obtain ⟨⟨t, p₁⟩, ht, h⟩ := Outcome.bind_eq_ok.mp h
      obtain ⟨ts', hts, h⟩ := Outcome.bind_eq_ok.mp h
      cases h
      have r := (parse_reads n).1 ht
      refine List.forall_mem_cons.mpr ⟨(parse_hasRoom n).1 ht hp, fun t' ht' => ?_⟩
      exact r.hasRoom_iff.mp (ih hts (r.inLimits hp) t' ht')

end Parser

/-- The types of a signature are of the grammar. -/
theorem admitted_of_parseSignature {s : String} {ts : List DType}
    (h : parseSignature s = .ok ts) : ∀ t ∈ ts, t.Admitted := by
  have hwf := (parseSignature_reads h).2.2
  unfold parseSignature at h
  simp only at h
  split at h
  · cases h
  · split at h
    · cases h
    · intro t ht
      have hroom := Parser.parseAll_hasRoom h ⟨Nat.zero_le _, Nat.zero_le _⟩ t ht
      exact ⟨hwf t ht, by simpa using hroom.arrays, by simpa using hroom.structs⟩

/-! ## All of it is accepted -/

namespace DType

/-- A code is read back from its byte. -/
@[simp] theorem byteChar_asciiByte_code (t : DType) : byteChar (asciiByte t.code) = t.code := by
  cases t <;> rfl

/-- The code of a type without components stands for it. -/
theorem ofCode_code {t : DType} (h : t.isBasic = true ∨ t = .variant) : ofCode t.code = some t := by
  cases t with
  | array _ => simp [isBasic] at h
  | struct _ => simp [isBasic] at h
  | dictEntry _ _ => simp [isBasic] at h
  | _ => rfl

/-- A type's signature is its code and more. -/
theorem sigBytes_eq_cons (t : DType) : ∃ bs, t.sigBytes = asciiByte t.code :: bs := by
  obtain ⟨cs, hcs⟩ := t.signatureChars_eq_cons
  exact ⟨cs.map asciiByte, by rw [sigBytes, hcs, List.map_cons]⟩

theorem sigBytes_array (elem : DType) :
    (array elem).sigBytes = asciiByte 'a' :: elem.sigBytes := by
  simp [sigBytes, signatureChars]

theorem sigBytes_struct (fields : List DType) :
    (struct fields).sigBytes = asciiByte '(' :: (sigBytesList fields ++ [asciiByte ')']) := by
  simp [sigBytes, sigBytesList, signatureChars]

theorem sigBytes_dictEntry (k v : DType) :
    (dictEntry k v).sigBytes
      = asciiByte '\x7b' :: (k.sigBytes ++ v.sigBytes ++ [asciiByte '\x7d']) := by
  simp [sigBytes, signatureChars]

/-- Printed signatures are ASCII. -/
theorem isAscii_sigBytesList (ts : List DType) : isAscii (sigBytesList ts) = true := by
  have hbyte : ∀ c : Char, c.utf8Size = 1 → asciiByte c < 128 := by
    intro c hc
    have hval : c.val.toNat ≤ 127 := UInt32.le_iff_toNat_le.mp (Char.utf8Size_eq_one_iff.mp hc)
    rw [asciiByte, UInt8.lt_iff_toNat_lt, UInt32.toNat_toUInt8, Nat.mod_eq_of_lt (by omega)]
    exact Nat.lt_succ_of_le hval
  induction ts with
  | nil => rfl
  | cons t ts ih =>
    rw [sigBytesList_cons, isAscii, List.all_append, Bool.and_eq_true]
    refine ⟨List.all_eq_true.mpr fun b hb => ?_, ih⟩
    obtain ⟨c, hc, rfl⟩ := List.mem_map.mp hb
    exact decide_eq_true (hbyte c (t.utf8Size_of_mem_signatureChars c hc))

end DType

namespace Parser

theorem advance_of_rest {p : Parser} {b : UInt8} {bs : List UInt8} (h : p.rest = b :: bs) :
    p.advance = some (b, { p with rest := bs }) := by
  rw [advance, h]

theorem peek_of_rest {p : Parser} {b : UInt8} {bs : List UInt8} (h : p.rest = b :: bs) :
    p.peek = some b := by
  rw [peek, h, List.head?_cons]

/-- **A type is parsed wherever its signature starts**, where it may stand
and there is room for it. One step for each character is enough. -/
def Parses (t : DType) : Prop :=
  ∀ {n : ℕ} {allow : Bool} {p : Parser} {r : List UInt8}, t.sigBytes.length ≤ n →
    t.WellFormed allow → p.HasRoom t → p.rest = t.sigBytes ++ r →
      parseOne n allow p = .ok (t, { p with rest := r })

/-- A type that is its code alone is parsed. -/
theorem parses_of_ofCode {t : DType} (h : DType.ofCode t.code = some t) : Parses t := by
  intro n allow p r hn _ _ hrest
  obtain ⟨hchars, -⟩ := DType.signatureChars_of_ofCode h
  rw [DType.sigBytes, hchars] at hn hrest
  obtain ⟨n, rfl⟩ := Nat.exists_eq_succ_of_ne_zero (Nat.one_le_iff_ne_zero.mp hn)
  rw [parseOne, advance_of_rest hrest]
  simp only [DType.byteChar_asciiByte_code, h]
  rfl

/-- An array is, if its elements are. -/
theorem parses_array {elem : DType} (h : Parses elem) : Parses (.array elem) := by
  intro n allow p r hn hwf hroom hrest
  rw [DType.sigBytes_array] at hn hrest
  rw [DType.WellFormed] at hwf
  obtain ⟨n, rfl⟩ :=
    Nat.exists_eq_succ_of_ne_zero (Nat.ne_of_gt (Nat.lt_of_lt_of_le (Nat.succ_pos _) hn))
  have harr := hroom.arrays
  have hstr := hroom.structs
  rw [DType.arrayNesting] at harr
  rw [DType.structNesting] at hstr
  have hdepth : ¬ p.arrayDepth + 1 > maxArrayDepth := by omega
  have helem : parseOne n true { p with rest := elem.sigBytes ++ r, arrayDepth := p.arrayDepth + 1 }
      = .ok (elem, { p with rest := r, arrayDepth := p.arrayDepth + 1 }) :=
    h (Nat.le_of_succ_le_succ hn) hwf ⟨by simp only; omega, hstr⟩ rfl
  rw [parseOne, advance_of_rest hrest]
  simp only [show byteChar (asciiByte 'a') = 'a' from rfl, show DType.ofCode 'a' = none from rfl,
    if_true, hdepth, if_false, List.append_eq, helem, Outcome.ok_bind, Nat.add_sub_cancel]

/-- The fields of a struct are parsed up to their parenthesis, if each of
them is parsed. -/
theorem parseFields_of_sigBytes {ts : List DType} (h : ∀ t ∈ ts, Parses t) :
    ∀ {n : ℕ} {p : Parser} {r : List UInt8}, (DType.sigBytesList ts).length < n →
      (∀ t ∈ ts, t.WellFormed false) → (∀ t ∈ ts, p.HasRoom t) →
      p.rest = DType.sigBytesList ts ++ asciiByte ')' :: r →
        parseFields n p = .ok (ts, { p with rest := r }) := by
  induction ts with
  | nil =>
    intro n p r hn _ _ hrest
    obtain ⟨n, rfl⟩ := Nat.exists_eq_succ_of_ne_zero (Nat.ne_of_gt (Nat.zero_lt_of_lt hn))
    rw [parseFields, peek_of_rest hrest, hrest]
    rfl
  | cons t ts ih =>
    intro n p r hn hwf hroom hrest
    obtain ⟨n, rfl⟩ := Nat.exists_eq_succ_of_ne_zero (Nat.ne_of_gt (Nat.zero_lt_of_lt hn))
    rw [DType.sigBytesList_cons, List.append_assoc] at hrest
    rw [DType.sigBytesList_cons, List.length_append] at hn
    obtain ⟨bs, hbs⟩ := t.sigBytes_eq_cons
    -- the field's code is not the parenthesis, so the loop goes on
    have hpeek : p.peek = some (asciiByte t.code) := peek_of_rest (by rw [hrest, hbs]; rfl)
    have hpos : 0 < t.sigBytes.length := by rw [hbs]; exact Nat.succ_pos _
    have ht := h t List.mem_cons_self (n := n) (by omega) (hwf t List.mem_cons_self)
      (hroom t List.mem_cons_self) hrest
    have hts := ih (fun u hu => h u (List.mem_cons_of_mem t hu)) (n := n) (r := r)
      (p := { p with rest := DType.sigBytesList ts ++ asciiByte ')' :: r }) (by omega)
      (fun u hu => hwf u (List.mem_cons_of_mem t hu))
      (fun u hu => ⟨(hroom u (List.mem_cons_of_mem t hu)).arrays,
        (hroom u (List.mem_cons_of_mem t hu)).structs⟩) rfl
    rw [parseFields, hpeek]
    simp only [DType.byteChar_asciiByte_code, t.code_ne_close, if_false, ht, hts,
      Outcome.ok_bind]

/-- A struct is parsed, if its fields are. -/
theorem parses_struct {fields : List DType} (h : ∀ f ∈ fields, Parses f) :
    Parses (.struct fields) := by
  intro n allow p r hn hwf hroom hrest
  rw [DType.sigBytes_struct] at hn hrest
  rw [DType.WellFormed, DType.fieldsWellFormed_iff] at hwf
  obtain ⟨hne, hwf⟩ := hwf
  simp only [List.length_cons, List.length_append, List.length_nil] at hn
  obtain ⟨n, rfl⟩ := Nat.exists_eq_succ_of_ne_zero (Nat.ne_of_gt (Nat.zero_lt_of_lt hn))
  have harr := hroom.arrays
  have hstr := hroom.structs
  rw [DType.arrayNesting] at harr
  rw [DType.structNesting] at hstr
  have hdepth : ¬ p.structDepth + 1 > maxStructDepth := by omega
  have hin : ∀ f ∈ fields, p.arrayDepth + f.arrayNesting ≤ maxArrayDepth ∧
      p.structDepth + 1 + f.structNesting ≤ maxStructDepth := by
    intro f hf
    have ha := DType.arrayNestingList_le_iff.mp (Nat.le_refl _) f hf
    have hs := DType.structNestingList_le_iff.mp (Nat.le_refl _) f hf
    omega
  have hfields := parseFields_of_sigBytes h (n := n) (r := r)
    (p := { p with
      rest := DType.sigBytesList fields ++ asciiByte ')' :: r, structDepth := p.structDepth + 1 })
    (by omega) hwf (fun f hf => ⟨(hin f hf).1, (hin f hf).2⟩) rfl
  have hempty : fields.isEmpty = false := by
    cases fields with
    | nil => exact absurd rfl hne
    | cons f fs => rfl
  rw [parseOne, advance_of_rest hrest]
  simp only [show byteChar (asciiByte '(') = '(' from rfl, show DType.ofCode '(' = none from rfl,
    show ('(' = 'a') = False from by decide, if_true, hdepth, if_false, List.append_eq,
    List.append_assoc, List.singleton_append, hfields, Outcome.ok_bind, hempty,
    Bool.false_eq_true, Nat.add_sub_cancel]

/-- A dict entry is parsed where it may stand, if its key and its value
are. -/
theorem parses_dictEntry {k v : DType} (hk : Parses k) (hv : Parses v) :
    Parses (.dictEntry k v) := by
  intro n allow p r hn hwf hroom hrest
  rw [DType.sigBytes_dictEntry] at hn hrest
  rw [DType.WellFormed] at hwf
  obtain ⟨rfl, hbasic, hwfv⟩ := hwf
  simp only [List.length_cons, List.length_append, List.length_nil] at hn
  obtain ⟨n, rfl⟩ := Nat.exists_eq_succ_of_ne_zero (Nat.ne_of_gt (Nat.zero_lt_of_lt hn))
  have harr := hroom.arrays
  have hstr := hroom.structs
  rw [DType.arrayNesting] at harr
  rw [DType.structNesting] at hstr
  have hdepth : ¬ p.structDepth + 1 > maxStructDepth := by omega
  have hwfk : k.WellFormed false := by
    cases k with
    | array _ => simp [DType.isBasic] at hbasic
    | struct _ => simp [DType.isBasic] at hbasic
    | dictEntry _ _ => simp [DType.isBasic] at hbasic
    | _ => simp [DType.WellFormed]
  have hkey : parseOne n false { p with
      rest := k.sigBytes ++ (v.sigBytes ++ asciiByte '\x7d' :: r)
      structDepth := p.structDepth + 1 } = .ok (k, { p with
        rest := v.sigBytes ++ asciiByte '\x7d' :: r
        structDepth := p.structDepth + 1 }) :=
    hk (by omega) hwfk ⟨by simp only; omega, by simp only; omega⟩ rfl
  have hval : parseOne n false { p with
      rest := v.sigBytes ++ asciiByte '\x7d' :: r
      structDepth := p.structDepth + 1 } = .ok (v, { p with
        rest := asciiByte '\x7d' :: r
        structDepth := p.structDepth + 1 }) :=
    hv (by omega) hwfv ⟨by simp only; omega, by simp only; omega⟩ rfl
  rw [parseOne, advance_of_rest hrest]
  simp only [show byteChar (asciiByte '\x7b') = '\x7b' from rfl,
    show DType.ofCode '\x7b' = none from rfl, show ('\x7b' = 'a') = False from by decide,
    show ('\x7b' = '(') = False from by decide, if_true, hdepth, if_false, Bool.not_true,
    Bool.false_eq_true, List.append_eq, List.append_assoc, List.singleton_append, hkey,
    Outcome.ok_bind, hbasic, hval]
  rfl

/-- **Every type is parsed from its signature.** -/
theorem parses (t : DType) : Parses t := by
  induction t using DType.inductionOn with
  | basic t ht => exact parses_of_ofCode (DType.ofCode_code (Or.inl ht))
  | variant => exact parses_of_ofCode (DType.ofCode_code (Or.inr rfl))
  | array elem ih => exact parses_array ih
  | struct fields ih => exact parses_struct ih
  | dictEntry k v ihk ihv => exact parses_dictEntry ihk ihv

/-- **A list of types is parsed from its signatures.** -/
theorem parseAll_of_sigBytesList {ts : List DType} {n : ℕ} {p : Parser}
    (hn : (DType.sigBytesList ts).length < n) (hwf : ∀ t ∈ ts, t.WellFormed false)
    (hroom : ∀ t ∈ ts, p.HasRoom t) (hrest : p.rest = DType.sigBytesList ts) :
    parseAll n p = .ok ts := by
  induction ts generalizing n p with
  | nil =>
    obtain ⟨n, rfl⟩ := Nat.exists_eq_succ_of_ne_zero (Nat.ne_of_gt (Nat.zero_lt_of_lt hn))
    rw [parseAll, peek, hrest]
    rfl
  | cons t ts ih =>
    obtain ⟨n, rfl⟩ := Nat.exists_eq_succ_of_ne_zero (Nat.ne_of_gt (Nat.zero_lt_of_lt hn))
    rw [DType.sigBytesList_cons] at hrest
    rw [DType.sigBytesList_cons, List.length_append] at hn
    obtain ⟨bs, hbs⟩ := t.sigBytes_eq_cons
    have hpeek : p.peek = some (asciiByte t.code) := peek_of_rest (by rw [hrest, hbs]; rfl)
    have hpos : 0 < t.sigBytes.length := by rw [hbs]; exact Nat.succ_pos _
    have ht := parses t (n := n) (by omega) (hwf t List.mem_cons_self)
      (hroom t List.mem_cons_self) hrest
    have hts := ih (n := n) (p := { p with rest := DType.sigBytesList ts }) (by omega)
      (fun u hu => hwf u (List.mem_cons_of_mem t hu))
      (fun u hu => ⟨(hroom u (List.mem_cons_of_mem t hu)).arrays,
        (hroom u (List.mem_cons_of_mem t hu)).structs⟩) rfl
    rw [parseAll, hpeek]
    simp only [ht, hts, Outcome.ok_bind]

end Parser

/-- The printed form of types of the grammar is parsed, if it is not too
long. -/
theorem parseSignature_signatureOf {ts : List DType} (h : ∀ t ∈ ts, t.Admitted)
    (hlen : (asBytes (signatureOf ts)).length ≤ maxSignatureLen) :
    parseSignature (signatureOf ts) = .ok ts := by
  rw [asBytes_signatureOf] at hlen
  unfold parseSignature
  simp only [asBytes_signatureOf, Nat.not_lt.mpr hlen, DType.isAscii_sigBytesList, if_false,
    Bool.not_true, Bool.false_eq_true]
  refine Parser.parseAll_of_sigBytesList (by omega) (fun t ht => (h t ht).wellFormed)
    (fun t ht => ⟨?_, ?_⟩) rfl
  · simpa using (h t ht).arrayNesting_le
  · simpa using (h t ht).structNesting_le

/-- **The parser accepts the grammar and inverts the printer.** A string
parses to a list of types exactly when it is short enough, is the printed
form of the list, and each type is of the grammar. So no string is the
printed form of two lists, and every branch of the descent leaves the
counters as it found them. -/
theorem parseSignature_eq_ok_iff (s : String) (ts : List DType) :
    (parseSignature s = .ok ts ↔
      (asBytes s).length ≤ maxSignatureLen ∧ s = signatureOf ts ∧
        ∀ t ∈ ts, t.WellFormed false ∧ t.arrayNesting ≤ maxArrayDepth ∧
          t.structNesting ≤ maxStructDepth) ∧
      (∀ ts', signatureOf ts = signatureOf ts' → ts = ts') ∧
      (∀ n allow p t q, Parser.parseOne n allow p = .ok (t, q) →
        q.arrayDepth = p.arrayDepth ∧ q.structDepth = p.structDepth) ∧
      ∀ n p fields q, Parser.parseFields n p = .ok (fields, q) →
        q.arrayDepth = p.arrayDepth ∧ q.structDepth = p.structDepth := by
  refine ⟨⟨fun h => ?_, ?_⟩, fun ts' h => ?_, fun n allow p t q h => ?_, fun n p fields q h => ?_⟩
  · have hall := admitted_of_parseSignature h
    exact ⟨(parseSignature_reads h).2.1, (signatureOf_of_parseSignature h).symm, fun t ht =>
      ⟨(hall t ht).wellFormed, (hall t ht).arrayNesting_le, (hall t ht).structNesting_le⟩⟩
  · rintro ⟨hlen, rfl, hall⟩
    exact parseSignature_signatureOf (fun t ht => ⟨(hall t ht).1, (hall t ht).2.1, (hall t ht).2.2⟩)
      hlen
  · apply DType.sigBytesList_inj
    rw [← asBytes_signatureOf, ← asBytes_signatureOf, h]
  · have r := (Parser.parse_reads n).1 h
    exact ⟨r.arrayDepth_eq, r.structDepth_eq⟩
  · have r := (Parser.parse_reads n).2 h
    exact ⟨r.arrayDepth_eq, r.structDepth_eq⟩

end Oxibus
