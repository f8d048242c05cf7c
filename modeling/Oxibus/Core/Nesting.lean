import Oxibus.Core.Grammar
import Oxibus.Core.RoundTrip
import Oxibus.Core.Sieves

/-!
# How deep a decoded body nests

The parser bounds the nesting of one signature: at most 32 arrays and 32
structs or dict entries are open at a time, 64 containers in all
(`height_le_of_parseSignature`). A variant starts a new signature inside the
data, and with it the counters start again from zero. So the nesting of a
decoded value is not bounded by anything but the length of the body
(`unmarshalBody_nested`).

`readWithin` is a decoder that counts containers across variants. It accepts
exactly the bodies whose values nest within its limit
(`unmarshalBodyWithin_eq_ok`), which says for which bodies the bound of 64
that one signature has carries over to the decoded values.
-/

namespace Oxibus

/-! ## The nesting of a value -/

namespace Value

mutual

/-- **How many containers nest in a value**, itself included. -/
def depth : Value → ℕ
  | array _ vs => depthAll vs + 1
  | struct vs => depthAll vs + 1
  | dictEntry k v => max (depth k) (depth v) + 1
  | variant inner => depth inner + 1
  | _ => 0

/-- The largest depth in a list of values. -/
def depthAll : List Value → ℕ
  | [] => 0
  | v :: vs => max (depth v) (depthAll vs)

end

theorem depthAll_le_iff {vs : List Value} {n : ℕ} : depthAll vs ≤ n ↔ ∀ v ∈ vs, v.depth ≤ n := by
  induction vs with
  | nil => simp [depthAll]
  | cons v vs ih => simp [depthAll, ih]

/-- A value of a basic type does not nest. -/
theorem depth_eq_zero {v : Value} (h : v.valueType.isBasic = true) : v.depth = 0 := by
  cases basic_of_isBasic h with
  | _ => rfl

end Value

/-! ## What one signature allows -/

/-- The containers a type nests are arrays, structs and dict entries. -/
theorem DType.height_le_nesting (t : DType) : t.height ≤ t.arrayNesting + t.structNesting := by
  induction t using DType.inductionOn with
  | basic t ht =>
    cases t <;> simp_all [height, isBasic]
  | variant => simp [height]
  | array elem ih =>
    rw [height, arrayNesting, structNesting]
    omega
  | struct fields ih =>
    have hfields :
        height.heightList fields ≤ arrayNestingList fields + structNestingList fields := by
      induction fields with
      | nil => simp [height.heightList]
      | cons t ts iht =>
        have ht := ih t List.mem_cons_self
        have hts := iht fun u hu => ih u (List.mem_cons_of_mem t hu)
        rw [height.heightList, arrayNestingList, structNestingList]
        omega
    rw [height, arrayNesting, structNesting]
    omega
  | dictEntry k v ihk ihv =>
    rw [height, arrayNesting, structNesting]
    omega

/-- **One signature nests at most 64 containers.** -/
theorem height_le_of_parseSignature {s : String} {ts : List DType}
    (h : parseSignature s = .ok ts) {t : DType} (ht : t ∈ ts) :
    t.height ≤ maxArrayDepth + maxStructDepth := by
  have hroom := admitted_of_parseSignature h t ht
  have ha := hroom.arrayNesting_le
  have hs := hroom.structNesting_le
  exact Nat.le_trans t.height_le_nesting (Nat.add_le_add ha hs)

/-! ## A decoder that counts across variants -/

namespace Unmarshaler

/-- **A decoder with one limit on the containers open at a time**, variants
included. -/
def readWithin : ℕ → DType → Unmarshaler → CoreResult (Value × Unmarshaler)
  | 0, t, u =>
    if t.isContainer then .err Parser.tooDeep
    else readLayer (fun _ _ => .err Parser.tooDeep) t u
  | limit + 1, t, u => readLayer (readWithin limit) t u

section Layer

variable {read read' : DType → Unmarshaler → CoreResult (Value × Unmarshaler)} {n : ℕ}

/-- What relates a bounded reader to an unbounded one. -/
def Bounds (n : ℕ) (read read' : DType → Unmarshaler → CoreResult (Value × Unmarshaler)) : Prop :=
  ∀ {t u v u'}, u.pos ≤ u.buf.length →
    (read t u = .ok (v, u') ↔ read' t u = .ok (v, u') ∧ v.depth ≤ n)

/-- A container nests one level more than its parts. -/
theorem composes_depth (n : ℕ) : Composes (fun v => v.depth ≤ n + 1) (fun v => v.depth ≤ n) where
  array _ _ := Nat.succ_le_succ_iff.trans Value.depthAll_le_iff
  struct _ := Nat.succ_le_succ_iff.trans Value.depthAll_le_iff
  dictEntry _ _ := Nat.succ_le_succ_iff.trans Nat.max_le
  variant _ := Nat.succ_le_succ_iff

/-- **A layer over a bounded reader opens one container more.** -/
theorem readLayer_bounds (hsound : Sound read') (h : Bounds n read read') :
    Bounds (n + 1) (readLayer read) (readLayer read') := by
  intro t u v u' hpos
  cases hbasic : t.isBasic with
  | false => exact readLayer_sieves hsound h (composes_depth n) hbasic hpos
  | true =>
    -- a basic type is read without the other function
    have heq : readLayer read t u = readLayer read' t u := by
      cases t with
      | array _ => cases hbasic
      | struct _ => cases hbasic
      | dictEntry _ _ => cases hbasic
      | variant => cases hbasic
      | _ => rfl
    rw [heq]
    refine ⟨fun hread => ⟨hread, ?_⟩, And.left⟩
    obtain ⟨rfl, -⟩ := readLayer_sound hsound hpos hread
    rw [Value.depth_eq_zero hbasic]
    exact Nat.zero_le _

end Layer

/-- **The bounded decoder reads exactly the values that nest within its
limit.** -/
theorem readWithin_bounds (limit : ℕ) : Bounds limit (readWithin limit) readValue := by
  induction limit with
  | zero =>
    intro t u v u' hpos
    rw [readWithin]
    split
    · next hcontainer =>
      simp only [reduceCtorEq, false_iff, not_and, Nat.le_zero]
      intro hread hdepth
      obtain ⟨rfl, -⟩ := readValue_sound hpos hread
      cases v <;> simp_all [Value.depth, Value.valueType, DType.isContainer, DType.isBasic]
    · next hbasic =>
      have hbasic : t.isBasic = true := by simpa [DType.isContainer] using hbasic
      have heq : readLayer (fun _ _ => .err Parser.tooDeep) t u = readLayer readValue t u := by
        cases t with
        | array _ => simp [DType.isBasic] at hbasic
        | struct _ => simp [DType.isBasic] at hbasic
        | dictEntry _ _ => simp [DType.isBasic] at hbasic
        | variant => simp [DType.isBasic] at hbasic
        | _ => rfl
      rw [heq, ← readValue_eq _ hpos]
      constructor
      · intro hread
        obtain ⟨rfl, -⟩ := readValue_sound hpos hread
        exact ⟨hread, by rw [Value.depth_eq_zero hbasic]⟩
      · exact And.left
  | succ limit ih =>
    intro t u v u' hpos
    rw [readWithin, readValue_eq _ hpos]
    exact readLayer_bounds readValue_sound ih hpos

end Unmarshaler

/-- The values of a body, by the bounded decoder. -/
def unmarshalBodyWithin (limit : ℕ) (buf : List UInt8) (signature : String) (bigEndian : Bool) :
    CoreResult (List Value) := do
  let types ← parseSignature signature
  let (values, _) ←
    Unmarshaler.readFields (Unmarshaler.readWithin limit) types (Unmarshaler.new buf bigEndian)
  .ok values

/-- **The bounded decoder accepts exactly the bodies whose values nest within
its limit**, and returns the same values. -/
theorem unmarshalBodyWithin_eq_ok {limit : ℕ} {buf : List UInt8} {signature : String} {be : Bool}
    {vs : List Value} : unmarshalBodyWithin limit buf signature be = .ok vs ↔
      unmarshalBody buf signature be = .ok vs ∧ ∀ v ∈ vs, v.depth ≤ limit := by
  have hfields : ∀ {ts u'}, Unmarshaler.readFields (Unmarshaler.readWithin limit) ts
      (Unmarshaler.new buf be) = .ok (vs, u') ↔
      Unmarshaler.readValues ts (Unmarshaler.new buf be) = .ok (vs, u') ∧
        ∀ v ∈ vs, v.depth ≤ limit :=
    Unmarshaler.readFields_sieves Unmarshaler.readValue_sound
      (Unmarshaler.readWithin_bounds limit) (Nat.zero_le _)
  rw [unmarshalBodyWithin, unmarshalBody]
  constructor
  · intro h
    obtain ⟨ts, hts, h⟩ := Outcome.bind_eq_ok.mp h
    obtain ⟨⟨vs', u'⟩, hvs, h⟩ := Outcome.bind_eq_ok.mp h
    cases h
    obtain ⟨hvs', hdepth⟩ := hfields.mp hvs
    rw [hts, Outcome.ok_bind, hvs']
    exact ⟨rfl, hdepth⟩
  · rintro ⟨h, hdepth⟩
    obtain ⟨ts, hts, h⟩ := Outcome.bind_eq_ok.mp h
    obtain ⟨⟨vs', u'⟩, hvs, h⟩ := Outcome.bind_eq_ok.mp h
    cases h
    rw [hts, Outcome.ok_bind, hfields.mpr ⟨hvs, hdepth⟩]
    rfl

/-- **When the bound of one signature bounds a whole body**: exactly where the
decoder that counts across variants accepts what the decoder accepts. -/
theorem depth_le_iff (buf : List UInt8) (signature : String) (be : Bool) :
    (∀ vs, unmarshalBody buf signature be = .ok vs →
      ∀ v ∈ vs, v.depth ≤ maxArrayDepth + maxStructDepth) ↔
    ((unmarshalBody buf signature be).isOk = true →
      (unmarshalBodyWithin (maxArrayDepth + maxStructDepth) buf signature be).isOk = true) := by
  constructor
  · intro h hok
    obtain ⟨vs, hvs⟩ := Outcome.isOk_iff.mp hok
    exact Outcome.isOk_iff.mpr ⟨vs, unmarshalBodyWithin_eq_ok.mpr ⟨hvs, h vs hvs⟩⟩
  · intro h vs hvs
    obtain ⟨vs', hvs'⟩ := Outcome.isOk_iff.mp (h (Outcome.isOk_iff.mpr ⟨vs, hvs⟩))
    obtain ⟨hvs'', hdepth⟩ := unmarshalBodyWithin_eq_ok.mp hvs'
    obtain rfl : vs = vs' := by
      rw [hvs] at hvs''
      cases hvs''
      rfl
    exact hdepth

/-! ## Variants in variants -/

/-- A byte under `n` variants. -/
def nestedVariant : ℕ → Value
  | 0 => .byte 0
  | n + 1 => .variant (nestedVariant n)

/-- The bytes of a byte under `n + 1` variants: three for each variant. -/
def nestedVariantBytes : ℕ → List UInt8
  | 0 => [1, 121, 0, 0]
  | n + 1 => [1, 118, 0] ++ nestedVariantBytes n

theorem depth_nestedVariant (n : ℕ) : (nestedVariant n).depth = n := by
  induction n with
  | zero => rfl
  | succ n ih => rw [nestedVariant, Value.depth, ih]

theorem layout_nestedVariant (be : Bool) (n p : ℕ) :
    (nestedVariant (n + 1)).Layout be p (nestedVariantBytes n) := by
  induction n generalizing p with
  | zero => exact ⟨rfl, [0], rfl, rfl⟩
  | succ n ih => exact ⟨rfl, nestedVariantBytes n, ih _, rfl⟩

/-- **No bound holds for every body**: a body of `3 n + 4` bytes decodes to a
value of `n + 1` containers. -/
theorem unmarshalBody_nested (be : Bool) (n : ℕ) :
    unmarshalBody (nestedVariantBytes n) "v" be = .ok [nestedVariant (n + 1)] := by
  have hsig : parseSignature "v" = .ok [.variant] := rfl
  have hrest : (Unmarshaler.new (nestedVariantBytes n) be).rest = nestedVariantBytes n ++ [] := by
    simp [Unmarshaler.rest, Unmarshaler.new]
  have hread : Unmarshaler.readValues [.variant] (.new (nestedVariantBytes n) be)
      = .ok ([nestedVariant (n + 1)], _) :=
    (Unmarshaler.readValues_eq_ok (parseSignature_reads hsig).2.2 (Nat.zero_le _)).mpr
    ⟨rfl, nestedVariantBytes n,
      ⟨_, [], layout_nestedVariant be n 0, rfl, (List.append_nil _).symm⟩,
      Unmarshaler.consumes_of_rest (Nat.zero_le _) hrest⟩
  rw [unmarshalBody, hsig, Outcome.ok_bind, hread]
  rfl

/-- A body of 196 bytes whose value nests 65 containers. -/
theorem unmarshalBody_nests_65 :
    (nestedVariantBytes 64).length = 196 ∧
      ¬ ∀ vs, unmarshalBody (nestedVariantBytes 64) "v" false = .ok vs →
        ∀ v ∈ vs, v.depth ≤ maxArrayDepth + maxStructDepth := by
  refine ⟨rfl, fun h => ?_⟩
  have hdepth := h _ (unmarshalBody_nested false 64) _ List.mem_cons_self
  rw [depth_nestedVariant] at hdepth
  exact absurd hdepth (by decide)

end Oxibus
