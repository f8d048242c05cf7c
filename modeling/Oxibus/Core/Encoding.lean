import Oxibus.Core.Layout
import Oxibus.Lib.Text

/-!
# Encoding and layouts

Where a value can be encoded is a question about its texts and about the
lengths of its arrays; whether the encoding decodes to the value again is a
question about its shape. `Value.Fits` is what the second needs, and it
holds of every value the decoder returns.

An encoding of a value that fits is a layout (`Value.layout_of_encode`), so
it decodes to the value; a decoded value whose strings contain no zero can
be encoded again, to the same number of bytes (`Value.encode_of_layout`).
-/

namespace Oxibus

/-! ## Object paths -/

/-- **A valid object path contains no zero byte.** -/
theorem zero_notMem_of_isValidObjectPath {s : String} (h : isValidObjectPath s = true) :
    (asBytes s).contains 0 = false := by
  unfold isValidObjectPath at h
  split at h
  · next rest hrest =>
    rw [hrest, List.contains_cons]
    split at h
    · next hempty =>
      rw [List.isEmpty_iff.mp hempty]
      rfl
    · split at h
      · cases h
      · by_contra hzero
        have hmem : 0 ∈ rest := by simpa using hzero
        have hne : (0 : UInt8) ≠ 47 := by decide
        obtain ⟨part, hpart, h0⟩ := exists_mem_splitOn_iff.mpr ⟨hmem, hne⟩
        have hbytes := List.all_eq_true.mp h part hpart
        rw [Bool.and_eq_true] at hbytes
        exact absurd (List.all_eq_true.mp hbytes.2 0 h0) (by decide)
  · cases h

namespace Value

/-! ## The texts of a value -/

mutual

/-- The string values in a value. -/
def strings : Value → List String
  | string s => [s]
  | array _ vs => stringsAll vs
  | struct vs => stringsAll vs
  | dictEntry k v => strings k ++ strings v
  | variant inner => strings inner
  | _ => []

/-- The string values in a list of values. -/
def stringsAll : List Value → List String
  | [] => []
  | v :: vs => strings v ++ stringsAll vs

end

mutual

/-- The object paths in a value. -/
def paths : Value → List String
  | objectPath p => [p.text]
  | array _ vs => pathsAll vs
  | struct vs => pathsAll vs
  | dictEntry k v => paths k ++ paths v
  | variant inner => paths inner
  | _ => []

/-- The object paths in a list of values. -/
def pathsAll : List Value → List String
  | [] => []
  | v :: vs => paths v ++ pathsAll vs

end

/-- **No string in the value contains a zero byte**, which is what the encoder
insists on. -/
def NulFree (v : Value) : Prop := ∀ s ∈ v.strings, (asBytes s).contains 0 = false

/-- The same for a list of values. -/
def NulFreeAll (vs : List Value) : Prop := ∀ s ∈ stringsAll vs, (asBytes s).contains 0 = false

instance (v : Value) : Decidable v.NulFree :=
  inferInstanceAs (Decidable (∀ s ∈ v.strings, (asBytes s).contains 0 = false))

instance (vs : List Value) : Decidable (NulFreeAll vs) :=
  inferInstanceAs (Decidable (∀ s ∈ stringsAll vs, (asBytes s).contains 0 = false))

theorem nulFreeAll_iff {vs : List Value} : NulFreeAll vs ↔ ∀ v ∈ vs, v.NulFree := by
  induction vs with
  | nil => simp [NulFreeAll, stringsAll]
  | cons v vs ih =>
    simp only [NulFreeAll, stringsAll, List.mem_append, List.mem_cons, forall_eq_or_imp] at ih ⊢
    rw [← ih, NulFree]
    constructor
    · intro h
      exact ⟨fun s hs => h s (Or.inl hs), fun s hs => h s (Or.inr hs)⟩
    · rintro ⟨h₁, h₂⟩ s (hs | hs)
      · exact h₁ s hs
      · exact h₂ s hs

/-! ## Values that fit -/

mutual

/-- **A value that decodes from its encoding**: texts whose length the wire
can carry, paths and signatures that are valid, components whose types are
the declared ones. -/
def Fits : Value → Prop
  | string s => (asBytes s).length < 2 ^ 32
  | objectPath p => isValidObjectPath p.text = true ∧ (asBytes p.text).length < 2 ^ 32
  | signature sig => (parseSignature sig.text).isOk = true
  | array t vs => (∀ v ∈ vs, v.valueType = t) ∧ FitsAll vs
  | struct vs => vs ≠ [] ∧ FitsAll vs
  | dictEntry k v => Fits k ∧ Fits v
  | variant inner =>
      parseSingleCompleteType inner.valueType.toSignatureString = .ok inner.valueType ∧ Fits inner
  | _ => True

/-- Every value of a list fits. -/
def FitsAll : List Value → Prop
  | [] => True
  | v :: vs => Fits v ∧ FitsAll vs

end

theorem fitsAll_iff {vs : List Value} : FitsAll vs ↔ ∀ v ∈ vs, v.Fits := by
  induction vs with
  | nil => simp [FitsAll]
  | cons v vs ih => simp [FitsAll, ih]

/-- Decoded values in sequence fit, when each of them does. -/
theorem fitsAll_of_layoutAll_of {be : Bool} {vs : List Value}
    (ih : ∀ v ∈ vs, ∀ {p bs}, v.Layout be p bs → v.Fits) {p : ℕ} {bs : List UInt8}
    (h : LayoutAll be vs p bs) : FitsAll vs := by
  induction vs generalizing p bs with
  | nil => trivial
  | cons v vs ihvs =>
    obtain ⟨b, bs', hb, hbs', -⟩ := h
    exact ⟨ih v List.mem_cons_self hb,
      ihvs (fun w hw => ih w (List.mem_cons_of_mem v hw)) hbs'⟩

/-- **A decoded value fits.** -/
theorem fits_of_layout {be : Bool} {v : Value} {p : ℕ} {bs : List UInt8}
    (h : v.Layout be p bs) : v.Fits := by
  induction v using Value.inductionOn generalizing p bs with
  | basic v hv =>
    cases basic_of_isBasic hv with
    | string s => exact h.1
    | objectPath path => exact ⟨h.1, h.2.1⟩
    | signature sig => exact h.1
    | _ => trivial
  | array t vs ih =>
    obtain ⟨htypes, -, -, body, -, -, -, hbody, -⟩ := h
    exact ⟨htypes, fitsAll_of_layoutAll_of ih hbody⟩
  | struct vs ih =>
    obtain ⟨hne, -, body, -, hbody, -⟩ := h
    exact ⟨hne, fitsAll_of_layoutAll_of ih hbody⟩
  | dictEntry k v ihk ihv =>
    obtain ⟨-, kb, vb, -, hkb, hvb, -⟩ := h
    exact ⟨ihk hkb, ihv hvb⟩
  | variant inner ih =>
    obtain ⟨ht, body, hbody, -⟩ := h
    exact ⟨ht, ih hbody⟩

/-! ## Encodings are layouts -/

theorem stringLayout_of_encode {be : Bool} {s : String} {p : ℕ} {out : List UInt8}
    (hlen : (asBytes s).length < 2 ^ 32) (h : encodeRawString be s p = .ok out) :
    StringLayout be s p out := by
  unfold encodeRawString at h
  split at h
  · cases h
  · cases h
    refine ⟨hlen, zeros p 4, length_zeros p 4, ?_⟩
    rw [Nat.mod_eq_of_lt hlen, encodeUInt]
    simp

theorem signatureBytes_of_encode {s : String} {out : List UInt8}
    (h : encodeSignatureStr s = .ok out) : out = signatureBytes s := by
  unfold encodeSignatureStr at h
  split at h
  · cases h
  · cases h
    rfl

/-- Encodings in sequence are a layout of the sequence, when each of them
is. -/
theorem layoutAll_of_encodeAll_of {be : Bool} {vs : List Value}
    (ih : ∀ v ∈ vs, v.Fits → ∀ {p out}, v.encode be p = .ok out → v.Layout be p out)
    (hfits : FitsAll vs) {p : ℕ} {out : List UInt8} (h : encodeAll be vs p = .ok out) :
    LayoutAll be vs p out := by
  induction vs generalizing p out with
  | nil =>
    cases h
    rfl
  | cons v vs ihvs =>
    obtain ⟨b, hb, h⟩ := Outcome.bind_eq_ok.mp h
    obtain ⟨bs, hbs, h⟩ := Outcome.bind_eq_ok.mp h
    cases h
    exact ⟨b, bs, ih v List.mem_cons_self hfits.1 hb,
      ihvs (fun w hw => ih w (List.mem_cons_of_mem v hw)) hfits.2 hbs, rfl⟩

/-- **An encoding of a value that fits is one of its layouts.** -/
theorem layout_of_encode {be : Bool} {v : Value} (hfits : v.Fits) {p : ℕ} {out : List UInt8}
    (h : v.encode be p = .ok out) : v.Layout be p out := by
  have hint : ∀ {w n p}, IntLayout be w n p (encodeUInt be w n p) :=
    fun {w n p} => ⟨zeros p w, length_zeros p w, rfl⟩
  induction v using Value.inductionOn generalizing p out with
  | basic v hv =>
    cases basic_of_isBasic hv with
    | byte v =>
      cases h
      rfl
    | string s => exact stringLayout_of_encode hfits h
    | objectPath path => exact ⟨hfits.1, stringLayout_of_encode hfits.2 h⟩
    | signature sig => exact ⟨hfits, signatureBytes_of_encode h⟩
    | _ =>
      cases h
      exact hint
  | array t vs ih =>
    obtain ⟨body, hbody, h⟩ := Outcome.bind_eq_ok.mp h
    split at h
    · cases h
    · next hmax =>
      cases h
      exact ⟨hfits.1, zeros p 4, zeros (p + padding p 4 + 4) t.alignment, body,
        length_zeros .., length_zeros .., not_lt.mp hmax,
        layoutAll_of_encodeAll_of ih hfits.2 hbody,
        by simp [encodeUInt]⟩
  | struct vs ih =>
    obtain ⟨body, hbody, h⟩ := Outcome.bind_eq_ok.mp h
    cases h
    exact ⟨hfits.1, zeros p 8, body, length_zeros ..,
      layoutAll_of_encodeAll_of ih hfits.2 hbody, rfl⟩
  | dictEntry k v ihk ihv =>
    obtain ⟨kb, hkb, h⟩ := Outcome.bind_eq_ok.mp h
    obtain ⟨vb, hvb, h⟩ := Outcome.bind_eq_ok.mp h
    cases h
    exact ⟨zeros p 8, kb, vb, length_zeros .., ihk hfits.1 hkb, ihv hfits.2 hvb, by simp⟩
  | variant inner ih =>
    obtain ⟨sig, hsig, h⟩ := Outcome.bind_eq_ok.mp h
    obtain ⟨body, hbody, h⟩ := Outcome.bind_eq_ok.mp h
    cases h
    obtain rfl := signatureBytes_of_encode hsig
    refine ⟨hfits.1, body, ih hfits.2 ?_, rfl⟩
    simpa using hbody

/-- Encodings in sequence are a layout of the sequence. -/
theorem layoutAll_of_encodeAll {be : Bool} {vs : List Value} (hfits : FitsAll vs) {p : ℕ}
    {out : List UInt8} (h : encodeAll be vs p = .ok out) : LayoutAll be vs p out :=
  layoutAll_of_encodeAll_of (fun _ _ hv _ _ => layout_of_encode hv) hfits h

theorem fitsAll_of_layoutAll {be : Bool} {vs : List Value} {p : ℕ} {bs : List UInt8}
    (h : LayoutAll be vs p bs) : FitsAll vs :=
  fitsAll_of_layoutAll_of (fun _ _ _ _ => fits_of_layout) h

/-! ## Decoded values can be encoded -/

/-- Offsets congruent modulo 8 are padded alike to every alignment there
is. -/
theorem padding_eq_of_mod {p q w : ℕ} (h : q % 8 = p % 8) (hw : w ∣ 8) :
    padding q w = padding p w := by
  apply padding_congr
  rw [← Nat.mod_mod_of_dvd q hw, h, Nat.mod_mod_of_dvd p hw]

theorem alignment_dvd (t : DType) : t.alignment ∣ 8 := by
  cases t <;> simp [DType.alignment]

/-- An array's elements start at congruent offsets in congruent places. -/
theorem arrayStart_mod {p q : ℕ} (h : q % 8 = p % 8) (t : DType) :
    arrayStart t q % 8 = arrayStart t p % 8 := by
  have h₁ : padding q 4 = padding p 4 := padding_eq_of_mod h (by decide)
  have hmid : (q + padding q 4 + 4) % 8 = (p + padding p 4 + 4) % 8 := by
    rw [h₁]
    omega
  have h₂ := padding_eq_of_mod hmid (alignment_dvd t)
  simp only [arrayStart, h₂]
  omega

theorem encodeRawString_of_layout {be be' : Bool} {s : String} {p q : ℕ} {bs : List UInt8}
    (h : StringLayout be s p bs) (hnul : (asBytes s).contains 0 = false)
    (hq : q % 8 = p % 8) : ∃ out, encodeRawString be' s q = .ok out ∧ out.length = bs.length := by
  obtain ⟨-, pad, hpad, rfl⟩ := h
  unfold encodeRawString
  rw [hnul, if_neg (by decide)]
  refine ⟨_, rfl, ?_⟩
  simp only [List.length_append, length_encodeUInt, length_toBytes, List.length_cons,
    List.length_nil, hpad, padding_eq_of_mod hq (by decide : 4 ∣ 8)]
  omega

theorem encodeSignatureStr_of_parse {s : String} (h : (parseSignature s).isOk = true) :
    encodeSignatureStr s = .ok (signatureBytes s) := by
  obtain ⟨ts, hts⟩ := Outcome.isOk_iff.mp h
  unfold encodeSignatureStr
  rw [if_neg (not_lt.mpr (parseSignature_reads hts).2.1)]
  rfl

/-- Decoded values in sequence can be encoded, when each of them can. -/
theorem encodeAll_of_layoutAll_of {be be' : Bool} {vs : List Value}
    (ih : ∀ v ∈ vs, v.NulFree → ∀ {p q bs}, v.Layout be p bs → q % 8 = p % 8 →
      ∃ out, v.encode be' q = .ok out ∧ out.length = bs.length)
    (hnul : NulFreeAll vs) {p q : ℕ} {bs : List UInt8} (h : LayoutAll be vs p bs)
    (hq : q % 8 = p % 8) :
    ∃ out, encodeAll be' vs q = .ok out ∧ out.length = bs.length := by
  induction vs generalizing p q bs with
  | nil =>
    rw [LayoutAll] at h
    exact ⟨[], rfl, by rw [h]⟩
  | cons v vs ihvs =>
    obtain ⟨b, bs', hb, hbs', rfl⟩ := h
    have hv := nulFreeAll_iff.mp hnul v List.mem_cons_self
    have hvs := nulFreeAll_iff.mpr
      fun w hw => nulFreeAll_iff.mp hnul w (List.mem_cons_of_mem v hw)
    obtain ⟨out, hout, hlen⟩ := ih v List.mem_cons_self hv hb hq
    obtain ⟨outs, houts, hlens⟩ := ihvs (q := q + out.length)
      (fun w hw => ih w (List.mem_cons_of_mem v hw)) hvs hbs' (by omega)
    refine ⟨out ++ outs, ?_, by simp [hlen, hlens]⟩
    rw [encodeAll, hout, Outcome.ok_bind, houts]
    rfl

/-- **A decoded value whose strings contain no zero can be encoded** in either
byte order, at any congruent offset, to the same number of bytes. -/
theorem encode_of_layout {be be' : Bool} {v : Value} (hnul : v.NulFree) {p q : ℕ}
    {bs : List UInt8} (h : v.Layout be p bs) (hq : q % 8 = p % 8) :
    ∃ out, v.encode be' q = .ok out ∧ out.length = bs.length := by
  have hint : ∀ {w n p q bs}, w ∣ 8 → IntLayout be w n p bs → q % 8 = p % 8 →
      ∃ out, (.ok (encodeUInt be' w n q) : CoreResult (List UInt8)) = .ok out ∧
        out.length = bs.length := by
    rintro w n p q bs hw ⟨pad, hpad, rfl⟩ hq
    exact ⟨_, rfl, by simp [hpad, padding_eq_of_mod hq hw]⟩
  induction v using Value.inductionOn generalizing p q bs with
  | basic v hv =>
    cases basic_of_isBasic hv with
    | byte v =>
      rw [Layout] at h
      exact ⟨[v], rfl, by rw [h]⟩
    | string s => exact encodeRawString_of_layout h (hnul s (by simp [strings])) hq
    | objectPath path =>
      exact encodeRawString_of_layout h.2 (zero_notMem_of_isValidObjectPath h.1) hq
    | signature sig => exact ⟨_, encodeSignatureStr_of_parse h.1, by rw [h.2]⟩
    | _ => exact hint (by decide) h hq
  | array t vs ih =>
    obtain ⟨-, pad, pad', body, hpad, hpad', hmax, hbody, rfl⟩ := h
    obtain ⟨out, hout, hlen⟩ :=
      encodeAll_of_layoutAll_of ih hnul hbody (arrayStart_mod hq t)
    rw [encode, hout, Outcome.ok_bind, if_neg (by omega)]
    refine ⟨_, rfl, ?_⟩
    have h₁ : padding q 4 = padding p 4 := padding_eq_of_mod hq (by decide)
    have h₂ : padding (q + padding q 4 + 4) t.alignment
        = padding (p + padding p 4 + 4) t.alignment :=
      padding_eq_of_mod (by rw [h₁]; omega) (alignment_dvd t)
    simp only [List.length_append, length_encodeUInt, length_zeros, length_toBytes, h₁,
      hpad, hpad', hlen] at h₂ ⊢
    omega
  | struct vs ih =>
    obtain ⟨-, pad, body, hpad, hbody, rfl⟩ := h
    have h₁ : padding q 8 = padding p 8 := padding_eq_of_mod hq (by decide)
    obtain ⟨out, hout, hlen⟩ := encodeAll_of_layoutAll_of (q := q + padding q 8) ih hnul hbody
      (by rw [h₁]; omega)
    rw [encode, hout]
    exact ⟨_, rfl, by simp [hlen, hpad, h₁]⟩
  | dictEntry k v ihk ihv =>
    obtain ⟨pad, kb, vb, hpad, hkb, hvb, rfl⟩ := h
    have h₁ : padding q 8 = padding p 8 := padding_eq_of_mod hq (by decide)
    obtain ⟨ko, hko, hklen⟩ := ihk (q := q + padding q 8)
      (fun s hs => hnul s (by rw [strings]; exact List.mem_append_left _ hs)) hkb
      (by rw [h₁]; omega)
    obtain ⟨vo, hvo, hvlen⟩ := ihv (q := q + padding q 8 + ko.length)
      (fun s hs => hnul s (by rw [strings]; exact List.mem_append_right _ hs)) hvb
      (by rw [h₁, hklen]; omega)
    rw [encode, hko, Outcome.ok_bind, hvo]
    exact ⟨_, rfl, by simp [hklen, hvlen, hpad, h₁]⟩
  | variant inner ih =>
    obtain ⟨ht, body, hbody, rfl⟩ := h
    have hsig := encodeSignatureStr_of_parse (s := inner.valueType.toSignatureString)
      (by rw [parseSingleCompleteType_eq_ok.mp ht]; rfl)
    obtain ⟨out, hout, hlen⟩ := ih
      (q := q + (signatureBytes inner.valueType.toSignatureString).length) hnul hbody
      (by rw [length_signatureBytes, DType.asBytes_toSignatureString]; omega)
    rw [encode, hsig, Outcome.ok_bind, hout]
    exact ⟨_, rfl, by simp [hlen]⟩

/-- Decoded values in sequence whose strings contain no zero can be
encoded. -/
theorem encodeAll_of_layoutAll {be be' : Bool} {vs : List Value} (hnul : NulFreeAll vs)
    {p q : ℕ} {bs : List UInt8} (h : LayoutAll be vs p bs) (hq : q % 8 = p % 8) :
    ∃ out, encodeAll be' vs q = .ok out ∧ out.length = bs.length :=
  encodeAll_of_layoutAll_of (fun _ _ hv _ _ _ => encode_of_layout hv) hnul h hq

/-- Strings of a sequence that can be encoded contain no zero, when this
holds of each value. -/
theorem nulFreeAll_of_encodeAll_of {be : Bool} {vs : List Value}
    (ih : ∀ v ∈ vs, ∀ {p out}, v.encode be p = .ok out → v.NulFree) {p : ℕ} {out : List UInt8}
    (h : encodeAll be vs p = .ok out) : NulFreeAll vs := by
  induction vs generalizing p out with
  | nil => simp [NulFreeAll, stringsAll]
  | cons v vs ihvs =>
    obtain ⟨b, hb, h⟩ := Outcome.bind_eq_ok.mp h
    obtain ⟨bs, hbs, -⟩ := Outcome.bind_eq_ok.mp h
    have hv := ih v List.mem_cons_self hb
    have hvs := ihvs (fun w hw => ih w (List.mem_cons_of_mem v hw)) hbs
    intro s hs
    rw [stringsAll] at hs
    rcases List.mem_append.mp hs with hs | hs
    · exact hv s hs
    · exact hvs s hs

/-- **The encoder refuses a zero byte in a string.** -/
theorem nulFree_of_encode {be : Bool} {v : Value} {p : ℕ} {out : List UInt8}
    (h : v.encode be p = .ok out) : v.NulFree := by
  induction v using Value.inductionOn generalizing p out with
  | basic v hv =>
    cases basic_of_isBasic hv with
    | string s =>
      rw [encode, encodeRawString] at h
      split at h
      · cases h
      · next hnul => simpa [NulFree, strings] using hnul
    | _ => simp [NulFree, strings]
  | array t vs ih =>
    obtain ⟨body, hbody, -⟩ := Outcome.bind_eq_ok.mp h
    exact nulFreeAll_of_encodeAll_of ih hbody
  | struct vs ih =>
    obtain ⟨body, hbody, -⟩ := Outcome.bind_eq_ok.mp h
    exact nulFreeAll_of_encodeAll_of ih hbody
  | dictEntry k v ihk ihv =>
    obtain ⟨kb, hkb, h⟩ := Outcome.bind_eq_ok.mp h
    obtain ⟨vb, hvb, -⟩ := Outcome.bind_eq_ok.mp h
    intro s hs
    rw [strings] at hs
    rcases List.mem_append.mp hs with hs | hs
    · exact ihk hkb s hs
    · exact ihv hvb s hs
  | variant inner ih =>
    obtain ⟨sig, -, h⟩ := Outcome.bind_eq_ok.mp h
    obtain ⟨body, hbody, -⟩ := Outcome.bind_eq_ok.mp h
    exact ih hbody

theorem nulFreeAll_of_encodeAll {be : Bool} {vs : List Value} {p : ℕ} {out : List UInt8}
    (h : encodeAll be vs p = .ok out) : NulFreeAll vs :=
  nulFreeAll_of_encodeAll_of (fun _ _ _ _ => nulFree_of_encode) h

end Value

end Oxibus
