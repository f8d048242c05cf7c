import Oxibus.Core.Decoding

/-!
# Layouts: the bytes that decode to a value

The encoder pads with zeros; the decoder skips padding without looking at
it. So a value has one encoding at an offset but many byte strings that
decode to it there. `Value.Layout` describes them all, by recursion over
the value, and the two halves of the codec meet in it: a value is read
exactly from one of its layouts (`readValue_eq_ok`), and
`Oxibus.Core.Encoding` relates them to encodings. Round trips are
compositions of the two, and so is everything the daemon does with a
message it decodes and encodes again.
-/

namespace Oxibus

/-! ## Layouts -/

/-- An integer of `w` bytes behind any padding. -/
def IntLayout (be : Bool) (w n p : ℕ) (bs : List UInt8) : Prop :=
  ∃ pad, pad.length = padding p w ∧ bs = pad ++ toBytes be w n

/-- A string behind any padding: its length, its bytes, a zero. -/
def StringLayout (be : Bool) (s : String) (p : ℕ) (bs : List UInt8) : Prop :=
  (asBytes s).length < 2 ^ 32 ∧ ∃ pad, pad.length = padding p 4 ∧
    bs = pad ++ toBytes be 4 (asBytes s).length ++ (asBytes s ++ [0])

/-- A signature: its length in one byte, its bytes, a zero. -/
def signatureBytes (s : String) : List UInt8 :=
  [UInt8.ofNat (asBytes s).length] ++ (asBytes s ++ [0])

@[simp] theorem length_signatureBytes (s : String) :
    (signatureBytes s).length = (asBytes s).length + 2 := by
  simp only [signatureBytes, List.length_append, List.length_cons, List.length_nil]
  omega

namespace Value

mutual

/-- **The byte strings that decode to a value at the offset `p`.** -/
def Layout (be : Bool) : Value → ℕ → List UInt8 → Prop
  | byte v, _, bs => bs = [v]
  | boolean v, p, bs => IntLayout be 4 (if v then 1 else 0) p bs
  | int16 v, p, bs => IntLayout be 2 v.toUInt16.toNat p bs
  | uint16 v, p, bs => IntLayout be 2 v.toNat p bs
  | int32 v, p, bs => IntLayout be 4 v.toUInt32.toNat p bs
  | uint32 v, p, bs => IntLayout be 4 v.toNat p bs
  | int64 v, p, bs => IntLayout be 8 v.toUInt64.toNat p bs
  | uint64 v, p, bs => IntLayout be 8 v.toNat p bs
  | double v, p, bs => IntLayout be 8 v.toNat p bs
  | string s, p, bs => StringLayout be s p bs
  | objectPath path, p, bs => isValidObjectPath path.text = true ∧ StringLayout be path.text p bs
  | signature sig, _, bs => (parseSignature sig.text).isOk = true ∧ bs = signatureBytes sig.text
  | unixFd v, p, bs => IntLayout be 4 v.toNat p bs
  | array t vs, p, bs => (∀ v ∈ vs, v.valueType = t) ∧ ∃ pad pad' body,
      pad.length = padding p 4 ∧ pad'.length = padding (p + padding p 4 + 4) t.alignment ∧
      body.length ≤ maxArrayLen ∧ LayoutAll be vs (arrayStart t p) body ∧
      bs = pad ++ toBytes be 4 body.length ++ (pad' ++ body)
  | struct vs, p, bs => vs ≠ [] ∧ ∃ pad body, pad.length = padding p 8 ∧
      LayoutAll be vs (p + padding p 8) body ∧ bs = pad ++ body
  | dictEntry k v, p, bs => ∃ pad kb vb, pad.length = padding p 8 ∧
      Layout be k (p + padding p 8) kb ∧ Layout be v (p + padding p 8 + kb.length) vb ∧
      bs = pad ++ (kb ++ vb)
  | variant inner, p, bs =>
      parseSingleCompleteType inner.valueType.toSignatureString = .ok inner.valueType ∧
      ∃ body, Layout be inner (p + (inner.valueType.sigBytes.length + 2)) body ∧
        bs = signatureBytes inner.valueType.toSignatureString ++ body

/-- The byte strings that decode to values one after the other. -/
def LayoutAll (be : Bool) : List Value → ℕ → List UInt8 → Prop
  | [], _, bs => bs = []
  | v :: vs, p, bs => ∃ b bs', Layout be v p b ∧ LayoutAll be vs (p + b.length) bs' ∧
      bs = b ++ bs'

end

/-- **A layout is not empty**, so the loop over an array's elements moves
forward. -/
theorem Layout.ne_nil {be : Bool} {v : Value} {p : ℕ} {bs : List UInt8}
    (h : v.Layout be p bs) : bs ≠ [] := by
  have hint : ∀ {w n p bs}, 0 < w → IntLayout be w n p bs → bs ≠ [] := by
    rintro w n p bs hw ⟨pad, -, rfl⟩ hnil
    have := congrArg List.length hnil
    simp only [List.length_append, length_toBytes, List.length_nil] at this
    omega
  have hstr : ∀ {s p bs}, StringLayout be s p bs → bs ≠ [] := by
    rintro s p bs ⟨-, pad, -, rfl⟩
    simp
  induction v using Value.inductionOn generalizing p bs with
  | basic v hv =>
    cases basic_of_isBasic hv with
    | byte v =>
      rw [Layout] at h
      simp [h]
    | string s => exact hstr h
    | objectPath path => exact hstr h.2
    | signature sig =>
      rw [Layout] at h
      simp [h.2, signatureBytes]
    | _ => exact hint (by decide) h
  | array t vs _ =>
    obtain ⟨-, pad, pad', body, -, -, -, -, rfl⟩ := h
    intro hnil
    have := congrArg List.length hnil
    simp only [List.length_append, length_toBytes, List.length_nil] at this
    omega
  | struct fields ih =>
    obtain ⟨hne, pad, body, -, hbody, rfl⟩ := h
    cases fields with
    | nil => exact absurd rfl hne
    | cons v vs =>
      obtain ⟨b, bs', hb, -, rfl⟩ := hbody
      simp [ih v List.mem_cons_self hb]
  | dictEntry k v ihk _ =>
    obtain ⟨pad, kb, vb, -, hk, -, rfl⟩ := h
    simp [ihk hk]
  | variant inner _ =>
    obtain ⟨-, body, -, rfl⟩ := h
    simp [signatureBytes]

/-! ## Values of a fixed width -/

/-- The number that a value of a fixed width stands for. -/
def number : Value → ℕ
  | int16 v => v.toUInt16.toNat
  | uint16 v => v.toNat
  | int32 v => v.toUInt32.toNat
  | uint32 v => v.toNat
  | int64 v => v.toUInt64.toNat
  | uint64 v => v.toNat
  | double v => v.toNat
  | unixFd v => v.toNat
  | _ => 0

theorem number_mk {t : DType} {w n : ℕ} {mk : ℕ → Value}
    (h : Unmarshaler.fixed t = some (w, mk)) (hn : n < 256 ^ w) : (mk n).number = n := by
  cases t <;> cases h <;> simpa [number] using Nat.mod_eq_of_lt hn

section

variable {v : Value} {w p : ℕ} {mk : ℕ → Value} {be : Bool} {bs : List UInt8}

theorem number_lt (h : Unmarshaler.fixed v.valueType = some (w, mk)) : v.number < 256 ^ w := by
  cases v with
  | int16 v =>
    cases h
    exact v.toUInt16.toNat_lt
  | uint16 v =>
    cases h
    exact v.toNat_lt
  | int32 v =>
    cases h
    exact v.toUInt32.toNat_lt
  | uint32 v =>
    cases h
    exact v.toNat_lt
  | int64 v =>
    cases h
    exact v.toUInt64.toNat_lt
  | uint64 v =>
    cases h
    exact v.toNat_lt
  | double v =>
    cases h
    exact v.toNat_lt
  | unixFd v =>
    cases h
    exact v.toNat_lt
  | _ => cases h

theorem mk_number (h : Unmarshaler.fixed v.valueType = some (w, mk)) : mk v.number = v := by
  cases v <;> cases h <;> simp [number]

/-- **A layout of such a value is one of its number.** -/
theorem layout_iff_number (h : Unmarshaler.fixed v.valueType = some (w, mk)) :
    v.Layout be p bs ↔ IntLayout be w v.number p bs := by
  cases v <;> cases h <;> exact Iff.rfl

end

end Value

/-! ## Reading a layout -/

namespace Unmarshaler

/-- Reading an integer is reading one of its layouts. -/
theorem readUInt_eq_ok_layout {u u' : Unmarshaler} {w n : ℕ} (hw : 0 < w)
    (hpos : u.pos ≤ u.buf.length) : u.readUInt w = .ok (n, u') ↔
      n < 256 ^ w ∧ ∃ bs, IntLayout u.bigEndian w n u.pos bs ∧ Consumes u bs u' := by
  rw [readUInt_eq_ok hw hpos]
  constructor
  · rintro ⟨pad, bytes, hpad, hlen, rfl, hcons⟩
    have hbytes := toBytes_ofBytes u.bigEndian bytes
    rw [hlen] at hbytes
    exact ⟨hlen ▸ ofBytes_lt _ bytes, _, ⟨pad, hpad, by rw [hbytes]⟩, hcons⟩
  · rintro ⟨hn, bs, ⟨pad, hpad, rfl⟩, hcons⟩
    exact ⟨pad, _, hpad, length_toBytes .., ofBytes_toBytes _ hn, hcons⟩

theorem readU32_eq_ok_layout {u u' : Unmarshaler} {v : UInt32} (hpos : u.pos ≤ u.buf.length) :
    u.readU32 = .ok (v, u') ↔ ∃ bs, IntLayout u.bigEndian 4 v.toNat u.pos bs ∧
      Consumes u bs u' := by
  rw [readU32_eq_ok hpos]
  constructor
  · rintro ⟨pad, hpad, hcons⟩
    exact ⟨_, ⟨pad, hpad, rfl⟩, hcons⟩
  · rintro ⟨bs, ⟨pad, hpad, rfl⟩, hcons⟩
    exact ⟨pad, hpad, hcons⟩

theorem readRawString_eq_ok_layout {u u' : Unmarshaler} {s : String}
    (hpos : u.pos ≤ u.buf.length) : u.readRawString = .ok (s, u') ↔
      ∃ bs, StringLayout u.bigEndian s u.pos bs ∧ Consumes u bs u' := by
  rw [readRawString_eq_ok hpos]
  constructor
  · rintro ⟨hlt, pad, hpad, hcons⟩
    exact ⟨_, ⟨hlt, pad, hpad, rfl⟩, hcons⟩
  · rintro ⟨bs, ⟨hlt, pad, hpad, rfl⟩, hcons⟩
    exact ⟨hlt, pad, hpad, hcons⟩

/-- Reads of a value consume one of its layouts. -/
def ReadAsLayout (v : Value) : Prop :=
  ∀ {t : DType} {allow : Bool} {u u' : Unmarshaler}, t.WellFormed allow →
    u.pos ≤ u.buf.length → readValue t u = .ok (v, u') →
      v.valueType = t ∧ ∃ bs, v.Layout u.bigEndian u.pos bs ∧ Consumes u bs u'

/-- Every layout of a value is read as the value. -/
def LayoutRead (v : Value) : Prop :=
  ∀ {u u' : Unmarshaler} {bs : List UInt8}, u.pos ≤ u.buf.length →
    v.Layout u.bigEndian u.pos bs → Consumes u bs u' → readValue v.valueType u = .ok (v, u')

/-- For the first it is enough to look at reads of the value's own type. -/
theorem readAsLayout_of_valueType {v : Value}
    (h : ∀ {allow u u'}, v.valueType.WellFormed allow → u.pos ≤ u.buf.length →
      readLayer readValue v.valueType u = .ok (v, u') →
        ∃ bs, v.Layout u.bigEndian u.pos bs ∧ Consumes u bs u') : ReadAsLayout v := by
  intro t allow u u' hwf hpos hread
  obtain ⟨rfl, -⟩ := readValue_sound hpos hread
  rw [readValue_eq _ hpos] at hread
  exact ⟨rfl, h hwf hpos hread⟩

/-- The loop over a struct's fields consumes their layouts in sequence. -/
theorem layoutAll_of_readFields {vs : List Value} (ih : ∀ v ∈ vs, ReadAsLayout v)
    {ts : List DType} {u u' : Unmarshaler} (hwf : ∀ t ∈ ts, t.WellFormed false)
    (hpos : u.pos ≤ u.buf.length) (h : readFields readValue ts u = .ok (vs, u')) :
    ∃ bs, Value.LayoutAll u.bigEndian vs u.pos bs ∧ Consumes u bs u' := by
  induction ts generalizing vs u with
  | nil =>
    cases h
    exact ⟨[], rfl, by simpa using hpos, List.nil_prefix, rfl⟩
  | cons t ts iht =>
    obtain ⟨v, u₁, vs', hread, hreads, rfl⟩ := readFields_cons_eq_ok.mp h
    obtain ⟨-, b, hb, hcons⟩ := ih v List.mem_cons_self (hwf t List.mem_cons_self) hpos hread
    obtain ⟨bs, hbs, hcons'⟩ := iht (fun w hw => ih w (List.mem_cons_of_mem v hw))
      (fun t' ht' => hwf t' (List.mem_cons_of_mem t ht')) hcons.before.le_length hreads
    rw [hcons.bigEndian_eq, hcons.pos_eq] at hbs
    exact ⟨b ++ bs, ⟨b, bs, hb, hbs, rfl⟩, hcons.trans hcons'⟩

/-- The layouts of a struct's fields in sequence are read as the fields. -/
theorem readFields_of_layoutAll {vs : List Value} (ih : ∀ v ∈ vs, LayoutRead v)
    {u u' : Unmarshaler} {bs : List UInt8} (hpos : u.pos ≤ u.buf.length)
    (hbs : Value.LayoutAll u.bigEndian vs u.pos bs) (hcons : Consumes u bs u') :
    readFields readValue (Value.valueTypes vs) u = .ok (vs, u') := by
  induction vs generalizing u bs with
  | nil =>
    rw [Value.LayoutAll] at hbs
    subst hbs
    rw [hcons.2.2]
    rfl
  | cons v vs ihvs =>
    obtain ⟨b, bs', hb, hbs', rfl⟩ := hbs
    obtain ⟨hcons₁, hcons₂⟩ := hcons.split
    have hread := ih v List.mem_cons_self hpos hb hcons₁
    have hreads := ihvs (fun w hw => ih w (List.mem_cons_of_mem v hw)) hcons₁.before.le_length
      hbs' hcons₂
    rw [Value.valueTypes, readFields, hread, Outcome.ok_bind]
    simp only [hreads, Outcome.ok_bind]

/-- The loop over an array's elements consumes their layouts in sequence. -/
theorem layoutAll_of_readElements {vs : List Value} (ih : ∀ v ∈ vs, ReadAsLayout v) {t : DType}
    {stop rounds : ℕ} {u u' : Unmarshaler} (hwf : t.WellFormed true)
    (hpos : u.pos ≤ u.buf.length)
    (h : readElements (readValue t) stop rounds u = .ok (vs, u')) :
    (∀ v ∈ vs, v.valueType = t) ∧
      ∃ bs, Value.LayoutAll u.bigEndian vs u.pos bs ∧ Consumes u bs u' := by
  have hdone : ∀ {u : Unmarshaler}, u.pos ≤ u.buf.length →
      (∀ v ∈ ([] : List Value), v.valueType = t) ∧
        ∃ bs, Value.LayoutAll u.bigEndian [] u.pos bs ∧ Consumes u bs u :=
    fun hpos => ⟨by simp, [], rfl, by simpa using hpos, List.nil_prefix, rfl⟩
  induction rounds generalizing vs u with
  | zero =>
    rw [readElements] at h
    split at h
    · cases h
    · cases h
      exact hdone hpos
  | succ rounds ihr =>
    rcases readElements_succ_eq_ok.mp h with ⟨-, rfl, rfl⟩ | ⟨-, v, u₁, vs', hread, hreads, rfl⟩
    · exact hdone hpos
    · obtain ⟨htype, b, hb, hcons⟩ := ih v List.mem_cons_self hwf hpos hread
      obtain ⟨htypes, bs, hbs, hcons'⟩ := ihr (fun w hw => ih w (List.mem_cons_of_mem v hw))
        hcons.before.le_length hreads
      rw [hcons.bigEndian_eq, hcons.pos_eq] at hbs
      refine ⟨?_, b ++ bs, ⟨b, bs, hb, hbs, rfl⟩, hcons.trans hcons'⟩
      intro w hw
      rcases List.mem_cons.mp hw with rfl | hw
      · exact htype
      · exact htypes w hw

/-- The layouts of an array's elements in sequence are read as the elements,
and the loop has rounds enough: every element takes a byte at least. -/
theorem readElements_of_layoutAll {vs : List Value} (ih : ∀ v ∈ vs, LayoutRead v) {t : DType}
    (htypes : ∀ v ∈ vs, v.valueType = t) {rounds : ℕ} {u u' : Unmarshaler} {bs : List UInt8}
    (hpos : u.pos ≤ u.buf.length) (hrounds : bs.length ≤ rounds)
    (hbs : Value.LayoutAll u.bigEndian vs u.pos bs) (hcons : Consumes u bs u') :
    readElements (readValue t) (u.pos + bs.length) rounds u = .ok (vs, u') := by
  induction vs generalizing u bs rounds with
  | nil =>
    rw [Value.LayoutAll] at hbs
    subst hbs
    rw [hcons.2.2]
    cases rounds <;> simp [readElements]
  | cons v vs ihvs =>
    obtain ⟨b, bs', hb, hbs', rfl⟩ := hbs
    have hne := List.length_pos_iff.mpr hb.ne_nil
    rw [List.length_append] at hrounds ⊢
    obtain ⟨rounds, rfl⟩ : ∃ k, rounds = k + 1 := ⟨rounds - 1, by omega⟩
    obtain ⟨hcons₁, hcons₂⟩ := hcons.split
    have hread := ih v List.mem_cons_self hpos hb hcons₁
    rw [htypes v List.mem_cons_self] at hread
    have hrounds' : bs'.length ≤ rounds := by omega
    have hreads := ihvs (fun w hw => ih w (List.mem_cons_of_mem v hw))
      (fun w hw => htypes w (List.mem_cons_of_mem v hw)) hcons₁.before.le_length hrounds'
      hbs' hcons₂
    rw [advance_pos, Nat.add_assoc] at hreads
    rw [readElements, if_pos (by omega), hread, Outcome.ok_bind]
    simp only [hreads, Outcome.ok_bind]

section

variable {u u' : Unmarshaler}

/-- A value of a fixed width is read from the layouts of its number. -/
theorem readLayer_number {v : Value} {w : ℕ} {mk : ℕ → Value} (h : fixed v.valueType = some (w, mk))
    (hpos : u.pos ≤ u.buf.length) : readLayer readValue v.valueType u = .ok (v, u') ↔
      ∃ bs, v.Layout u.bigEndian u.pos bs ∧ Consumes u bs u' := by
  rw [readLayer_fixed h, Outcome.map_eq_ok]
  constructor
  · rintro ⟨⟨n, u₁⟩, hread, hu'⟩
    obtain ⟨hv, rfl⟩ := Prod.mk.inj hu'
    obtain ⟨hlt, bs, hbs, hcons⟩ := (readUInt_eq_ok_layout (fixed_width_pos h) hpos).mp hread
    have hn : v.number = n := hv ▸ Value.number_mk h hlt
    exact ⟨bs, (Value.layout_iff_number h).mpr (hn ▸ hbs), hcons⟩
  · rintro ⟨bs, hbs, hcons⟩
    refine ⟨(v.number, u'), ?_, by rw [Value.mk_number h]⟩
    exact (readUInt_eq_ok_layout (fixed_width_pos h) hpos).mpr
      ⟨Value.number_lt h, bs, (Value.layout_iff_number h).mp hbs, hcons⟩

theorem readLayer_boolean {b : Bool} (hpos : u.pos ≤ u.buf.length) :
    readLayer readValue .boolean u = .ok (.boolean b, u') ↔
      ∃ bs, (Value.boolean b).Layout u.bigEndian u.pos bs ∧ Consumes u bs u' := by
  simp only [readLayer, Value.Layout]
  constructor
  · intro h
    obtain ⟨⟨raw, u₁⟩, hread, h⟩ := Outcome.bind_eq_ok.mp h
    obtain ⟨bs, hbs, hcons⟩ := (readU32_eq_ok_layout hpos).mp hread
    simp only at h
    split at h
    · next hraw =>
      cases h
      exact ⟨bs, by simpa [hraw] using hbs, hcons⟩
    · split at h
      · next hraw =>
        cases h
        exact ⟨bs, by simpa [hraw] using hbs, hcons⟩
      · cases h
  · rintro ⟨bs, hbs, hcons⟩
    cases b with
    | false =>
      have hread := (readU32_eq_ok_layout (v := 0) hpos).mpr ⟨bs, hbs, hcons⟩
      simp [hread]
    | true =>
      have hread := (readU32_eq_ok_layout (v := 1) hpos).mpr ⟨bs, hbs, hcons⟩
      simp [hread]

theorem readLayer_objectPath {path : ObjectPath} (hpos : u.pos ≤ u.buf.length) :
    readLayer readValue .objectPath u = .ok (.objectPath path, u') ↔
      ∃ bs, (Value.objectPath path).Layout u.bigEndian u.pos bs ∧ Consumes u bs u' := by
  simp only [readLayer, Value.Layout, and_assoc, exists_and_left, ← readRawString_eq_ok_layout hpos]
  constructor
  · intro h
    obtain ⟨⟨s, u₁⟩, hread, h⟩ := Outcome.bind_eq_ok.mp h
    simp only at h
    split at h
    · next hvalid =>
      cases h
      exact ⟨hvalid, hread⟩
    · cases h
  · rintro ⟨hvalid, h⟩
    rw [h, Outcome.ok_bind]
    simp [hvalid]

theorem readLayer_signature {sig : Signature} :
    readLayer readValue .signature u = .ok (.signature sig, u') ↔
      ∃ bs, (Value.signature sig).Layout u.bigEndian u.pos bs ∧ Consumes u bs u' := by
  simp only [readLayer, Value.Layout]
  constructor
  · intro h
    obtain ⟨⟨s, u₁⟩, hread, h⟩ := Outcome.bind_eq_ok.mp h
    obtain ⟨sig', hsig, h⟩ := Outcome.bind_eq_ok.mp h
    cases h
    obtain ⟨rfl, hparse⟩ := Signature.new_eq_ok.mp hsig
    exact ⟨_, ⟨hparse, rfl⟩, (readSignatureStr_eq_ok.mp hread).2⟩
  · rintro ⟨bs, ⟨hparse, rfl⟩, hcons⟩
    obtain ⟨ts, hts⟩ := Outcome.isOk_iff.mp hparse
    have hlen := (parseSignature_reads hts).2.1
    have hread := readSignatureStr_eq_ok.mpr
      ⟨show (asBytes sig.text).length < 256 by rw [maxSignatureLen] at hlen; omega, hcons⟩
    rw [hread, Outcome.ok_bind]
    simp only [Signature.new_eq_ok.mpr ⟨rfl, hparse⟩, Outcome.ok_bind]

/-- A value of a basic type is read from its layouts. -/
theorem readLayer_basic {v : Value} (hv : v.valueType.isBasic = true)
    (hpos : u.pos ≤ u.buf.length) : readLayer readValue v.valueType u = .ok (v, u') ↔
      ∃ bs, v.Layout u.bigEndian u.pos bs ∧ Consumes u bs u' := by
  cases Value.basic_of_isBasic hv with
  | byte b =>
    simp only [Value.valueType, readLayer, Value.Layout, exists_eq_left]
    constructor
    · intro h
      obtain ⟨⟨b', u₁⟩, hread, h⟩ := Outcome.bind_eq_ok.mp h
      cases h
      exact readU8_eq_ok.mp hread
    · intro h
      rw [readU8_eq_ok.mpr h]
      rfl
  | boolean b => exact readLayer_boolean hpos
  | string s =>
    simp only [Value.valueType, readLayer, Value.Layout, ← readRawString_eq_ok_layout hpos]
    constructor
    · intro h
      obtain ⟨⟨s', u₁⟩, hread, h⟩ := Outcome.bind_eq_ok.mp h
      cases h
      exact hread
    · intro h
      rw [h]
      rfl
  | objectPath path => exact readLayer_objectPath hpos
  | signature sig => exact readLayer_signature
  | _ => exact readLayer_number rfl hpos

end

theorem wellFormed_of_isBasic {t : DType} (h : t.isBasic = true) (allow : Bool) :
    t.WellFormed allow := by
  cases t <;> simp_all [DType.WellFormed, DType.isBasic]

/-- **A read of a value consumes one of its layouts.** -/
theorem readAsLayout (v : Value) : ReadAsLayout v := by
  induction v using Value.inductionOn with
  | basic v hv =>
    exact readAsLayout_of_valueType fun _ hpos => (readLayer_basic hv hpos).mp
  | array t vs ih =>
    refine readAsLayout_of_valueType fun {allow u u'} hwf hpos h => ?_
    rw [Value.valueType, DType.WellFormed] at hwf
    rw [Value.valueType, readLayer_array_eq_ok] at h
    obtain ⟨len, u₁, u₂, _, hlen, hmax, halign, -, hvs, hstop, heq⟩ := h
    cases heq
    obtain ⟨pad, hpad, hcons₁⟩ := (readU32_eq_ok hpos).mp hlen
    obtain ⟨pad', hpad', hcons₂⟩ :=
      (align_eq_ok (alignment_pos t) hcons₁.before.le_length).mp halign
    have hcons := hcons₁.trans hcons₂
    have hpos₁ : u₁.pos = u.pos + padding u.pos 4 + 4 := by
      rw [hcons₁.pos_eq, List.length_append, length_toBytes, hpad, Nat.add_assoc]
    obtain ⟨htypes, body, hbody, hcons₃⟩ :=
      layoutAll_of_readElements ih hwf hcons₂.before.le_length hvs
    -- the declared length is the length of what the elements consumed
    have hlen' : len.toNat = body.length := by
      have := hcons₃.pos_eq
      omega
    rw [hlen'] at hcons hmax
    rw [hpos₁] at hpad'
    have hstart : u₂.pos = Value.arrayStart t u.pos := by
      rw [hcons₂.pos_eq, hpos₁, hpad', Value.arrayStart]
    rw [hcons.bigEndian_eq, hstart] at hbody
    refine ⟨_, ⟨htypes, pad, pad', body, hpad, hpad', hmax, hbody, rfl⟩, ?_⟩
    have := hcons.trans hcons₃
    rwa [List.append_assoc (pad ++ _) pad' body] at this
  | struct vs ih =>
    refine readAsLayout_of_valueType fun {allow u u'} hwf hpos h => ?_
    rw [Value.valueType, DType.WellFormed, DType.fieldsWellFormed_iff] at hwf
    rw [Value.valueType, readLayer_struct_eq_ok] at h
    obtain ⟨u₁, _, halign, hvs, heq⟩ := h
    cases heq
    obtain ⟨pad, hpad, hcons⟩ := (align_eq_ok (by decide) hpos).mp halign
    obtain ⟨body, hbody, hcons'⟩ := layoutAll_of_readFields ih hwf.2 hcons.before.le_length hvs
    rw [hcons.bigEndian_eq, hcons.pos_eq, hpad] at hbody
    have hne : vs ≠ [] := by
      rintro rfl
      exact hwf.1 rfl
    exact ⟨_, ⟨hne, pad, body, hpad, hbody, rfl⟩, hcons.trans hcons'⟩
  | dictEntry k v ihk ihv =>
    refine readAsLayout_of_valueType fun {allow u u'} hwf hpos h => ?_
    rw [Value.valueType, DType.WellFormed] at hwf
    have hkwf := wellFormed_of_isBasic hwf.2.1 false
    rw [Value.valueType, readLayer_dictEntry_eq_ok] at h
    obtain ⟨u₁, _, u₂, _, halign, hk, hv, heq⟩ := h
    cases heq
    obtain ⟨pad, hpad, hcons⟩ := (align_eq_ok (by decide) hpos).mp halign
    obtain ⟨-, kb, hkb, hcons₁⟩ := ihk hkwf hcons.before.le_length hk
    obtain ⟨-, vb, hvb, hcons₂⟩ := ihv hwf.2.2 hcons₁.before.le_length hv
    rw [hcons₁.bigEndian_eq, hcons.bigEndian_eq, hcons₁.pos_eq, hcons.pos_eq, hpad] at hvb
    rw [hcons.bigEndian_eq, hcons.pos_eq, hpad] at hkb
    exact ⟨_, ⟨pad, kb, vb, hpad, hkb, hvb, rfl⟩, hcons.trans (hcons₁.trans hcons₂)⟩
  | variant inner ih =>
    refine readAsLayout_of_valueType fun {allow u u'} _ hpos h => ?_
    rw [Value.valueType, readLayer_variant_eq_ok] at h
    obtain ⟨sig, u₁, t, _, hsig, ht, hinner, heq⟩ := h
    cases heq
    have hparse := parseSingleCompleteType_eq_ok.mp ht
    have htwf := (parseSignature_reads hparse).2.2 t List.mem_cons_self
    obtain ⟨-, hcons⟩ := readSignatureStr_eq_ok.mp hsig
    obtain ⟨rfl, body, hbody, hcons'⟩ := ih htwf hcons.before.le_length hinner
    -- the signature in the data is the one the value prints
    have htext : sig = inner.valueType.toSignatureString := by
      rw [← signatureOf_singleton, signatureOf_of_parseSignature hparse]
    subst htext
    refine ⟨_, ⟨ht, body, ?_, rfl⟩, hcons.trans hcons'⟩
    rw [hcons.bigEndian_eq, hcons.pos_eq] at hbody
    simpa [Nat.add_assoc, Nat.add_comm 1] using hbody

/-- **Every layout of a value is read as the value.** -/
theorem layoutRead (v : Value) : LayoutRead v := by
  induction v using Value.inductionOn with
  | basic v hv =>
    intro u u' bs hpos hbs hcons
    rw [readValue_eq _ hpos]
    exact (readLayer_basic hv hpos).mpr ⟨bs, hbs, hcons⟩
  | array t vs ih =>
    rintro u u' _ hpos ⟨htypes, pad, pad', body, hpad, hpad', hmax, hbody, rfl⟩ hcons
    obtain ⟨hcons₁, hcons⟩ := hcons.split
    obtain ⟨hcons₂, hcons₃⟩ := hcons.split
    have hnat : (UInt32.ofNat body.length).toNat = body.length :=
      UInt32.toNat_ofNat_of_lt' (lt_of_le_of_lt hmax (by decide))
    have hlen := (readU32_eq_ok (v := UInt32.ofNat body.length) hpos).mpr
      ⟨pad, hpad, by rw [hnat]; exact hcons₁⟩
    generalize hu₁ : u.advance (pad ++ toBytes u.bigEndian 4 body.length).length = u₁
      at hcons₁ hcons₂ hcons₃ hlen
    generalize hu₂ : u₁.advance pad'.length = u₂ at hcons₂ hcons₃
    have hpos₁ : u₁.pos = u.pos + padding u.pos 4 + 4 := by
      rw [hcons₁.pos_eq, List.length_append, length_toBytes, hpad, Nat.add_assoc]
    have halign := (align_eq_ok (alignment_pos t) hcons₁.before.le_length).mpr
      ⟨pad', by rw [hpad', hpos₁], hcons₂⟩
    have hneed : u₂.need body.length = .ok () := need_eq_ok.mpr hcons₃.1
    have hstart : u₂.pos = Value.arrayStart t u.pos := by
      rw [hcons₂.pos_eq, hpos₁, hpad', Value.arrayStart]
    have hbe : u₂.bigEndian = u.bigEndian := (hcons₁.trans hcons₂).bigEndian_eq
    have hvs := readElements_of_layoutAll ih htypes hcons₂.before.le_length le_rfl
      (by rw [hbe, hstart]; exact hbody) hcons₃
    rw [readValue_eq _ hpos, Value.valueType, readLayer_array_eq_ok]
    refine ⟨_, u₁, u₂, vs, hlen, ?_, halign, ?_, ?_, ?_, rfl⟩
    · rwa [hnat]
    · rwa [hnat]
    · rwa [hnat]
    · rw [hnat, hcons₃.pos_eq]
  | struct vs ih =>
    rintro u u' _ hpos ⟨-, pad, body, hpad, hbody, rfl⟩ hcons
    obtain ⟨hcons₁, hcons₂⟩ := hcons.split
    have halign := (align_eq_ok (by decide) hpos).mpr ⟨pad, hpad, hcons₁⟩
    have hvs := readFields_of_layoutAll ih hcons₁.before.le_length
      (by rw [advance_pos, hpad]; exact hbody) hcons₂
    rw [readValue_eq _ hpos, Value.valueType, readLayer_struct_eq_ok]
    exact ⟨_, vs, halign, hvs, rfl⟩
  | dictEntry k v ihk ihv =>
    rintro u u' _ hpos ⟨pad, kb, vb, hpad, hkb, hvb, rfl⟩ hcons
    obtain ⟨hcons, hcons'⟩ := hcons.split
    obtain ⟨hcons₁, hcons₂⟩ := hcons'.split
    have halign := (align_eq_ok (by decide) hpos).mpr ⟨pad, hpad, hcons⟩
    have hk := ihk hcons.before.le_length (by rw [advance_pos, hpad]; exact hkb) hcons₁
    have hv := ihv hcons₁.before.le_length
      (by rw [advance_pos, advance_pos, hpad]; exact hvb) hcons₂
    rw [readValue_eq _ hpos, Value.valueType, readLayer_dictEntry_eq_ok]
    exact ⟨_, k, _, v, halign, hk, hv, rfl⟩
  | variant inner ih =>
    rintro u u' _ hpos ⟨ht, body, hbody, rfl⟩ hcons
    obtain ⟨hcons₁, hcons₂⟩ := hcons.split
    have hlen := (parseSignature_reads (parseSingleCompleteType_eq_ok.mp ht)).2.1
    have hlt : (asBytes inner.valueType.toSignatureString).length < 256 := by
      rw [maxSignatureLen] at hlen
      omega
    have hsig := readSignatureStr_eq_ok.mpr ⟨hlt, hcons₁⟩
    have hinner := ih hcons₁.before.le_length (by simpa using hbody) hcons₂
    rw [readValue_eq _ hpos, Value.valueType, readLayer_variant_eq_ok]
    exact ⟨_, _, _, inner, hsig, ht, hinner, rfl⟩

/-- **A value of a parsed type is read exactly from one of its layouts.** -/
theorem readValue_eq_ok {t : DType} {allow : Bool} (hwf : t.WellFormed allow)
    {u u' : Unmarshaler} {v : Value} (hpos : u.pos ≤ u.buf.length) :
    readValue t u = .ok (v, u') ↔
      v.valueType = t ∧ ∃ bs, v.Layout u.bigEndian u.pos bs ∧ Consumes u bs u' := by
  constructor
  · exact readAsLayout v hwf hpos
  · rintro ⟨rfl, bs, hbs, hcons⟩
    exact layoutRead v hpos hbs hcons

/-- **Values are read in sequence exactly from a layout of the sequence.** -/
theorem readValues_eq_ok {ts : List DType} (hwf : ∀ t ∈ ts, t.WellFormed false)
    {u u' : Unmarshaler} {vs : List Value} (hpos : u.pos ≤ u.buf.length) :
    readValues ts u = .ok (vs, u') ↔ Value.valueTypes vs = ts ∧
      ∃ bs, Value.LayoutAll u.bigEndian vs u.pos bs ∧ Consumes u bs u' := by
  constructor
  · intro h
    exact ⟨(readFields_sound readValue_sound hpos h).1,
      layoutAll_of_readFields (fun v _ => readAsLayout v) hwf hpos h⟩
  · rintro ⟨rfl, bs, hbs, hcons⟩
    exact readFields_of_layoutAll (fun v _ => layoutRead v) hpos hbs hcons

end Unmarshaler

end Oxibus
