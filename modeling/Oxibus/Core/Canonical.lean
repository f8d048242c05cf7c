import Oxibus.Lib.Masked
import Oxibus.Core.Encoding

/-!
# One value, one encoding

The decoder looks at every byte it consumes except the padding, where it
takes any byte and the encoder writes zeros. That is all the freedom there
is: the byte strings from which a value is read at an offset are those that
differ in their padding from one of them (`Value.layout_iff_agreeOff`), and
at a congruent offset they are the same. So a decoded value that is written
again appends what was read, but for the padding
(`Unmarshaler.canonical_of_readValue`).

Which bytes are padding follows from the value and the offset
(`Value.padded`): the ones before a number, before the length of a string or
an array, before the first element of an array, and before a struct or a
dict entry.
-/

namespace Oxibus

namespace Value

/-! ## The padding of a value -/

/-- The bytes of a number of `w` bytes from the offset `p` on. -/
def paddedUInt (w p : ℕ) : List Bool := List.replicate (padding p w) true ++ List.replicate w false

/-- The bytes of a string from the offset `p` on. -/
def paddedString (s : String) (p : ℕ) : List Bool :=
  paddedUInt 4 p ++ List.replicate ((asBytes s).length + 1) false

mutual

/-- **Which bytes of a value are padding**, from the offset `p` on. -/
def padded : Value → ℕ → List Bool
  | byte _, _ => [false]
  | boolean _, p => paddedUInt 4 p
  | int16 _, p => paddedUInt 2 p
  | uint16 _, p => paddedUInt 2 p
  | int32 _, p => paddedUInt 4 p
  | uint32 _, p => paddedUInt 4 p
  | int64 _, p => paddedUInt 8 p
  | uint64 _, p => paddedUInt 8 p
  | double _, p => paddedUInt 8 p
  | string s, p => paddedString s p
  | objectPath path, p => paddedString path.text p
  | signature sig, _ => List.replicate ((asBytes sig.text).length + 2) false
  | unixFd _, p => paddedUInt 4 p
  | array t vs, p =>
    paddedUInt 4 p ++ (List.replicate (padding (p + padding p 4 + 4) t.alignment) true ++
      paddedAll vs (arrayStart t p))
  | struct vs, p => List.replicate (padding p 8) true ++ paddedAll vs (p + padding p 8)
  | dictEntry k v, p =>
    List.replicate (padding p 8) true ++ (padded k (p + padding p 8) ++
      padded v (p + padding p 8 + (padded k (p + padding p 8)).length))
  | variant inner, p =>
    List.replicate (inner.valueType.sigBytes.length + 2) false ++
      padded inner (p + (inner.valueType.sigBytes.length + 2))

/-- Which bytes of values one after the other are padding, the first from the
offset `p` on. -/
def paddedAll : List Value → ℕ → List Bool
  | [], _ => []
  | v :: vs, p => padded v p ++ paddedAll vs (p + (padded v p).length)

end

variable {be : Bool} {v : Value} {vs : List Value} {p q w n : ℕ} {bs bs' : List UInt8}

/-! ## Two layouts of a value -/

theorem agreeOff_of_intLayout (hw : w ∣ 8) (hq : q % 8 = p % 8) (h : IntLayout be w n p bs)
    (h' : IntLayout be w n q bs') : AgreeOff (paddedUInt w p) bs bs' := by
  obtain ⟨pad, hpad, rfl⟩ := h
  obtain ⟨pad', hpad', rfl⟩ := h'
  rw [padding_eq_of_mod hq hw] at hpad'
  exact (AgreeOff.replicate_true hpad hpad').append
    (AgreeOff.replicate_false_iff.mpr ⟨rfl, length_toBytes ..⟩)

theorem agreeOff_of_stringLayout {s : String} (hq : q % 8 = p % 8) (h : StringLayout be s p bs)
    (h' : StringLayout be s q bs') : AgreeOff (paddedString s p) bs bs' := by
  obtain ⟨-, pad, hpad, rfl⟩ := h
  obtain ⟨-, pad', hpad', rfl⟩ := h'
  refine (agreeOff_of_intLayout (by decide) hq ⟨pad, hpad, rfl⟩ ⟨pad', hpad', rfl⟩).append
    (AgreeOff.replicate_false_iff.mpr ⟨rfl, ?_⟩)
  rw [List.length_append, List.length_singleton]

/-- Layouts in sequence agree, when those of each value do. -/
theorem agreeOff_of_layoutAll_of
    (ih : ∀ v ∈ vs, ∀ {p q bs bs'}, v.Layout be p bs → v.Layout be q bs' → q % 8 = p % 8 →
      AgreeOff (v.padded p) bs bs')
    (h : LayoutAll be vs p bs) (h' : LayoutAll be vs q bs') (hq : q % 8 = p % 8) :
    AgreeOff (paddedAll vs p) bs bs' := by
  induction vs generalizing p q bs bs' with
  | nil =>
    rw [LayoutAll] at h h'
    rw [h, h']
    exact AgreeOff.refl rfl
  | cons v vs ihvs =>
    obtain ⟨b, bs, hb, hbs, rfl⟩ := h
    obtain ⟨b', bs', hb', hbs', rfl⟩ := h'
    have hhead := ih v List.mem_cons_self hb hb' hq
    rw [hhead.left] at hbs
    rw [hhead.right] at hbs'
    exact hhead.append (ihvs (fun w hw => ih w (List.mem_cons_of_mem v hw)) hbs hbs' (by omega))

/-- **Two layouts of a value at congruent offsets differ in their padding at
most.** -/
theorem Layout.agreeOff (h : v.Layout be p bs) (h' : v.Layout be q bs') (hq : q % 8 = p % 8) :
    AgreeOff (v.padded p) bs bs' := by
  induction v using Value.inductionOn generalizing p q bs bs' with
  | basic v hv =>
    cases basic_of_isBasic hv with
    | byte b =>
      rw [Layout] at h h'
      rw [h, h']
      exact AgreeOff.refl rfl
    | string s => exact agreeOff_of_stringLayout hq h h'
    | objectPath path => exact agreeOff_of_stringLayout hq h.2 h'.2
    | signature sig =>
      rw [h.2, h'.2]
      exact AgreeOff.replicate_false_iff.mpr ⟨rfl, length_signatureBytes _⟩
    | _ => exact agreeOff_of_intLayout (by decide) hq h h'
  | array t vs ih =>
    obtain ⟨-, pad₁, pad₂, body, hpad₁, hpad₂, -, hbody, rfl⟩ := h
    obtain ⟨-, pad₁', pad₂', body', hpad₁', hpad₂', -, hbody', rfl⟩ := h'
    have hels := agreeOff_of_layoutAll_of ih hbody hbody' (arrayStart_mod hq t)
    have h₁ : padding q 4 = padding p 4 := padding_eq_of_mod hq (by decide)
    have h₂ : padding (q + padding q 4 + 4) t.alignment
        = padding (p + padding p 4 + 4) t.alignment :=
      padding_eq_of_mod (by rw [h₁]; omega) (alignment_dvd t)
    -- the lengths that are written are those of what was read
    rw [← hels.length_eq]
    exact (agreeOff_of_intLayout (by decide) hq ⟨pad₁, hpad₁, rfl⟩ ⟨pad₁', hpad₁', rfl⟩).append
      ((AgreeOff.replicate_true hpad₂ (hpad₂'.trans h₂)).append hels)
  | struct vs ih =>
    obtain ⟨-, pad, body, hpad, hbody, rfl⟩ := h
    obtain ⟨-, pad', body', hpad', hbody', rfl⟩ := h'
    have h₁ : padding q 8 = padding p 8 := padding_eq_of_mod hq (by decide)
    exact (AgreeOff.replicate_true hpad (hpad'.trans h₁)).append
      (agreeOff_of_layoutAll_of ih hbody hbody' (by rw [h₁]; omega))
  | dictEntry k v ihk ihv =>
    obtain ⟨pad, kb, vb, hpad, hkb, hvb, rfl⟩ := h
    obtain ⟨pad', kb', vb', hpad', hkb', hvb', rfl⟩ := h'
    have h₁ : padding q 8 = padding p 8 := padding_eq_of_mod hq (by decide)
    have hk := ihk hkb hkb' (by rw [h₁]; omega)
    rw [hk.left] at hvb
    rw [hk.right] at hvb'
    exact (AgreeOff.replicate_true hpad (hpad'.trans h₁)).append
      (hk.append (ihv hvb hvb' (by rw [h₁]; omega)))
  | variant inner ih =>
    obtain ⟨-, body, hbody, rfl⟩ := h
    obtain ⟨-, body', hbody', rfl⟩ := h'
    refine AgreeOff.append (AgreeOff.replicate_false_iff.mpr ⟨rfl, ?_⟩) (ih hbody hbody' (by omega))
    rw [length_signatureBytes, DType.asBytes_toSignatureString]

/-! ## The padding is free -/

theorem intLayout_of_agreeOff (h : IntLayout be w n p bs)
    (hoff : AgreeOff (paddedUInt w p) bs bs') :
    IntLayout be w n p bs' := by
  obtain ⟨pad, hpad, rfl⟩ := h
  obtain ⟨pad', num, rfl, hpad', hnum⟩ :=
    hoff.exists_append (hpad.trans List.length_replicate.symm)
  obtain ⟨rfl, -⟩ := AgreeOff.replicate_false_iff.mp hnum
  exact ⟨pad', hpad'.right.trans List.length_replicate, rfl⟩

theorem stringLayout_of_agreeOff {s : String} (h : StringLayout be s p bs)
    (hoff : AgreeOff (paddedString s p) bs bs') : StringLayout be s p bs' := by
  obtain ⟨hlen, pad, hpad, rfl⟩ := h
  have hint : IntLayout be 4 (asBytes s).length p _ := ⟨pad, hpad, rfl⟩
  have hself := agreeOff_of_intLayout (by decide) rfl hint hint
  obtain ⟨num, text, rfl, hnum, htext⟩ := hoff.exists_append hself.left
  obtain ⟨rfl, -⟩ := AgreeOff.replicate_false_iff.mp htext
  obtain ⟨pad', hpad', rfl⟩ := intLayout_of_agreeOff hint hnum
  exact ⟨hlen, pad', hpad', rfl⟩

theorem layoutAll_of_agreeOff_of
    (ih : ∀ v ∈ vs, ∀ {p bs bs'}, v.Layout be p bs → AgreeOff (v.padded p) bs bs' →
      v.Layout be p bs')
    (h : LayoutAll be vs p bs) (hoff : AgreeOff (paddedAll vs p) bs bs') :
    LayoutAll be vs p bs' := by
  induction vs generalizing p bs bs' with
  | nil => exact List.eq_nil_of_length_eq_zero hoff.right
  | cons v vs ihvs =>
    obtain ⟨b, bs, hb, hbs, rfl⟩ := h
    have hlen := (hb.agreeOff hb rfl).left
    obtain ⟨b', bs', rfl, hhead, htail⟩ := hoff.exists_append hlen
    rw [hlen] at hbs
    refine ⟨b', bs', ih v List.mem_cons_self hb hhead, ?_, rfl⟩
    rw [hhead.right]
    exact ihvs (fun w hw => ih w (List.mem_cons_of_mem v hw)) hbs htail

/-- **Other bytes in the padding make no difference.** -/
theorem Layout.of_agreeOff (h : v.Layout be p bs) (hoff : AgreeOff (v.padded p) bs bs') :
    v.Layout be p bs' := by
  induction v using Value.inductionOn generalizing p bs bs' with
  | basic v hv =>
    cases basic_of_isBasic hv with
    | byte b => exact (AgreeOff.replicate_false_iff (n := 1).mp hoff).1.symm.trans h
    | string s => exact stringLayout_of_agreeOff h hoff
    | objectPath path => exact ⟨h.1, stringLayout_of_agreeOff h.2 hoff⟩
    | signature sig => exact ⟨h.1, (AgreeOff.replicate_false_iff.mp hoff).1.symm.trans h.2⟩
    | _ => exact intLayout_of_agreeOff h hoff
  | array t vs ih =>
    obtain ⟨htypes, pad₁, pad₂, body, hpad₁, hpad₂, hmax, hbody, rfl⟩ := h
    have hint : IntLayout be 4 body.length p _ := ⟨pad₁, hpad₁, rfl⟩
    have hself := agreeOff_of_intLayout (by decide) rfl hint hint
    obtain ⟨num, rest, rfl, hnum, hrest⟩ := hoff.exists_append hself.left
    obtain ⟨pad₂', body', rfl, hpad₂', hels⟩ :=
      hrest.exists_append (hpad₂.trans List.length_replicate.symm)
    obtain ⟨pad₁', hpad₁', rfl⟩ := intLayout_of_agreeOff hint hnum
    rw [hels.length_eq] at hmax ⊢
    exact ⟨htypes, pad₁', pad₂', body', hpad₁', hpad₂'.right.trans List.length_replicate, hmax,
      layoutAll_of_agreeOff_of ih hbody hels, rfl⟩
  | struct vs ih =>
    obtain ⟨hne, pad, body, hpad, hbody, rfl⟩ := h
    obtain ⟨pad', body', rfl, hpad', hels⟩ :=
      hoff.exists_append (hpad.trans List.length_replicate.symm)
    exact ⟨hne, pad', body', hpad'.right.trans List.length_replicate,
      layoutAll_of_agreeOff_of ih hbody hels, rfl⟩
  | dictEntry k v ihk ihv =>
    obtain ⟨pad, kb, vb, hpad, hkb, hvb, rfl⟩ := h
    have hlen := (hkb.agreeOff hkb rfl).left
    obtain ⟨pad', rest, rfl, hpad', hrest⟩ :=
      hoff.exists_append (hpad.trans List.length_replicate.symm)
    obtain ⟨kb', vb', rfl, hk, hv⟩ := hrest.exists_append hlen
    rw [hlen] at hvb
    refine ⟨pad', kb', vb', hpad'.right.trans List.length_replicate, ihk hkb hk, ?_, rfl⟩
    rw [hk.right]
    exact ihv hvb hv
  | variant inner ih =>
    obtain ⟨ht, body, hbody, rfl⟩ := h
    have hlen : (signatureBytes inner.valueType.toSignatureString).length
        = inner.valueType.sigBytes.length + 2 := by
      rw [length_signatureBytes, DType.asBytes_toSignatureString]
    obtain ⟨sig, body', rfl, hsig, hinner⟩ :=
      hoff.exists_append (hlen.trans List.length_replicate.symm)
    obtain ⟨rfl, -⟩ := AgreeOff.replicate_false_iff.mp hsig
    exact ⟨ht, body', ih hbody hinner, rfl⟩

/-- **The layouts of a value are those that differ in their padding from one.** -/
theorem layout_iff_agreeOff (h : v.Layout be p bs) :
    v.Layout be p bs' ↔ AgreeOff (v.padded p) bs bs' :=
  ⟨fun h' => h.agreeOff h' rfl, h.of_agreeOff⟩

end Value

namespace Unmarshaler

/-! ## Where a value can start -/

variable {t : DType} {allow : Bool} {u u' : Unmarshaler} {n w : ℕ} {r : Value × Unmarshaler}

/-- Alignment moves forward in the same buffer. -/
theorem le_of_align (h : u.align n = .ok u') : u.pos ≤ u'.pos ∧ u'.buf = u.buf := by
  unfold align at h
  simp only at h
  split at h
  · obtain ⟨_, -, h⟩ := Outcome.bind_eq_ok.mp h
    cases h
    exact ⟨Nat.le_add_right _ _, rfl⟩
  · cases h
    exact ⟨le_rfl, rfl⟩

theorem pos_lt_of_align (h : u.align n = .ok u') (hlt : u'.pos < u'.buf.length) :
    u.pos < u.buf.length := by
  obtain ⟨hle, hbuf⟩ := le_of_align h
  exact hbuf ▸ lt_of_le_of_lt hle hlt

theorem pos_lt_of_readUInt {x : ℕ × Unmarshaler} (hw : 0 < w) (h : u.readUInt w = .ok x) :
    u.pos < u.buf.length := by
  obtain ⟨u₁, halign, h⟩ := Outcome.bind_eq_ok.mp h
  obtain ⟨_, hneed, -⟩ := Outcome.bind_eq_ok.mp h
  have hle := need_eq_ok.mp hneed
  exact pos_lt_of_align halign (by omega)

theorem pos_lt_of_readU32 {x : UInt32 × Unmarshaler} (h : u.readU32 = .ok x) :
    u.pos < u.buf.length := by
  obtain ⟨y, hy, -⟩ := Outcome.bind_eq_ok.mp h
  exact pos_lt_of_readUInt (by decide) hy

theorem pos_lt_of_readRawString {x : String × Unmarshaler} (h : u.readRawString = .ok x) :
    u.pos < u.buf.length := by
  obtain ⟨y, hy, -⟩ := Outcome.bind_eq_ok.mp h
  exact pos_lt_of_readU32 hy

theorem pos_lt_of_readSignatureStr {x : String × Unmarshaler} (h : u.readSignatureStr = .ok x) :
    u.pos < u.buf.length := by
  have hle := (readSignatureStr_eq_ok.mp h).2.1
  simp only [List.length_append, List.length_cons, List.length_nil] at hle
  omega

/-- **A value starts before the end of the buffer.** -/
theorem pos_lt_of_readValueN (hwf : t.WellFormed allow) (h : readValueN n t u = .ok r) :
    u.pos < u.buf.length := by
  induction n generalizing t allow u r with
  | zero => cases h
  | succ n ih =>
    rw [readValueN] at h
    cases t with
    | byte =>
      obtain ⟨⟨b, u₁⟩, hb, -⟩ := Outcome.bind_eq_ok.mp h
      have hle := (readU8_eq_ok.mp hb).1
      rw [List.length_singleton] at hle
      exact hle
    | boolean =>
      obtain ⟨x, hx, -⟩ := Outcome.bind_eq_ok.mp h
      exact pos_lt_of_readU32 hx
    | string =>
      obtain ⟨x, hx, -⟩ := Outcome.bind_eq_ok.mp h
      exact pos_lt_of_readRawString hx
    | objectPath =>
      obtain ⟨x, hx, -⟩ := Outcome.bind_eq_ok.mp h
      exact pos_lt_of_readRawString hx
    | signature =>
      obtain ⟨x, hx, -⟩ := Outcome.bind_eq_ok.mp h
      exact pos_lt_of_readSignatureStr hx
    | array elem =>
      obtain ⟨x, hx, -⟩ := Outcome.bind_eq_ok.mp h
      exact pos_lt_of_readU32 hx
    | struct ts =>
      rw [DType.WellFormed, DType.fieldsWellFormed_iff] at hwf
      obtain ⟨u₁, halign, h⟩ := Outcome.bind_eq_ok.mp h
      obtain ⟨x, hx, -⟩ := Outcome.bind_eq_ok.mp h
      -- the first field is read from behind the padding
      cases ts with
      | nil => exact absurd rfl hwf.1
      | cons t ts =>
        obtain ⟨y, hy, -⟩ := Outcome.bind_eq_ok.mp hx
        exact pos_lt_of_align halign (ih (hwf.2 t List.mem_cons_self) hy)
    | dictEntry kt vt =>
      rw [DType.WellFormed] at hwf
      obtain ⟨u₁, halign, h⟩ := Outcome.bind_eq_ok.mp h
      obtain ⟨x, hx, -⟩ := Outcome.bind_eq_ok.mp h
      exact pos_lt_of_align halign (ih (wellFormed_of_isBasic hwf.2.1 false) hx)
    | variant =>
      obtain ⟨x, hx, -⟩ := Outcome.bind_eq_ok.mp h
      exact pos_lt_of_readSignatureStr hx
    | _ =>
      rw [readLayer_fixed rfl, Outcome.map_eq_ok] at h
      obtain ⟨x, hx, -⟩ := h
      exact pos_lt_of_readUInt (by decide) hx

/-! ## Writing what was read -/

/-- **Encoding is canonical**: what is written for a decoded value, anywhere
where it is padded alike, is what was read but for the padding. -/
theorem canonical_of_readValue (buf : List UInt8) (be : Bool) (p : ℕ) (sig : String)
    (types : List DType) (hsig : parseSignature sig = .ok types) (t : DType) (ht : t ∈ types)
    (v : Value) (u : Unmarshaler) (h : readValue t ⟨buf, p, be⟩ = .ok (v, u)) :
    v.valueType = t ∧ ∀ m m' : Marshaler, m.bigEndian = be → m.buf.length % 8 = p % 8 →
      Marshaler.writeValue v m = .ok m' →
        ∃ out, m'.buf = m.buf ++ out ∧ p + out.length = u.pos ∧
          ∀ i < out.length, (v.padded p)[i]? = some false → out[i]? = buf[p + i]? := by
  have hwf := (parseSignature_reads hsig).2.2 t ht
  have hpos : p ≤ buf.length := (pos_lt_of_readValueN hwf h).le
  obtain ⟨htype, bs, hbs, hcons⟩ := (readValue_eq_ok hwf hpos).mp h
  refine ⟨htype, fun m m' hbe hmod hwrite => ?_⟩
  rw [Marshaler.writeValue_eq, Outcome.map_eq_ok] at hwrite
  obtain ⟨out, hout, rfl⟩ := hwrite
  have hfits : v.Fits := Value.fits_of_layout hbs
  have hlayout := Value.layout_of_encode hfits hout
  rw [hbe] at hlayout
  have hoff := hbs.agreeOff hlayout hmod
  refine ⟨out, rfl, ?_, fun i hi hread => ?_⟩
  · rw [hcons.pos_eq, hoff.length_eq]
  · -- the bytes that were consumed stand at their offset in the buffer
    obtain ⟨cs, hcs⟩ := hcons.2.1
    have hdrop : buf.drop p = bs ++ cs := hcs.symm
    rw [← List.getElem?_drop, hdrop, List.getElem?_append_left (hoff.length_eq ▸ hi)]
    exact (hoff.agree i hread).symm

/-- A pair that stands behind padding full of nines is written behind zeros. -/
theorem canonical_of_pair : ∃ out,
    [0, 0, 0, 0, 0, 0, 0, 0, 5, 0, 0, 0, 1, 0, 0, 0] = [0] ++ out ∧ 1 + out.length = 16 ∧
      ∀ i < out.length, ((Value.struct [.byte 5, .uint32 1]).padded 1)[i]? = some false →
        out[i]? = ([9, 9, 9, 9, 9, 9, 9, 9, 5, 9, 9, 9, 1, 0, 0, 0] : List UInt8)[1 + i]? :=
  (canonical_of_readValue [9, 9, 9, 9, 9, 9, 9, 9, 5, 9, 9, 9, 1, 0, 0, 0] false 1 "(yu)"
    [.struct [.byte, .uint32]] rfl _ List.mem_cons_self (.struct [.byte 5, .uint32 1]) _ rfl).2
      ⟨[0], false⟩ ⟨_, false⟩ rfl rfl rfl

end Unmarshaler

end Oxibus
