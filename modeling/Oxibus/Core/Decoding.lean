import Oxibus.Core.Unmarshal

/-!
# What the decoder reads

A read that succeeds moves the position over some bytes and changes nothing
else. `Consumes u bs u'` says which bytes; a sequence of reads consumes the
concatenation. The primitive reads succeed exactly where the bytes ahead
have the right form, and it is these characterisations that both the round
trip and its converse rest on.

The second half is about the recursion. `readLayer_sound` and
`readLayer_congr` say what one level of `read_value` does with the function
it calls, and `readValue_eq` follows: the decoder satisfies the recursive
equation the source writes down.
-/

namespace Oxibus

namespace Unmarshaler

/-! ## What a read consumes -/

/-- The decoder `n` bytes further on. -/
def advance (u : Unmarshaler) (n : ℕ) : Unmarshaler := { u with pos := u.pos + n }

/-- The bytes not yet read. -/
def rest (u : Unmarshaler) : List UInt8 := u.buf.drop u.pos

@[simp] theorem advance_buf (u : Unmarshaler) (n : ℕ) : (u.advance n).buf = u.buf := rfl

@[simp] theorem advance_pos (u : Unmarshaler) (n : ℕ) : (u.advance n).pos = u.pos + n := rfl

@[simp] theorem advance_bigEndian (u : Unmarshaler) (n : ℕ) :
    (u.advance n).bigEndian = u.bigEndian := rfl

@[simp] theorem advance_zero (u : Unmarshaler) : u.advance 0 = u := rfl

@[simp] theorem advance_advance (u : Unmarshaler) (m n : ℕ) :
    (u.advance m).advance n = u.advance (m + n) := by
  simp [advance, Nat.add_assoc]

/-- **`u'` is `u` after the bytes `bs`**, which come next in the buffer. -/
def Consumes (u : Unmarshaler) (bs : List UInt8) (u' : Unmarshaler) : Prop :=
  u.pos + bs.length ≤ u.buf.length ∧ bs <+: u.rest ∧ u' = u.advance bs.length

namespace Consumes

variable {u u₁ u₂ : Unmarshaler} {as bs : List UInt8}

theorem buf_eq (h : Consumes u bs u₁) : u₁.buf = u.buf := by rw [h.2.2, advance_buf]

theorem bigEndian_eq (h : Consumes u bs u₁) : u₁.bigEndian = u.bigEndian := by
  rw [h.2.2, advance_bigEndian]

theorem pos_eq (h : Consumes u bs u₁) : u₁.pos = u.pos + bs.length := by
  rw [h.2.2, advance_pos]

theorem le_length (h : Consumes u bs u₁) : u₁.pos ≤ u.buf.length := h.pos_eq ▸ h.1

theorem rest_eq (h : Consumes u bs u₁) : u.rest = bs ++ u₁.rest := by
  obtain ⟨-, ⟨cs, hcs⟩, rfl⟩ := h
  rw [← hcs]
  congr 1
  rw [rest, advance_buf, advance_pos, ← List.drop_drop, ← rest, ← hcs, List.drop_left]

/-- Consuming one list and then another is consuming both. -/
theorem trans (h : Consumes u as u₁) (h' : Consumes u₁ bs u₂) : Consumes u (as ++ bs) u₂ := by
  have hrest : u.rest = as ++ bs ++ u₂.rest := by
    rw [h.rest_eq, h'.rest_eq, List.append_assoc]
  refine ⟨?_, ⟨u₂.rest, hrest.symm⟩, ?_⟩
  · have := h'.1
    rw [h.pos_eq, h.buf_eq] at this
    rw [List.length_append]
    omega
  · rw [h'.2.2, h.2.2, advance_advance, List.length_append]

/-- What was consumed can be split. -/
theorem split (h : Consumes u (as ++ bs) u₂) :
    Consumes u as (u.advance as.length) ∧ Consumes (u.advance as.length) bs u₂ := by
  obtain ⟨hlen, hpre, rfl⟩ := h
  rw [List.length_append] at hlen
  have has : Consumes u as (u.advance as.length) :=
    ⟨by omega, (List.prefix_append as bs).trans hpre, rfl⟩
  refine ⟨has, ?_, ?_, ?_⟩
  · rw [advance_pos, advance_buf]
    omega
  · rw [has.rest_eq] at hpre
    exact (List.prefix_append_right_inj as).mp hpre
  · rw [advance_advance, List.length_append]

/-- The same, with the state in between left unnamed. -/
theorem exists_split (h : Consumes u (as ++ bs) u₂) :
    ∃ u₁, Consumes u as u₁ ∧ Consumes u₁ bs u₂ :=
  ⟨_, h.split⟩

end Consumes

/-- Bytes that lie ahead are consumed. -/
theorem consumes_of_rest {u : Unmarshaler} {bs cs : List UInt8} (hpos : u.pos ≤ u.buf.length)
    (h : u.rest = bs ++ cs) : Consumes u bs (u.advance bs.length) := by
  refine ⟨?_, ⟨cs, h.symm⟩, rfl⟩
  have := congrArg List.length h
  rw [rest, List.length_drop, List.length_append] at this
  omega

/-- The next `n` bytes are consumed, if there are so many. -/
theorem consumes_take {u : Unmarshaler} {n : ℕ} (h : u.pos + n ≤ u.buf.length) :
    Consumes u (u.rest.take n) (u.advance n) ∧ (u.rest.take n).length = n := by
  have hlen : (u.rest.take n).length = n := by
    rw [List.length_take, rest, List.length_drop]
    omega
  refine ⟨⟨by rw [hlen]; exact h, List.take_prefix _ _, by rw [hlen]⟩, hlen⟩

/-- Two lists of one length consumed from one place are the same. -/
theorem Consumes.unique {u u₁ u₂ : Unmarshaler} {as bs : List UInt8} (h : Consumes u as u₁)
    (h' : Consumes u bs u₂) (hlen : as.length = bs.length) : as = bs ∧ u₁ = u₂ := by
  obtain ⟨-, hpre, rfl⟩ := h
  obtain ⟨-, hpre', rfl⟩ := h'
  refine ⟨?_, by rw [hlen]⟩
  rw [List.prefix_iff_eq_take] at hpre hpre'
  rw [hpre, hpre', hlen]

@[simp] theorem need_eq_ok {u : Unmarshaler} {n : ℕ} :
    u.need n = .ok () ↔ u.pos + n ≤ u.buf.length := by
  unfold need
  split
  · simp only [reduceCtorEq, false_iff]
    omega
  · simp only [true_iff]
    omega

/-- **Aligning consumes the padding**, whatever its bytes are. -/
theorem align_eq_ok {u u' : Unmarshaler} {n : ℕ} (hn : 0 < n) (hpos : u.pos ≤ u.buf.length) :
    u.align n = .ok u' ↔ ∃ pad, pad.length = padding u.pos n ∧ Consumes u pad u' := by
  unfold align
  by_cases h : u.pos % n = 0
  · rw [if_neg (by simpa using h), padding_eq_zero h]
    constructor
    · intro hu
      cases hu
      exact ⟨[], rfl, by simpa using hpos, List.nil_prefix, rfl⟩
    · rintro ⟨pad, hlen, hcons⟩
      rw [hcons.2.2, hlen, advance_zero]
  · rw [if_pos h, ← padding_eq_sub hn h]
    constructor
    · intro hu
      obtain ⟨_, hneed, hu⟩ := Outcome.bind_eq_ok.mp hu
      obtain ⟨hcons, hlen⟩ := consumes_take (need_eq_ok.mp hneed)
      cases hu
      exact ⟨_, hlen, hcons⟩
    · rintro ⟨pad, hlen, hcons⟩
      have hneed : u.need (padding u.pos n) = .ok () := need_eq_ok.mpr (hlen ▸ hcons.1)
      simp only [hneed, Outcome.ok_bind, hcons.2.2, hlen]
      rfl

theorem slice_eq_ok {u u' : Unmarshaler} {n : ℕ} {bs : List UInt8} :
    u.slice u.pos (u.pos + n) = .ok bs ∧ u' = u.advance n
      ↔ bs.length = n ∧ Consumes u bs u' := by
  unfold slice
  constructor
  · rintro ⟨h, rfl⟩
    split at h
    · next hle =>
      obtain ⟨hcons, hlen⟩ := consumes_take hle.2
      rw [Nat.add_sub_cancel_left] at h
      cases h
      exact ⟨hlen, hcons⟩
    · cases h
  · rintro ⟨rfl, hlen, hpre, rfl⟩
    rw [if_pos ⟨by omega, hlen⟩, Nat.add_sub_cancel_left]
    exact ⟨by rw [List.prefix_iff_eq_take.mp hpre]; simp [rest], rfl⟩

theorem byteAt_eq_ok {u : Unmarshaler} {b : UInt8} :
    u.byteAt u.pos = .ok b ↔ Consumes u [b] (u.advance 1) := by
  have hget : u.buf[u.pos]? = some b ↔ [b] <+: u.rest := by
    rw [rest, ← List.head?_drop, List.head?_eq_some_iff]
    constructor
    · rintro ⟨cs, hcs⟩
      exact ⟨cs, hcs.symm⟩
    · rintro ⟨cs, hcs⟩
      exact ⟨cs, hcs.symm⟩
  have hlt : u.buf[u.pos]? = some b → u.pos + 1 ≤ u.buf.length := by
    intro h
    obtain ⟨h, -⟩ := List.getElem?_eq_some_iff.mp h
    exact h
  unfold byteAt Consumes
  constructor
  · intro h
    split at h
    · next hb =>
      cases h
      exact ⟨hlt hb, hget.mp hb, rfl⟩
    · cases h
  · rintro ⟨-, hpre, -⟩
    rw [hget.mpr hpre]

theorem readU8_eq_ok {u u' : Unmarshaler} {v : UInt8} :
    u.readU8 = .ok (v, u') ↔ Consumes u [v] u' := by
  unfold readU8
  constructor
  · intro h
    obtain ⟨_, -, h⟩ := Outcome.bind_eq_ok.mp h
    obtain ⟨b, hb, h⟩ := Outcome.bind_eq_ok.mp h
    cases h
    exact byteAt_eq_ok.mp hb
  · intro h
    obtain rfl : u' = u.advance 1 := h.2.2
    have hneed : u.need 1 = .ok () := need_eq_ok.mpr h.1
    rw [hneed, Outcome.ok_bind, byteAt_eq_ok.mpr h]
    rfl

/-- **An integer is read from its padding and its bytes.** -/
theorem readUInt_eq_ok {u u' : Unmarshaler} {w n : ℕ} (hw : 0 < w)
    (hpos : u.pos ≤ u.buf.length) :
    u.readUInt w = .ok (n, u') ↔ ∃ pad bytes, pad.length = padding u.pos w ∧
      bytes.length = w ∧ ofBytes u.bigEndian bytes = n ∧ Consumes u (pad ++ bytes) u' := by
  unfold readUInt
  constructor
  · intro h
    obtain ⟨u₁, halign, h⟩ := Outcome.bind_eq_ok.mp h
    obtain ⟨_, -, h⟩ := Outcome.bind_eq_ok.mp h
    obtain ⟨bytes, hslice, h⟩ := Outcome.bind_eq_ok.mp h
    obtain ⟨pad, hpad, hcons⟩ := (align_eq_ok hw hpos).mp halign
    obtain ⟨hlen, hcons'⟩ := slice_eq_ok.mp ⟨hslice, rfl⟩
    cases h
    exact ⟨pad, bytes, hpad, hlen, by rw [hcons.bigEndian_eq], hcons.trans hcons'⟩
  · rintro ⟨pad, bytes, hpad, hlen, rfl, hcons⟩
    obtain ⟨hcons, hcons'⟩ := hcons.split
    obtain ⟨hslice, hu'⟩ := slice_eq_ok.mpr ⟨hlen, hcons'⟩
    rw [(align_eq_ok hw hpos).mpr ⟨pad, hpad, hcons⟩, Outcome.ok_bind,
      need_eq_ok.mpr (hlen ▸ hcons'.1), Outcome.ok_bind, hslice, Outcome.ok_bind, hu']
    rfl

theorem readU32_eq_ok {u u' : Unmarshaler} {v : UInt32} (hpos : u.pos ≤ u.buf.length) :
    u.readU32 = .ok (v, u') ↔ ∃ pad, pad.length = padding u.pos 4 ∧
      Consumes u (pad ++ toBytes u.bigEndian 4 v.toNat) u' := by
  unfold readU32
  constructor
  · intro h
    obtain ⟨⟨n, u₁⟩, hread, h⟩ := Outcome.bind_eq_ok.mp h
    obtain ⟨pad, bytes, hpad, hlen, rfl, hcons⟩ := (readUInt_eq_ok (by decide) hpos).mp hread
    cases h
    refine ⟨pad, hpad, ?_⟩
    have hlt : ofBytes u.bigEndian bytes < 2 ^ 32 := by
      have := ofBytes_lt u.bigEndian bytes
      rwa [hlen] at this
    have hbytes := toBytes_ofBytes u.bigEndian bytes
    rw [hlen] at hbytes
    rwa [UInt32.toNat_ofNat_of_lt' hlt, hbytes]
  · rintro ⟨pad, hpad, hcons⟩
    have hread := (readUInt_eq_ok (n := v.toNat) (by decide) hpos).mpr
      ⟨pad, _, hpad, length_toBytes .., ofBytes_toBytes _ v.toNat_lt, hcons⟩
    simp [hread]

theorem readText_eq_ok {u u' : Unmarshaler} {len : ℕ} {reason s : String} :
    u.readText len reason = .ok (s, u') ↔
      (asBytes s).length = len ∧ Consumes u (asBytes s ++ [0]) u' := by
  unfold readText
  constructor
  · intro h
    obtain ⟨_, hneed, h⟩ := Outcome.bind_eq_ok.mp h
    obtain ⟨bytes, hslice, h⟩ := Outcome.bind_eq_ok.mp h
    obtain ⟨s', hs', h⟩ := Outcome.bind_eq_ok.mp h
    obtain ⟨nul, hnul, h⟩ := Outcome.bind_eq_ok.mp h
    split at h
    · cases h
    · next hzero =>
      cases h
      obtain ⟨hlen, hcons⟩ := slice_eq_ok.mp ⟨hslice, rfl⟩
      have hs := asBytes_of_fromUtf8 (Outcome.ofOption_eq_ok.mp hs')
      have hnul' : (u.advance len).byteAt (u.advance len).pos = .ok nul := hnul
      obtain rfl : nul = 0 := not_not.mp hzero
      rw [hs]
      exact ⟨hlen, hcons.trans (byteAt_eq_ok.mp hnul')⟩
  · rintro ⟨rfl, hcons⟩
    obtain ⟨hcons₁, hcons₂⟩ := hcons.split
    obtain ⟨hslice, -⟩ := slice_eq_ok.mpr ⟨rfl, hcons₁⟩
    obtain rfl : u' = u.advance ((asBytes s).length + 1) := by
      rw [hcons.2.2, List.length_append]
      rfl
    have hbyte : u.byteAt (u.pos + (asBytes s).length) = .ok 0 := byteAt_eq_ok.mpr hcons₂
    have hneed : u.need ((asBytes s).length + 1) = .ok () := by
      rw [need_eq_ok]
      simpa using hcons.1
    rw [hneed, Outcome.ok_bind, hslice, Outcome.ok_bind, fromUtf8_asBytes]
    simp only [Outcome.ofOption, Outcome.ok_bind, hbyte]
    rfl

/-- **A string is read from its padding, its length, its bytes and a
zero.** -/
theorem readRawString_eq_ok {u u' : Unmarshaler} {s : String} (hpos : u.pos ≤ u.buf.length) :
    u.readRawString = .ok (s, u') ↔ (asBytes s).length < 2 ^ 32 ∧
      ∃ pad, pad.length = padding u.pos 4 ∧
        Consumes u (pad ++ toBytes u.bigEndian 4 (asBytes s).length ++ (asBytes s ++ [0])) u' := by
  unfold readRawString
  constructor
  · intro h
    obtain ⟨⟨len, u₁⟩, hread, h⟩ := Outcome.bind_eq_ok.mp h
    obtain ⟨pad, hpad, hcons⟩ := (readU32_eq_ok hpos).mp hread
    obtain ⟨hlen, hcons'⟩ := readText_eq_ok.mp h
    rw [hlen]
    exact ⟨len.toNat_lt, pad, hpad, hcons.trans hcons'⟩
  · rintro ⟨hlt, pad, hpad, hcons⟩
    obtain ⟨hcons₁, hcons₂⟩ := hcons.split
    have hnat : (UInt32.ofNat (asBytes s).length).toNat = (asBytes s).length :=
      UInt32.toNat_ofNat_of_lt' hlt
    have hread := (readU32_eq_ok (v := UInt32.ofNat (asBytes s).length) hpos).mpr
      ⟨pad, hpad, by rw [hnat]; exact hcons₁⟩
    rw [hread, Outcome.ok_bind]
    exact readText_eq_ok.mpr ⟨hnat.symm, hcons₂⟩

/-- **A signature is read from its length, its bytes and a zero.** -/
theorem readSignatureStr_eq_ok {u u' : Unmarshaler} {s : String} :
    u.readSignatureStr = .ok (s, u') ↔ (asBytes s).length < 256 ∧
      Consumes u ([UInt8.ofNat (asBytes s).length] ++ (asBytes s ++ [0])) u' := by
  unfold readSignatureStr
  constructor
  · intro h
    obtain ⟨⟨len, u₁⟩, hread, h⟩ := Outcome.bind_eq_ok.mp h
    obtain ⟨hlen, hcons⟩ := readText_eq_ok.mp h
    rw [hlen, UInt8.ofNat_toNat]
    exact ⟨len.toNat_lt, (readU8_eq_ok.mp hread).trans hcons⟩
  · rintro ⟨hlt, hcons⟩
    obtain ⟨hcons₁, hcons₂⟩ := hcons.split
    have hnat : (UInt8.ofNat (asBytes s).length).toNat = (asBytes s).length :=
      UInt8.toNat_ofNat_of_lt' hlt
    rw [readU8_eq_ok.mpr hcons₁, Outcome.ok_bind]
    exact readText_eq_ok.mpr ⟨hnat.symm, hcons₂⟩

/-- **`u'` comes after `u` in the same buffer.** -/
structure Before (u u' : Unmarshaler) : Prop where
  buf_eq : u'.buf = u.buf
  bigEndian_eq : u'.bigEndian = u.bigEndian
  pos_le : u.pos ≤ u'.pos
  le_length : u'.pos ≤ u'.buf.length

theorem Before.refl {u : Unmarshaler} (h : u.pos ≤ u.buf.length) : u.Before u :=
  ⟨rfl, rfl, le_rfl, h⟩

theorem Before.trans {u u₁ u₂ : Unmarshaler} (h : u.Before u₁) (h' : u₁.Before u₂) :
    u.Before u₂ :=
  ⟨h'.buf_eq.trans h.buf_eq, h'.bigEndian_eq.trans h.bigEndian_eq, h.pos_le.trans h'.pos_le,
    h'.le_length⟩

theorem Consumes.before {u u' : Unmarshaler} {bs : List UInt8} (h : Consumes u bs u') :
    u.Before u' :=
  ⟨h.buf_eq, h.bigEndian_eq, by rw [h.pos_eq]; omega, by rw [h.buf_eq]; exact h.le_length⟩

theorem before_of_align {u u' : Unmarshaler} {n : ℕ} (hn : 0 < n)
    (hpos : u.pos ≤ u.buf.length) (h : u.align n = .ok u') : u.Before u' := by
  obtain ⟨_, -, hcons⟩ := (align_eq_ok hn hpos).mp h
  exact hcons.before

theorem before_of_readUInt {u u' : Unmarshaler} {w n : ℕ} (hw : 0 < w)
    (hpos : u.pos ≤ u.buf.length) (h : u.readUInt w = .ok (n, u')) : u.Before u' := by
  obtain ⟨_, _, -, -, -, hcons⟩ := (readUInt_eq_ok hw hpos).mp h
  exact hcons.before

theorem before_of_readU32 {u u' : Unmarshaler} {v : UInt32}
    (hpos : u.pos ≤ u.buf.length) (h : u.readU32 = .ok (v, u')) : u.Before u' := by
  obtain ⟨_, -, hcons⟩ := (readU32_eq_ok hpos).mp h
  exact hcons.before

theorem before_of_readRawString {u u' : Unmarshaler} {s : String}
    (hpos : u.pos ≤ u.buf.length) (h : u.readRawString = .ok (s, u')) : u.Before u' := by
  obtain ⟨-, _, -, hcons⟩ := (readRawString_eq_ok hpos).mp h
  exact hcons.before

/-! ## Types of one integer -/

/-- **A type whose values are integers of a fixed width**, with the width and
the value a number stands for. -/
def fixed : DType → Option (ℕ × (ℕ → Value))
  | .int16 => some (2, fun n => .int16 (UInt16.ofNat n).toInt16)
  | .uint16 => some (2, fun n => .uint16 (UInt16.ofNat n))
  | .int32 => some (4, fun n => .int32 (UInt32.ofNat n).toInt32)
  | .uint32 => some (4, fun n => .uint32 (UInt32.ofNat n))
  | .int64 => some (8, fun n => .int64 (UInt64.ofNat n).toInt64)
  | .uint64 => some (8, fun n => .uint64 (UInt64.ofNat n))
  | .double => some (8, fun n => .double (UInt64.ofNat n))
  | .unixFd => some (4, fun n => .unixFd (UInt32.ofNat n))
  | _ => none

/-- Reading a value of such a type is reading its integer. -/
theorem readLayer_fixed {read : DType → Unmarshaler → CoreResult (Value × Unmarshaler)}
    {t : DType} {w : ℕ} {mk : ℕ → Value} (h : fixed t = some (w, mk)) (u : Unmarshaler) :
    readLayer read t u = (fun r => (mk r.1, r.2)) <$> u.readUInt w := by
  cases t with
  | int16 =>
    cases h
    simp only [readLayer, readI16, readU16, map_eq_pure_bind, bind_assoc]
    rfl
  | uint16 =>
    cases h
    simp only [readLayer, readU16, map_eq_pure_bind, bind_assoc]
    rfl
  | int32 =>
    cases h
    simp only [readLayer, readI32, readU32, map_eq_pure_bind, bind_assoc]
    rfl
  | uint32 =>
    cases h
    simp only [readLayer, readU32, map_eq_pure_bind, bind_assoc]
    rfl
  | int64 =>
    cases h
    simp only [readLayer, readI64, readU64, map_eq_pure_bind, bind_assoc]
    rfl
  | uint64 =>
    cases h
    simp only [readLayer, readU64, map_eq_pure_bind, bind_assoc]
    rfl
  | double =>
    cases h
    simp only [readLayer, readF64, readU64, map_eq_pure_bind, bind_assoc]
    rfl
  | unixFd =>
    cases h
    simp only [readLayer, readU32, map_eq_pure_bind, bind_assoc]
    rfl
  | _ => cases h

theorem fixed_width_pos {t : DType} {w : ℕ} {mk : ℕ → Value} (h : fixed t = some (w, mk)) :
    0 < w := by
  cases t <;> cases h <;> decide

theorem valueType_fixed {t : DType} {w : ℕ} {mk : ℕ → Value} (h : fixed t = some (w, mk))
    (n : ℕ) : (mk n).valueType = t := by
  cases t <;> cases h <;> rfl

theorem fixed_sound {read : DType → Unmarshaler → CoreResult (Value × Unmarshaler)}
    {t : DType} {w : ℕ} {mk : ℕ → Value} (hfixed : fixed t = some (w, mk))
    {u u' : Unmarshaler} {v : Value} (hpos : u.pos ≤ u.buf.length)
    (h : readLayer read t u = .ok (v, u')) : v.valueType = t ∧ u.Before u' := by
  rw [readLayer_fixed hfixed, Outcome.map_eq_ok] at h
  obtain ⟨⟨n, u₁⟩, hn, h⟩ := h
  cases h
  exact ⟨valueType_fixed hfixed n, before_of_readUInt (fixed_width_pos hfixed) hpos hn⟩

/-! ## What a layer reads

A read of a container succeeds exactly where its parts are read one after
the other. -/

section Layer

variable {read : DType → Unmarshaler → CoreResult (Value × Unmarshaler)} {u u' : Unmarshaler}
  {t : DType} {ts : List DType} {v : Value} {vs : List Value}

theorem readFields_cons_eq_ok : readFields read (t :: ts) u = .ok (vs, u') ↔ ∃ v u₁ vs',
    read t u = .ok (v, u₁) ∧ readFields read ts u₁ = .ok (vs', u') ∧ vs = v :: vs' := by
  rw [readFields, Outcome.bind_eq_ok]
  constructor
  · rintro ⟨⟨v, u₁⟩, hv, h⟩
    obtain ⟨⟨vs', u₂⟩, hvs, h⟩ := Outcome.bind_eq_ok.mp h
    cases h
    exact ⟨v, u₁, vs', hv, hvs, rfl⟩
  · rintro ⟨v, u₁, vs', hv, hvs, rfl⟩
    exact ⟨(v, u₁), hv, Outcome.bind_eq_ok.mpr ⟨(vs', u'), hvs, rfl⟩⟩

theorem readElements_succ_eq_ok {rd : Unmarshaler → CoreResult (Value × Unmarshaler)}
    {stop rounds : ℕ} : readElements rd stop (rounds + 1) u = .ok (vs, u') ↔
      (stop ≤ u.pos ∧ vs = [] ∧ u' = u) ∨ (u.pos < stop ∧ ∃ v u₁ vs', rd u = .ok (v, u₁) ∧
        readElements rd stop rounds u₁ = .ok (vs', u') ∧ vs = v :: vs') := by
  rw [readElements]
  constructor
  · intro h
    split at h
    · next hlt =>
      obtain ⟨⟨v, u₁⟩, hv, h⟩ := Outcome.bind_eq_ok.mp h
      obtain ⟨⟨vs', u₂⟩, hvs, h⟩ := Outcome.bind_eq_ok.mp h
      cases h
      exact .inr ⟨hlt, v, u₁, vs', hv, hvs, rfl⟩
    · next hge =>
      cases h
      exact .inl ⟨Nat.not_lt.mp hge, rfl, rfl⟩
  · rintro (⟨hge, rfl, rfl⟩ | ⟨hlt, v, u₁, vs', hv, hvs, rfl⟩)
    · rw [if_neg (Nat.not_lt.mpr hge)]
    · rw [if_pos hlt, hv, Outcome.ok_bind]
      exact Outcome.bind_eq_ok.mpr ⟨(vs', u'), hvs, rfl⟩

/-- **An array**: its length, the padding, and elements that end where it says. -/
theorem readLayer_array_eq_ok : readLayer read (.array t) u = .ok (v, u') ↔ ∃ len u₁ u₂ vs,
    u.readU32 = .ok (len, u₁) ∧ len.toNat ≤ maxArrayLen ∧ u₁.align t.alignment = .ok u₂ ∧
      u₂.need len.toNat = .ok () ∧
      readElements (read t) (u₂.pos + len.toNat) len.toNat u₂ = .ok (vs, u') ∧
      u'.pos = u₂.pos + len.toNat ∧ v = .array t vs := by
  rw [readLayer, Outcome.bind_eq_ok]
  constructor
  · rintro ⟨⟨len, u₁⟩, hlen, h⟩
    simp only at h
    split at h
    · cases h
    · next hmax =>
      obtain ⟨u₂, halign, h⟩ := Outcome.bind_eq_ok.mp h
      obtain ⟨_, hneed, h⟩ := Outcome.bind_eq_ok.mp h
      obtain ⟨⟨vs, u₃⟩, hvs, h⟩ := Outcome.bind_eq_ok.mp h
      simp only at h
      split at h
      · cases h
      · next hstop =>
        cases h
        exact ⟨len, u₁, u₂, vs, hlen, Nat.not_lt.mp hmax, halign, hneed, hvs, not_not.mp hstop, rfl⟩
  · rintro ⟨len, u₁, u₂, vs, hlen, hmax, halign, hneed, hvs, hstop, rfl⟩
    refine ⟨(len, u₁), hlen, ?_⟩
    simp only [if_neg (Nat.not_lt.mpr hmax), halign, hneed, hvs, hstop, Outcome.ok_bind, ne_eq,
      not_true_eq_false, if_false]

/-- **A struct**: the padding and the fields. -/
theorem readLayer_struct_eq_ok : readLayer read (.struct ts) u = .ok (v, u') ↔ ∃ u₁ vs,
    u.align 8 = .ok u₁ ∧ readFields read ts u₁ = .ok (vs, u') ∧ v = .struct vs := by
  rw [readLayer, Outcome.bind_eq_ok]
  constructor
  · rintro ⟨u₁, halign, h⟩
    obtain ⟨⟨vs, u₂⟩, hvs, h⟩ := Outcome.bind_eq_ok.mp h
    cases h
    exact ⟨u₁, vs, halign, hvs, rfl⟩
  · rintro ⟨u₁, vs, halign, hvs, rfl⟩
    exact ⟨u₁, halign, Outcome.bind_eq_ok.mpr ⟨(vs, u'), hvs, rfl⟩⟩

/-- **A dict entry**: the padding, the key and the value. -/
theorem readLayer_dictEntry_eq_ok {kt vt : DType} :
    readLayer read (.dictEntry kt vt) u = .ok (v, u') ↔ ∃ u₁ k u₂ w, u.align 8 = .ok u₁ ∧
      read kt u₁ = .ok (k, u₂) ∧ read vt u₂ = .ok (w, u') ∧ v = .dictEntry k w := by
  rw [readLayer, Outcome.bind_eq_ok]
  constructor
  · rintro ⟨u₁, halign, h⟩
    obtain ⟨⟨k, u₂⟩, hk, h⟩ := Outcome.bind_eq_ok.mp h
    obtain ⟨⟨w, u₃⟩, hw, h⟩ := Outcome.bind_eq_ok.mp h
    cases h
    exact ⟨u₁, k, u₂, w, halign, hk, hw, rfl⟩
  · rintro ⟨u₁, k, u₂, w, halign, hk, hw, rfl⟩
    refine ⟨u₁, halign, Outcome.bind_eq_ok.mpr ⟨(k, u₂), hk, ?_⟩⟩
    exact Outcome.bind_eq_ok.mpr ⟨(w, u'), hw, rfl⟩

/-- **A variant**: a signature of one type and a value of the type. -/
theorem readLayer_variant_eq_ok : readLayer read .variant u = .ok (v, u') ↔ ∃ sig u₁ t inner,
    u.readSignatureStr = .ok (sig, u₁) ∧ parseSingleCompleteType sig = .ok t ∧
      read t u₁ = .ok (inner, u') ∧ v = .variant inner := by
  rw [readLayer, Outcome.bind_eq_ok]
  constructor
  · rintro ⟨⟨sig, u₁⟩, hsig, h⟩
    obtain ⟨t, ht, h⟩ := Outcome.bind_eq_ok.mp h
    obtain ⟨⟨inner, u₂⟩, hinner, h⟩ := Outcome.bind_eq_ok.mp h
    cases h
    exact ⟨sig, u₁, t, inner, hsig, ht, hinner, rfl⟩
  · rintro ⟨sig, u₁, t, inner, hsig, ht, hinner, rfl⟩
    refine ⟨(sig, u₁), hsig, Outcome.bind_eq_ok.mpr ⟨t, ht, ?_⟩⟩
    exact Outcome.bind_eq_ok.mpr ⟨(inner, u'), hinner, rfl⟩

end Layer

/-! ## Reading a value, one level at a time

`readLayer` calls the function it is given on components only, and every
component either is a part of the type or comes after the bytes of a
signature. That is why a bound on the nesting is enough, and it is proved
here once, as a statement about one layer. -/

theorem alignment_pos (t : DType) : 0 < t.alignment := by
  cases t <;> simp [DType.alignment]

/-- A function that reads values of the type it is asked for and moves
forward. -/
def Sound (read : DType → Unmarshaler → CoreResult (Value × Unmarshaler)) : Prop :=
  ∀ {t u v u'}, u.pos ≤ u.buf.length → read t u = .ok (v, u') → v.valueType = t ∧ u.Before u'

section Layer

variable {read read' : DType → Unmarshaler → CoreResult (Value × Unmarshaler)}

theorem readFields_sound (hread : Sound read) {ts : List DType} {u u' : Unmarshaler}
    {vs : List Value} (hpos : u.pos ≤ u.buf.length)
    (h : readFields read ts u = .ok (vs, u')) : Value.valueTypes vs = ts ∧ u.Before u' := by
  induction ts generalizing u vs with
  | nil =>
    cases h
    exact ⟨rfl, Before.refl hpos⟩
  | cons t ts ih =>
    obtain ⟨v, u₁, vs', hv, hvs, rfl⟩ := readFields_cons_eq_ok.mp h
    obtain ⟨htype, hbefore⟩ := hread hpos hv
    obtain ⟨htypes, hbefore'⟩ := ih hbefore.le_length hvs
    exact ⟨by rw [Value.valueTypes, htype, htypes], hbefore.trans hbefore'⟩

theorem readElements_sound (hread : Sound read) {elem : DType} {stop rounds : ℕ}
    {u u' : Unmarshaler} {vs : List Value} (hpos : u.pos ≤ u.buf.length)
    (h : readElements (read elem) stop rounds u = .ok (vs, u')) :
    (∀ v ∈ vs, v.valueType = elem) ∧ u.Before u' := by
  induction rounds generalizing u vs with
  | zero =>
    rw [readElements] at h
    split at h
    · cases h
    · cases h
      exact ⟨by simp, Before.refl hpos⟩
  | succ rounds ih =>
    rcases readElements_succ_eq_ok.mp h with ⟨-, rfl, rfl⟩ | ⟨-, v, u₁, vs', hv, hvs, rfl⟩
    · exact ⟨by simp, Before.refl hpos⟩
    · obtain ⟨htype, hbefore⟩ := hread hpos hv
      obtain ⟨htypes, hbefore'⟩ := ih hbefore.le_length hvs
      refine ⟨?_, hbefore.trans hbefore'⟩
      intro w hw
      rcases List.mem_cons.mp hw with rfl | hw
      · exact htype
      · exact htypes w hw

/-- **A layer over a sound function is sound.** -/
theorem readLayer_sound (hread : Sound read) : Sound (readLayer read) := by
  intro t u v u' hpos h
  cases t with
  | byte =>
    obtain ⟨⟨b, u₁⟩, hb, h⟩ := Outcome.bind_eq_ok.mp h
    cases h
    exact ⟨rfl, (readU8_eq_ok.mp hb).before⟩
  | boolean =>
    obtain ⟨⟨raw, u₁⟩, hraw, h⟩ := Outcome.bind_eq_ok.mp h
    simp only at h
    split at h
    · cases h
      exact ⟨rfl, before_of_readU32 hpos hraw⟩
    · split at h
      · cases h
        exact ⟨rfl, before_of_readU32 hpos hraw⟩
      · cases h
  | string =>
    obtain ⟨⟨s, u₁⟩, hs, h⟩ := Outcome.bind_eq_ok.mp h
    cases h
    exact ⟨rfl, before_of_readRawString hpos hs⟩
  | objectPath =>
    obtain ⟨⟨s, u₁⟩, hs, h⟩ := Outcome.bind_eq_ok.mp h
    simp only at h
    split at h
    · cases h
      exact ⟨rfl, before_of_readRawString hpos hs⟩
    · cases h
  | signature =>
    obtain ⟨⟨s, u₁⟩, hs, h⟩ := Outcome.bind_eq_ok.mp h
    obtain ⟨sig, -, h⟩ := Outcome.bind_eq_ok.mp h
    cases h
    exact ⟨rfl, (readSignatureStr_eq_ok.mp hs).2.before⟩
  | array elem =>
    obtain ⟨len, u₁, u₂, vs, hlen, -, halign, -, hvs, -, rfl⟩ := readLayer_array_eq_ok.mp h
    have h₁ := before_of_readU32 hpos hlen
    have h₂ := before_of_align (alignment_pos elem) h₁.le_length halign
    have h₃ := (readElements_sound hread h₂.le_length hvs).2
    exact ⟨rfl, (h₁.trans h₂).trans h₃⟩
  | struct ts =>
    obtain ⟨u₁, vs, halign, hvs, rfl⟩ := readLayer_struct_eq_ok.mp h
    have h₁ := before_of_align (by decide) hpos halign
    obtain ⟨htypes, h₂⟩ := readFields_sound hread h₁.le_length hvs
    exact ⟨by rw [Value.valueType, htypes], h₁.trans h₂⟩
  | dictEntry kt vt =>
    obtain ⟨u₁, k, u₂, w, halign, hk, hw, rfl⟩ := readLayer_dictEntry_eq_ok.mp h
    have h₁ := before_of_align (by decide) hpos halign
    obtain ⟨hkt, h₂⟩ := hread h₁.le_length hk
    obtain ⟨hvt, h₃⟩ := hread h₂.le_length hw
    exact ⟨by rw [Value.valueType, hkt, hvt], (h₁.trans h₂).trans h₃⟩
  | variant =>
    obtain ⟨sig, u₁, t, inner, hsig, -, hinner, rfl⟩ := readLayer_variant_eq_ok.mp h
    have h₁ := (readSignatureStr_eq_ok.mp hsig).2.before
    obtain ⟨-, h₂⟩ := hread h₁.le_length hinner
    exact ⟨rfl, h₁.trans h₂⟩
  | _ => exact fixed_sound rfl hpos h

theorem readFields_congr (hread : Sound read) {ts : List DType} {u : Unmarshaler}
    (hpos : u.pos ≤ u.buf.length)
    (h : ∀ t ∈ ts, ∀ u', u.Before u' → read t u' = read' t u') :
    readFields read ts u = readFields read' ts u := by
  induction ts generalizing u with
  | nil => rfl
  | cons t ts ih =>
    rw [readFields, readFields, ← h t List.mem_cons_self u (Before.refl hpos)]
    cases hv : read t u with
    | ok r =>
      obtain ⟨-, hbefore⟩ := hread hpos hv
      have hrest := ih hbefore.le_length
        (fun t' ht' u' hu' => h t' (List.mem_cons_of_mem t ht') u' (hbefore.trans hu'))
      simp only [Outcome.ok_bind, hrest]
    | _ => rfl

theorem readElements_congr (hread : Sound read) {elem : DType} {stop rounds : ℕ}
    {u : Unmarshaler} (hpos : u.pos ≤ u.buf.length)
    (h : ∀ u', u.Before u' → read elem u' = read' elem u') :
    readElements (read elem) stop rounds u = readElements (read' elem) stop rounds u := by
  induction rounds generalizing u with
  | zero => rfl
  | succ rounds ih =>
    rw [readElements, readElements, ← h u (Before.refl hpos)]
    cases hv : read elem u with
    | ok r =>
      obtain ⟨-, hbefore⟩ := hread hpos hv
      have hrest := ih hbefore.le_length (fun u' hu' => h u' (hbefore.trans hu'))
      simp only [Outcome.ok_bind, hrest]
    | _ => rfl

theorem height_le_heightList {t : DType} {ts : List DType} (h : t ∈ ts) :
    t.height ≤ DType.height.heightList ts := by
  induction ts with
  | nil => cases h
  | cons t' ts ih =>
    rw [DType.height.heightList]
    rcases List.mem_cons.mp h with rfl | h
    · exact Nat.le_max_left ..
    · exact (ih h).trans (Nat.le_max_right ..)

/-- Later in the buffer a component of a type nests less deep. -/
theorem nesting_lt {t t' : DType} {u u' : Unmarshaler} (hu : u.Before u')
    (ht : t'.height < t.height) : nesting t' u' < nesting t u := by
  have := hu.pos_le
  rw [nesting, nesting, hu.buf_eq]
  omega

/-- What a variant contains nests less deep: the signature's own bytes pay for its type. -/
theorem nesting_lt_variant {sig : String} {t : DType} {u u' : Unmarshaler}
    (hsig : u.readSignatureStr = .ok (sig, u')) (ht : parseSingleCompleteType sig = .ok t) :
    nesting t u' < nesting .variant u := by
  obtain ⟨-, hcons⟩ := readSignatureStr_eq_ok.mp hsig
  have hheight : t.height < (asBytes sig).length := by
    have hparse := parseSignature_reads (parseSingleCompleteType_eq_ok.mp ht)
    have hbytes : (asBytes sig).length = t.signatureChars.length := by
      rw [hparse.1]
      simp [DType.sigBytes]
    rw [hbytes]
    exact t.height_lt_length
  have hle := hcons.1
  have hvariant : DType.variant.height = 0 := rfl
  rw [nesting, nesting, hcons.buf_eq, hcons.pos_eq, hvariant]
  simp only [List.length_append, List.length_cons, List.length_nil] at hle ⊢
  omega

/-- **A layer calls its function only where the nesting is smaller.** -/
theorem readLayer_congr (hread : Sound read) {t : DType} {u : Unmarshaler}
    (hpos : u.pos ≤ u.buf.length)
    (h : ∀ t' u', u.Before u' → nesting t' u' < nesting t u → read t' u' = read' t' u') :
    readLayer read t u = readLayer read' t u := by
  cases t with
  | array elem =>
    rw [readLayer, readLayer]
    cases hlen : u.readU32 with
    | ok r =>
      have h₁ := before_of_readU32 hpos hlen
      simp only [Outcome.ok_bind]
      split
      · rfl
      · cases halign : r.2.align elem.alignment with
        | ok u₂ =>
          have h₂ := h₁.trans (before_of_align (alignment_pos elem) h₁.le_length halign)
          simp only [Outcome.ok_bind]
          congr 1
          funext _
          rw [readElements_congr hread h₂.le_length fun u' hu' => h elem u' (h₂.trans hu')
            (nesting_lt (h₂.trans hu') (by rw [DType.height]; omega))]
        | _ => rfl
    | _ => rfl
  | struct ts =>
    rw [readLayer, readLayer]
    cases halign : u.align 8 with
    | ok u₁ =>
      have h₁ := before_of_align (by decide) hpos halign
      simp only [Outcome.ok_bind]
      rw [readFields_congr hread h₁.le_length fun t ht u' hu' => h t u' (h₁.trans hu')
        (nesting_lt (h₁.trans hu') (by
          have := height_le_heightList ht
          rw [DType.height]
          omega))]
    | _ => rfl
  | dictEntry kt vt =>
    rw [readLayer, readLayer]
    cases halign : u.align 8 with
    | ok u₁ =>
      have h₁ := before_of_align (by decide) hpos halign
      simp only [Outcome.ok_bind]
      rw [h kt u₁ h₁ (nesting_lt h₁ (by rw [DType.height]; omega))]
      cases hk : read' kt u₁ with
      | ok r =>
        rw [← h kt u₁ h₁ (nesting_lt h₁ (by rw [DType.height]; omega))] at hk
        have h₂ := h₁.trans (hread h₁.le_length hk).2
        simp only [Outcome.ok_bind]
        rw [h vt r.2 h₂ (nesting_lt h₂ (by rw [DType.height]; omega))]
      | _ => rfl
    | _ => rfl
  | variant =>
    rw [readLayer, readLayer]
    cases hsig : u.readSignatureStr with
    | ok r =>
      have hcons := (readSignatureStr_eq_ok.mp hsig).2
      simp only [Outcome.ok_bind]
      cases ht : parseSingleCompleteType r.1 with
      | ok t =>
        have hlt := nesting_lt_variant hsig ht
        simp only [Outcome.ok_bind, h t r.2 hcons.before hlt]
      | _ => rfl
    | _ => rfl
  | _ => rfl

end Layer

theorem readValueN_sound (n : ℕ) : Sound (readValueN n) := by
  induction n with
  | zero =>
    intro t u v u' _ h
    cases h
  | succ n ih => exact readLayer_sound ih

/-- **The bound does not matter once it exceeds the nesting.** -/
theorem readValueN_eq {n m : ℕ} {t : DType} {u : Unmarshaler} (hpos : u.pos ≤ u.buf.length)
    (hn : nesting t u < n) (hm : nesting t u < m) : readValueN n t u = readValueN m t u := by
  induction n generalizing m t u with
  | zero => omega
  | succ n ih =>
    obtain ⟨m, rfl⟩ : ∃ k, m = k + 1 := ⟨m - 1, by omega⟩
    rw [readValueN, readValueN]
    refine readLayer_congr (readValueN_sound n) hpos fun t' u' hu' hlt => ?_
    exact ih hu'.le_length (by omega) (by omega)

/-- **The recursive equation of `read_value`.** -/
theorem readValue_eq (t : DType) {u : Unmarshaler} (hpos : u.pos ≤ u.buf.length) :
    readValue t u = readLayer readValue t u := by
  rw [readValue, readValueN]
  refine readLayer_congr (readValueN_sound _) hpos fun t' u' hu' hlt => ?_
  exact readValueN_eq hu'.le_length hlt (Nat.lt_succ_self _)

theorem readValue_sound : Sound readValue := by
  intro t u v u' hpos h
  exact readValueN_sound _ hpos h

end Unmarshaler

end Oxibus
