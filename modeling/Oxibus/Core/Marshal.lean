import Oxibus.Lib.Endian
import Oxibus.Core.Signature

/-!
# Encoding values

The encoder appends to a buffer. What it appends depends on the buffer's
length, since a value is padded to its alignment counted from the start of
the buffer, and an array's length is written as zero first and patched when
its elements are there.

`Value.encode` says the same without a buffer: the bytes of a value at an
offset. `Marshaler.writeValue_eq` is the connection – writing a value
appends its encoding at the current length – and everything after this
module reasons about `encode`.
-/

namespace Oxibus

/-- **The encoder's state**: the bytes written and the byte order. -/
structure Marshaler where
  /-- The bytes written so far. -/
  buf : List UInt8
  /-- Whether integers are written most significant byte first. -/
  bigEndian : Bool

namespace Marshaler

/-- An encoder with nothing written. -/
def new (bigEndian : Bool) : Marshaler := ⟨[], bigEndian⟩

/-- The offset at which the next byte is written. -/
def pos (m : Marshaler) : ℕ := m.buf.length

/-- Append bytes as they are. -/
def extend (m : Marshaler) (bs : List UInt8) : Marshaler := { m with buf := m.buf ++ bs }

/-- Append zeros up to a multiple of `n`. -/
def align (m : Marshaler) (n : ℕ) : Marshaler :=
  let rem := m.buf.length % n
  if rem ≠ 0 then m.extend (List.replicate (n - rem) 0) else m

/-- One byte. -/
def writeU8 (m : Marshaler) (v : UInt8) : Marshaler := m.extend [v]

/-- An integer of `w` bytes, aligned to its width. -/
def writeUInt (m : Marshaler) (w n : ℕ) : Marshaler :=
  let m := m.align w
  m.extend (toBytes m.bigEndian w n)

def writeU16 (m : Marshaler) (v : UInt16) : Marshaler := m.writeUInt 2 v.toNat

def writeI16 (m : Marshaler) (v : Int16) : Marshaler := m.writeU16 v.toUInt16

def writeU32 (m : Marshaler) (v : UInt32) : Marshaler := m.writeUInt 4 v.toNat

def writeI32 (m : Marshaler) (v : Int32) : Marshaler := m.writeU32 v.toUInt32

def writeU64 (m : Marshaler) (v : UInt64) : Marshaler := m.writeUInt 8 v.toNat

def writeI64 (m : Marshaler) (v : Int64) : Marshaler := m.writeU64 v.toUInt64

/-- A floating-point value, by its bit pattern. -/
def writeF64 (m : Marshaler) (bits : UInt64) : Marshaler := m.writeU64 bits

/-- Overwrite four bytes already written. -/
def patchU32 (m : Marshaler) (at_ : ℕ) (v : UInt32) : Marshaler :=
  { m with buf := m.buf.take at_ ++ toBytes m.bigEndian 4 v.toNat ++ m.buf.drop (at_ + 4) }

/-- A string: its length in bytes, the bytes, a zero. -/
def writeRawString (m : Marshaler) (s : String) : CoreResult Marshaler :=
  if (asBytes s).contains 0 then .err .embeddedNul
  else
    let m := m.writeU32 (UInt32.ofNat (asBytes s).length)
    .ok ((m.extend (asBytes s)).extend [0])

/-- A signature: its length in one byte, the bytes, a zero. -/
def writeSignatureStr (m : Marshaler) (s : String) : CoreResult Marshaler :=
  if (asBytes s).length > maxSignatureLen then .err (.signatureTooLong (asBytes s).length)
  else
    let m := m.extend [UInt8.ofNat (asBytes s).length]
    .ok ((m.extend (asBytes s)).extend [0])

mutual

/-- **Append one value**: `write_value`. -/
def writeValue : Value → Marshaler → CoreResult Marshaler
  | .byte v, m => .ok (m.writeU8 v)
  | .boolean v, m => .ok (m.writeU32 (if v then 1 else 0))
  | .int16 v, m => .ok (m.writeI16 v)
  | .uint16 v, m => .ok (m.writeU16 v)
  | .int32 v, m => .ok (m.writeI32 v)
  | .uint32 v, m => .ok (m.writeU32 v)
  | .int64 v, m => .ok (m.writeI64 v)
  | .uint64 v, m => .ok (m.writeU64 v)
  | .double bits, m => .ok (m.writeF64 bits)
  | .string s, m => m.writeRawString s
  | .objectPath p, m => m.writeRawString p.text
  | .signature sig, m => m.writeSignatureStr sig.text
  | .unixFd index, m => .ok (m.writeU32 index)
  | .array elementType elements, m => do
    let m := m.align 4
    let lenPos := m.pos
    let m := m.writeU32 0
    let m := m.align elementType.alignment
    let start := m.pos
    let m ← writeValues elements m
    let byteLen := m.pos - start
    if byteLen > maxArrayLen then .err (.arrayTooLong byteLen)
    else .ok (m.patchU32 lenPos (UInt32.ofNat byteLen))
  | .struct fields, m => writeValues fields (m.align 8)
  | .dictEntry k v, m => do
    let m ← writeValue k (m.align 8)
    writeValue v m
  | .variant inner, m => do
    let m ← m.writeSignatureStr inner.valueType.toSignatureString
    writeValue inner m

/-- **Append values one after the other**: `write_values`. -/
def writeValues : List Value → Marshaler → CoreResult Marshaler
  | [], m => .ok m
  | v :: vs, m => do
    let m ← writeValue v m
    writeValues vs m

end

end Marshaler

/-- **The bytes of a body and its signature.** -/
def marshalBody (values : List Value) (bigEndian : Bool) : CoreResult (List UInt8 × String) := do
  let m ← Marshaler.writeValues values (Marshaler.new bigEndian)
  .ok (m.buf, signatureOf (Value.valueTypes values))

/-! ## The encoding at an offset -/

/-- The zeros that align the offset `p` to `n`. -/
def zeros (p n : ℕ) : List UInt8 := List.replicate (padding p n) 0

@[simp] theorem length_zeros (p n : ℕ) : (zeros p n).length = padding p n := by simp [zeros]

namespace Value

/-- An integer of `w` bytes at the offset `p`. -/
def encodeUInt (be : Bool) (w n p : ℕ) : List UInt8 := zeros p w ++ toBytes be w n

@[simp] theorem length_encodeUInt (be : Bool) (w n p : ℕ) :
    (encodeUInt be w n p).length = padding p w + w := by
  simp [encodeUInt]

/-- A string at the offset `p`. -/
def encodeRawString (be : Bool) (s : String) (p : ℕ) : CoreResult (List UInt8) :=
  if (asBytes s).contains 0 then .err .embeddedNul
  else .ok (encodeUInt be 4 ((asBytes s).length % 2 ^ 32) p ++ asBytes s ++ [0])

/-- A signature, which needs no alignment. -/
def encodeSignatureStr (s : String) : CoreResult (List UInt8) :=
  if (asBytes s).length > maxSignatureLen then .err (.signatureTooLong (asBytes s).length)
  else .ok (UInt8.ofNat (asBytes s).length :: asBytes s ++ [0])

/-- The offset of an array's first element, for an array at the offset `p`. -/
def arrayStart (elementType : DType) (p : ℕ) : ℕ :=
  let afterLen := p + padding p 4 + 4
  afterLen + padding afterLen elementType.alignment

mutual

/-- **The bytes of a value at the offset `p`.** -/
def encode (be : Bool) : Value → ℕ → CoreResult (List UInt8)
  | byte v, _ => .ok [v]
  | boolean v, p => .ok (encodeUInt be 4 (if v then 1 else 0) p)
  | int16 v, p => .ok (encodeUInt be 2 v.toUInt16.toNat p)
  | uint16 v, p => .ok (encodeUInt be 2 v.toNat p)
  | int32 v, p => .ok (encodeUInt be 4 v.toUInt32.toNat p)
  | uint32 v, p => .ok (encodeUInt be 4 v.toNat p)
  | int64 v, p => .ok (encodeUInt be 8 v.toUInt64.toNat p)
  | uint64 v, p => .ok (encodeUInt be 8 v.toNat p)
  | double bits, p => .ok (encodeUInt be 8 bits.toNat p)
  | string s, p => encodeRawString be s p
  | objectPath path, p => encodeRawString be path.text p
  | signature sig, _ => encodeSignatureStr sig.text
  | unixFd index, p => .ok (encodeUInt be 4 index.toNat p)
  | array elementType elements, p => do
    let body ← encodeAll be elements (arrayStart elementType p)
    if body.length > maxArrayLen then .err (.arrayTooLong body.length)
    else .ok (encodeUInt be 4 body.length p ++
      zeros (p + padding p 4 + 4) elementType.alignment ++ body)
  | struct fields, p => do
    let body ← encodeAll be fields (p + padding p 8)
    .ok (zeros p 8 ++ body)
  | dictEntry k v, p => do
    let kb ← encode be k (p + padding p 8)
    let vb ← encode be v (p + padding p 8 + kb.length)
    .ok (zeros p 8 ++ kb ++ vb)
  | variant inner, p => do
    let sig ← encodeSignatureStr inner.valueType.toSignatureString
    let body ← encode be inner (p + sig.length)
    .ok (sig ++ body)

/-- The bytes of values one after the other, the first at the offset `p`. -/
def encodeAll (be : Bool) : List Value → ℕ → CoreResult (List UInt8)
  | [], _ => .ok []
  | v :: vs, p => do
    let b ← encode be v p
    let bs ← encodeAll be vs (p + b.length)
    .ok (b ++ bs)

end

end Value

namespace Marshaler

@[simp] theorem extend_nil (m : Marshaler) : m.extend [] = m := by simp [extend]

@[simp] theorem extend_extend (m : Marshaler) (bs cs : List UInt8) :
    (m.extend bs).extend cs = m.extend (bs ++ cs) := by simp [extend]

@[simp] theorem extend_buf (m : Marshaler) (bs : List UInt8) :
    (m.extend bs).buf = m.buf ++ bs := rfl

@[simp] theorem extend_bigEndian (m : Marshaler) (bs : List UInt8) :
    (m.extend bs).bigEndian = m.bigEndian := rfl

@[simp] theorem extend_pos (m : Marshaler) (bs : List UInt8) :
    (m.extend bs).pos = m.pos + bs.length := by simp [pos]

theorem align_eq (m : Marshaler) {n : ℕ} (hn : 0 < n) : m.align n = m.extend (zeros m.pos n) := by
  unfold align pos
  by_cases h : m.buf.length % n = 0
  · simp [h, zeros, padding_eq_zero h]
  · simp [h, zeros, padding_eq_sub hn h]

theorem writeUInt_eq (m : Marshaler) {w : ℕ} (hw : 0 < w) (n : ℕ) :
    m.writeUInt w n = m.extend (Value.encodeUInt m.bigEndian w n m.pos) := by
  simp [writeUInt, align_eq m hw, Value.encodeUInt]

theorem writeRawString_eq (m : Marshaler) (s : String) :
    m.writeRawString s = m.extend <$> Value.encodeRawString m.bigEndian s m.pos := by
  unfold writeRawString Value.encodeRawString
  split
  · rfl
  · simp [writeU32, writeUInt_eq]

theorem writeSignatureStr_eq (m : Marshaler) (s : String) :
    m.writeSignatureStr s = m.extend <$> Value.encodeSignatureStr s := by
  unfold writeSignatureStr Value.encodeSignatureStr
  split
  · rfl
  · simp

/-- Patching the length that was reserved leaves it written. -/
theorem patchU32_extend (m : Marshaler) (a b : List UInt8) (v w : UInt32) :
    ((m.extend (toBytes m.bigEndian 4 w.toNat ++ a)).extend b).patchU32 m.pos v
      = m.extend (toBytes m.bigEndian 4 v.toNat ++ a ++ b) := by
  have hlen : m.buf.length + 4
      = m.buf.length + (toBytes m.bigEndian 4 w.toNat).length := by simp
  simp only [patchU32, pos, extend_buf, extend_bigEndian, List.append_assoc, List.take_left]
  rw [hlen, List.drop_append]
  simp [extend]

/-- Writing a list of values appends their encodings, when writing each of
them does. -/
theorem writeValues_eq_of {vs : List Value}
    (ih : ∀ v ∈ vs, ∀ m : Marshaler, writeValue v m = m.extend <$> v.encode m.bigEndian m.pos)
    (m : Marshaler) :
    writeValues vs m = m.extend <$> Value.encodeAll m.bigEndian vs m.pos := by
  induction vs generalizing m with
  | nil => simp [writeValues, Value.encodeAll]
  | cons v vs ihvs =>
    rw [writeValues, Value.encodeAll, ih v List.mem_cons_self m]
    cases hv : v.encode m.bigEndian m.pos with
    | ok b =>
      have hrest := ihvs (fun u hu => ih u (List.mem_cons_of_mem v hu)) (m.extend b)
      simp only [extend_pos, extend_bigEndian] at hrest
      simp only [Outcome.map_ok, Outcome.ok_bind, hrest]
      cases Value.encodeAll m.bigEndian vs (m.pos + b.length) <;> simp
    | err e => rfl
    | panic => rfl
    | diverge => rfl

/-- **Writing a value appends its encoding at the current offset.** -/
theorem writeValue_eq (v : Value) (m : Marshaler) :
    writeValue v m = m.extend <$> v.encode m.bigEndian m.pos := by
  induction v using Value.inductionOn generalizing m with
  | basic v hv =>
    cases Value.basic_of_isBasic hv with
    | string s => rw [writeValue, Value.encode, writeRawString_eq]
    | objectPath p => rw [writeValue, Value.encode, writeRawString_eq]
    | signature sig => rw [writeValue, Value.encode, writeSignatureStr_eq]
    | byte v => rfl
    | boolean b => cases b <;> simp [writeValue, Value.encode, writeU32, writeUInt_eq]
    | _ =>
      simp [writeValue, Value.encode, writeU16, writeI16, writeU32, writeI32, writeU64,
        writeI64, writeF64, writeUInt_eq]
  | array t vs ih =>
    have halign : 0 < t.alignment := by cases t <;> simp [DType.alignment]
    rw [writeValue, Value.encode]
    -- the buffer when the elements are written: the reserved length, padded
    have hstart : ((m.align 4).writeU32 0).align t.alignment
        = (m.extend (zeros m.pos 4)).extend (toBytes m.bigEndian 4 0 ++
          zeros (m.pos + padding m.pos 4 + 4) t.alignment) := by
      rw [align_eq m (by decide), writeU32, writeUInt_eq _ (by decide), align_eq _ halign]
      have hpad : zeros (m.pos + padding m.pos 4) 4 = [] := by
        simp [zeros, padding_add_padding]
      simp [Value.encodeUInt, hpad, Nat.add_assoc]
    have hpos : ((m.extend (zeros m.pos 4)).extend (toBytes m.bigEndian 4 0 ++
        zeros (m.pos + padding m.pos 4 + 4) t.alignment)).pos = Value.arrayStart t m.pos := by
      simp only [extend_pos, length_zeros, List.length_append, length_toBytes, Value.arrayStart]
      omega
    simp only [hstart, writeValues_eq_of ih, hpos, extend_bigEndian]
    cases hbody : Value.encodeAll m.bigEndian vs (Value.arrayStart t m.pos) with
    | ok body =>
      simp only [Outcome.map_ok, Outcome.ok_bind, extend_pos, hpos, Nat.add_sub_cancel_left]
      by_cases hlen : body.length > maxArrayLen
      · simp [hlen]
      · have hpatch := patchU32_extend (m.extend (zeros m.pos 4))
          (zeros (m.pos + padding m.pos 4 + 4) t.alignment) body
          (UInt32.ofNat body.length) 0
        have hfit : body.length % 4294967296 = body.length :=
          Nat.mod_eq_of_lt (by simp only [maxArrayLen] at hlen; omega)
        simp only [extend_bigEndian, UInt32.toNat_zero] at hpatch
        rw [if_neg hlen, if_neg hlen, align_eq m (by decide), hpatch]
        simp [Value.encodeUInt, hfit]
    | err e => rfl
    | panic => rfl
    | diverge => rfl
  | struct vs ih =>
    rw [writeValue, Value.encode, align_eq m (by decide), writeValues_eq_of ih]
    simp only [extend_pos, extend_bigEndian, length_zeros]
    cases Value.encodeAll m.bigEndian vs (m.pos + padding m.pos 8) <;> simp
  | dictEntry k v ihk ihv =>
    rw [writeValue, Value.encode, align_eq m (by decide), ihk]
    simp only [extend_pos, extend_bigEndian, length_zeros]
    cases k.encode m.bigEndian (m.pos + padding m.pos 8) with
    | ok kb =>
      simp only [Outcome.map_ok, Outcome.ok_bind, ihv, extend_pos, extend_bigEndian,
        length_zeros]
      cases v.encode m.bigEndian (m.pos + padding m.pos 8 + kb.length) <;> simp
    | err e => rfl
    | panic => rfl
    | diverge => rfl
  | variant inner ih =>
    rw [writeValue, Value.encode, writeSignatureStr_eq]
    cases Value.encodeSignatureStr inner.valueType.toSignatureString with
    | ok sig =>
      simp only [Outcome.map_ok, Outcome.ok_bind, ih, extend_pos, extend_bigEndian]
      cases inner.encode m.bigEndian (m.pos + sig.length) <;> simp
    | err e => rfl
    | panic => rfl
    | diverge => rfl

/-- Writing values appends their encodings, the first at the current
offset. -/
theorem writeValues_eq (vs : List Value) (m : Marshaler) :
    writeValues vs m = m.extend <$> Value.encodeAll m.bigEndian vs m.pos :=
  writeValues_eq_of (fun v _ => writeValue_eq v) m

end Marshaler

/-- A body is the encoding of its values from offset zero. -/
theorem marshalBody_eq (vs : List Value) (be : Bool) :
    marshalBody vs be
      = (fun bytes => (bytes, signatureOf (Value.valueTypes vs))) <$> Value.encodeAll be vs 0 := by
  rw [marshalBody, Marshaler.writeValues_eq]
  cases h : Value.encodeAll be vs 0 <;> simp [Marshaler.new, Marshaler.pos, h, Marshaler.extend]

end Oxibus
