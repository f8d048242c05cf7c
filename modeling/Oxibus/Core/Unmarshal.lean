import Oxibus.Core.Marshal

/-!
# Decoding values

The decoder is a position in a buffer it never changes. Every read checks
that the buffer is long enough before it looks at a byte; the index and
slice operations of the source panic out of range, and so do the ones here,
so that the checks can be shown to suffice rather than assumed to.

`readLayer` is the body of `read_value`, with the function to use for its
recursive calls as an argument. A value nests as deep as the buffer says – a
variant brings its own signature – so no structural argument ties the knot.
It is tied with a bound on the nesting (`readValueN`), and `readValue` takes
a bound the buffer cannot exceed: `readValue_eq` is the recursive equation
of the source, and from there on the bound does not appear again.
-/

namespace Oxibus

/-- **The decoder's state**: the buffer, the position and the byte order. -/
structure Unmarshaler where
  /-- The bytes being decoded. -/
  buf : List UInt8
  /-- The offset of the next byte. -/
  pos : ℕ
  /-- Whether integers are read most significant byte first. -/
  bigEndian : Bool

namespace Unmarshaler

/-- A decoder at the start of a buffer. -/
def new (buf : List UInt8) (bigEndian : Bool) : Unmarshaler := ⟨buf, 0, bigEndian⟩

/-- Fail unless `n` more bytes are there. -/
def need (u : Unmarshaler) (n : ℕ) : CoreResult Unit :=
  if u.pos + n > u.buf.length then .err (.unexpectedEof n (u.buf.length - u.pos)) else .ok ()

/-- The byte at an index; out of range it panics. -/
def byteAt (u : Unmarshaler) (i : ℕ) : CoreResult UInt8 :=
  match u.buf[i]? with
  | some b => .ok b
  | none => .panic

/-- The bytes from one index up to another; out of range it panics. -/
def slice (u : Unmarshaler) (i j : ℕ) : CoreResult (List UInt8) :=
  if i ≤ j ∧ j ≤ u.buf.length then .ok ((u.buf.drop i).take (j - i)) else .panic

/-- Move the position to a multiple of `n`. -/
def align (u : Unmarshaler) (n : ℕ) : CoreResult Unmarshaler :=
  let rem := u.pos % n
  if rem ≠ 0 then do
    let pad := n - rem
    u.need pad
    .ok { u with pos := u.pos + pad }
  else .ok u

def readU8 (u : Unmarshaler) : CoreResult (UInt8 × Unmarshaler) := do
  u.need 1
  let v ← u.byteAt u.pos
  .ok (v, { u with pos := u.pos + 1 })

/-- An integer of `w` bytes, aligned to its width. -/
def readUInt (u : Unmarshaler) (w : ℕ) : CoreResult (ℕ × Unmarshaler) := do
  let u ← u.align w
  u.need w
  let bytes ← u.slice u.pos (u.pos + w)
  .ok (ofBytes u.bigEndian bytes, { u with pos := u.pos + w })

def readU16 (u : Unmarshaler) : CoreResult (UInt16 × Unmarshaler) := do
  let (n, u) ← u.readUInt 2
  .ok (UInt16.ofNat n, u)

def readI16 (u : Unmarshaler) : CoreResult (Int16 × Unmarshaler) := do
  let (v, u) ← u.readU16
  .ok (v.toInt16, u)

def readU32 (u : Unmarshaler) : CoreResult (UInt32 × Unmarshaler) := do
  let (n, u) ← u.readUInt 4
  .ok (UInt32.ofNat n, u)

def readI32 (u : Unmarshaler) : CoreResult (Int32 × Unmarshaler) := do
  let (v, u) ← u.readU32
  .ok (v.toInt32, u)

def readU64 (u : Unmarshaler) : CoreResult (UInt64 × Unmarshaler) := do
  let (n, u) ← u.readUInt 8
  .ok (UInt64.ofNat n, u)

def readI64 (u : Unmarshaler) : CoreResult (Int64 × Unmarshaler) := do
  let (v, u) ← u.readU64
  .ok (v.toInt64, u)

/-- A floating-point value, by its bit pattern. -/
def readF64 (u : Unmarshaler) : CoreResult (UInt64 × Unmarshaler) := u.readU64

/-- The text of a known length and the zero after it, the common end of
`read_raw_string` and `read_signature_str`. -/
def readText (u : Unmarshaler) (len : ℕ) (reason : String) :
    CoreResult (String × Unmarshaler) := do
  u.need (len + 1)
  let bytes ← u.slice u.pos (u.pos + len)
  let s ← Outcome.ofOption .invalidUtf8 (fromUtf8 bytes)
  let nul ← u.byteAt (u.pos + len)
  if nul ≠ 0 then .err (.invalidSignature s reason)
  else .ok (s, { u with pos := u.pos + (len + 1) })

/-- A string: its length in four bytes, the bytes, a zero. -/
def readRawString (u : Unmarshaler) : CoreResult (String × Unmarshaler) := do
  let (len, u) ← u.readU32
  u.readText len.toNat "string not NUL-terminated"

/-- A signature: its length in one byte, the bytes, a zero. -/
def readSignatureStr (u : Unmarshaler) : CoreResult (String × Unmarshaler) := do
  let (len, u) ← u.readU8
  u.readText len.toNat "signature not NUL-terminated"

/-- The loop over an array's elements, which runs while the position is
before `stop`. An element that takes no bytes leaves the position where it
was, and then the loop does not end; a loop that has not ended after as many
rounds as there are bytes met such an element. -/
def readElements (read : Unmarshaler → CoreResult (Value × Unmarshaler)) (stop : ℕ) :
    ℕ → Unmarshaler → CoreResult (List Value × Unmarshaler)
  | 0, u => if u.pos < stop then .diverge else .ok ([], u)
  | rounds + 1, u =>
    if u.pos < stop then do
      let (v, u) ← read u
      let (vs, u) ← readElements read stop rounds u
      .ok (v :: vs, u)
    else .ok ([], u)

/-- The values of a list of types, one after the other: the loop of a
struct, and `read_values`. -/
def readFields (read : DType → Unmarshaler → CoreResult (Value × Unmarshaler)) :
    List DType → Unmarshaler → CoreResult (List Value × Unmarshaler)
  | [], u => .ok ([], u)
  | t :: ts, u => do
    let (v, u) ← read t u
    let (vs, u) ← readFields read ts u
    .ok (v :: vs, u)

/-- **The body of `read_value`**, with the function its recursive calls
use. -/
def readLayer (read : DType → Unmarshaler → CoreResult (Value × Unmarshaler)) :
    DType → Unmarshaler → CoreResult (Value × Unmarshaler)
  | .byte, u => do
    let (v, u) ← u.readU8
    .ok (.byte v, u)
  | .boolean, u => do
    let (raw, u) ← u.readU32
    if raw = 0 then .ok (.boolean false, u)
    else if raw = 1 then .ok (.boolean true, u)
    else .err (.invalidBoolean raw)
  | .int16, u => do
    let (v, u) ← u.readI16
    .ok (.int16 v, u)
  | .uint16, u => do
    let (v, u) ← u.readU16
    .ok (.uint16 v, u)
  | .int32, u => do
    let (v, u) ← u.readI32
    .ok (.int32 v, u)
  | .uint32, u => do
    let (v, u) ← u.readU32
    .ok (.uint32 v, u)
  | .int64, u => do
    let (v, u) ← u.readI64
    .ok (.int64 v, u)
  | .uint64, u => do
    let (v, u) ← u.readU64
    .ok (.uint64 v, u)
  | .double, u => do
    let (v, u) ← u.readF64
    .ok (.double v, u)
  | .string, u => do
    let (s, u) ← u.readRawString
    .ok (.string s, u)
  | .objectPath, u => do
    let (s, u) ← u.readRawString
    if isValidObjectPath s then .ok (.objectPath ⟨s⟩, u) else .err (.invalidObjectPath s)
  | .signature, u => do
    let (s, u) ← u.readSignatureStr
    let sig ← Signature.new s
    .ok (.signature sig, u)
  | .unixFd, u => do
    let (v, u) ← u.readU32
    .ok (.unixFd v, u)
  | .array elem, u => do
    let (len, u) ← u.readU32
    let byteLen := len.toNat
    if byteLen > maxArrayLen then .err (.arrayTooLong byteLen)
    else do
      let u ← u.align elem.alignment
      u.need byteLen
      let stop := u.pos + byteLen
      let (elements, u) ← readElements (read elem) stop byteLen u
      if u.pos ≠ stop then
        .err (.invalidSignature "" "array element did not end on declared boundary")
      else .ok (.array elem elements, u)
  | .struct fieldTypes, u => do
    let u ← u.align 8
    let (fields, u) ← readFields read fieldTypes u
    .ok (.struct fields, u)
  | .dictEntry kTy vTy, u => do
    let u ← u.align 8
    let (k, u) ← read kTy u
    let (v, u) ← read vTy u
    .ok (.dictEntry k v, u)
  | .variant, u => do
    let (sig, u) ← u.readSignatureStr
    let innerTy ← parseSingleCompleteType sig
    let (inner, u) ← read innerTy u
    .ok (.variant inner, u)

/-- Reading with at most so many values nested in each other. -/
def readValueN : ℕ → DType → Unmarshaler → CoreResult (Value × Unmarshaler)
  | 0, _, _ => .diverge
  | n + 1, t, u => readLayer (readValueN n) t u

/-- What bounds the nesting of a read: the containers still open in the
type, and for each byte left a whole signature's worth. -/
def nesting (t : DType) (u : Unmarshaler) : ℕ := t.height + 256 * (u.buf.length - u.pos)

/-- **Read one value of a type**: `read_value`. -/
def readValue (t : DType) (u : Unmarshaler) : CoreResult (Value × Unmarshaler) :=
  readValueN (nesting t u + 1) t u

/-- Read values one after the other. -/
def readValues (types : List DType) (u : Unmarshaler) : CoreResult (List Value × Unmarshaler) :=
  readFields readValue types u

end Unmarshaler

/-- **The values of a body, by its signature.** -/
def unmarshalBody (buf : List UInt8) (signature : String) (bigEndian : Bool) :
    CoreResult (List Value) := do
  let types ← parseSignature signature
  let (values, _) ← Unmarshaler.readValues types (Unmarshaler.new buf bigEndian)
  .ok values

end Oxibus
