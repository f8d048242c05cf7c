import Oxibus.Core.Nesting

/-!
# Message headers

A header is twelve fixed bytes and an array of fields, each a struct of a
code and a variant. The fields are kept in the order they came in; the
accessors look for the first field of their kind.

Decoding drops what it does not know: an element that is not a pair, a pair
whose first component is not a byte, a code without a meaning. A field of a
known code with a value of the wrong type is an error.
-/

namespace Oxibus

/-- The version of the protocol. -/
def protocolVersion : UInt8 := 1

/-! ## Message types and flags -/

/-- The four kinds of message. -/
inductive MessageType where
  | methodCall
  | methodReturn
  | error
  | signal
  deriving DecidableEq, Repr

namespace MessageType

/-- The byte of a message type. -/
def toU8 : MessageType → UInt8
  | methodCall => 1
  | methodReturn => 2
  | error => 3
  | signal => 4

/-- The message type of a byte. -/
def fromU8 (v : UInt8) : CoreResult MessageType :=
  if v = 1 then .ok methodCall
  else if v = 2 then .ok methodReturn
  else if v = 3 then .ok error
  else if v = 4 then .ok signal
  else .err (.invalidSignature (toString v.toNat) "unknown message type")

@[simp] theorem fromU8_toU8 (t : MessageType) : fromU8 t.toU8 = .ok t := by
  cases t <;> rfl

end MessageType

/-- The flags of a message. -/
def flagNoReplyExpected : UInt8 := 1

def flagNoAutoStart : UInt8 := 2

/-! ## Header fields -/

/-- **A header field.** -/
inductive HeaderField where
  | path (p : ObjectPath)
  | interface (s : String)
  | member (s : String)
  | errorName (s : String)
  | replySerial (v : UInt32)
  | destination (s : String)
  | sender (s : String)
  | signature (sig : Signature)
  | unixFds (v : UInt32)
  deriving DecidableEq, Repr

/-- The error of a field whose value has the wrong type. -/
def badField (name : String) : CoreError :=
  .typeMismatch ("header field " ++ name ++ " has wrong variant type")

/-- A string or an object path, as a string. -/
def expectString (v : Value) (field : String) : CoreResult String :=
  match v with
  | .string s => .ok s
  | .objectPath p => .ok p.text
  | _ => .err (badField field)

namespace HeaderField

/-- The code of a field. -/
def code : HeaderField → UInt8
  | path _ => 1
  | interface _ => 2
  | member _ => 3
  | errorName _ => 4
  | replySerial _ => 5
  | destination _ => 6
  | sender _ => 7
  | signature _ => 8
  | unixFds _ => 9

/-- The value of a field. -/
def toValue : HeaderField → Value
  | path p => .objectPath p
  | interface s => .string s
  | member s => .string s
  | errorName s => .string s
  | replySerial v => .uint32 v
  | destination s => .string s
  | sender s => .string s
  | signature sig => .signature sig
  | unixFds v => .uint32 v

/-- The field of a code and a value; `none` for a code without a meaning. -/
def fromCodeAndValue (code : UInt8) (value : Value) : CoreResult (Option HeaderField) :=
  if code = 1 then
    match value with
    | .objectPath p => .ok (some (path p))
    | _ => .err (badField "PATH")
  else if code = 2 then do
    let s ← expectString value "INTERFACE"
    .ok (some (interface s))
  else if code = 3 then do
    let s ← expectString value "MEMBER"
    .ok (some (member s))
  else if code = 4 then do
    let s ← expectString value "ERROR_NAME"
    .ok (some (errorName s))
  else if code = 5 then
    match value with
    | .uint32 v => .ok (some (replySerial v))
    | _ => .err (badField "REPLY_SERIAL")
  else if code = 6 then do
    let s ← expectString value "DESTINATION"
    .ok (some (destination s))
  else if code = 7 then do
    let s ← expectString value "SENDER"
    .ok (some (sender s))
  else if code = 8 then
    match value with
    | .signature sig => .ok (some (signature sig))
    | _ => .err (badField "SIGNATURE")
  else if code = 9 then
    match value with
    | .uint32 v => .ok (some (unixFds v))
    | _ => .err (badField "UNIX_FDS")
  else .ok none

/-- **A field is recovered from its code and value.** -/
@[simp] theorem fromCodeAndValue_code_toValue (f : HeaderField) :
    fromCodeAndValue f.code f.toValue = .ok (some f) := by
  cases f <;> rfl

/-! The closures by which a header looks for one of its fields. -/

def asPath : HeaderField → Option ObjectPath
  | path p => some p
  | _ => none

def asInterface : HeaderField → Option String
  | interface s => some s
  | _ => none

def asMember : HeaderField → Option String
  | member s => some s
  | _ => none

def asErrorName : HeaderField → Option String
  | errorName s => some s
  | _ => none

def asReplySerial : HeaderField → Option UInt32
  | replySerial v => some v
  | _ => none

def asDestination : HeaderField → Option String
  | destination s => some s
  | _ => none

def asSender : HeaderField → Option String
  | sender s => some s
  | _ => none

def asSignature : HeaderField → Option String
  | signature sig => some sig.text
  | _ => none

def asUnixFds : HeaderField → Option UInt32
  | unixFds v => some v
  | _ => none

/-- Whether the field names the sender. -/
def isSender : HeaderField → Bool
  | sender _ => true
  | _ => false

/-- Whether the field describes the body, and is written anew. -/
def isBodyField : HeaderField → Bool
  | signature _ => true
  | unixFds _ => true
  | _ => false

/-- What finds no field of a kind finds the same without the fields of that
kind. -/
theorem findSome?_filter {β : Type} {g : HeaderField → Option β} {q : HeaderField → Bool}
    {fields : List HeaderField} (hq : ∀ f, q f = true → g f = none) :
    (fields.filter fun f => !q f).findSome? g = fields.findSome? g := by
  induction fields with
  | nil => rfl
  | cons f fields ih =>
    cases hf : q f with
    | true => rw [List.filter_cons_of_neg (by simp [hf]), List.findSome?_cons, hq f hf, ih]
    | false =>
      rw [List.filter_cons_of_pos (by simp [hf]), List.findSome?_cons, List.findSome?_cons, ih]

end HeaderField

/-! ## Headers -/

/-- **A message header.** -/
structure MessageHeader where
  /-- Whether integers are most significant byte first. -/
  bigEndian : Bool
  /-- The kind of message. -/
  messageType : MessageType
  /-- The flags, as bits. -/
  flags : UInt8
  /-- The version of the protocol. -/
  protocolVersion : UInt8
  /-- The length of the body in bytes. -/
  bodyLength : UInt32
  /-- The serial number the sender gave the message. -/
  serial : UInt32
  /-- The fields, in order. -/
  fields : List HeaderField
  deriving DecidableEq, Repr

namespace MessageHeader

/-- The object path of a call or a signal. -/
def path (h : MessageHeader) : Option ObjectPath :=
  h.fields.findSome? HeaderField.asPath

def interface (h : MessageHeader) : Option String :=
  h.fields.findSome? HeaderField.asInterface

def member (h : MessageHeader) : Option String :=
  h.fields.findSome? HeaderField.asMember

def errorName (h : MessageHeader) : Option String :=
  h.fields.findSome? HeaderField.asErrorName

/-- The serial of the call that is answered. -/
def replySerial (h : MessageHeader) : Option UInt32 :=
  h.fields.findSome? HeaderField.asReplySerial

def destination (h : MessageHeader) : Option String :=
  h.fields.findSome? HeaderField.asDestination

def sender (h : MessageHeader) : Option String :=
  h.fields.findSome? HeaderField.asSender

/-- The signature of the body, empty without a field. -/
def signature (h : MessageHeader) : String :=
  (h.fields.findSome? HeaderField.asSignature).getD ""

/-- The number of file descriptors, zero without a field. -/
def unixFds (h : MessageHeader) : UInt32 :=
  (h.fields.findSome? HeaderField.asUnixFds).getD 0

/-- **Replace every sender field by one**, at the end. -/
def setSender (h : MessageHeader) (sender : String) : MessageHeader :=
  { h with fields := h.fields.filter (fun f => !f.isSender) ++ [.sender sender] }

/-- Fail with the name of a field that is missing. -/
def require {α : Type} (field : Option α) (name : String) : CoreResult Unit :=
  if field.isNone then .err (.missingHeaderField name) else .ok ()

/-- **The fields a message of each kind needs.** -/
def validate (h : MessageHeader) : CoreResult Unit :=
  match h.messageType with
  | .methodCall => do
    require h.path "PATH"
    require h.member "MEMBER"
  | .signal => do
    require h.path "PATH"
    require h.interface "INTERFACE"
    require h.member "MEMBER"
  | .error => do
    require h.errorName "ERROR_NAME"
    require h.replySerial "REPLY_SERIAL"
  | .methodReturn => require h.replySerial "REPLY_SERIAL"

/-- The type of the array of fields. -/
def fieldsType : DType := .array (.struct [.byte, .variant])

/-- The array of fields, as a value. -/
def fieldsValue (fields : List HeaderField) : Value :=
  .array (.struct [.byte, .variant])
    (fields.map fun f => .struct [.byte f.code, .variant f.toValue])

/-- Write a header and align what follows. -/
def write (h : MessageHeader) (m : Marshaler) : CoreResult Marshaler := do
  let m := m.writeU8 (if h.bigEndian then 66 else 108)
  let m := m.writeU8 h.messageType.toU8
  let m := m.writeU8 h.flags
  let m := m.writeU8 h.protocolVersion
  let m := m.writeU32 h.bodyLength
  let m := m.writeU32 h.serial
  let m ← Marshaler.writeValue (fieldsValue h.fields) m
  .ok (m.align 8)

/-- **The fixed part of a header** and the length of the fields after it. -/
structure Prefix where
  /-- Whether integers are most significant byte first. -/
  bigEndian : Bool
  /-- The kind of message. -/
  messageType : MessageType
  /-- The flags, as bits. -/
  flags : UInt8
  /-- The version of the protocol. -/
  protocolVersion : UInt8
  /-- The length of the body in bytes. -/
  bodyLength : UInt32
  /-- The serial number of the message. -/
  serial : UInt32
  /-- The length of the fields in bytes. -/
  fieldsArrayLen : UInt32

/-- The byte order a marker stands for. -/
def byteOrder (marker : UInt8) : CoreResult Bool :=
  if marker = 108 then .ok false
  else if marker = 66 then .ok true
  else .err (.badByteOrder marker)

/-- Decode the first sixteen bytes of a message. -/
def readPrefix (buf : List UInt8) : CoreResult Prefix :=
  if buf.length < 16 then .err (.unexpectedEof 16 buf.length)
  else do
    let b0 ← (Unmarshaler.new buf false).byteAt 0
    let bigEndian ← byteOrder b0
    let b1 ← (Unmarshaler.new buf false).byteAt 1
    let messageType ← MessageType.fromU8 b1
    let flags ← (Unmarshaler.new buf false).byteAt 2
    let version ← (Unmarshaler.new buf false).byteAt 3
    if version ≠ Oxibus.protocolVersion then .err (.badProtocolVersion version)
    else do
      let (bodyLength, u) ← (Unmarshaler.new (buf.drop 4) bigEndian).readU32
      let (serial, u) ← u.readU32
      let (fieldsArrayLen, _) ← u.readU32
      .ok ⟨bigEndian, messageType, flags, version, bodyLength, serial, fieldsArrayLen⟩

/-- The length of a whole message, once sixteen bytes of it are there. -/
def peekFrameLen (buf : List UInt8) : CoreResult (Option ℕ) :=
  if buf.length < 16 then .ok none
  else do
    let pre ← readPrefix buf
    let headerLenBeforePad := 16 + pre.fieldsArrayLen.toNat
    let headerLen := (headerLenBeforePad + 7) / 8 * 8
    .ok (some (headerLen + pre.bodyLength.toNat))

/-- The value under a variant; anything else is itself. -/
def variantInner : Value → Value
  | .variant v => v
  | other => other

/-- The fields among the elements of the decoded array. An element that is
not a pair of a byte and a value is passed over, and so is a code without a
meaning. -/
def collectFields : List Value → CoreResult (List HeaderField)
  | [] => .ok []
  | .struct [.byte code, variant] :: elements => do
    let field ← HeaderField.fromCodeAndValue code (variantInner variant)
    let fields ← collectFields elements
    .ok (field.toList ++ fields)
  | _ :: elements => collectFields elements

/-- The fields of the decoded array. -/
def fieldsOf : Value → CoreResult (List HeaderField)
  | .array _ elements => collectFields elements
  | _ => .ok []

/-- **Decode a header**, with the offset of the body. -/
def read (buf : List UInt8) : CoreResult (MessageHeader × ℕ) := do
  let pre ← readPrefix buf
  let u : Unmarshaler := ⟨buf, 4, pre.bigEndian⟩
  let (_, u) ← u.readU32
  let (_, u) ← u.readU32
  let (value, u) ← Unmarshaler.readValue fieldsType u
  let fields ← fieldsOf value
  let u ← u.align 8
  .ok (⟨pre.bigEndian, pre.messageType, pre.flags, pre.protocolVersion, pre.bodyLength,
    pre.serial, fields⟩, u.pos)

/-! ## What a header's bytes are -/

/-- The marker of a byte order. -/
def orderMarker (bigEndian : Bool) : UInt8 := if bigEndian then 66 else 108

/-- **The twelve fixed bytes of a header.** -/
def fixedBytes (h : MessageHeader) : List UInt8 :=
  [orderMarker h.bigEndian, h.messageType.toU8, h.flags, h.protocolVersion] ++
    (toBytes h.bigEndian 4 h.bodyLength.toNat ++ toBytes h.bigEndian 4 h.serial.toNat)

@[simp] theorem length_fixedBytes (h : MessageHeader) : h.fixedBytes.length = 12 := by
  simp [fixedBytes]

theorem byteOrder_eq_ok {b : UInt8} {be : Bool} : byteOrder b = .ok be ↔ b = orderMarker be := by
  unfold byteOrder orderMarker
  constructor
  · intro h
    split at h
    · next hb =>
      cases h
      exact hb
    · split at h
      · next hb =>
        cases h
        exact hb
      · cases h
  · rintro rfl
    cases be <;> rfl

theorem fromU8_eq_ok {b : UInt8} {t : MessageType} :
    MessageType.fromU8 b = .ok t ↔ b = t.toU8 := by
  constructor
  · intro h
    unfold MessageType.fromU8 at h
    split at h
    · next hb =>
      cases h
      exact hb
    · split at h
      · next hb =>
        cases h
        exact hb
      · split at h
        · next hb =>
          cases h
          exact hb
        · split at h
          · next hb =>
            cases h
            exact hb
          · cases h
  · rintro rfl
    exact MessageType.fromU8_toU8 t

/-- Writing a header appends its fixed bytes, its fields and the padding. -/
theorem write_eq (h : MessageHeader) :
    h.write (Marshaler.new h.bigEndian) = (fun arr =>
      ⟨h.fixedBytes ++ arr ++ zeros (12 + arr.length) 8, h.bigEndian⟩) <$>
        (fieldsValue h.fields).encode h.bigEndian 12 := by
  have hfixed : ((((((Marshaler.new h.bigEndian).writeU8 (if h.bigEndian then 66 else 108)).writeU8
      h.messageType.toU8).writeU8 h.flags).writeU8 h.protocolVersion).writeU32
      h.bodyLength).writeU32 h.serial = ⟨h.fixedBytes, h.bigEndian⟩ := by
    have h4 : zeros 4 4 = [] := rfl
    have h8 : zeros 8 4 = [] := rfl
    simp [Marshaler.writeU8, Marshaler.writeU32, Marshaler.writeUInt_eq, Marshaler.new,
      Marshaler.extend, Marshaler.pos, Value.encodeUInt, fixedBytes, orderMarker, h4, h8]
  rw [write]
  simp only [hfixed, Marshaler.writeValue_eq, Marshaler.pos, length_fixedBytes]
  cases (fieldsValue h.fields).encode h.bigEndian 12 with
  | ok arr =>
    simp only [Outcome.map_ok, Outcome.ok_bind]
    rw [Marshaler.align_eq _ (by decide)]
    simp [Marshaler.extend, Marshaler.pos]
  | _ => rfl

open Unmarshaler in
/-- An aligned integer is read from its bytes alone. -/
theorem readU32_aligned {u u' : Unmarshaler} {v : UInt32} (hpos : u.pos ≤ u.buf.length)
    (halign : u.pos % 4 = 0) :
    u.readU32 = .ok (v, u') ↔ Consumes u (toBytes u.bigEndian 4 v.toNat) u' := by
  rw [readU32_eq_ok hpos, padding_eq_zero halign]
  constructor
  · rintro ⟨pad, hpad, hcons⟩
    rwa [List.length_eq_zero_iff.mp hpad, List.nil_append] at hcons
  · intro hcons
    exact ⟨[], rfl, hcons⟩

open Unmarshaler in
/-- And two in a row from theirs. -/
theorem readU32_pair {u u₂ : Unmarshaler} {a b : UInt32} (hpos : u.pos ≤ u.buf.length)
    (halign : u.pos % 4 = 0) :
    (∃ u₁, u.readU32 = .ok (a, u₁) ∧ u₁.readU32 = .ok (b, u₂))
      ↔ Consumes u (toBytes u.bigEndian 4 a.toNat ++ toBytes u.bigEndian 4 b.toNat) u₂ := by
  have hnext : ∀ {u₁}, Consumes u (toBytes u.bigEndian 4 a.toNat) u₁ → u₁.pos % 4 = 0 := by
    intro u₁ c
    rw [c.pos_eq, length_toBytes]
    omega
  constructor
  · rintro ⟨u₁, ha, hb⟩
    have c₁ := (readU32_aligned hpos halign).mp ha
    have c₂ := (readU32_aligned c₁.before.le_length (hnext c₁)).mp hb
    rw [c₁.bigEndian_eq] at c₂
    exact c₁.trans c₂
  · intro c
    obtain ⟨u₁, c₁, c₂⟩ := c.exists_split
    rw [← c₁.bigEndian_eq] at c₂
    exact ⟨u₁, (readU32_aligned hpos halign).mpr c₁,
      (readU32_aligned c₁.before.le_length (hnext c₁)).mpr c₂⟩

open Unmarshaler in
/-- **The fixed part of a header is read from its bytes.** -/
theorem readPrefix_eq_ok {buf : List UInt8} {pre : Prefix} :
    readPrefix buf = .ok pre ↔ pre.protocolVersion = Oxibus.protocolVersion ∧
      ∃ rest, buf = [orderMarker pre.bigEndian, pre.messageType.toU8, pre.flags,
        pre.protocolVersion] ++ (toBytes pre.bigEndian 4 pre.bodyLength.toNat ++
          (toBytes pre.bigEndian 4 pre.serial.toNat ++
            (toBytes pre.bigEndian 4 pre.fieldsArrayLen.toNat ++ rest))) := by
  unfold readPrefix
  constructor
  · intro h
    split at h
    · cases h
    · next hlen =>
      obtain ⟨b0, b1, b2, b3, r, rfl⟩ : ∃ b0 b1 b2 b3 r, buf = b0 :: b1 :: b2 :: b3 :: r := by
        match buf, hlen with
        | b0 :: b1 :: b2 :: b3 :: r, _ => exact ⟨b0, b1, b2, b3, r, rfl⟩
        | [], hlen => simp at hlen
        | [_], hlen => simp at hlen
        | [_, _], hlen => simp at hlen
        | [_, _, _], hlen => simp at hlen
      simp only [byteAt, new, List.getElem?_cons_zero, List.getElem?_cons_succ, Outcome.ok_bind,
        List.drop_succ_cons, List.drop_zero] at h
      obtain ⟨be, hbe, h⟩ := Outcome.bind_eq_ok.mp h
      obtain ⟨t, ht, h⟩ := Outcome.bind_eq_ok.mp h
      split at h
      · cases h
      · next hversion =>
        obtain ⟨⟨bl, u₁⟩, hbl, h⟩ := Outcome.bind_eq_ok.mp h
        obtain ⟨⟨serial, u₂⟩, hserial, h⟩ := Outcome.bind_eq_ok.mp h
        obtain ⟨⟨fal, u₃⟩, hfal, h⟩ := Outcome.bind_eq_ok.mp h
        cases h
        have c₂ := (readU32_pair (Nat.zero_le _) rfl).mp ⟨u₁, hbl, hserial⟩
        have hp₂ : u₂.pos = 8 := by
          rw [c₂.pos_eq, List.length_append, length_toBytes, length_toBytes]
        have c₃ := (readU32_aligned c₂.before.le_length (by rw [hp₂])).mp hfal
        refine ⟨not_not.mp hversion, u₃.rest, ?_⟩
        have hr : r = toBytes be 4 bl.toNat ++ (toBytes be 4 serial.toNat ++
            (toBytes be 4 fal.toNat ++ u₃.rest)) := by
          have h₃ := c₃.rest_eq
          rw [c₂.bigEndian_eq] at h₃
          rw [← h₃, ← List.append_assoc]
          exact c₂.rest_eq
        rw [byteOrder_eq_ok.mp hbe, fromU8_eq_ok.mp ht, ← hr]
        rfl
  · rintro ⟨hversion, rest, rfl⟩
    have hlen : ¬ ([orderMarker pre.bigEndian, pre.messageType.toU8, pre.flags,
        pre.protocolVersion] ++ (toBytes pre.bigEndian 4 pre.bodyLength.toNat ++
          (toBytes pre.bigEndian 4 pre.serial.toNat ++
            (toBytes pre.bigEndian 4 pre.fieldsArrayLen.toNat ++ rest)))).length < 16 := by
      simp only [List.length_append, List.length_cons, List.length_nil, length_toBytes]
      omega
    rw [if_neg hlen]
    have hbe : byteOrder (orderMarker pre.bigEndian) = .ok pre.bigEndian := byteOrder_eq_ok.mpr rfl
    simp only [byteAt, new, List.cons_append, List.nil_append, List.getElem?_cons_zero,
      List.getElem?_cons_succ, Outcome.ok_bind, List.drop_succ_cons, List.drop_zero, hbe,
      MessageType.fromU8_toU8, hversion, ne_eq, not_true_eq_false, if_false]
    generalize hu : (⟨toBytes pre.bigEndian 4 pre.bodyLength.toNat ++
      (toBytes pre.bigEndian 4 pre.serial.toNat ++
        (toBytes pre.bigEndian 4 pre.fieldsArrayLen.toNat ++ rest)), 0, pre.bigEndian⟩ :
          Unmarshaler) = u
    have hpos : u.pos = 0 := by rw [← hu]
    have hbe : u.bigEndian = pre.bigEndian := by rw [← hu]
    have hrest : u.rest = ((toBytes pre.bigEndian 4 pre.bodyLength.toNat ++
        toBytes pre.bigEndian 4 pre.serial.toNat) ++
          toBytes pre.bigEndian 4 pre.fieldsArrayLen.toNat) ++ rest := by
      rw [← hu]
      simp [Unmarshaler.rest]
    obtain ⟨c₂, c₃⟩ := (consumes_of_rest (by rw [hpos]; omega) hrest).split
    rw [← hbe] at c₂ c₃
    obtain ⟨u₁, r₁, r₂⟩ := (readU32_pair (by rw [hpos]; omega) (by rw [hpos])).mpr c₂
    have r₃ := (readU32_aligned c₂.before.le_length (by simp [hpos])).mpr c₃
    rw [r₁, Outcome.ok_bind]
    simp only [r₂, r₃, Outcome.ok_bind]
    rw [← hversion]

/-- A value of an array type is an array. -/
theorem eq_array_of_valueType {v : Value} {t : DType} (h : v.valueType = .array t) :
    ∃ elements, v = .array t elements := by
  cases v <;> cases h
  exact ⟨_, rfl⟩

theorem wellFormed_fieldsType : fieldsType.WellFormed false := by
  simp [fieldsType, DType.WellFormed, DType.fieldsWellFormed_iff]

open Unmarshaler in
/-- **A header is read from its fixed bytes, a layout of its fields and the
padding after them.** -/
theorem read_eq_ok {buf : List UInt8} {h : MessageHeader} {off : ℕ} :
    read buf = .ok (h, off) ↔ h.protocolVersion = Oxibus.protocolVersion ∧
      ∃ elements arr pad tail, buf = h.fixedBytes ++ (arr ++ (pad ++ tail)) ∧
        (Value.array (.struct [.byte, .variant]) elements).Layout h.bigEndian 12 arr ∧
        collectFields elements = .ok h.fields ∧
        pad.length = padding (12 + arr.length) 8 ∧ off = 12 + arr.length + pad.length := by
  constructor
  · intro hread
    obtain ⟨pre, hpre, hread⟩ := Outcome.bind_eq_ok.mp hread
    obtain ⟨⟨bl, u₁⟩, hbl, hread⟩ := Outcome.bind_eq_ok.mp hread
    obtain ⟨⟨serial, u₂⟩, hserial, hread⟩ := Outcome.bind_eq_ok.mp hread
    obtain ⟨⟨v, u₃⟩, hv, hread⟩ := Outcome.bind_eq_ok.mp hread
    obtain ⟨fields, hfields, hread⟩ := Outcome.bind_eq_ok.mp hread
    obtain ⟨u₄, halign, hread⟩ := Outcome.bind_eq_ok.mp hread
    cases hread
    obtain ⟨hversion, rest, hbuf⟩ := readPrefix_eq_ok.mp hpre
    have hlen : 16 ≤ buf.length := by
      rw [hbuf]
      simp only [List.length_append, List.length_cons, List.length_nil, length_toBytes]
      omega
    have hle : 4 ≤ buf.length := by omega
    have c₂ := (readU32_pair hle (Nat.mod_self 4)).mp ⟨u₁, hbl, hserial⟩
    have hp₂ : u₂.pos = 12 := by
      rw [c₂.pos_eq, List.length_append, length_toBytes, length_toBytes]
    obtain ⟨htype, arr, harr, c₃⟩ :=
      (readValue_eq_ok wellFormed_fieldsType c₂.before.le_length).mp hv
    obtain ⟨pad, hpad, c₄⟩ := (align_eq_ok (by decide) c₃.before.le_length).mp halign
    obtain ⟨elements, rfl⟩ := eq_array_of_valueType htype
    have hbe : u₂.bigEndian = pre.bigEndian := c₂.bigEndian_eq
    rw [hbe, hp₂] at harr
    rw [c₃.pos_eq, hp₂] at hpad
    refine ⟨hversion, elements, arr, pad, u₄.rest, ?_, harr, hfields, hpad, ?_⟩
    · -- the fixed bytes end where the fields start
      have hdrop : u₂.rest = buf.drop 12 := by
        rw [Unmarshaler.rest, hp₂, c₂.buf_eq]
      have hfixed : buf = fixedBytes ⟨pre.bigEndian, pre.messageType, pre.flags,
          pre.protocolVersion, pre.bodyLength, pre.serial, fields⟩ ++
            (toBytes pre.bigEndian 4 pre.fieldsArrayLen.toNat ++ rest) := by
        rw [hbuf]
        simp [fixedBytes]
      rw [← c₄.rest_eq, ← c₃.rest_eq, hdrop, hfixed, List.drop_left' (length_fixedBytes _)]
    · rw [c₄.pos_eq, c₃.pos_eq, hp₂]
  · rintro ⟨hversion, elements, arr, pad, tail, rfl, harr, hfields, hpad, rfl⟩
    obtain ⟨n, arr', hn, harr'⟩ : ∃ n arr', n < 2 ^ 32 ∧ arr = toBytes h.bigEndian 4 n ++ arr' := by
      obtain ⟨-, pad₁, pad₂, body, hpad₁, -, hmax, -, rfl⟩ := harr
      have hnil : pad₁ = [] := List.length_eq_zero_iff.mp (by rw [hpad₁]; rfl)
      exact ⟨body.length, pad₂ ++ body, lt_of_le_of_lt hmax (by decide), by rw [hnil]; simp⟩
    have hpre : readPrefix (h.fixedBytes ++ (arr ++ (pad ++ tail))) = .ok ⟨h.bigEndian,
        h.messageType, h.flags, h.protocolVersion, h.bodyLength, h.serial, UInt32.ofNat n⟩ := by
      refine readPrefix_eq_ok.mpr ⟨hversion, arr' ++ (pad ++ tail), ?_⟩
      rw [UInt32.toNat_ofNat_of_lt' hn, harr']
      simp [fixedBytes]
    generalize hu : (⟨h.fixedBytes ++ (arr ++ (pad ++ tail)), 4, h.bigEndian⟩ : Unmarshaler) = u
    have hpos : u.pos = 4 := by rw [← hu]
    have hbe : u.bigEndian = h.bigEndian := by rw [← hu]
    have hle : u.pos ≤ u.buf.length := by
      rw [← hu]
      simp only [List.length_append, length_fixedBytes]
      omega
    have hrest : u.rest = ((toBytes h.bigEndian 4 h.bodyLength.toNat ++
        toBytes h.bigEndian 4 h.serial.toNat) ++ (arr ++ pad)) ++ tail := by
      rw [← hu]
      simp [Unmarshaler.rest, fixedBytes]
    obtain ⟨u₂, c₂, c⟩ := (consumes_of_rest hle hrest).exists_split
    obtain ⟨u₃, c₃, c₄⟩ := c.exists_split
    generalize u.advance _ = u₄ at c₄
    have hp₂ : u₂.pos = 12 := by
      rw [c₂.pos_eq, List.length_append, length_toBytes, length_toBytes, hpos]
    have hp₃ : u₃.pos = 12 + arr.length := by rw [c₃.pos_eq, hp₂]
    have hb₂ : u₂.bigEndian = h.bigEndian := c₂.bigEndian_eq.trans hbe
    obtain ⟨u₁, r₁, r₂⟩ := (readU32_pair hle (by rw [hpos])).mpr (hbe.symm ▸ c₂)
    have r₃ := layoutRead (.array (.struct [.byte, .variant]) elements) c₂.before.le_length
      (by rw [hb₂, hp₂]; exact harr) c₃
    have r₄ := (align_eq_ok (by decide : 0 < 8) c₃.before.le_length).mpr
      ⟨pad, by rw [hpad, hp₃], c₄⟩
    rw [Value.valueType] at r₃
    rw [read, hpre, Outcome.ok_bind]
    simp only [hu, fieldsType]
    rw [r₁, Outcome.ok_bind]
    simp only [r₂, r₃, r₄, fieldsOf, hfields, Outcome.ok_bind, c₄.pos_eq, hp₃]

end MessageHeader

end Oxibus
