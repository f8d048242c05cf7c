import Oxibus.Core.Header

/-!
# Messages

A message is a header, a body and the file descriptors that travel with it.
Encoding computes the fields that describe the body – its signature and the
number of descriptors – and drops what the header said of them; decoding
takes the header at its word.

`toBytes_eq_ok` and `fromBytes_eq_ok` say what the two functions accept and
produce, without their intermediate states, and `fromBytes_toBytes` is the
round trip of whole messages.
-/

namespace Oxibus

/-- The next serial number of a counter and the counter after it: zero is
skipped. -/
def nextSerial (counter : UInt32) : UInt32 × UInt32 :=
  if counter = 0 then (1, 2) else (counter, counter + 1)

/-- **A message.** -/
structure Message where
  /-- The header. -/
  header : MessageHeader
  /-- The values of the body. -/
  body : List Value
  /-- The raw file descriptors that came with the message. -/
  fds : List Int32

namespace Message

def messageType (m : Message) : MessageType := m.header.messageType

def serial (m : Message) : UInt32 := m.header.serial

def path (m : Message) : Option ObjectPath := m.header.path

def interface (m : Message) : Option String := m.header.interface

def member (m : Message) : Option String := m.header.member

def destination (m : Message) : Option String := m.header.destination

def sender (m : Message) : Option String := m.header.sender

def replySerial (m : Message) : Option UInt32 := m.header.replySerial

/-- Whether the sender wants no reply. -/
def noReplyExpected (m : Message) : Bool := m.header.flags &&& flagNoReplyExpected != 0

/-- Whether the destination must not be started for this message. -/
def noAutoStart (m : Message) : Bool := m.header.flags &&& flagNoAutoStart != 0

/-- Stamp the message with its sender. -/
def setSender (m : Message) (sender : String) : Message :=
  { m with header := m.header.setSender sender }

/-- **The stamp changes no other field.** -/
theorem findSome?_setSender {β : Type} {g : HeaderField → Option β}
    (hg : ∀ s, g (.sender s) = none) (m : Message) (u : String) :
    (m.setSender u).header.fields.findSome? g = m.header.fields.findSome? g := by
  have hsender : ∀ f : HeaderField, f.isSender = true → g f = none := by
    intro f hf
    cases f with
    | sender s => exact hg s
    | _ => cases hf
  show ((m.header.fields.filter fun f => !f.isSender) ++ [HeaderField.sender u]).findSome? g = _
  rw [List.findSome?_append, HeaderField.findSome?_filter hsender, List.findSome?_singleton,
    hg u, Option.or_none]

section

variable (m : Message) (u : String)

/-- A stamped message names who has sent it. -/
theorem sender_setSender : (m.setSender u).sender = some u := by
  show ((m.header.fields.filter fun f => !f.isSender) ++
    [HeaderField.sender u]).findSome? HeaderField.asSender = _
  have hnone : (m.header.fields.filter fun f => !f.isSender).findSome? HeaderField.asSender
      = none := by
    rw [List.findSome?_eq_none_iff]
    intro f hf
    have hsender := (List.mem_filter.mp hf).2
    cases f <;> first | rfl | cases hsender
  rw [List.findSome?_append, hnone]
  rfl

theorem path_setSender : (m.setSender u).path = m.path := findSome?_setSender (fun _ => rfl) m u

theorem interface_setSender : (m.setSender u).interface = m.interface :=
  findSome?_setSender (fun _ => rfl) m u

theorem member_setSender : (m.setSender u).member = m.member :=
  findSome?_setSender (fun _ => rfl) m u

theorem destination_setSender : (m.setSender u).destination = m.destination :=
  findSome?_setSender (fun _ => rfl) m u

theorem replySerial_setSender : (m.setSender u).replySerial = m.replySerial :=
  findSome?_setSender (fun _ => rfl) m u

end

/-- The field for the signature of a body, which an empty body does not
have. -/
def signatureFields (sig : String) : CoreResult (List HeaderField) :=
  if sig = "" then .ok []
  else do
    let s ← Signature.new sig
    .ok [.signature s]

/-- The field for the number of descriptors, absent without any. -/
def unixFdsFields (fds : List Int32) : List HeaderField :=
  if fds.isEmpty then [] else [.unixFds (UInt32.ofNat fds.length)]

/-- **The bytes of a message.** -/
def toBytes (m : Message) : CoreResult (List UInt8) := do
  let (bodyBytes, sig) ← marshalBody m.body m.header.bigEndian
  let sigFields ← signatureFields sig
  let header := { m.header with
    bodyLength := UInt32.ofNat bodyBytes.length
    fields := (m.header.fields.filter fun f : HeaderField => !f.isBodyField) ++ sigFields ++
      unixFdsFields m.fds }
  header.validate
  let w ← header.write (Marshaler.new header.bigEndian)
  .ok (w.buf ++ bodyBytes)

/-- The values of a body; a message without a signature has none. -/
def decodeBody (bodyBuf : List UInt8) (sig : String) (bigEndian : Bool) :
    CoreResult (List Value) :=
  if sig = "" then .ok [] else unmarshalBody bodyBuf sig bigEndian

/-- **The message of some bytes.** The body is cut out by the length the
header declares, which panics where the bytes are too few. -/
def fromBytes (buf : List UInt8) (fds : List Int32) : CoreResult Message := do
  let (header, bodyOffset) ← MessageHeader.read buf
  let bodyBuf ← (Unmarshaler.new buf false).slice bodyOffset
    (bodyOffset + header.bodyLength.toNat)
  let body ← decodeBody bodyBuf header.signature header.bigEndian
  let declaredFds := header.unixFds.toNat
  if fds.length < declaredFds then
    .err (.fdIndexOutOfRange (UInt32.ofNat declaredFds) fds.length)
  else .ok ⟨header, body, fds⟩

/-! ## Building messages -/

/-- **A message under construction.** -/
structure Builder where
  /-- The kind of message. -/
  messageType : MessageType
  /-- The flags set so far. -/
  flags : UInt8
  /-- The fields added so far. -/
  fields : List HeaderField
  /-- The arguments added so far. -/
  body : List Value
  /-- The descriptors added so far. -/
  fds : List Int32

namespace Builder

def new (messageType : MessageType) : Builder := ⟨messageType, 0, [], [], []⟩

def field (b : Builder) (f : HeaderField) : Builder := { b with fields := b.fields ++ [f] }

def methodCall (path : ObjectPath) (member : String) : Builder :=
  ((new .methodCall).field (.path path)).field (.member member)

def signal (path : ObjectPath) (interface member : String) : Builder :=
  (((new .signal).field (.path path)).field (.interface interface)).field (.member member)

def methodReturn (replyToSerial : UInt32) : Builder :=
  (new .methodReturn).field (.replySerial replyToSerial)

def error (replyToSerial : UInt32) (errorName : String) : Builder :=
  ((new .error).field (.replySerial replyToSerial)).field (.errorName errorName)

def interface (b : Builder) (iface : String) : Builder := b.field (.interface iface)

def destination (b : Builder) (dest : String) : Builder := b.field (.destination dest)

def sender (b : Builder) (sender : String) : Builder := b.field (.sender sender)

def noReplyExpected (b : Builder) : Builder := { b with flags := b.flags ||| flagNoReplyExpected }

/-- Let a descriptor travel with the message. -/
def fd (b : Builder) (raw : Int32) : Builder := { b with fds := b.fds ++ [raw] }

def arg (b : Builder) (v : Value) : Builder := { b with body := b.body ++ [v] }

def args (b : Builder) (vs : List Value) : Builder := { b with body := b.body ++ vs }

/-- The message, with its serial number. The byte order is the one of a
little-endian machine. -/
def build (b : Builder) (serial : UInt32) : Message :=
  ⟨⟨false, b.messageType, b.flags, protocolVersion, 0, serial, b.fields⟩, b.body, b.fds⟩

end Builder

/-- **A reply to a call**, a return or an error, addressed to its sender. -/
def replyTo (call : Message) (errorName : Option String) : Builder :=
  let b := match errorName with
    | none => Builder.methodReturn call.serial
    | some name => Builder.error call.serial name
  match call.sender with
  | some sender => b.destination sender
  | none => b

/-! ## What encoding produces -/

/-- The signature of the message's body. -/
def bodySignature (m : Message) : String := signatureOf (Value.valueTypes m.body)

/-- **The fields of the encoded message.** -/
def wireFields (m : Message) : List HeaderField :=
  (m.header.fields.filter fun f : HeaderField => !f.isBodyField) ++
    (if m.bodySignature = "" then [] else [.signature ⟨m.bodySignature⟩]) ++
      unixFdsFields m.fds

/-- **The header of the encoded message**, for a body of `n` bytes. -/
def wireHeader (m : Message) (n : ℕ) : MessageHeader :=
  { m.header with bodyLength := UInt32.ofNat n, fields := m.wireFields }

theorem signatureFields_eq_ok {sig : String} {fields : List HeaderField} :
    signatureFields sig = .ok fields ↔ (sig = "" ∨ (parseSignature sig).isOk = true) ∧
      fields = if sig = "" then [] else [.signature ⟨sig⟩] := by
  unfold signatureFields
  by_cases hsig : sig = ""
  · rw [if_pos hsig, if_pos hsig, Outcome.ok.injEq]
    constructor
    · rintro rfl
      exact ⟨Or.inl hsig, rfl⟩
    · rintro ⟨-, rfl⟩
      rfl
  · rw [if_neg hsig, if_neg hsig, Outcome.bind_eq_ok]
    constructor
    · rintro ⟨s, hs, h⟩
      obtain ⟨rfl, hparse⟩ := Signature.new_eq_ok.mp hs
      cases h
      exact ⟨Or.inr hparse, rfl⟩
    · rintro ⟨hparse, rfl⟩
      exact ⟨_, Signature.new_eq_ok.mpr ⟨rfl, hparse.resolve_left hsig⟩, rfl⟩

/-- Validation looks at the fields that are not about the body or the
sender. -/
theorem validate_eq_ok {h : MessageHeader} : h.validate = .ok () ↔
    match h.messageType with
    | .methodCall => h.path.isSome = true ∧ h.member.isSome = true
    | .signal => h.path.isSome = true ∧ h.interface.isSome = true ∧ h.member.isSome = true
    | .error => h.errorName.isSome = true ∧ h.replySerial.isSome = true
    | .methodReturn => h.replySerial.isSome = true := by
  have hreq : ∀ {α : Type} {field : Option α} {name : String},
      MessageHeader.require field name = .ok () ↔ field.isSome = true := by
    intro α field name
    cases field <;> simp [MessageHeader.require]
  have hseq : ∀ {x : CoreResult Unit} {y : CoreResult Unit},
      (do x; y) = .ok () ↔ x = .ok () ∧ y = .ok () := by
    intro x y
    rw [Outcome.bind_eq_ok]
    constructor
    · rintro ⟨_, hx, hy⟩
      exact ⟨hx, hy⟩
    · rintro ⟨hx, hy⟩
      exact ⟨(), hx, hy⟩
  unfold MessageHeader.validate
  cases h.messageType <;> simp only [hseq, hreq]

/-- **What a message encodes to**, and when. -/
theorem toBytes_eq_ok {m : Message} {out : List UInt8} :
    m.toBytes = .ok out ↔ (m.bodySignature = "" ∨ (parseSignature m.bodySignature).isOk = true) ∧
      ∃ bodyBytes arr, Value.encodeAll m.header.bigEndian m.body 0 = .ok bodyBytes ∧
        (m.wireHeader bodyBytes.length).validate = .ok () ∧
        (MessageHeader.fieldsValue m.wireFields).encode m.header.bigEndian 12 = .ok arr ∧
        out = (m.wireHeader bodyBytes.length).fixedBytes ++
          (arr ++ (zeros (12 + arr.length) 8 ++ bodyBytes)) := by
  have hwrite : ∀ n, (m.wireHeader n).write (Marshaler.new m.header.bigEndian) = _ :=
    fun n => (m.wireHeader n).write_eq
  unfold toBytes
  rw [marshalBody_eq]
  constructor
  · intro h
    obtain ⟨⟨bodyBytes, sig⟩, hbody, h⟩ := Outcome.bind_eq_ok.mp h
    obtain ⟨_, hbytes, hbody⟩ := Outcome.map_eq_ok.mp hbody
    cases hbody
    obtain ⟨sigFields, hsig, h⟩ := Outcome.bind_eq_ok.mp h
    obtain ⟨hparse, rfl⟩ := signatureFields_eq_ok.mp hsig
    obtain ⟨_, hvalid, h⟩ := Outcome.bind_eq_ok.mp h
    obtain ⟨w, hw, h⟩ := Outcome.bind_eq_ok.mp h
    cases h
    obtain ⟨arr, harr, rfl⟩ := Outcome.map_eq_ok.mp ((hwrite _).symm.trans hw)
    exact ⟨hparse, bodyBytes, arr, hbytes, hvalid, harr, by simp [List.append_assoc]⟩
  · rintro ⟨hparse, bodyBytes, arr, hbytes, hvalid, harr, rfl⟩
    have hw : (m.wireHeader bodyBytes.length).write (Marshaler.new m.header.bigEndian)
        = .ok ⟨(m.wireHeader bodyBytes.length).fixedBytes ++ arr ++ zeros (12 + arr.length) 8,
            m.header.bigEndian⟩ := by
      rw [hwrite]
      exact Outcome.map_eq_ok.mpr ⟨arr, harr, rfl⟩
    have hsig := signatureFields_eq_ok.mpr ⟨hparse, rfl⟩
    rw [hbytes, Outcome.map_ok, Outcome.ok_bind]
    simp only
    rw [← bodySignature, hsig, Outcome.ok_bind]
    show (do
      (m.wireHeader bodyBytes.length).validate
      let w ← (m.wireHeader bodyBytes.length).write (Marshaler.new m.header.bigEndian)
      .ok (w.buf ++ bodyBytes)) = _
    rw [hvalid, Outcome.ok_bind, hw, Outcome.ok_bind]
    simp [List.append_assoc]

/-- The body follows the header and its padding. -/
theorem drop_header (h : MessageHeader) (arr pad tail : List UInt8) :
    (h.fixedBytes ++ (arr ++ (pad ++ tail))).drop (12 + arr.length + pad.length) = tail := by
  rw [← List.append_assoc, ← List.append_assoc]
  exact List.drop_left' (by simp [Nat.add_assoc])

/-- Decoding, step by step. -/
theorem fromBytes_eq_ok_steps {buf : List UInt8} {fds : List Int32} {m : Message} :
    fromBytes buf fds = .ok m ↔ m.fds = fds ∧ m.header.unixFds.toNat ≤ fds.length ∧
      ∃ off bodyBuf, MessageHeader.read buf = .ok (m.header, off) ∧
        (Unmarshaler.new buf false).slice off (off + m.header.bodyLength.toNat) = .ok bodyBuf ∧
        decodeBody bodyBuf m.header.signature m.header.bigEndian = .ok m.body := by
  constructor
  · intro h
    obtain ⟨⟨header, off⟩, hread, h⟩ := Outcome.bind_eq_ok.mp h
    obtain ⟨bodyBuf, hslice, h⟩ := Outcome.bind_eq_ok.mp h
    obtain ⟨body, hbody, h⟩ := Outcome.bind_eq_ok.mp h
    simp only at h
    split at h
    · cases h
    · next hfds =>
      cases h
      exact ⟨rfl, not_lt.mp hfds, off, bodyBuf, hread, hslice, hbody⟩
  · rintro ⟨rfl, hfds, off, bodyBuf, hread, hslice, hbody⟩
    rw [fromBytes, hread, Outcome.ok_bind]
    simp only [hslice, hbody, Outcome.ok_bind, if_neg (not_lt.mpr hfds)]

/-- **What a message is decoded from.** -/
theorem fromBytes_eq_ok {buf : List UInt8} {fds : List Int32} {m : Message} :
    fromBytes buf fds = .ok m ↔ m.fds = fds ∧ m.header.unixFds.toNat ≤ fds.length ∧
      m.header.protocolVersion = protocolVersion ∧
      ∃ elements arr pad bodyBuf tail,
        buf = m.header.fixedBytes ++ (arr ++ (pad ++ (bodyBuf ++ tail))) ∧
        (Value.array (.struct [.byte, .variant]) elements).Layout m.header.bigEndian 12 arr ∧
        MessageHeader.collectFields elements = .ok m.header.fields ∧
        pad.length = padding (12 + arr.length) 8 ∧
        bodyBuf.length = m.header.bodyLength.toNat ∧
        decodeBody bodyBuf m.header.signature m.header.bigEndian = .ok m.body := by
  rw [fromBytes_eq_ok_steps]
  constructor
  · rintro ⟨hfds, hdeclared, off, bodyBuf, hread, hslice, hbody⟩
    obtain ⟨hversion, elements, arr, pad, tail, rfl, harr, hfields, hpad, rfl⟩ :=
      MessageHeader.read_eq_ok.mp hread
    obtain ⟨hlen, hbuf⟩ : bodyBuf.length = m.header.bodyLength.toNat ∧
        ∃ rest, tail = bodyBuf ++ rest := by
      unfold Unmarshaler.slice at hslice
      split at hslice
      · next hle =>
        simp only [Unmarshaler.new, Nat.add_sub_cancel_left, drop_header] at hslice hle
        cases hslice
        have hlong : m.header.bodyLength.toNat ≤ tail.length := by
          have := hle.2
          simp only [List.length_append, MessageHeader.length_fixedBytes] at this
          omega
        exact ⟨List.length_take_of_le hlong, _, (List.take_append_drop _ _).symm⟩
      · cases hslice
    obtain ⟨rest, rfl⟩ := hbuf
    exact ⟨hfds, hdeclared, hversion, elements, arr, pad, bodyBuf, rest, rfl, harr, hfields, hpad,
      hlen, hbody⟩
  · rintro ⟨hfds, hdeclared, hversion, elements, arr, pad, bodyBuf, tail, rfl, harr, hfields, hpad,
      hlen, hbody⟩
    have hread := MessageHeader.read_eq_ok.mpr ⟨hversion, elements, arr, pad, bodyBuf ++ tail, rfl,
      harr, hfields, hpad, rfl⟩
    have hslice : (Unmarshaler.new (m.header.fixedBytes ++ (arr ++ (pad ++ (bodyBuf ++ tail))))
        false).slice (12 + arr.length + pad.length)
          (12 + arr.length + pad.length + m.header.bodyLength.toNat) = .ok bodyBuf := by
      unfold Unmarshaler.slice
      rw [if_pos]
      · simp only [Unmarshaler.new, Nat.add_sub_cancel_left, drop_header]
        rw [← hlen, List.take_left]
      · simp only [Unmarshaler.new, List.length_append, MessageHeader.length_fixedBytes]
        omega
    exact ⟨hfds, hdeclared, _, bodyBuf, hread, hslice, hbody⟩

/-- The descriptors decide nothing but whether there are enough of them. -/
theorem fromBytes_fds {buf : List UInt8} {fds fds' : List Int32} {m m' : Message}
    (h : fromBytes buf fds = .ok m) (h' : fromBytes buf fds' = .ok m') :
    m'.header = m.header ∧ m'.body = m.body := by
  obtain ⟨-, -, off, bodyBuf, hread, hslice, hbody⟩ := fromBytes_eq_ok_steps.mp h
  obtain ⟨-, -, off', bodyBuf', hread', hslice', hbody'⟩ := fromBytes_eq_ok_steps.mp h'
  obtain ⟨hheader, rfl⟩ := Prod.mk.inj (Outcome.ok.inj (hread.symm.trans hread'))
  rw [← hheader] at hslice' hbody'
  cases hslice.symm.trans hslice'
  exact ⟨hheader.symm, (Outcome.ok.inj (hbody.symm.trans hbody')).symm⟩

end Message

end Oxibus
