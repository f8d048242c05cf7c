import Oxibus.Core.Framing
import Oxibus.Client.Origins

/-!
# Messages that go over two wires

A message from one client to another is encoded and decoded twice: the bus
decodes what the one has written, stamps it, and writes it again for the
other one to decode. The header that comes out in the end says what the first
one said, whatever was in it. The body does if its values are what they claim
to be, which the encoder does not check: an array can hold a value of another
type than its own.
-/

namespace Oxibus

namespace Value

/-! ## Values that can be conveyed -/

/-- **Values whose encoding says what they are**: each is of the type it claims, and
together they are no longer than a body can be. -/
def Conveyable (vs : List Value) : Prop :=
  FitsAll vs ∧ ∀ bytes, encodeAll false vs 0 = .ok bytes → bytes.length < 2 ^ 32

/-- What is left of a list without its descriptors is left of its values. -/
theorem mem_extractFds {vs : List Value} {fds : List Int32} {w : Value}
    (h : w ∈ (extractFds vs fds).1) : ∃ v ∈ vs, ∃ fds', w = (walkFds v fds').1 := by
  induction vs generalizing fds with
  | nil => cases h
  | cons v vs ih =>
    rcases List.mem_cons.mp h with rfl | h
    · exact ⟨v, List.mem_cons_self, fds, rfl⟩
    · obtain ⟨v', hv', fds', rfl⟩ := ih h
      exact ⟨v', List.mem_cons_of_mem v hv', fds', rfl⟩

theorem fitsAll_extractFds_of {vs : List Value}
    (ih : ∀ v ∈ vs, ∀ fds, v.Fits → (walkFds v fds).1.Fits) (h : FitsAll vs) (fds : List Int32) :
    FitsAll (extractFds vs fds).1 := by
  refine fitsAll_iff.mpr fun w hw => ?_
  obtain ⟨v, hv, fds', rfl⟩ := mem_extractFds hw
  exact ih v hv fds' (fitsAll_iff.mp h v hv)

/-- **A value fits without its descriptors if it does with them.** -/
theorem fits_walkFds (v : Value) (fds : List Int32) (h : v.Fits) : (walkFds v fds).1.Fits := by
  induction v using Value.inductionOn generalizing fds with
  | basic v hv =>
    cases basic_of_isBasic hv with
    | unixFd => trivial
    | _ => exact h
  | array t vs ih =>
    refine ⟨fun w hw => ?_, fitsAll_extractFds_of ih h.2 fds⟩
    obtain ⟨v, hv, fds', rfl⟩ := mem_extractFds hw
    rw [valueType_walkFds]
    exact h.1 v hv
  | struct vs ih =>
    refine ⟨fun hnil => h.1 ?_, fitsAll_extractFds_of ih h.2 fds⟩
    cases vs with
    | nil => rfl
    | cons v vs => cases hnil
  | dictEntry k v ihk ihv => exact ⟨ihk fds h.1, ihv _ h.2⟩
  | variant inner ih =>
    refine ⟨?_, ih fds h.2⟩
    rw [valueType_walkFds]
    exact h.1

/-- **Values can be conveyed without their descriptors if they can be with them.** -/
theorem Conveyable.extractFds {vs : List Value} (h : Conveyable vs) (fds : List Int32) :
    Conveyable (Value.extractFds vs fds).1 := by
  refine ⟨fitsAll_extractFds_of (fun v _ => fits_walkFds v) h.1 fds, fun bytes hbytes => ?_⟩
  have hlen : List.length <$> encodeAll false (Value.extractFds vs fds).1 0
      = List.length <$> encodeAll false vs 0 :=
    encodeAll_extractFds_of (fun v _ => encode_walkFds false v) fds 0
  rw [hbytes] at hlen
  obtain ⟨bytes', hbytes', hsame⟩ := Outcome.map_eq_ok.mp hlen.symm
  rw [← hsame]
  exact h.2 bytes' hbytes'

end Value

namespace Message

/-! ## One wire -/

variable {w m m' : Message} {u : String} {β : Type} {g : HeaderField → Option β}

theorem Arrives.header (h : w.Arrives m) : ∃ n, m.header = w.wireHeader n := by
  obtain ⟨out, fds, hout, hm⟩ := h
  exact header_of_fromBytes_toBytes hout hm

/-- What the encoder adds to the fields is about the body. -/
theorem findSome?_wireFields (hbody : ∀ f, f.isBodyField = true → g f = none) (w : Message) :
    w.wireFields.findSome? g = w.header.fields.findSome? g := by
  have hsig : (if w.bodySignature = "" then []
      else [HeaderField.signature ⟨w.bodySignature⟩]).findSome? g = none := by
    split
    · rfl
    · rw [List.findSome?_singleton, hbody _ rfl]
  have hfds : (unixFdsFields w.fds).findSome? g = none := by
    unfold unixFdsFields
    split
    · rfl
    · rw [List.findSome?_singleton, hbody _ rfl]
  rw [wireFields, List.findSome?_append, List.findSome?_append, hsig, hfds, Option.or_none,
    Option.or_none, HeaderField.findSome?_filter hbody]

section Arrives

variable (h : w.Arrives m)
include h

/-- **What arrives has the fields it was written with**, those about the body apart. -/
theorem Arrives.findSome? (hbody : ∀ f, f.isBodyField = true → g f = none) :
    m.header.fields.findSome? g = w.header.fields.findSome? g := by
  obtain ⟨n, hheader⟩ := h.header
  rw [hheader]
  exact findSome?_wireFields hbody w

theorem Arrives.messageType : m.messageType = w.messageType := by
  obtain ⟨n, hheader⟩ := h.header
  show m.header.messageType = _
  rw [hheader]
  rfl

theorem Arrives.noReplyExpected : m.noReplyExpected = w.noReplyExpected := by
  obtain ⟨n, hheader⟩ := h.header
  show (m.header.flags &&& _ != 0) = _
  rw [hheader]
  rfl

theorem Arrives.serial : m.serial = w.serial := by
  obtain ⟨n, hheader⟩ := h.header
  show m.header.serial = _
  rw [hheader]
  rfl

theorem Arrives.destination : m.destination = w.destination :=
  h.findSome? fun f hf => by cases f <;> first | rfl | cases hf

theorem Arrives.replySerial : m.replySerial = w.replySerial :=
  h.findSome? fun f hf => by cases f <;> first | rfl | cases hf

theorem Arrives.isReply : m.isReply = w.isReply := by
  rw [Message.isReply, Message.isReply, h.messageType]

end Arrives

/-- **The body arrives as it was written**, if it can be conveyed. -/
theorem Arrives.body (h : w.Arrives m) (hlittle : w.header.bigEndian = false)
    (hkept : ∀ f ∈ w.header.fields, f.isBodyField = false) (hbody : Value.Conveyable w.body) :
    m.body = w.body := by
  obtain ⟨n, hheader⟩ := h.header
  obtain ⟨out, fds, hout, hm⟩ := h
  have hdecoded := decoded_of_fromBytes hm
  have hvalid : ∀ f ∈ w.header.fields, f.Valid := by
    intro f hf
    refine hdecoded.valid f ?_
    rw [hheader]
    refine List.mem_append_left _ (List.mem_append_left _ (List.mem_filter.mpr ⟨hf, ?_⟩))
    rw [hkept f hf]
    rfl
  have hversion : w.header.protocolVersion = protocolVersion := by
    have hversion := hdecoded.version
    rw [hheader] at hversion
    exact hversion
  obtain ⟨n', hn'⟩ := fromBytes_toBytes hversion hbody.1 hvalid (hlittle ▸ hbody.2) hout
  exact (fromBytes_fds hn' hm).2

/-! ## Two wires -/

end Message

namespace Client

/-! ## Requests and replies -/

/-- The fields of a request. -/
def Request.fields (r : Request) : List HeaderField :=
  [.path r.path, .member r.member] ++ (r.interface.map HeaderField.interface).toList ++
    (r.destination.map HeaderField.destination).toList

/-- **The message of a call**, as it is built. -/
theorem Request.build_eq (r : Request) (serial : UInt32) : r.build serial =
    ⟨⟨false, .methodCall, 0, protocolVersion, 0, serial, r.fields⟩,
      (Value.extractFds r.args []).1, (Value.extractFds r.args []).2⟩ := by
  unfold Request.build Request.fields
  dsimp only
  rw [addFds_eq]
  cases r.interface <;> cases r.destination <;> rfl

/-- **What the caller gets for an answer.** -/
def returned : MethodResult → Except Error (List Value)
  | .ok values => .ok (Value.extractFds values []).1
  | .error e => .error (.callError e.name e.message)

end Client

end Oxibus
