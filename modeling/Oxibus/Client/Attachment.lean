import Oxibus.Core.Forwarding
import Oxibus.Daemon.Delivery
import Oxibus.Daemon.Mediation
import Oxibus.Client.Calls

/-!
# What a client reads

At the other end of a connection of the daemon is a client that decodes the
frames it is sent. What it decodes says the same as the message the daemon
has written, and so what is known of every message that is written – where
it comes from, and how it is addressed – is known of every message that is
read.
-/

namespace Oxibus

open Daemon

namespace Message

variable {msg m : Message}

/-- **A message as it is read**: what the frame of a written message decodes to,
with whatever descriptors came along. -/
def Arrives (msg m : Message) : Prop :=
  ∃ out fds, msg.toBytes = .ok out ∧ fromBytes out fds = .ok m

/-- **Two messages that say the same.** -/
structure Alike (msg m : Message) : Prop where
  messageType : m.messageType = msg.messageType
  noReplyExpected : m.noReplyExpected = msg.noReplyExpected
  serial : m.serial = msg.serial
  path : m.path = msg.path
  interface : m.interface = msg.interface
  member : m.member = msg.member
  replySerial : m.replySerial = msg.replySerial
  destination : m.destination = msg.destination
  sender : m.sender = msg.sender
  body : m.body = msg.body

/-- A message of a connection arrives as it was stamped. -/
theorem alike_of_forwards {source : Message} {u : String} (h : Forwards source u m) :
    (source.setSender u).Alike m := by
  constructor
  case messageType => exact h.messageType
  case noReplyExpected =>
    show (m.header.flags &&& _ != 0) = (source.header.flags &&& _ != 0)
    rw [h.flags]
  case serial => exact h.serial
  case path => exact h.path.trans (source.path_setSender u).symm
  case interface => exact h.interface.trans (source.interface_setSender u).symm
  case member => exact h.member.trans (source.member_setSender u).symm
  case replySerial => exact h.replySerial.trans (source.replySerial_setSender u).symm
  case destination => exact h.destination.trans (source.destination_setSender u).symm
  case sender => exact h.sender.trans (sender_setSender source u).symm
  case body => exact h.body

end Message

variable {bus : Bus} {S : Daemon} {log pre post : List BusEvent} {conn : ConnectionEntry}
variable {msg m : Message} {s : BusState} {written : Bool}

/-- **What a connection has sent arrives as it was sent**, with its stamp. -/
theorem Routed.alike (h : Routed log msg) (harrives : msg.Arrives m) : msg.Alike m := by
  obtain ⟨c, source, -, -, ⟨buf, fds, hbuf⟩, rfl⟩ := h
  obtain ⟨out, fds', hout, hm⟩ := harrives
  obtain ⟨m', hm', hforwards⟩ := Message.forwarded hbuf hout
  have halike := Message.alike_of_forwards hforwards
  obtain ⟨hheader, hbody⟩ := Message.fromBytes_fds hm' hm
  have hmessage : ∀ {β : Type} (f : MessageHeader → β), f m.header = f m'.header :=
    fun f => congrArg f hheader
  exact ⟨(hmessage _).trans halike.messageType,
    (hmessage fun h => h.flags &&& flagNoReplyExpected != 0).trans halike.noReplyExpected,
    (hmessage _).trans halike.serial, (hmessage _).trans halike.path,
    (hmessage _).trans halike.interface, (hmessage _).trans halike.member,
    (hmessage _).trans halike.replySerial, (hmessage _).trans halike.destination,
    (hmessage _).trans halike.sender, hbody.trans halike.body⟩

/-- A call that arrives has a path and a member: it was checked when it was
encoded. -/
theorem Routed.validates (h : Routed log msg) (harrives : msg.Arrives m)
    (htype : msg.messageType = .methodCall) : m.path.isSome = true ∧ m.member.isSome = true := by
  have halike := h.alike harrives
  obtain ⟨c, source, -, -, -, rfl⟩ := h
  obtain ⟨out, fds, hout, -⟩ := harrives
  obtain ⟨-, bodyBytes, -, -, hvalid, -⟩ := Message.toBytes_eq_ok.mp hout
  have hpath : ((source.setSender c.uniqueName).wireHeader bodyBytes.length).path = source.path :=
    Message.findSome?_wireFields_setSender (fun f hf => by cases f <;> first | rfl | cases hf)
      (fun f hf => by cases f <;> first | rfl | cases hf) source c.uniqueName
  have hmember : ((source.setSender c.uniqueName).wireHeader bodyBytes.length).member
      = source.member :=
    Message.findSome?_wireFields_setSender (fun f hf => by cases f <;> first | rfl | cases hf)
      (fun f hf => by cases f <;> first | rfl | cases hf) source c.uniqueName
  have hneeds := Message.validate_eq_ok.mp hvalid
  rw [show ((source.setSender c.uniqueName).wireHeader bodyBytes.length).messageType = .methodCall
    from htype] at hneeds
  simp only [hpath, hmember] at hneeds
  rw [halike.path, halike.member]
  exact ⟨(congrArg Option.isSome (Message.findSome?_setSender (fun _ => rfl) _ _)).trans hneeds.1,
    (congrArg Option.isSome (Message.findSome?_setSender (fun _ => rfl) _ _)).trans hneeds.2⟩

/-- **A message that is written** is the driver's, or one that a connection has
sent. -/
theorem Daemon.Reachable.genuine (h : Reachable bus S)
    (hlog : S.world.log = post ++ ⟨s, .write conn msg, written⟩ :: pre) : Genuine pre msg := by
  have hwrites := h.conducts.1
  rw [hlog] at hwrites
  exact hwrites.of_append

/-- **A call or a reply that is written to a connection other than a monitor** is
the driver's, or addressed to the connection. -/
theorem Daemon.Reachable.addressedTo (h : Reachable bus S)
    (hlog : S.world.log = post ++ ⟨s, .write conn msg, written⟩ :: pre)
    (hmonitor : s.isMonitor conn = false) (hdirected : msg.isDirected = true) :
    DriverBuilt msg ∨ Addressed pre conn msg := by
  have haddressed := h.addressed
  rw [hlog] at haddressed
  have hevent : DirectedAddressed pre ⟨s, .write conn msg, written⟩ := haddressed.of_append
  exact hevent hdirected hmonitor

/-! ## What a client is fed -/

/-- What a client reads was written to its connection while it was no
monitor. -/
def FedBy (log : List BusEvent) (conn : ConnectionEntry) (es : List Client.Event) : Prop :=
  ∀ m, .receive m ∈ es → ∃ s msg, (⟨s, .write conn msg, true⟩ : BusEvent) ∈ log ∧
    s.isMonitor conn = false ∧ msg.Arrives m

/-- A message as it is read, if its frame decodes. -/
def Message.readBack (msg : Message) : Option Message :=
  match msg.toBytes with
  | .ok out =>
    match fromBytes out msg.fds with
    | .ok m => some m
    | _ => none
  | _ => none

theorem Message.arrives_of_readBack (h : msg.readBack = some m) : msg.Arrives m := by
  unfold readBack at h
  split at h
  · next out hout =>
    split at h
    · next m' hm' =>
      cases h
      exact ⟨out, msg.fds, hout, hm'⟩
    · cases h
  · cases h

/-- What is read of an event: the message, if it is written to the connection
and the connection is no monitor. -/
def BusEvent.reading (conn : ConnectionEntry) (e : BusEvent) : Option Message :=
  match e with
  | ⟨s, .write c msg, true⟩ => if c = conn ∧ s.isMonitor conn = false then msg.readBack else none
  | _ => none

/-- **What a client at a connection reads**, in order. -/
def readings (log : List BusEvent) (conn : ConnectionEntry) : List Message :=
  log.reverse.filterMap (BusEvent.reading conn)

/-- A client that reads what there is to read is fed by the daemon. -/
theorem fedBy_of_readings {es : List Client.Event}
    (h : ∀ m, .receive m ∈ es → m ∈ readings log conn) : FedBy log conn es := by
  intro m hm
  obtain ⟨e, he, hreading⟩ := List.mem_filterMap.mp (h m hm)
  unfold BusEvent.reading at hreading
  split at hreading
  · next s c msg =>
    split at hreading
    · next hconn =>
      obtain ⟨rfl, hmonitor⟩ := hconn
      exact ⟨s, msg, List.mem_reverse.mp he, hmonitor, Message.arrives_of_readBack hreading⟩
    · cases hreading
  · cases hreading

theorem Addressed.mono {log' : List BusEvent} (h : Addressed log conn msg)
    (hlog : log.Sublist log') : Addressed log' conn msg := by
  obtain ⟨source, m, dest, owner, s₁, s₂, s₃, s₄, hsub, hrest⟩ := h
  exact ⟨source, m, dest, owner, s₁, s₂, s₃, s₄, hsub.trans hlog, hrest⟩

end Oxibus
