import Oxibus.Client.Attachment
import Oxibus.Daemon.Replay

/-!
# Where replies come from

The router sends a reply to whomever it is addressed to, and does not know
whether anybody has asked for it. The client matches a reply with a call by
the serial number, and does not look at the sender. So any connection can
answer a call of any other one, and can do so before the connection that the
call was delivered to.

What remains is that a reply names the connection that has sent it, and that
this connection has addressed it to the one that gets it.
-/

namespace Oxibus

open Daemon

variable {bus : Bus} {S : Daemon} {log : List BusEvent} {conn : ConnectionEntry} {msg : Message}

/-- **A reply that was asked for**: the connection has called a method, the call
was delivered to the connection the reply comes from, and nothing has been
written in reply to it. -/
def Solicited (log : List BusEvent) (conn : ConnectionEntry) (msg : Message) : Prop :=
  ∃ (callee : ConnectionEntry) (m call : Message) (s₁ s₂ : BusState),
    (⟨s₁, .readMessage conn, some call⟩ : BusEvent) ∈ log ∧ call.messageType = .methodCall ∧
    msg.replySerial = some call.serial ∧
    (⟨s₂, .write callee (call.setSender conn.uniqueName), true⟩ : BusEvent) ∈ log ∧
    msg = m.setSender callee.uniqueName ∧
    ∀ s reply, (⟨s, .write conn reply, true⟩ : BusEvent) ∈ log → reply.isReply = true →
      reply.replySerial ≠ some call.serial

/-- **A reply whose origin is known**: the driver has built it, or a registered
connection has sent it and addressed it to this one. -/
def Attributed (log : List BusEvent) (conn : ConnectionEntry) (msg : Message) : Prop :=
  DriverBuilt msg ∨ Addressed log conn msg

/-- A reply is a message for one connection. -/
theorem Message.isDirected_of_isReply (h : msg.isReply = true) : msg.isDirected = true := by
  unfold isReply at h
  unfold isDirected
  cases htype : msg.messageType with
  | signal =>
    rw [htype] at h
    cases h
  | _ => rfl

/-- **A reply that a client reads** was built by the driver, or it is the one a
connection has sent, and names this connection. -/
theorem FedBy.attributed {es : List Client.Event} {reply : Message} (h : Reachable bus S)
    (hfed : FedBy S.world.log conn es) (hread : .receive reply ∈ es)
    (hreply : reply.isReply = true) :
    ∃ s msg, (⟨s, .write conn msg, true⟩ : BusEvent) ∈ S.world.log ∧
      msg.Arrives reply ∧ (DriverBuilt msg ∨
        Addressed S.world.log conn msg ∧ msg.Alike reply) := by
  obtain ⟨s, msg, hwritten, hmonitor, harrives⟩ := hfed reply hread
  refine ⟨s, msg, hwritten, harrives, ?_⟩
  obtain ⟨post, pre, hlog⟩ := List.append_of_mem hwritten
  rcases h.genuine hlog with hrouted | hdriver
  · have halike := hrouted.alike harrives
    have hdirected : msg.isDirected = true := by
      refine Message.isDirected_of_isReply ?_
      rwa [Message.isReply, ← halike.messageType]
    refine (h.addressedTo hlog hmonitor hdirected).imp_right fun haddressed => ⟨?_, halike⟩
    rw [hlog]
    exact haddressed.mono ((List.sublist_cons_self _ _).trans (List.sublist_append_right _ _))
  · exact .inl hdriver

/-- **Replies are attributed.** In every run, a return or an error that is
written to a connection other than a monitor is the driver's, or a registered
connection has sent it to a name of this one. And a call of a client at this
connection that returns has failed to be written, or has lost its connection,
or returns a reply that was written to the connection, that names the serial
number of the call, and that is the driver's or bears the name of the
connection that has addressed it to this one. -/
theorem replies_attributed (bus : Bus) (S : Daemon) (conn : ConnectionEntry)
    (h : Reachable bus S) :
    (∀ pre post s msg, S.world.log = post ++ ⟨s, .write conn msg, true⟩ :: pre →
      s.isMonitor conn = false → msg.isReply = true → Attributed pre conn msg) ∧
    ∀ (server : ObjectServer) (replySerials : UInt32) (es : List Client.Event)
      (c : Client.Connection) (i : ℕ) (call : Client.Call)
      (result : Except Client.Error (List Value)),
      FedBy S.world.log conn es → (Client.Connection.start server replySerials).run es = some c →
      c.calls[i]? = some call → call.phase = .returned result →
      result = .error .io ∨ result = .error .closed ∨
      ∃ s msg reply, (⟨s, .write conn msg, true⟩ : BusEvent) ∈ S.world.log ∧ msg.Arrives reply ∧
        reply.isReply = true ∧ reply.replySerial = some call.serial ∧
        result = Client.outcome reply ∧
        (DriverBuilt msg ∨ Addressed S.world.log conn msg ∧ reply.sender = msg.sender) := by
  constructor
  · intro pre post s msg hlog hmonitor hreply
    exact h.addressedTo hlog hmonitor (Message.isDirected_of_isReply hreply)
  · intro server replySerials es c i call result hfed hrun hcall hresult
    rcases Client.Connection.returned_of_run hrun hcall hresult with
      hio | hclosed | ⟨reply, hread, hreply, hserial, hsame⟩
    · exact .inl hio
    · exact .inr (.inl hclosed)
    · obtain ⟨s, msg, hwritten, harrives, horigin⟩ := hfed.attributed h hread hreply
      refine .inr (.inr ⟨s, msg, reply, hwritten, harrives, hreply, hserial, hsame, ?_⟩)
      exact horigin.imp_right fun ⟨haddressed, halike⟩ => ⟨haddressed, halike.sender⟩

/-- A client connects and says Hello. -/
def greeting : Daemon :=
  Daemon.new.replay plainBus [.accept ⟨1000, 1000, 4711⟩, .run 0 8,
    .receive 0 (frameOf (Client.helloRequest.build 1)), .run 0 50]

/-- What happens in the client meanwhile: it calls Hello, reads what there is to
read, and goes on. -/
def greetingEvents : List Client.Event :=
  [.call true Client.helloRequest, .insert 0, .written 0] ++
    (readings greeting.world.log (peerConnection 1)).map .receive ++ [.resume 0]

/-- Whether the first call has returned a name. -/
def returnsName (name : String) (c : Option Client.Connection) : Bool :=
  match (c.bind fun c => c.calls[0]? : Option Client.Call) with
  | some ⟨_, _, _, .returned (.ok [.string s])⟩ => s == name
  | _ => false

theorem fedBy_greetingEvents :
    FedBy greeting.world.log (peerConnection 1) greetingEvents := by
  refine fedBy_of_readings fun m hm => ?_
  simpa [greetingEvents] using hm

/-- **The name that the client is told comes from the driver**, or from who else
has addressed it to the client. -/
theorem replies_attributed_greeting : ∃ s msg reply,
    (⟨s, .write (peerConnection 1) msg, true⟩ : BusEvent) ∈ greeting.world.log ∧
    msg.Arrives reply ∧ (∃ values, Client.outcome reply = .ok values ∧
      values.head?.bind Value.asStr = some ":1.1") ∧
    (DriverBuilt msg ∨ Addressed greeting.world.log (peerConnection 1) msg ∧
      reply.sender = msg.sender) := by
  have hreturns :
      returnsName ":1.1" ((Client.Connection.start .new 1).run greetingEvents) = true := by
    decide +kernel
  unfold returnsName at hreturns
  split at hreturns
  · next request hello slot name hcall =>
    obtain ⟨c, hrun, hcall⟩ := Option.bind_eq_some_iff.mp hcall
    rcases (replies_attributed plainBus greeting (peerConnection 1)
      (reachable_replay reachable_new _)).2 .new 1 greetingEvents c 0 _ _ fedBy_greetingEvents hrun
        hcall rfl with hio | hclosed | ⟨s, msg, reply, hwritten, harrives, -, -, hsame, horigin⟩
    · cases hio
    · cases hclosed
    · exact ⟨s, msg, reply, hwritten, harrives,
        ⟨_, hsame.symm, congrArg some (beq_iff_eq.mp hreturns)⟩,
        horigin⟩
  · cases hreturns

/-! ## A reply nobody has asked for -/

/-- A call of Hello that wants no reply. -/
def silentHello : Message :=
  ((Message.Builder.methodCall WellKnown.busPath "Hello").destination
    WellKnown.busName).noReplyExpected.build 1

/-- A return for a call with the serial number five. -/
def unaskedReply : Message := ((Message.Builder.methodReturn 5).destination ":1.1").build 9

/-- One client connects and says nothing. Another one registers and sends the
first one a reply. -/
def unaskedScript : List Instruction :=
  [.accept ⟨1000, 1000, 4711⟩, .run 0 8, .accept ⟨1000, 1000, 4712⟩, .run 1 8,
    .receive 1 (frameOf silentHello), .run 1 50, .receive 1 (frameOf unaskedReply), .run 1 7]

/-- The last event is a reply of the second client to the first one, which has
not sent anything. -/
def endsUnasked (log : List BusEvent) : Bool :=
  match log with
  | ⟨s, .write conn msg, true⟩ :: pre =>
    msg.isReply && msg.sender == some ":1.2" && !s.isMonitor conn && pre.all fun e =>
      match e.op with
      | .readMessage c => c != conn
      | _ => true
  | _ => false

/-- **The reply is written.** -/
theorem reply_unsolicited : ¬ ∀ (bus : Bus) (S : Daemon) (pre post : List BusEvent) (s : BusState)
    (conn : ConnectionEntry) (msg : Message), Reachable bus S →
    S.world.log = post ++ ⟨s, .write conn msg, true⟩ :: pre → s.isMonitor conn = false →
    msg.isReply = true → DriverBuilt msg ∨ Solicited pre conn msg := by
  intro h
  have hunasked : endsUnasked (Daemon.new.replay plainBus unaskedScript).world.log = true := by
    decide +kernel
  have hreachable : Reachable plainBus (Daemon.new.replay plainBus unaskedScript) :=
    reachable_replay reachable_new unaskedScript
  unfold endsUnasked at hunasked
  split at hunasked
  · next s conn msg pre hlog =>
    simp only [Bool.and_eq_true, beq_iff_eq, Bool.not_eq_true', List.all_eq_true] at hunasked
    obtain ⟨⟨⟨hreply, hsender⟩, hmonitor⟩, hsilent⟩ := hunasked
    rcases h plainBus _ pre [] s conn msg hreachable hlog hmonitor hreply with hdriver | hsolicited
    · rw [hdriver.sender] at hsender
      exact absurd hsender (by decide)
    · obtain ⟨-, -, call, s₁, -, hread, -⟩ := hsolicited
      have hother := hsilent _ hread
      simp at hother
  · cases hunasked

end Oxibus
