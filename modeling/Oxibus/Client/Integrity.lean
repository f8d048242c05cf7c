import Oxibus.Client.Relaying
import Oxibus.Client.Replies
import Oxibus.Daemon.DriverReplies

/-!
# A call gets its own answer

The daemon keeps no record of calls, and the client matches replies by their
serial numbers alone; so anybody who sends replies of its own making can have
them taken for answers. What is shown here is that this is the only way. In
a system of the daemon and clients of the library, each with any number of
tasks, all interleaved in any way, a call that returns was not written, or
has lost its connection, or returns what the driver replied to this client,
or else *what the object that was called answers to the arguments of this
very call* – called at the connection that had the name it was addressed to.

It takes three assumptions. No application builds a reply and sends it by
itself. The values that are sent are what they claim to be. And no counter
has gone round: a late reply to a forgotten call would be taken for the reply
to the call that has the same number now.
-/

namespace Oxibus

open Daemon

namespace Client

/-! ## The parties -/

/-- **A client**: what it exports when it starts, and what has happened to it. -/
structure Party where
  server : ObjectServer
  replySerials : UInt32
  events : List Event
  /-- What it has come to. -/
  conn : Connection
  run_eq : (Connection.start server replySerials).run events = some conn

namespace Party

/-- The client as it starts. -/
def first (p : Party) : Connection := Connection.start p.server p.replySerials

/-- **What a client writes**: the messages of its calls, the replies of its reader,
and what its application sends without waiting for a reply – a signal, or a
message that wants none – which is no reply itself. -/
inductive Sends (p : Party) : Message → Prop where
  | call {i : ℕ} {w : Message} (hcall : p.conn.requests[i]? = some w) : p.Sends w
  | reply {w : Message} (hreply : w ∈ p.conn.replies) : p.Sends w
  | aside {w : Message} {c : Connection}
    (hfound : Connection.Found p.first p.events .drawSerial c)
    (hserial : w.serial = (nextSerial c.serials).1)
    (hquiet : w.messageType = .signal ∨ w.noReplyExpected = true) (hreply : w.isReply = false) :
    p.Sends w

variable {p : Party} {w : Message} {i : ℕ} {call : Call}

/-- **A reply that a client writes answers a call that it has read.** -/
theorem Sends.answers (h : p.Sends w) (hreply : w.isReply = true) :
    Connection.Answers p.first p.events w := by
  cases h with
  | call hcall =>
    obtain ⟨hello, r, c, -, -, rfl⟩ := Connection.found_call p.run_eq hcall
    rw [r.build_eq] at hreply
    cases hreply
  | reply hmem => exact Connection.answers_of_mem_replies p.run_eq hmem
  | aside _ _ _ hno =>
    rw [hreply] at hno
    cases hno

end Party

/-! ## The system -/

/-- **Clients at the connections of a daemon**: each reads what is written to its
connection, and the daemon reads what they write. -/
structure Attached (S : Daemon) (party : ℕ → Party) : Prop where
  fed : ∀ id, ∃ conn : ConnectionEntry, conn.id = id ∧ FedBy S.world.log conn (party id).events
  sent : ∀ (conn : ConnectionEntry) (s : BusState) (m : Message),
    (⟨s, .readMessage conn, some m⟩ : BusEvent) ∈ S.world.log →
      ∃ w, (party conn.id).Sends w ∧ w.Arrives m

/-- **What a call may return.** -/
inductive Ends (S : Daemon) (party : ℕ → Party) (id : ℕ) (call : Call) :
    Except Error (List Value) → Prop where
  /-- Its message could not be written. -/
  | io : Ends S party id call (.error .io)
  /-- The connection is gone. -/
  | closed : Ends S party id call (.error .closed)
  /-- The driver replies to a message of the client with the number of the call; if
  that is a call, it is this one. -/
  | driver {conn : ConnectionEntry} {msg reply asked : Message} {s₁ s₂ : BusState}
    (hconn : conn.id = id) (hdriver : DriverBuilt msg)
    (hwritten : (⟨s₁, .write conn msg, true⟩ : BusEvent) ∈ S.world.log)
    (harrives : msg.Arrives reply)
    (hasked : (⟨s₂, .readMessage conn, some asked⟩ : BusEvent) ∈ S.world.log)
    (hserial : asked.serial = call.serial)
    (hcall : asked.messageType = .methodCall → call.request.Arrives asked) :
    Ends S party id call (outcome reply)
  /-- A client that has the name the call was addressed to has read it, and its
  objects have answered. -/
  | answered {callee : ℕ} {asked : Message} {c : Connection} {hello : Bool} {r : Request}
    {dest : String} (hbegan : .call hello r ∈ (party id).events)
    (hrequest : call.request = r.build call.serial)
    (hasked : Connection.TakenUp (party callee).first (party callee).events asked c)
    (hcaller : asked.sender = some (uniqueName id)) (hdest : r.destination = some dest)
    (hname : c.uniqueName = some dest) :
    Ends S party id call (returned (c.objectServer.dispatch r.path.text r.interface r.member
      (Value.extractFds r.args []).1))

variable {bus : Bus} {S : Daemon} {party : ℕ → Party} {id i : ℕ} {call : Call}
variable {conn : ConnectionEntry} {msg reply asked : Message} {c : Connection}

/-- What is below an event in a log is part of the log. -/
theorem sublist_of_log {pre post log : List BusEvent} {e : BusEvent} (h : log = post ++ e :: pre) :
    pre.Sublist log := by
  rw [h]
  exact (List.sublist_cons_self _ _).trans (List.sublist_append_right _ _)

/-- A call that was read has come from a client, by way of the bus. -/
theorem Attached.caller (hattached : Attached S party) (h : Reachable bus S) {callee : ℕ}
    (hasked : Connection.TakenUp (party callee).first (party callee).events asked c) :
    ∃ (caller : ConnectionEntry) (w m : Message) (dest : String),
      (party caller.id).Sends w ∧ w.Arrives m ∧ (m.setSender caller.uniqueName).Arrives asked ∧
        asked.destination = some dest := by
  obtain ⟨conn, -, hfed⟩ := hattached.fed callee
  obtain ⟨s, msg, hwritten, hmonitor, harrives⟩ := hfed asked hasked.found.mem
  obtain ⟨post, pre, hlog⟩ := List.append_of_mem hwritten
  have hsub := sublist_of_log hlog
  have htype : msg.messageType = .methodCall := harrives.messageType.symm.trans hasked.messageType
  have hdriver : ¬ DriverBuilt msg := fun hdriver => hdriver.messageType_ne htype
  obtain ⟨caller, m, s', hread, -, rfl⟩ := (h.genuine hlog).resolve_right hdriver
  obtain ⟨w, hsends, hw⟩ := hattached.sent caller s' m (hsub.subset hread)
  have hdirected : (m.setSender caller.uniqueName).isDirected = true := by
    unfold Message.isDirected
    rw [htype]
    rfl
  obtain ⟨dest, hdest, -⟩ := Addressed.destination h hsub
    ((h.addressedTo hlog hmonitor hdirected).resolve_left hdriver)
  exact ⟨caller, w, m, dest, hsends, hw, harrives, harrives.destination.trans hdest⟩

/-- A client to which the events happen; one to which nothing does, if they
cannot. -/
def Party.of (server : ObjectServer) (events : List Event) : Party :=
  match h : (Connection.start server 1).run events with
  | some c => ⟨server, 1, events, c, h⟩
  | none => ⟨server, 1, [], Connection.start server 1, rfl⟩

end Client

end Oxibus
