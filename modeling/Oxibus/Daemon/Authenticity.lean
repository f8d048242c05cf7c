import Oxibus.Core.Forwarding
import Oxibus.Daemon.Conduct
import Oxibus.Daemon.Mediation
import Oxibus.Daemon.Replay

/-!
# Senders are authentic

Every message is stamped before anything else is done with it, and every
path writes the stamped message. So whatever a client puts into its header,
a frame that leaves the daemon on its behalf names it and nobody else, and
a frame that names the bus is one the driver has built.
-/

namespace Oxibus

open Daemon

variable {bus : Bus} {S : Daemon}

/-- A routed frame decodes to a message with exactly one sender, the one who
sent it. -/
theorem Routed.senders {log : List BusEvent} {msg : Message} {out : List UInt8}
    (h : Routed log msg) (hout : msg.toBytes = .ok out) :
    ∃ (c : ConnectionEntry) (m : Message) (s : BusState) (m' : Message),
      (⟨s, .readMessage c, some m⟩ : BusEvent) ∈ log ∧ msg = m.setSender c.uniqueName ∧
      Message.fromBytes out msg.fds = .ok m' ∧
      m'.header.fields.filter HeaderField.isSender = [.sender c.uniqueName] := by
  obtain ⟨c, m, s, hread, ⟨buf, fds, hbuf⟩, rfl⟩ := h
  obtain ⟨m', hm', hf⟩ := Message.forwarded hbuf hout
  have hfds : m.fds = fds := (Message.fromBytes_eq_ok.mp hbuf).1
  refine ⟨c, m, s, m', hread, rfl, ?_, hf.senders⟩
  show Message.fromBytes out m.fds = .ok m'
  rw [hfds]
  exact hm'

/-- A message with one sender names it. -/
theorem Message.sender_of_senders {m : Message} {u : String}
    (h : m.header.fields.filter HeaderField.isSender = [.sender u]) : m.sender = some u :=
  Message.findSome?_asSender_of_filter h

/-- **Senders are authentic.** While a message of a connection is dispatched,
what is written is that message with the connection's stamp, or the driver's
own, and what is copied to monitors is that message with that stamp. And in
every run, every frame that is written is the driver's, or it decodes to a
message with exactly one sender, the connection that has sent it; a frame
whose sender is the bus is the driver's. -/
theorem sender_authentic (bus : Bus) :
    (∀ (c : ConnectionEntry) (m : Message), (Dispatch.dispatchIncoming bus c m).Only
      (Routine (fun _ msg => msg = m.setSender c.uniqueName ∨ DriverBuilt msg)
        fun _ msg => msg = m.setSender c.uniqueName)) ∧
    ∀ (S : Daemon) (pre post : List BusEvent) (s : BusState) (dst : ConnectionEntry)
      (msg : Message) (out : List UInt8), Reachable bus S →
      S.world.log = post ++ ⟨s, .write dst msg, true⟩ :: pre → msg.toBytes = .ok out →
      (DriverBuilt msg ∨ ∃ (c : ConnectionEntry) (m : Message) (s : BusState) (m' : Message),
        (⟨s, .readMessage c, some m⟩ : BusEvent) ∈ pre ∧ msg = m.setSender c.uniqueName ∧
        Message.fromBytes out msg.fds = .ok m' ∧
        m'.header.fields.filter HeaderField.isSender = [.sender c.uniqueName]) ∧
      ∀ m', Message.fromBytes out msg.fds = .ok m' → m'.sender = some WellKnown.busName →
        DriverBuilt msg := by
  constructor
  · intro c m
    exact Dispatch.routine_dispatchIncoming (fun _ _ => Or.inr) (fun _ => Or.inl rfl) fun _ => rfl
  · intro S pre post s dst msg out hS hlog hout
    have hwrites := hS.conducts.1
    rw [hlog] at hwrites
    have hgenuine : Genuine pre msg := hwrites.of_append
    rcases hgenuine with hrouted | hdriver
    · obtain ⟨c, m, s, m', hread, hstamp, hm', hsenders⟩ := hrouted.senders hout
      refine ⟨Or.inr ⟨c, m, s, m', hread, hstamp, hm', hsenders⟩, ?_⟩
      intro m'' hm'' hbus
      rw [hm'] at hm''
      cases hm''
      rw [Message.sender_of_senders hsenders] at hbus
      exact absurd (Option.some.inj hbus) (uniqueName_ne_busName c.id)
    · exact ⟨Or.inl hdriver, fun _ _ _ => hdriver⟩

/-- A call of a client in the name of the bus. -/
def forgedCall : Message :=
  (((Message.Builder.methodCall ⟨"/a"⟩ "M").destination ":1.1").build 7).setSender
    WellKnown.busName

/-- Two clients say Hello, and the second one sends the forged call to the first one. -/
def forgingScript : List Instruction :=
  [.accept ⟨1000, 1000, 4711⟩, .run 0 8, .accept ⟨1000, 1000, 4711⟩, .run 1 8,
    .receive 0 (frameOf (driverCall "Hello" [] 1)), .run 0 50,
    .receive 1 (frameOf (driverCall "Hello" [] 1)), .run 1 50,
    .receive 1 (frameOf forgedCall), .run 1 50]

/-- Whether a message of a sender was written to a connection. -/
def carriesFrom (sender : String) (dst : ConnectionEntry) (e : BusEvent) : Bool :=
  match e with
  | ⟨_, .write c msg, true⟩ => c == dst && msg.sender == some sender && msg.toBytes.isOk
  | _ => false

theorem exists_of_carriesFrom {sender : String} {dst : ConnectionEntry} {log : List BusEvent}
    (h : log.any (carriesFrom sender dst) = true) : ∃ s msg out pre post,
      log = post ++ ⟨s, .write dst msg, true⟩ :: pre ∧ msg.sender = some sender ∧
        msg.toBytes = .ok out := by
  obtain ⟨e, he, hcarries⟩ := List.any_eq_true.mp h
  unfold carriesFrom at hcarries
  split at hcarries
  · next s c msg =>
    simp only [Bool.and_eq_true, beq_iff_eq] at hcarries
    obtain ⟨⟨rfl, hsender⟩, hok⟩ := hcarries
    obtain ⟨out, hout⟩ := Outcome.isOk_iff.mp hok
    obtain ⟨post, pre, hlog⟩ := List.append_of_mem he
    exact ⟨s, msg, out, pre, post, hlog, hsender, hout⟩
  · cases hcarries

/-- **The forged call is written in the name of the one who has sent it.** -/
theorem sender_authentic_forged : ∃ (S : Daemon) (pre post : List BusEvent) (s : BusState)
    (msg : Message) (out : List UInt8), Reachable plainBus S ∧
    S.world.log = post ++ ⟨s, .write (peerConnection 1) msg, true⟩ :: pre ∧
    msg.sender = some ":1.2" ∧ msg.toBytes = .ok out ∧
    (DriverBuilt msg ∨ ∃ (c : ConnectionEntry) (m : Message) (s : BusState) (m' : Message),
      (⟨s, .readMessage c, some m⟩ : BusEvent) ∈ pre ∧ msg = m.setSender c.uniqueName ∧
      Message.fromBytes out msg.fds = .ok m' ∧
      m'.header.fields.filter HeaderField.isSender = [.sender c.uniqueName]) ∧
    ∀ m', Message.fromBytes out msg.fds = .ok m' → m'.sender = some WellKnown.busName →
      DriverBuilt msg := by
  obtain ⟨S, hreachable, hforged⟩ : ∃ S, Reachable plainBus S ∧
      S.world.log.any (carriesFrom ":1.2" (peerConnection 1)) = true :=
    ⟨Daemon.new.replay plainBus forgingScript, reachable_replay reachable_new _, by decide +kernel⟩
  obtain ⟨s, msg, out, pre, post, hlog, hsender, hout⟩ := exists_of_carriesFrom hforged
  exact ⟨S, pre, post, s, msg, out, hreachable, hlog, hsender, hout,
    (sender_authentic plainBus).2 S pre post s _ msg out hreachable hlog hout⟩

end Oxibus
