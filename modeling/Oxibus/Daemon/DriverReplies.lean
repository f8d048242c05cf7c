import Oxibus.Lib.Single
import Oxibus.Daemon.CallOutcome
import Oxibus.Daemon.Sessions

/-!
# The replies of the driver

The driver replies to what it has read, and to nothing else. A connection's
task reads a message and dispatches it to the end before it reads the next
one, and a dispatch replies at most once, to the connection it reads from,
and only if a reply is wanted. So the replies that are written to a
connection name messages of that connection, one reply for a message at
most, in the order in which the messages came – whatever the other
connections do in between, and whoever else forges replies.
-/

namespace Oxibus

open BusProg Daemon

/-! ## Questions and answers -/

instance (m : Message) : Decidable m.IsDriverReply :=
  inferInstanceAs (Decidable (m.sender = some WellKnown.busName ∧
    (m.messageType = .methodReturn ∨ m.messageType = .error)))

/-- What a reply names: the serial number of what it replies to, and who it is
for. -/
abbrev ReplyKey : Type := Option UInt32 × Option String

/-- A message of a connection that wants a reply: what the reply has to name. -/
def BusEvent.question (c : ConnectionEntry) : BusEvent → Option ReplyKey
  | ⟨_, .readMessage c', some m⟩ =>
    if c' = c ∧ m.noReplyExpected = false then some (some m.serial, some c.uniqueName) else none
  | _ => none

/-- A reply of the driver that is written to a connection: what it names. -/
def BusEvent.answer (c : ConnectionEntry) : BusEvent → Option ReplyKey
  | ⟨_, .write c' m, _⟩ =>
    if c' = c ∧ m.IsDriverReply then some (m.replySerial, m.destination) else none
  | _ => none

/-- What was read from a connection and wants a reply, the latest first. -/
def questions (c : ConnectionEntry) (log : List BusEvent) : List ReplyKey :=
  log.filterMap (BusEvent.question c)

/-- **The driver's replies to a connection**, the latest first. -/
def answers (c : ConnectionEntry) (log : List BusEvent) : List ReplyKey :=
  log.filterMap (BusEvent.answer c)

/-! ## One dispatch -/

/-- The operations with which nothing is read and the driver does not reply. -/
def Silent : BusOp → Prop
  | .write _ m => ¬ m.IsDriverReply
  | .readMessage _ => False
  | .spawnWrite _ m => ¬ m.IsDriverReply
  | _ => True

/-- **The driver's reply to a message of a connection.** -/
def Replying (sender : ConnectionEntry) (msg : Message) : BusOp → Prop
  | .write c m => c = sender ∧ msg.noReplyExpected = false ∧ m.IsDriverReply ∧
    m.replySerial = some msg.serial ∧ m.destination = msg.sender
  | _ => False

/-- A program that replies to a message at most once. -/
abbrev RepliesOnce {α : Type} (sender : ConnectionEntry) (msg : Message) (p : BusProg α) : Prop :=
  p.Single Silent (Replying sender msg)

variable {bus : Bus} {S S' : Daemon} {sender c c' : ConnectionEntry} {msg m : Message} {o : BusOp}
variable {r : o.Res} {log : List BusEvent} {w w' : World} {j j' : Job} {s : BusState}

/-- A message of a connection is none of the driver's. -/
theorem not_isDriverReply_setSender (m : Message) (c : ConnectionEntry) :
    ¬ (m.setSender c.uniqueName).IsDriverReply := by
  intro h
  have hsender := h.1
  rw [Message.sender_setSender] at hsender
  exact uniqueName_ne_busName c.id (Option.some.inj hsender)

theorem not_isDriverReply_of_signal (h : m.messageType = .signal) : ¬ m.IsDriverReply := by
  rintro ⟨-, hreturn | herror⟩
  · cases hreturn.symm.trans h
  · cases herror.symm.trans h

theorem Routine.silent {Q C : ConnectionEntry → Message → Prop} (ho : Routine Q C o)
    (hQ : ∀ c m, Q c m → ¬ m.IsDriverReply) (hC : ∀ c m, C c m → ¬ m.IsDriverReply) :
    Silent o := by
  cases o with
  | write c m => exact hQ c m ho
  | spawnWrite c m => exact hC c m ho
  | readMessage => exact ho
  | _ => trivial

theorem Looking.silent (ho : Looking o) : Silent o := by
  cases o with
  | write => exact ho.elim
  | readMessage => exact ho.elim
  | spawnWrite => exact ho.elim
  | _ => trivial

theorem Routing.silent {Q : ConnectionEntry → Message → Prop} (ho : Routing Q o)
    (hQ : ∀ c m, Q c m → ¬ m.IsDriverReply) : Silent o := by
  cases o with
  | write c m => exact hQ c m ho
  | readMessage => exact ho.elim
  | spawnWrite => exact ho.elim
  | _ => trivial

namespace Dispatch

/-- The driver sends its reply. -/
theorem once_sendFromDriver (result : DriverResult) (hwants : msg.noReplyExpected = false) :
    RepliesOnce sender msg (sendFromDriver sender (outcomeReply msg result)) := by
  refine Prog.single_call trivial fun serial => .inr ⟨?_, fun _ => trivial⟩
  obtain ⟨hreply, hserial, hdest⟩ := outcomeReply_spec msg result serial
  exact ⟨rfl, hwants, hreply, hserial, hdest⟩

theorem once_replyError (errorName message : String) :
    RepliesOnce sender msg (replyError sender msg errorName message) := by
  refine Prog.single_ite (fun _ => trivial) fun hwants => ?_
  exact once_sendFromDriver (.error ⟨errorName, message⟩) (by simpa using hwants)

/-- A denial is counted before it is told. -/
theorem once_denial (errorName message : String) : RepliesOnce sender msg (do
    op (.record .denial)
    replyError sender msg errorName message : BusProg Unit) :=
  Prog.single_call trivial fun _ => once_replyError errorName message

/-! ### Calls to the driver -/

theorem silent_driverOutcome : (driverOutcome bus sender msg).Only Silent := by
  have herrand : ∀ {o : BusOp}, Errand sender (fun _ _ => True) (fun _ _ => False)
      (fun _ _ => False) o → Silent o := fun ho =>
    ho.routine.silent (fun _ _ => False.elim) fun _ _ => False.elim
  unfold driverOutcome
  dsimp only
  split
  · next outcome hside => exact (only_handleSideInterface hside).mono fun _ => herrand
  · exact (Driver.only_handle _ fun _ _ _ _ _ _ _ _ => trivial).mono fun _ => herrand

theorem silent_broadcastNameOwnerChanges (changes : List NameOwnerChange) :
    (broadcastNameOwnerChanges bus changes).Only Silent := by
  refine (telling_broadcastNameOwnerChanges (Q := fun _ m => m.messageType = .signal)
    (fun _ _ _ hsignal => hsignal) changes).mono fun o ho => ?_
  exact ho.routing.silent fun _ _ => not_isDriverReply_of_signal

theorem once_handleDriverCall : RepliesOnce sender msg (handleDriverCall bus sender msg) := by
  refine silent_driverOutcome.single_bind fun outcome => ?_
  refine (silent_broadcastNameOwnerChanges _).single_bind fun _ => ?_
  refine Prog.single_ite (fun _ => trivial) fun hwants => ?_
  exact once_sendFromDriver outcome.result (by simpa using hwants)

/-! ### Delivery -/

variable (hrouted : ¬ msg.IsDriverReply)
include hrouted

theorem once_deliverToOwner (owner : String) :
    RepliesOnce sender msg (deliverToOwner bus sender msg owner) := by
  refine Prog.single_call trivial fun conn => ?_
  cases conn with
  | none => exact once_replyError _ _
  | some conn =>
    refine Prog.single_ite (fun _ => once_denial _ _) fun _ => ?_
    refine Prog.single_ite (fun _ => once_denial _ _) fun _ => ?_
    refine Prog.single_call hrouted fun written => ?_
    refine Prog.single_ite (fun _ => ?_) fun _ => once_replyError _ _
    exact Prog.single_call trivial fun _ => trivial

theorem once_activateAndDeliver (dest : String) :
    RepliesOnce sender msg (activateAndDeliver bus sender msg dest) := by
  refine Prog.single_ite (fun _ => once_replyError _ _) fun _ => ?_
  refine (Driver.seeking_activateAndWait.mono fun _ ho => ho.looking.silent).single_bind
    fun failure => ?_
  cases failure with
  | some e => exact once_replyError _ _
  | none =>
    refine Prog.single_call trivial fun owner => ?_
    cases owner with
    | some owner => exact once_deliverToOwner hrouted owner
    | none => exact once_replyError _ _

theorem once_dispatchMethodCall : RepliesOnce sender msg (dispatchMethodCall bus sender msg) := by
  unfold dispatchMethodCall
  split
  · exact once_replyError _ _
  · next dest _ =>
    refine Prog.single_ite (fun _ => once_handleDriverCall) fun _ => ?_
    refine Prog.single_ite (fun _ => once_denial _ _) fun _ => ?_
    refine (Driver.seeking_resolveConnection.mono fun _ ho => ho.looking.silent).single_bind
      fun dstConn => ?_
    refine Prog.single_ite (fun _ => once_denial _ _) fun _ => ?_
    refine Prog.single_call trivial fun owner => ?_
    cases owner with
    | some owner => exact once_deliverToOwner hrouted owner
    | none => exact once_activateAndDeliver hrouted dest

/-- Signals and replies are passed on, and the driver says nothing. -/
theorem silent_routing {p : BusProg Unit}
    (h : p.Only (Routing fun _ m => m = msg)) : p.Only Silent := by
  refine h.mono fun o ho => ho.silent fun _ m hm => ?_
  rwa [hm]

theorem once_dispatchByType : RepliesOnce sender msg (dispatchByType bus sender msg) := by
  unfold dispatchByType
  split
  · exact (silent_routing hrouted (routing_dispatchSignal fun _ _ _ => rfl)).single
  · exact once_dispatchMethodCall hrouted
  · exact (silent_routing hrouted (routing_dispatchReply fun _ => rfl)).single
  · exact (silent_routing hrouted (routing_dispatchReply fun _ => rfl)).single

omit hrouted in
/-- The copies for the monitors are none of the driver's replies. -/
theorem silent_deliverToMonitors (m : Message) (c : ConnectionEntry) :
    (deliverToMonitors (m.setSender c.uniqueName)).Only Silent := by
  have honly : (deliverToMonitors (m.setSender c.uniqueName)).Only
      (Errand c (fun _ _ => True) (fun _ _ => False) fun _ m' => ¬ m'.IsDriverReply) :=
    only_deliverToMonitors fun _ => not_isDriverReply_setSender m c
  refine honly.mono fun o ho => ?_
  exact ho.routine.silent (fun _ _ => False.elim) fun _ _ => id

omit hrouted in
/-- **A dispatch replies at most once**, to the connection it reads from, and to
the message it has read. -/
theorem once_dispatchIncoming (m : Message) :
    RepliesOnce sender (m.setSender sender.uniqueName) (dispatchIncoming bus sender m) := by
  have hrouted := not_isDriverReply_setSender m sender
  refine (silent_deliverToMonitors m sender).single_bind fun _ =>
    Prog.single_call trivial fun isRegistered => ?_
  exact Prog.single_ite (fun _ => once_replyError _ _) fun _ => once_dispatchByType hrouted

end Dispatch

/-! ## Whole runs -/

/-- Nothing is asked on behalf of a connection, and the driver does not reply to
it. -/
def BusEvent.Idle (c : ConnectionEntry) (e : BusEvent) : Prop :=
  e.question c = none ∧ e.answer c = none

theorem idle_of_silent (ho : Silent o) (c : ConnectionEntry) : BusEvent.Idle c ⟨s, o, r⟩ := by
  cases o with
  | write c' m => exact ⟨rfl, if_neg fun h => ho h.2⟩
  | readMessage => exact ho.elim
  | _ => exact ⟨rfl, rfl⟩

theorem BusEvent.Idle.questions_cons {e : BusEvent} (h : e.Idle c) (log : List BusEvent) :
    questions c (e :: log) = questions c log := List.filterMap_cons_none h.1

theorem BusEvent.Idle.answers_cons {e : BusEvent} (h : e.Idle c) (log : List BusEvent) :
    answers c (e :: log) = answers c log := List.filterMap_cons_none h.2

/-- **A message that is still to be replied to**: it is the last that was read of
the connection, and the replies so far are to those before it. -/
def Unanswered (c : ConnectionEntry) (msg : Message) (log : List BusEvent) : Prop :=
  msg.noReplyExpected = false → ∃ asked,
    questions c log = (some msg.serial, some c.uniqueName) :: asked ∧
      (answers c log).Sublist asked

/-- **How a job stands with the replies of the driver.** -/
def Job.Replies (log : List BusEvent) : Job → Prop
  | serving c p => p.Only Silent ∨ ∃ msg, RepliesOnce c msg p ∧ msg.sender = some c.uniqueName ∧
    Unanswered c msg log
  | announcing p => p.Only Silent
  | copying _ m => ¬ m.IsDriverReply
  | _ => True

/-- The replies to every connection are to what it has asked. -/
def AllAnswered (log : List BusEvent) : Prop :=
  ∀ c, (answers c log).Sublist (questions c log)

/-- What happens for another connection changes nothing for a job. -/
theorem Job.Replies.stable {e : BusEvent} (h : j.Replies log)
    (hidle : ∀ c, j.entry = some c → e.Idle c) : j.Replies (e :: log) := by
  cases j with
  | serving c p =>
    refine h.imp_right fun ⟨msg, honce, hsender, hopen⟩ => ⟨msg, honce, hsender, ?_⟩
    show msg.noReplyExpected = false → _
    rw [(hidle c rfl).questions_cons, (hidle c rfl).answers_cons]
    exact hopen
  | announcing p => exact h
  | copying c m => exact h
  | _ => trivial

theorem AllAnswered.idle {e : BusEvent} (h : AllAnswered log) (hidle : ∀ c, e.Idle c) :
    AllAnswered (e :: log) := by
  intro c
  rw [(hidle c).questions_cons, (hidle c).answers_cons]
  exact h c

/-- A message is read: there is one more question, of one connection. -/
theorem AllAnswered.read (h : AllAnswered log) (s : BusState) (c : ConnectionEntry) (m : Message) :
    AllAnswered (⟨s, .readMessage c, some m⟩ :: log) := by
  intro c'
  show (answers c' log).Sublist _
  refine (h c').trans ?_
  unfold questions
  rw [List.filterMap_cons]
  split
  · exact List.Sublist.refl _
  · exact List.sublist_cons_self _ _

/-- What was just read is to be replied to. -/
theorem unanswered_read (h : AllAnswered log) (s : BusState) (c : ConnectionEntry) (m : Message) :
    Unanswered c (m.setSender c.uniqueName) (⟨s, .readMessage c, some m⟩ :: log) := by
  intro hwants
  have hwants : m.noReplyExpected = false := hwants
  refine ⟨questions c log, ?_, h c⟩
  exact List.filterMap_cons_some (if_pos ⟨rfl, hwants⟩)

/-- **The driver replies**: it is one more reply, to the last question. -/
theorem AllAnswered.reply (h : AllAnswered log) (s : BusState) {arrived : Bool}
    (hopen : Unanswered c msg log) (hsender : msg.sender = some c.uniqueName)
    (ho : Replying c msg (.write c' m)) : AllAnswered (⟨s, .write c' m, arrived⟩ :: log) := by
  obtain ⟨rfl, hwants, hreply, hserial, hdest⟩ := ho
  intro d
  show List.Sublist _ (questions d log)
  by_cases hd : c' = d
  · subst hd
    obtain ⟨asked, hasked, hsub⟩ := hopen hwants
    have hanswer : BusEvent.answer c' ⟨s, .write c' m, arrived⟩
        = some (some msg.serial, some c'.uniqueName) := by
      show (if c' = c' ∧ m.IsDriverReply then _ else _) = _
      rw [if_pos ⟨rfl, hreply⟩, hserial, hdest, hsender]
    unfold answers
    rw [List.filterMap_cons_some hanswer, hasked]
    exact hsub.cons_cons _
  · have hanswer : BusEvent.answer d ⟨s, .write c' m, arrived⟩ = none :=
      if_neg fun h => hd h.1
    unfold answers
    rw [List.filterMap_cons_none hanswer]
    exact h d

/-- **One operation of a job**: the replies are still to what was asked, and nothing
has happened for the connections the job does not speak for. -/
theorem replies_step (h : j.Replies log) (hall : AllAnswered log) (hstep : JobStep bus j o r j') :
    AllAnswered (⟨s, o, r⟩ :: log) ∧ j'.Replies (⟨s, o, r⟩ :: log) ∧
      (∀ j₁ ∈ o.spawned, j₁.Replies (⟨s, o, r⟩ :: log)) ∧
      ∀ c, j.entry ≠ some c → BusEvent.Idle c ⟨s, o, r⟩ := by
  have hspawned : Silent o → ∀ j₁ ∈ o.spawned, j₁.Replies (⟨s, o, r⟩ :: log) := by
    intro ho j₁ hj₁
    cases o with
    | spawnWrite c m =>
      rw [List.mem_singleton.mp hj₁]
      exact ho
    | _ => exact absurd hj₁ List.not_mem_nil
  -- an operation with which nothing happens
  have hsilent : Silent o → j'.Replies (⟨s, o, r⟩ :: log) →
      AllAnswered (⟨s, o, r⟩ :: log) ∧ j'.Replies (⟨s, o, r⟩ :: log) ∧
        (∀ j₁ ∈ o.spawned, j₁.Replies (⟨s, o, r⟩ :: log)) ∧
        ∀ c, j.entry ≠ some c → BusEvent.Idle c ⟨s, o, r⟩ := fun ho hj' =>
    ⟨hall.idle fun _ => idle_of_silent ho _, hj', hspawned ho, fun c _ => idle_of_silent ho c⟩
  cases hstep with
  | @read c m =>
    refine ⟨hall.read s c m, .inr ⟨_, Dispatch.once_dispatchIncoming m,
      Message.sender_setSender m c.uniqueName, unanswered_read hall s c m⟩,
      fun j₁ hj₁ => absurd hj₁ List.not_mem_nil, fun c' hc' => ⟨?_, rfl⟩⟩
    exact if_neg fun h => hc' (congrArg some h.1)
  | readFailed =>
    exact ⟨hall.idle fun _ => ⟨rfl, rfl⟩, trivial, fun j₁ hj₁ => absurd hj₁ List.not_mem_nil,
      fun _ _ => ⟨rfl, rfl⟩⟩
  | @dispatch c o k r =>
    rcases h with hp | ⟨msg, honce, hsender, hopen⟩
    · exact hsilent hp.1 (.inl (hp.2 r))
    rcases honce.next r with ⟨ho, hk⟩ | ⟨ho, hk⟩
    · refine hsilent ho (.inr ⟨msg, hk, hsender, ?_⟩)
      show msg.noReplyExpected = false → _
      rw [(idle_of_silent ho c).questions_cons, (idle_of_silent ho c).answers_cons]
      exact hopen
    · -- the one operation that replies
      cases o with
      | write c' m =>
        refine ⟨hall.reply s hopen hsender ho, .inl hk, fun j₁ hj₁ => absurd hj₁ List.not_mem_nil,
          fun d hd => ⟨rfl, if_neg fun h => hd ?_⟩⟩
        show some c = some d
        rw [← ho.1, h.1]
      | _ => exact ho.elim
  | @remove c events =>
    exact hsilent trivial (Dispatch.silent_broadcastNameOwnerChanges events)
  | announce => exact hsilent h.1 (h.2 _)
  | copy => exact hsilent h trivial
  | add => exact hsilent trivial (.inl trivial)
  | _ => exact hsilent trivial trivial

/-- **In every run, the driver replies to what it has read.** -/
theorem Daemon.Reachable.replies (h : Reachable bus S) :
    AllAnswered S.world.log ∧ ∀ (k : ℕ) (j : Job), S.jobs[k]? = some j → j.Replies S.world.log := by
  induction h with
  | refl => exact ⟨fun _ => List.Sublist.refl _, nofun⟩
  | tail hrun hs ih =>
    obtain ⟨hall, hjobs⟩ := ih
    have hsessions := Reachable.sessions hrun
    cases hs with
    | accept peer =>
      refine ⟨hall, fun k j hk => ?_⟩
      rcases getElem?_accept hk with hk | rfl
      · exact hjobs k j hk
      · trivial
    | @job i j j' o r w hj hstep hexec =>
      obtain ⟨hnext, hj', hspawned, hidle⟩ := replies_step (hjobs i j hj) hall hstep
      show AllAnswered w.log ∧ ∀ (k : ℕ) (j₁ : Job), _ → j₁.Replies w.log
      rw [hexec.2]
      refine ⟨hnext, fun k j₁ hk => ?_⟩
      rcases getElem?_next hk with ⟨-, rfl⟩ | ⟨hki, hk⟩ | hk
      · exact hj'
      · refine (hjobs k j₁ hk).stable fun c hc => hidle c fun hc' => ?_
        exact hki (hsessions.distinct hk hj hc hc' rfl)
      · exact hspawned j₁ hk

/-- **The driver replies in order, and to each message at most once.** In every
run, what its replies to a connection name – in the order in which they were
written, and each addressed to the connection – is part of what the messages
of the connection that want a reply have asked, in the order in which they
were read. -/
theorem driver_replies_in_order (bus : Bus) (S : Daemon) (h : Reachable bus S)
    (c : ConnectionEntry) :
    (answers c S.world.log).reverse.Sublist (questions c S.world.log).reverse :=
  (h.replies.1 c).reverse

/-- A client registers, asks for a name, and says Hello once more. -/
def repliesScript : List Instruction :=
  [.accept ⟨1000, 1000, 4711⟩, .run 0 8, .receive 0 (frameOf (driverCall "Hello" [] 1)), .run 0 50,
    .receive 0 (frameOf (driverCall "GetId" [] 5)), .run 0 50,
    .receive 0 (frameOf (driverCall "Hello" [] 9)), .run 0 50]

/-- The three replies of that run are in the order of the calls. -/
theorem driver_replies_in_order_script :
    (answers (peerConnection 1) (Daemon.new.replay plainBus repliesScript).world.log).reverse
      = [(some 1, some ":1.1"), (some 5, some ":1.1"), (some 9, some ":1.1")] ∧
    List.Sublist
      (answers (peerConnection 1) (Daemon.new.replay plainBus repliesScript).world.log).reverse
      (questions (peerConnection 1) (Daemon.new.replay plainBus repliesScript).world.log).reverse :=
  ⟨by decide +kernel,
    driver_replies_in_order plainBus _ (reachable_replay reachable_new repliesScript) _⟩

end Oxibus
