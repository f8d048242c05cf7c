import Oxibus.Daemon.Addressing
import Oxibus.Daemon.Dispatched

/-!
# One outcome for every call

A call that wants a reply is either delivered or answered by the driver. The
functions that route it have more than a dozen ends, and each of them owes
the reply: this is gone through here, with whatever the other tasks do in
between.

An answer is handed to the writer of the sender, once. Whether it arrives
nobody asks: a sender that is gone learns nothing more.
-/

namespace Oxibus

open BusProg

/-! ## Deliveries and answers -/

/-- The call is written to a connection, and arrives there. -/
def Delivers (call : Message) (e : BusEvent) : Prop :=
  ∃ (s : BusState) (conn : ConnectionEntry), e = ⟨s, .write conn call, true⟩

/-- A message of the driver that answers a call. -/
def Message.IsDriverReply (m : Message) : Prop :=
  m.sender = some WellKnown.busName ∧ (m.messageType = .methodReturn ∨ m.messageType = .error)

/-- The driver writes an answer, to whomever, and whether it arrives or
not. -/
def WritesReply (e : BusEvent) : Prop :=
  ∃ (s : BusState) (conn : ConnectionEntry) (m : Message) (arrived : Bool),
    e = ⟨s, .write conn m, arrived⟩ ∧ m.IsDriverReply

/-- The driver writes an answer to this call, to its sender. -/
def WritesReplyTo (sender : ConnectionEntry) (call : Message) (e : BusEvent) : Prop :=
  ∃ (s : BusState) (m : Message) (arrived : Bool), e = ⟨s, .write sender m, arrived⟩ ∧
    m.IsDriverReply ∧ m.replySerial = some call.serial ∧ m.destination = call.sender

/-- **The one outcome of a call**, as the log of its dispatch has it. -/
inductive OneOutcome (sender : ConnectionEntry) (call : Message) (log : List BusEvent) : Prop where
  /-- It is delivered once, to the connection that has been looked up as the
  owner of its destination, and not answered. -/
  | delivered (dest owner : String) (conn : ConnectionEntry) (s₁ s₂ s₃ : BusState)
      (hdest : call.destination = some dest) (once : Once (Delivers call) log)
      (path : [⟨s₃, .write conn call, true⟩, ⟨s₂, .get owner, some conn⟩,
        ⟨s₁, .getNameOwner dest, some owner⟩].Sublist log)
      (unanswered : Never WritesReply log)
  /-- The driver answers it once, to its sender, and it is delivered to
  nobody. -/
  | answered (once : Once WritesReply log)
      (reply : ∀ e ∈ log, WritesReply e → WritesReplyTo sender call e)
      (undelivered : Never (Delivers call) log)

/-- Neither has happened yet. -/
structure Pending (call : Message) (log : List BusEvent) : Prop where
  undelivered : Never (Delivers call) log
  unanswered : Never WritesReply log

theorem pending_nil (call : Message) : Pending call [] := ⟨never_nil, never_nil⟩

/-! ## What decides nothing -/

variable {others : BusState → BusState → Prop} {bus : Bus} {sender : ConnectionEntry}
variable {call : Message} {w w' : World} {o : BusOp} {r : o.Res} {e : BusEvent}

/-- The operations that neither deliver nor answer a call: of the writes, those of
the driver's signals. -/
def Undecided : BusOp → Prop
  | .write _ m => m.sender = some WellKnown.busName ∧ m.messageType = .signal
  | _ => True

theorem Undecided.not_delivers {s : BusState} (ho : Undecided o)
    (hsender : call.sender ≠ some WellKnown.busName) : ¬ Delivers call ⟨s, o, r⟩ := by
  rintro ⟨s', conn, he⟩
  cases he
  exact hsender ho.1

theorem Undecided.not_writesReply {s : BusState} (ho : Undecided o) : ¬ WritesReply ⟨s, o, r⟩ := by
  rintro ⟨s', conn, m, arrived, he, hm⟩
  cases he
  rcases hm.2 with hreturn | herror
  · cases hreturn.symm.trans ho.2
  · cases herror.symm.trans ho.2

/-- A delivery is no answer. -/
theorem Delivers.not_writesReply (h : Delivers call e)
    (hsender : call.sender ≠ some WellKnown.busName) : ¬ WritesReply e := by
  obtain ⟨s, conn, rfl⟩ := h
  rintro ⟨s', conn', m, arrived, he, hm⟩
  cases he
  exact hsender hm.1

/-- An answer is no delivery. -/
theorem WritesReply.not_delivers (h : WritesReply e)
    (hsender : call.sender ≠ some WellKnown.busName) : ¬ Delivers call e :=
  fun hdelivers => hdelivers.not_writesReply hsender h

theorem Pending.exec (h : Pending call w.log) (ho : Undecided o)
    (hsender : call.sender ≠ some WellKnown.busName) (hexec : World.Exec o w r w') :
    Pending call w'.log := by
  rw [hexec.2]
  exact ⟨h.undelivered.cons (ho.not_delivers hsender), h.unanswered.cons ho.not_writesReply⟩

/-- **A program that decides nothing** leaves the call pending, and the log it has
found at the end of its own. -/
theorem pending_of_only {α : Type} {p : BusProg α} (hp : p.Only Undecided)
    (hsender : call.sender ≠ some WellKnown.busName) (h : Pending call w.log) :
    LeavesLog others p w fun _ w' => Pending call w'.log := by
  refine hp.ensures (fun w w' h hamid => ?_) (fun o w r w' ho h hexec => ⟨trivial, ?_⟩) h
  · rw [hamid.2]
    exact h
  · exact h.exec ho hsender hexec

theorem Looking.undecided (ho : Looking o) : Undecided o := by
  cases o with
  | write => exact ho.elim
  | _ => trivial

namespace Dispatch

theorem Copying.undecided (ho : Copying o) : Undecided o := by
  cases o with
  | write => exact ho.elim
  | _ => trivial

/-! ## The answer -/

/-- **The driver's reply to a call** names the call and is addressed to its
sender. -/
theorem outcomeReply_spec (call : Message) (result : DriverResult) (serial : UInt32) :
    ((outcomeReply call result).build serial).IsDriverReply ∧
      ((outcomeReply call result).build serial).replySerial = some call.serial ∧
      ((outcomeReply call result).build serial).destination = call.sender := by
  cases result with
  | ok values =>
    show ((((Message.replyTo call none).sender _).args _).build serial).IsDriverReply ∧ _
    unfold outcomeReply Message.replyTo
    cases call.sender <;> exact ⟨⟨rfl, .inl rfl⟩, rfl, rfl⟩
  | error e =>
    unfold outcomeReply errorReply Message.replyTo
    cases call.sender <;> exact ⟨⟨rfl, .inr rfl⟩, rfl, rfl⟩

/-- An answer that is sent is the outcome. -/
theorem answers_sendFromDriver (result : DriverResult)
    (hsender : call.sender ≠ some WellKnown.busName) (h : Pending call w.log) :
    LeavesLog others (sendFromDriver sender (outcomeReply call result)) w fun _ w' =>
      OneOutcome sender call w'.log := by
  intro w₁ serial w₂ h₁ hserial
  have hpending : Pending call w₂.log := by
    refine Pending.exec ?_ (o := .driverSerial) trivial hsender hserial
    rwa [h₁.2]
  refine ⟨trivial, fun w₃ arrived w₄ h₃ hwrite => ⟨trivial, ?_⟩⟩
  obtain ⟨hreply, hserial, hdest⟩ := outcomeReply_spec call result serial
  -- the event of the write, and what is in the log below it
  have hlog : w₄.log =
      ⟨w₃.state, .write sender ((outcomeReply call result).build serial), arrived⟩ :: w₂.log := by
    rw [← h₃.2]
    exact hwrite.2
  have hwrites : WritesReply
      ⟨w₃.state, .write sender ((outcomeReply call result).build serial), arrived⟩ :=
    ⟨_, _, _, _, rfl, hreply⟩
  show OneOutcome sender call w₄.log
  rw [hlog]
  refine .answered (hpending.unanswered.once hwrites) ?_
    (hpending.undelivered.cons (hwrites.not_delivers hsender))
  intro e he hwritten
  rcases List.mem_cons.mp he with rfl | he
  · exact ⟨_, _, _, rfl, hreply, hserial, hdest⟩
  · exact absurd hwritten (hpending.unanswered e he)

/-- **An error is the outcome.** -/
theorem answers_replyError (errorName message : String) (hwants : call.noReplyExpected = false)
    (hsender : call.sender ≠ some WellKnown.busName) (h : Pending call w.log) :
    LeavesLog others (replyError sender call errorName message) w fun _ w' =>
      OneOutcome sender call w'.log := by
  unfold replyError
  rw [hwants]
  exact answers_sendFromDriver (.error ⟨errorName, message⟩) hsender h

/-- A denial is counted before it is told. -/
theorem answers_denial (errorName message : String) (hwants : call.noReplyExpected = false)
    (hsender : call.sender ≠ some WellKnown.busName) (h : Pending call w.log) :
    LeavesLog others (do
      op (.record .denial)
      replyError sender call errorName message : BusProg Unit) w fun _ w' =>
        OneOutcome sender call w'.log := by
  intro w₁ r w₂ h₁ hexec
  refine ⟨trivial, answers_replyError errorName message hwants hsender ?_⟩
  refine Pending.exec ?_ (o := .record .denial) trivial hsender hexec
  rwa [h₁.2]

/-! ## Calls to the driver -/

theorem undecided_driverOutcome : (driverOutcome bus sender call).Only Undecided := by
  have herrand : ∀ {o : BusOp}, Errand sender (fun _ _ => True) (fun _ _ => False)
      (fun _ _ => False) o → Undecided o := by
    intro o ho
    cases o with
    | write => exact ho.elim
    | _ => trivial
  unfold driverOutcome
  dsimp only
  split
  · next outcome hside => exact (only_handleSideInterface hside).mono fun _ => herrand
  · exact (Driver.only_handle _ fun _ _ _ _ _ _ _ _ => trivial).mono fun _ => herrand

theorem undecided_broadcastNameOwnerChanges (changes : List NameOwnerChange) :
    (broadcastNameOwnerChanges bus changes).Only Undecided := by
  refine (telling_broadcastNameOwnerChanges (Q := fun _ m =>
    m.sender = some WellKnown.busName ∧ m.messageType = .signal)
      (fun c m hm hsignal => ⟨hm.sender, hsignal⟩) changes).mono fun o ho => ?_
  cases o with
  | write c m => exact ho
  | _ => trivial

theorem answers_handleDriverCall (hwants : call.noReplyExpected = false)
    (hsender : call.sender ≠ some WellKnown.busName) (h : Pending call w.log) :
    LeavesLog others (handleDriverCall bus sender call) w fun _ w' =>
      OneOutcome sender call w'.log := by
  refine Prog.ensures_bind ((pending_of_only undecided_driverOutcome hsender h).mono ?_)
  intro outcome w₁ h₁
  refine Prog.ensures_bind ((pending_of_only
    (undecided_broadcastNameOwnerChanges outcome.nameOwnerChanges) hsender h₁).mono ?_)
  intro _ w₂ h₂
  rw [hwants]
  exact answers_sendFromDriver outcome.result hsender h₂

/-! ## Delivery -/

/-- **The end of a call's way**: it is delivered to the connection that has been
looked up, or answered. -/
theorem decides_deliverToOwner {dest owner : String} {s₁ : BusState}
    (hwants : call.noReplyExpected = false) (hsender : call.sender ≠ some WellKnown.busName)
    (hdest : call.destination = some dest)
    (howner : (⟨s₁, .getNameOwner dest, some owner⟩ : BusEvent) ∈ w.log)
    (h : Pending call w.log) :
    LeavesLog others (deliverToOwner bus sender call owner) w fun _ w' =>
      OneOutcome sender call w'.log := by
  intro w₁ conn w₂ h₁ hget
  have hlog₂ : w₂.log = ⟨w₁.state, .get owner, conn⟩ :: w.log := by
    rw [← h₁.2]
    exact hget.2
  have h₂ : Pending call w₂.log := by
    refine Pending.exec ?_ (o := .get owner) trivial hsender hget
    rwa [h₁.2]
  refine ⟨trivial, ?_⟩
  cases conn with
  | none => exact answers_replyError _ _ hwants hsender h₂
  | some conn =>
  refine Prog.ensures_ite (fun _ => answers_denial _ _ hwants hsender h₂) fun _ => ?_
  refine Prog.ensures_ite (fun _ => answers_denial _ _ hwants hsender h₂) fun _ => ?_
  intro w₃ written w₄ h₃ hwrite
  have hlog₄ : w₄.log = ⟨w₃.state, .write conn call, written⟩ :: w₂.log := by
    rw [← h₃.2]
    exact hwrite.2
  refine ⟨trivial, ?_⟩
  cases written with
  | true =>
    intro w₅ r w₆ h₅ hrecord
    refine ⟨trivial, ?_⟩
    have hdelivers : Delivers call ⟨w₃.state, .write conn call, true⟩ := ⟨_, _, rfl⟩
    show OneOutcome sender call w₆.log
    rw [hrecord.2, h₅.2, hlog₄]
    refine .delivered dest owner conn s₁ w₁.state w₃.state hdest ?_ ?_ ?_
    · refine .cons (h₂.undelivered.once hdelivers) ?_
      exact Undecided.not_delivers (o := .record _) trivial hsender
    · rw [hlog₂]
      exact .cons _ (.cons_cons _ (.cons_cons _ (List.singleton_sublist.mpr howner)))
    · refine .cons (h₂.unanswered.cons (hdelivers.not_writesReply hsender)) ?_
      exact Undecided.not_writesReply (o := .record _) trivial
  | false =>
    -- the connection is gone: the attempt is in the log, and delivers nothing
    refine answers_replyError _ _ hwants hsender ?_
    rw [hlog₄]
    refine ⟨h₂.undelivered.cons ?_, h₂.unanswered.cons ?_⟩
    · rintro ⟨s, conn', he⟩
      cases he
    · rintro ⟨s, conn', m, arrived, he, hm⟩
      cases he
      exact hsender hm.1

/-- The last look at the owner of the destination, and what comes of it. -/
theorem decides_getNameOwner {dest : String} {noOwner : BusProg Unit}
    (hwants : call.noReplyExpected = false) (hsender : call.sender ≠ some WellKnown.busName)
    (hdest : call.destination = some dest) (h : Pending call w.log)
    (hnone : ∀ w', Pending call w'.log → LeavesLog others noOwner w' fun _ w'' =>
      OneOutcome sender call w''.log) :
    LeavesLog others (do
      match ← op (.getNameOwner dest) with
      | some owner => deliverToOwner bus sender call owner
      | none => noOwner) w fun _ w' => OneOutcome sender call w'.log := by
  intro w₁ owner w₂ h₁ howner
  have h₂ : Pending call w₂.log := by
    refine Pending.exec ?_ (o := .getNameOwner dest) trivial hsender howner
    rwa [h₁.2]
  refine ⟨trivial, ?_⟩
  cases owner with
  | none => exact hnone w₂ h₂
  | some owner =>
    have hfound : (⟨w₁.state, .getNameOwner dest, some owner⟩ : BusEvent) ∈ w₂.log := by
      rw [howner.2]
      exact List.mem_cons_self
    exact decides_deliverToOwner hwants hsender hdest hfound h₂

theorem decides_activateAndDeliver {dest : String} (hwants : call.noReplyExpected = false)
    (hsender : call.sender ≠ some WellKnown.busName) (hdest : call.destination = some dest)
    (h : Pending call w.log) :
    LeavesLog others (activateAndDeliver bus sender call dest) w fun _ w' =>
      OneOutcome sender call w'.log := by
  refine Prog.ensures_ite (fun _ => answers_replyError _ _ hwants hsender h) fun _ => ?_
  refine Prog.ensures_bind ((pending_of_only (Driver.seeking_activateAndWait.mono fun _ ho =>
    ho.looking.undecided) hsender h).mono ?_)
  intro failure w₁ h₁
  cases failure with
  | some e => exact answers_replyError _ _ hwants hsender h₁
  | none =>
    exact decides_getNameOwner hwants hsender hdest h₁ fun w' h' =>
      answers_replyError _ _ hwants hsender h'

/-! ## Every call -/

/-- **A call that is dispatched has one outcome.** -/
theorem decides_dispatchMethodCall (hwants : call.noReplyExpected = false)
    (hsender : call.sender ≠ some WellKnown.busName) (h : Pending call w.log) :
    LeavesLog others (dispatchMethodCall bus sender call) w fun _ w' =>
      OneOutcome sender call w'.log := by
  unfold dispatchMethodCall
  split
  · exact answers_replyError _ _ hwants hsender h
  · next dest hdest =>
    refine Prog.ensures_ite (fun _ => answers_handleDriverCall hwants hsender h) fun _ => ?_
    refine Prog.ensures_ite (fun _ => answers_denial _ _ hwants hsender h) fun _ => ?_
    refine Prog.ensures_bind ((pending_of_only (Driver.seeking_resolveConnection.mono fun _ ho =>
      ho.looking.undecided) hsender h).mono ?_)
    intro dstConn w₁ h₁
    refine Prog.ensures_ite (fun _ => answers_denial _ _ hwants hsender h₁) fun _ => ?_
    exact decides_getNameOwner hwants hsender hdest h₁ fun w' h' =>
      decides_activateAndDeliver hwants hsender hdest h'

theorem decides_dispatchStamped (htype : call.messageType = .methodCall)
    (hwants : call.noReplyExpected = false) (hsender : call.sender ≠ some WellKnown.busName)
    (h : Pending call w.log) :
    LeavesLog others (dispatchStamped bus sender call) w fun _ w' =>
      OneOutcome sender call w'.log := by
  refine Prog.ensures_bind ((pending_of_only (copying_deliverToMonitors.mono fun _ ho =>
    ho.undecided) hsender h).mono ?_)
  intro _ w₁ h₁ w₂ isRegistered w₃ h₂ hexec
  have h₃ : Pending call w₃.log := by
    refine Pending.exec ?_ (o := .isRegistered sender) trivial hsender hexec
    rwa [h₂.2]
  refine ⟨trivial, ?_⟩
  refine Prog.ensures_ite (fun _ => answers_replyError _ _ hwants hsender h₃) fun _ => ?_
  unfold dispatchByType
  rw [htype]
  exact decides_dispatchMethodCall hwants hsender h₃

end Dispatch

/-- **One outcome for every call that wants a reply**: for every state, sender and
call, and whatever the other tasks do, it is delivered to the owner of its
destination and not answered, or answered once and not delivered. -/
theorem oneOutcome (others : BusState → BusState → Prop) (bus : Bus) (sender : ConnectionEntry)
    (msg : Message) (s : BusState) (w : World) (htype : msg.messageType = .methodCall)
    (hwants : msg.noReplyExpected = false) (h : Dispatched others bus sender msg s w) :
    OneOutcome sender (msg.setSender sender.uniqueName) w.log := by
  have hsender : (msg.setSender sender.uniqueName).sender ≠ some WellKnown.busName := by
    rw [Message.sender_setSender]
    exact fun hbus => uniqueName_ne_busName sender.id (Option.some.inj hbus)
  refine h.post (Dispatch.decides_dispatchStamped htype hwants hsender (pending_nil _)) ?_
  intro w w' hamid houtcome
  rw [hamid.2]
  exact houtcome

/-! ## A call and a reply that arrive or not -/

/-- A call from the first connection to the second has one outcome. -/
theorem oneOutcome_callTo : OneOutcome (peerConnection 1)
    ((Dispatch.callTo ":1.2").setSender (peerConnection 1).uniqueName)
    (playDispatch plainBus (peerConnection 1) (Dispatch.callTo ":1.2") twoConnected).log :=
  oneOutcome (fun _ _ => True) plainBus _ _ _ _ rfl (by decide) dispatched_play

/-- An answer to the call is written to its sender, and arrives. -/
def Answers (sender : ConnectionEntry) (call : Message) (e : BusEvent) : Prop :=
  ∃ (s : BusState) (m : Message), e = ⟨s, .write sender m, true⟩ ∧ m.IsDriverReply ∧
    m.replySerial = some call.serial

/-- Whether an event is a write that arrives. -/
def BusEvent.arrives (e : BusEvent) : Bool :=
  match e with
  | ⟨_, .write _ _, arrived⟩ => arrived
  | _ => false

theorem Delivers.arrives (h : Delivers call e) : e.arrives = true := by
  obtain ⟨s, conn, rfl⟩ := h
  rfl

theorem Answers.arrives (h : Answers sender call e) : e.arrives = true := by
  obtain ⟨s, m, rfl, -, -⟩ := h
  rfl

/-- **Nothing arrives if the sender is gone**: the call is to a name nobody owns, and
the error that says so is written to nobody. -/
theorem answer_lost : ¬ ∀ (bus : Bus) (sender : ConnectionEntry) (msg : Message) (s : BusState)
    (w : World), msg.messageType = .methodCall → msg.noReplyExpected = false →
    Dispatched (fun _ _ => False) bus sender msg s w →
      (Once (Delivers (msg.setSender sender.uniqueName)) w.log ∧
        Never (Answers sender (msg.setSender sender.uniqueName)) w.log) ∨
      (Once (Answers sender (msg.setSender sender.uniqueName)) w.log ∧
        Never (Delivers (msg.setSender sender.uniqueName)) w.log) := by
  intro h
  have hsilent : ∀ e ∈ (playWithout (peerConnection 1) plainBus (peerConnection 1)
      (Dispatch.callTo "a.Service") twoConnected).log, e.arrives = false := by decide +kernel
  rcases h plainBus (peerConnection 1) (Dispatch.callTo "a.Service") twoConnected _ rfl (by decide)
    (dispatched_playWithout (peerConnection 1)) with ⟨hdelivers, -⟩ | ⟨hanswers, -⟩
  · obtain ⟨e, he, hdelivers⟩ := hdelivers.exists
    cases hdelivers.arrives.symm.trans (hsilent e he)
  · obtain ⟨e, he, hanswers⟩ := hanswers.exists
    cases hanswers.arrives.symm.trans (hsilent e he)

end Oxibus
