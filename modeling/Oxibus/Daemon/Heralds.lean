import Oxibus.Daemon.Broadcasts

/-!
# What a task has to tell of

An operation that changes owners answers with the changes, and the task that
performs it hands them to `broadcast_name_owner_changes`, which tells everyone
of them, one after the other. What a task has still to tell of, and which
change it is telling of, follows from its operations: the changes are there
when an operation answers with them, and a broadcast begins when the task asks
for all connections.

A task that dispatches a message has nothing to tell of when it begins and
nothing when it is done, changes nothing while it has, and all the notices it
writes are of the change it is telling of.
-/

namespace Oxibus

open BusProg

/-- **What a task has to tell of.** -/
structure Herald where
  /-- The change it is telling of. -/
  telling : Option NameOwnerChange
  /-- The changes it has still to tell of. -/
  pending : List NameOwnerChange

/-- The change a task is about to tell of, when it asks for all connections. -/
def Herald.next (t : Herald) : BusOp → List NameOwnerChange
  | .allConnections => t.pending.head?.toList
  | _ => []

/-- **What an operation makes of it.** -/
def BusOp.herald : (o : BusOp) → o.Res → Herald → Herald
  | .allConnections, _, t => ⟨t.pending.head?, t.pending.tail⟩
  | .swapRegistered c, r, t => ⟨t.telling, (swapRegistered c).changes r⟩
  | .requestName u n flags, r, t => ⟨t.telling, (requestName u n flags).changes r⟩
  | .releaseName u n, r, t => ⟨t.telling, (releaseName u n).changes r⟩
  | .removeConnection u, r, t => ⟨t.telling, (removeConnection u).changes r⟩
  | _, _, t => t

/-- **An operation of a task that keeps its word**: it changes owners when it has
told of all changes before, and writes notices of the change it tells of. -/
structure Tells (o : BusOp) (t : Herald) : Prop where
  changes : o.mayChange = true → t.pending = []
  writes : ∀ c m notice, o = .write c m → m.notice = some notice →
    ∃ change ∈ t.telling, change.notice = notice
  copies : ∀ c m, o = .spawnWrite c m → m.notice = none

/-- **A program that keeps its word.** -/
abbrev Heralds {α : Type} (p : BusProg α) (post : α → Herald → Prop) (t : Herald) : Prop :=
  p.Ensures (fun o t r t' => t' = o.herald r t) (fun t t' => t' = t)
  (fun o t _ _ => Tells o t) post t

variable {bus : Bus} {α : Type} {p : BusProg α} {o : BusOp} {r : o.Res} {t t' : Herald}
variable {change : NameOwnerChange} {changes : List NameOwnerChange} {notice : Notice}
variable {caller : ConnectionEntry} {msg : Message}

/-- The operations that send a message. -/
def BusOp.sends : BusOp → Bool
  | .write _ _ => true
  | .spawnWrite _ _ => true
  | _ => false

/-- An operation that sends nothing, of a task that has told of everything if owners
change. -/
theorem Tells.of_sends (ho : o.sends = false) (ht : o.mayChange = true → t.pending = []) :
    Tells o t where
  changes := ht
  writes := by
    rintro c m notice rfl
    cases ho
  copies := by
    rintro c m rfl
    cases ho

theorem herald_of_mayChange (ho : o.mayChange = true) :
    o.herald r t = ⟨t.telling, o.changes r⟩ := by
  cases o with
  | swapRegistered => rfl
  | requestName => rfl
  | releaseName => rfl
  | removeConnection => rfl
  | _ => cases ho

/-! ## Operations that tell of nothing -/

instance : Nonempty ConnectionEntry := ⟨⟨0, ⟨0, 0, 0⟩, none⟩⟩

/-- **The operations that change no owner and write no notice.** -/
def Hushed (o : BusOp) : Prop := ∀ x : String × ConnectionEntry, Calm x.1 x.2 o

namespace Hushed

theorem mayChange (ho : Hushed o) : o.mayChange = false :=
  (ho ("", ⟨0, ⟨0, 0, 0⟩, none⟩)).mayChange

theorem tells (ho : Hushed o) : Tells o t where
  changes := by
    intro h
    rw [ho.mayChange] at h
    cases h
  writes := by
    rintro c m notice rfl hnotice
    have hquiet : Quiet notice.name c c m := ho (notice.name, c)
    exact absurd rfl (hquiet rfl notice hnotice)
  copies := by
    rintro c m rfl
    exact Calm.copies (ho ("", c))

/-- Who has nothing to tell of still has nothing. -/
theorem pending (ho : Hushed o) (ht : t.pending = []) : (o.herald r t).pending = [] := by
  have hchange := ho.mayChange
  cases o with
  | allConnections =>
    show t.pending.tail = []
    rw [ht]
    rfl
  | swapRegistered => cases hchange
  | requestName => cases hchange
  | releaseName => cases hchange
  | removeConnection => cases hchange
  | _ => exact ht

end Hushed

theorem heralds_of_hushed {post : α → Prop} (h : p.Yields Hushed post) (ht : t.pending = []) :
    Heralds p (fun a t' => post a ∧ t'.pending = []) t := by
  refine h.ensures (I := fun t : Herald => t.pending = []) ?_ ?_ ht
  · rintro t t' ht rfl
    exact ht
  · rintro o t r t' ho ht rfl
    exact ⟨ho.tells, ho.pending ht⟩

/-! ## A broadcast -/

/-- **The operations of a broadcast**, once it has begun: notices are of one change. -/
def Carries (notice : Notice) : BusOp → Prop
  | .get _ => True
  | .ownerLookup => True
  | .isMonitor _ => True
  | .matchRules _ => True
  | .driverSerial => True
  | .record _ => True
  | .write _ m => ∀ x ∈ m.notice, x = notice
  | _ => False

theorem Carries.tells (ho : Carries change.notice o) (ht : t.telling = some change) :
    Tells o t where
  changes := by
    intro h
    cases o with
    | swapRegistered => exact ho.elim
    | requestName => exact ho.elim
    | releaseName => exact ho.elim
    | removeConnection => exact ho.elim
    | _ => cases h
  writes := by
    rintro c m notice rfl hnotice
    refine ⟨change, ht, ?_⟩
    exact (ho notice hnotice).symm
  copies := by
    rintro c m rfl
    exact ho.elim

theorem Carries.herald (ho : Carries notice o) : o.herald r t = t := by
  cases o with
  | allConnections => exact ho.elim
  | swapRegistered => exact ho.elim
  | requestName => exact ho.elim
  | releaseName => exact ho.elim
  | removeConnection => exact ho.elim
  | _ => rfl

/-- What goes on in a broadcast leaves what is to be told of. -/
theorem heralds_of_carries (h : p.Only (Carries change.notice)) (ht : t.telling = some change) :
    Heralds p (fun _ t' => t' = t) t := by
  refine h.ensures (I := fun t' => t' = t) ?_ ?_ rfl
  · rintro t₁ t₂ rfl rfl
    rfl
  · rintro o t₁ r t₂ ho rfl rfl
    exact ⟨ho.tells ht, ho.herald⟩

namespace Dispatch

/-- A unicast signal of the driver is no notice. -/
theorem carries_tellOwner (owner : Option String) (member name : String) :
    (tellOwner owner member name).Only (Carries notice) := by
  cases owner with
  | none => trivial
  | some uniqueName =>
    refine ⟨trivial, fun conn => ?_⟩
    cases conn with
    | none => trivial
    | some conn =>
      refine ⟨trivial, fun serial => ⟨?_, fun _ => trivial⟩⟩
      intro x hx
      rw [notice_unicast uniqueName member name] at hx
      cases hx

theorem carries_broadcastTo (serial : UInt32) (conn : ConnectionEntry) :
    (broadcastTo bus (noticeSignal change serial) false conn).Only (Carries change.notice) := by
  have hmatches : ∀ rules, (anyMatches (noticeSignal change serial) rules).Only
      (Carries change.notice) := by
    intro rules
    induction rules with
    | nil => trivial
    | cons rule rules ih => exact ⟨trivial, fun owner => Prog.only_ite trivial ih⟩
  refine Prog.only_perform_bind trivial fun isMonitor => Prog.only_ite trivial ?_
  refine Prog.only_perform_bind trivial fun rules => ?_
  refine Prog.only_bind (hmatches rules) fun matched => Prog.only_ite trivial ?_
  refine Prog.only_perform_bind (fun x hx => ?_) fun written => ⟨trivial, fun _ => trivial⟩
  rw [notice_noticeSignal] at hx
  exact (Option.some.inj hx).symm

/-- **The broadcast of a change**: it is the first one that was to be told of, and the others
are left. -/
theorem heralds_broadcastNameOwnerChange (ht : t.pending = change :: changes) :
    Heralds (broadcastNameOwnerChange bus change) (fun _ t' => t'.pending = changes) t := by
  rintro _ serial t₂ heq rfl
  rw [heq]
  refine ⟨.of_sends rfl Bool.noConfusion, ?_⟩
  show Heralds (broadcastSignal bus (noticeSignal change serial) false >>= fun _ => _) _ t
  rintro _ conns t₂ heq rfl
  rw [heq]
  refine ⟨.of_sends rfl Bool.noConfusion, ?_⟩
  have hbegun : BusOp.herald .allConnections conns t = ⟨some change, changes⟩ := by
    show (⟨t.pending.head?, t.pending.tail⟩ : Herald) = _
    rw [ht]
    rfl
  show Heralds (Prog.forEach (broadcastTo bus _ false) conns >>= fun _ => _) _ _
  rw [hbegun]
  refine (heralds_of_carries
    (Prog.only_bind (Prog.only_forEach fun conn _ => ?_) fun _ => ?_) rfl).mono
    fun _ t' ht' => ?_
  · exact carries_broadcastTo serial conn
  · exact Prog.only_bind (carries_tellOwner change.newOwner WellKnown.nameAcquired change.name)
      fun _ => carries_tellOwner change.oldOwner WellKnown.nameLost change.name
  · rw [ht']

/-- **All changes are told of.** -/
theorem heralds_broadcastNameOwnerChanges (ht : t.pending = changes) :
    Heralds (broadcastNameOwnerChanges bus changes) (fun _ t' => t'.pending = []) t := by
  induction changes generalizing t with
  | nil => exact ht
  | cons change changes ih =>
    exact Prog.ensures_bind ((heralds_broadcastNameOwnerChange ht).mono fun _ _ ht' => ih ht')

/-- The reply to a call is no notice. -/
theorem hushed_reply (outcome : DriverOutcome) :
    (if msg.noReplyExpected then pure ()
      else sendFromDriver caller (outcomeReply msg outcome.result) : BusProg Unit).Only Hushed := by
  refine Prog.only_ite trivial ⟨fun _ => trivial, fun serial => ⟨fun x => ?_, fun _ => trivial⟩⟩
  exact quiet_of_none (notice_outcomeReply msg outcome.result)

/-- **A call to the driver is finished** when all it has changed is told of. -/
theorem heralds_finishDriverReply {outcome : DriverOutcome}
    (ht : outcome.nameOwnerChanges = t.pending) :
    Heralds (finishDriverReply bus caller msg outcome) (fun _ t' => t'.pending = []) t := by
  refine Prog.ensures_bind ((heralds_broadcastNameOwnerChanges ht.symm).mono fun _ t' ht' => ?_)
  exact (heralds_of_hushed (hushed_reply outcome).yields ht').mono fun _ _ h => h.2

end Dispatch

/-! ## The methods of the driver -/

/-- What a call to the driver answers with is what is to be told of. -/
def Heralded (outcome : DriverOutcome) (t : Herald) : Prop := outcome.nameOwnerChanges = t.pending

theorem heralded_of_calm {p : BusProg DriverOutcome} (h : ∀ n c, p.Yields (Calm n c) NoChanges)
    (ht : t.pending = []) : Heralds p Heralded t := by
  have hhushed : p.Yields Hushed NoChanges := Prog.yields_forall fun x => h x.1 x.2
  refine (heralds_of_hushed hhushed ht).mono fun outcome t' h' => ?_
  exact (show outcome.nameOwnerChanges = [] from h'.1).trans h'.2.symm

/-- **An operation that changes owners**, and an outcome made of its changes. -/
theorem heralded_of_changes (ho : o.mayChange = true) {k : o.Res → BusProg DriverOutcome}
    (hk : ∀ r, ∃ outcome, k r = .ret outcome ∧ outcome.nameOwnerChanges = o.changes r)
    (ht : t.pending = []) : Heralds (.call o k) Heralded t := by
  rintro _ r t' heq rfl
  rw [heq]
  have hsends : o.sends = false := by
    cases o with
    | write => cases ho
    | spawnWrite => cases ho
    | _ => rfl
  refine ⟨.of_sends hsends fun _ => ht, ?_⟩
  obtain ⟨outcome, hret, houtcome⟩ := hk r
  rw [hret]
  show outcome.nameOwnerChanges = (o.herald r t).pending
  rw [houtcome, herald_of_mayChange ho]

namespace Driver

theorem heralded_handleHello (ht : t.pending = []) : Heralds (handleHello caller) Heralded t := by
  refine heralded_of_changes rfl (fun wasRegistered => ?_) ht
  cases wasRegistered with
  | true => exact ⟨_, rfl, rfl⟩
  | false => exact ⟨_, rfl, rfl⟩

theorem heralded_requestChecked {name : String} {flags : UInt32} (ht : t.pending = []) :
    Heralds (requestChecked bus caller name flags) Heralded t := by
  refine Prog.ensures_ite
    (fun _ => heralded_of_calm (fun _ _ => ⟨trivial, fun _ => rfl⟩) ht) fun _ => ?_
  refine Prog.ensures_ite
    (fun _ => heralded_of_calm (fun _ _ => ⟨trivial, fun _ => rfl⟩) ht) fun _ => ?_
  rintro _ held t' heq rfl
  rw [heq]
  refine ⟨.of_sends rfl Bool.noConfusion, Prog.ensures_ite (fun _ => ht.symm) fun _ => ?_⟩
  exact heralded_of_changes rfl (fun reply => ⟨_, rfl, rfl⟩) ht

theorem heralded_withArgStr {args : List Value} {f : String → BusProg DriverOutcome}
    (h : ∀ s, Heralds (f s) Heralded t) (ht : t.pending = []) :
    Heralds (withArgStr args f) Heralded t := by
  unfold withArgStr
  split
  · exact h _
  · exact ht.symm

/-- **The methods of the driver answer with what they change.** -/
theorem heralded_handle {member : String} {args : List Value} (ht : t.pending = []) :
    Heralds (handle bus caller member args) Heralded t := by
  by_cases hhello : member = "Hello"
  · rw [hhello]
    exact heralded_handleHello ht
  by_cases hrequest : member = "RequestName"
  · rw [hrequest]
    refine heralded_withArgStr (fun name => ?_) ht
    split
    · exact ht.symm
    · exact ht.symm
    · exact heralded_requestChecked ht
  by_cases hrelease : member = "ReleaseName"
  · rw [hrelease]
    refine heralded_withArgStr (fun name => ?_) ht
    exact heralded_of_changes rfl (fun reply => ⟨_, rfl, rfl⟩) ht
  exact heralded_of_calm (fun _ _ => yields_handle hhello hrequest hrelease) ht

end Driver

namespace Dispatch

/-! ## A dispatch -/

theorem heralds_handleDriverCall (ht : t.pending = []) :
    Heralds (handleDriverCall bus caller msg) (fun _ t' => t'.pending = []) t := by
  have houtcome : Heralds (driverOutcome bus caller msg) Heralded t := by
    unfold driverOutcome
    dsimp only
    split
    · next outcome h => exact heralded_of_calm (fun _ _ => yields_handleSideInterface h) ht
    · exact Driver.heralded_handle ht
  exact Prog.ensures_bind (houtcome.mono fun _ _ h => heralds_finishDriverReply h)

/-- **A dispatch tells of all it changes.** -/
theorem heralds_dispatchIncoming (ht : t.pending = []) :
    Heralds (dispatchIncoming bus caller msg) (fun _ t' => t'.pending = []) t := by
  have hcopies : (deliverToMonitors (msg.setSender caller.uniqueName)).Only Hushed := by
    refine ⟨fun _ => trivial, fun conns => Prog.only_forEach fun conn _ => ⟨fun _ => trivial, ?_⟩⟩
    exact fun isMonitor => Prog.only_ite ⟨fun _ => notice_setSender, fun _ => trivial⟩ trivial
  have hstamped : ∀ n c c', Quiet n c c' (msg.setSender caller.uniqueName) :=
    fun _ _ _ => quiet_of_none notice_setSender
  have herror : ∀ n c m, DriverBuilt m → m.messageType = .error → Quiet n c caller m := by
    intro n c m _ hm
    refine quiet_of_none (notice_of_messageType ?_)
    rw [hm]
    exact nofun
  have hrouting : ∀ {p : BusProg Unit} {t : Herald}, (∀ n c, p.Only (Routing (Quiet n c))) →
      t.pending = [] → Heralds p (fun _ t' => t'.pending = []) t := by
    intro p t hp ht
    have hhushed : p.Yields Hushed fun _ => True :=
      Prog.yields_forall fun x => ((hp x.1 x.2).mono fun _ => Routing.calm).yields
    exact (heralds_of_hushed hhushed ht).mono fun _ _ h => h.2
  refine Prog.ensures_bind ((heralds_of_hushed hcopies.yields ht).mono fun _ t₁ h₁ => ?_)
  rintro _ isRegistered t₂ heq rfl
  rw [heq]
  have ht₁ := h₁.2
  refine ⟨.of_sends rfl Bool.noConfusion, Prog.ensures_ite (fun _ => ?_) fun _ => ?_⟩
  · exact hrouting (fun n c => routing_replyError (herror n c) _ _ _) ht₁
  · show Heralds (dispatchByType bus caller _) _ t₁
    unfold dispatchByType
    split
    · exact hrouting (fun n c => routing_dispatchSignal fun c' _ _ => hstamped n c c') ht₁
    · by_cases hdest : (msg.setSender caller.uniqueName).destination = some WellKnown.busName
      · rw [dispatchMethodCall_driver hdest]
        exact heralds_handleDriverCall ht₁
      · exact hrouting (fun n c => routing_dispatchMethodCall hdest (herror n c)
          fun c' _ _ => hstamped n c c') ht₁
    · exact hrouting (fun n c => routing_dispatchReply (hstamped n c)) ht₁
    · exact hrouting (fun n c => routing_dispatchReply (hstamped n c)) ht₁

end Dispatch

/-! ## Jobs -/

/-- **A job keeps its word**: when it is done with a program, it has told of
everything. -/
def Job.Heralds (t : Herald) : Job → Prop
  | serving _ p => Oxibus.Heralds p (fun _ t' => t'.pending = []) t
  | announcing p => Oxibus.Heralds p (fun _ t' => t'.pending = []) t
  | copying _ m => m.notice = none ∧ t.pending = []
  | _ => t.pending = []

/-- The job is in the middle of a program. -/
def Job.isBusy : Job → Bool
  | serving _ (.call _ _) => true
  | announcing (.call _ _) => true
  | _ => false

/-- Whoever is in the middle of nothing has told of everything. -/
theorem Job.Heralds.pending {j : Job} (h : j.Heralds t) (hj : j.isBusy = false) :
    t.pending = [] := by
  cases j with
  | serving c p =>
    cases p with
    | ret => exact h
    | call => cases hj
  | announcing p =>
    cases p with
    | ret => exact h
    | call => cases hj
  | copying => exact h.2
  | _ => exact h

/-- **A step of a job.** -/
theorem Job.Heralds.step {j j' : Job} (h : j.Heralds t) (hstep : JobStep bus j o r j') :
    Tells o t ∧ j'.Heralds (o.herald r t) := by
  cases hstep with
  | read =>
    have ht : t.pending = [] := h
    exact ⟨.of_sends rfl fun _ => ht, Dispatch.heralds_dispatchIncoming ht⟩
  | dispatch => exact h t r _ rfl rfl
  | remove =>
    have ht : t.pending = [] := h
    exact ⟨.of_sends rfl fun _ => ht, Dispatch.heralds_broadcastNameOwnerChanges rfl⟩
  | announce => exact h t r _ rfl rfl
  | copy =>
    refine ⟨⟨nofun, ?_, nofun⟩, h.2⟩
    rintro c m notice ho hnotice
    cases ho
    rw [h.1] at hnotice
    cases hnotice
  | _ => exact ⟨.of_sends rfl fun _ => h, h⟩

end Oxibus
