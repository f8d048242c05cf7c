import Mathlib.Data.List.Chain
import Oxibus.Daemon.BusName

/-!
# Changes of ownership and their notices

The registry answers a call with the changes of ownership it makes, and the
task that made the call tells everyone of them afterwards. Until it has,
what everyone has been told and what the registry says are different things.

What the registry *announces* – the changes it answers with, in the order of
the log – is what a listener would know who heard of every change at the
moment it happens. About any one name, the announcements form a chain, and the
last one names the owner.
-/

namespace Oxibus

open BusProg Daemon

variable {bus : Bus} {S S' : Daemon} {o : BusOp} {r : o.Res} {s s' : BusState} {w : World}
variable {n : String} {j j' : Job} {i : ℕ}

/-! ## Notices -/

/-- **The arguments of a `NameOwnerChanged` signal.** The empty string stands
for nobody. -/
structure Notice where
  name : String
  oldOwner : String
  newOwner : String
  deriving DecidableEq, Repr

/-- What the signal about a change says. -/
def NameOwnerChange.notice (change : NameOwnerChange) : Notice :=
  ⟨change.name, change.oldOwner.getD "", change.newOwner.getD ""⟩

/-- **What a message says of a change of ownership**, if it is the driver's
signal about one. -/
def Message.notice (m : Message) : Option Notice :=
  if m.messageType = .signal ∧ m.sender = some WellKnown.busName ∧
      m.interface = some WellKnown.busInterface ∧ m.member = some WellKnown.nameOwnerChanged then
    match m.body with
    | [.string name, .string oldOwner, .string newOwner] => some ⟨name, oldOwner, newOwner⟩
    | _ => none
  else none

/-- **Each notice takes up where the one before it ends**: its old owner is the
new owner of that one. -/
def Linked (notices : List Notice) : Prop :=
  notices.IsChain fun earlier later => later.oldOwner = earlier.newOwner

/-- One more notice. -/
theorem Linked.concat {notices : List Notice} {e : Notice} (h : Linked notices)
    (he : ∀ last ∈ notices.getLast?, e.oldOwner = last.newOwner) : Linked (notices ++ [e]) := by
  refine List.IsChain.append h (List.isChain_singleton e) fun last hlast first hfirst => ?_
  rw [← Option.some.inj hfirst]
  exact he last hlast

/-! ## What the registry announces -/

/-- **The changes of ownership an operation answers with.** A connection that
registers owns its unique name for everyone to see from then on. -/
def BusOp.changes : (o : BusOp) → o.Res → List NameOwnerChange
  | .swapRegistered c, wasRegistered =>
    if wasRegistered then [] else [⟨c.uniqueName, none, some c.uniqueName⟩]
  | .requestName _ _ _, r => r.2
  | .releaseName _ _, r => r.2
  | .removeConnection _, events => events
  | _, _ => []

/-- The operations that can answer with changes. -/
def BusOp.mayChange : BusOp → Bool
  | .swapRegistered _ => true
  | .requestName _ _ _ => true
  | .releaseName _ _ => true
  | .removeConnection _ => true
  | _ => false

theorem BusOp.changes_eq_nil (ho : o.mayChange = false) : o.changes r = [] := by
  cases o with
  | swapRegistered => cases ho
  | requestName => cases ho
  | releaseName => cases ho
  | removeConnection => cases ho
  | _ => rfl

/-- What an operation announces about a name. -/
def BusEvent.announces (n : String) (e : BusEvent) : List Notice :=
  (Registry.changesFor n (e.op.changes e.res)).map NameOwnerChange.notice

/-- **What has been announced about a name**, the earliest first. The log has
the latest event first. -/
def announced (n : String) : List BusEvent → List Notice
  | [] => []
  | e :: log => announced n log ++ e.announces n

/-! ## Who asks for names -/

/-- Names without a colon are asked for, and no others. -/
def RequestsWellKnown (_ : List BusEvent) (e : BusEvent) : Prop :=
  match e.op with
  | .requestName _ name _ => startsWithColon name = false
  | _ => True

/-- A valid name that is not a unique one has no colon. -/
theorem startsWithColon_of_validateBusName {name : String}
    (h : Driver.validateBusName name false = .ok ()) : startsWithColon name = false := by
  rw [Bool.eq_false_iff]
  intro hcolon
  unfold Driver.validateBusName at h
  rw [hcolon] at h
  cases h

/-- What a job still asks for is names without a colon. -/
def Job.AsksWellKnown : Job → Prop
  | serving c p => p.Only (Errand c (fun name _ => startsWithColon name = false)
      (fun _ _ => True) fun _ _ => True)
  | announcing p => p.Only (Dispatch.Telling fun _ _ => True)
  | _ => True

theorem Daemon.Reachable.requestsWellKnown (h : Reachable bus S) :
    Logged RequestsWellKnown S.world.log := by
  refine (h.guarantee (J := fun j _ => j.AsksWellKnown) (fun _ _ => trivial) ?_
    fun hjob _ => hjob).1
  intro j j' o r w w' hjob hstep hexec
  have hspawned : ∀ j ∈ o.spawned, j.AsksWellKnown :=
    BusOp.forall_mem_spawned fun _ _ => trivial
  cases hstep with
  | @dispatch c o k r =>
    refine ⟨?_, hjob.2 r, hspawned⟩
    cases o with
    | requestName u name flags => exact hjob.1.2
    | _ => trivial
  | @announce o k r =>
    refine ⟨?_, hjob.2 r, hspawned⟩
    cases o with
    | requestName => exact hjob.1.elim
    | _ => trivial
  | read =>
    refine ⟨trivial, ?_, hspawned⟩
    exact Dispatch.only_dispatchIncoming
      (fun name flags hreq => startsWithColon_of_validateBusName hreq.valid)
      (fun _ _ _ => trivial) (fun _ => trivial) fun _ => trivial
  | remove =>
    refine ⟨trivial, ?_, hspawned⟩
    exact Dispatch.telling_broadcastNameOwnerChanges (fun _ _ _ _ => trivial) _
  | _ => exact ⟨trivial, trivial, hspawned⟩

/-- **A unique name has no queue.** -/
theorem Daemon.Reachable.queueOf_unique (h : Reachable bus S) (hn : startsWithColon n = true) :
    S.world.state.registry.queueOf n = [] := by
  induction h with
  | refl => exact Registry.queueOf_eq_nil (Registry.queue_new _)
  | @tail S _ hrun hs ih =>
    cases hs with
    | accept peer => exact ih
    | @job i j j' o r w hj hstep hexec =>
      have hasked := (Reachable.requestsWellKnown (Reachable.job hrun hj hstep hexec.1)).1
      refine hexec.1.queueOf_eq_nil ?_ ih
      rintro u flags rfl
      rw [show startsWithColon n = false from hasked] at hn
      cases hn

/-! ## The announcements are the changes -/

namespace BusOp.Exec

/-- The other operations leave the queues alone. -/
theorem queueOf_eq (h : o.Exec s r s') (ho : o.mayChange = false) :
    s'.registry.queueOf n = s.registry.queueOf n := by
  cases o with
  | requestName => cases ho
  | releaseName => cases ho
  | removeConnection => cases ho
  | swapRegistered => cases ho
  | tryBeginIncomplete max =>
    rw [h.2]
    show (s.registry.tryBeginIncomplete max).2.queueOf n = _
    unfold Registry.tryBeginIncomplete
    split <;> rfl
  | _ => first | rw [h.eq_of_not_isUpdate rfl] | (rw [h] <;> rfl) | (rw [h.2] <;> rfl)

/-- **What is announced about a well-known name** is the change of its owner. -/
theorem changesFor_wellKnown (h : o.Exec s r s') (hn : startsWithColon n = false)
    (hremove : ∀ u, o = .removeConnection u → startsWithColon u = true) :
    Registry.changesFor n (o.changes r)
      = changesOf n (s.registry.getNameOwner n) (s'.registry.getNameOwner n) := by
  rw [Registry.getNameOwner_eq hn, Registry.getNameOwner_eq hn]
  cases o with
  | requestName u name flags =>
    rw [h.2, h.1]
    exact (Registry.steps_requestName _ _ _ _).changesFor n
  | releaseName u name =>
    rw [h.2, h.1]
    exact (Registry.steps_releaseName _ _ _).changesFor n
  | removeConnection u =>
    obtain ⟨order, horder, hr, hs⟩ := h
    obtain ⟨hqueue, hchanges, -⟩ := Registry.removeConnection_spec horder u n
    have hne : n ≠ u := by
      rintro rfl
      rw [hremove n rfl] at hn
      cases hn
    rw [hs, hr]
    show Registry.changesFor n (s.registry.removeConnection u order).1 = changesOf n _
      (primaryOwner ((s.registry.removeConnection u order).2.queueOf n))
    rw [hqueue, hchanges hne]
  | swapRegistered c =>
    have hne : ¬(c.uniqueName == n) = true := by
      rw [beq_iff_eq]
      rintro rfl
      rw [ConnectionEntry.uniqueName, startsWithColon_uniqueName] at hn
      cases hn
    have hnone : Registry.changesFor n (changes (.swapRegistered c) r) = [] := by
      show Registry.changesFor n (if r = true then [] else _) = []
      split
      · rfl
      · exact List.filter_cons_of_neg hne
    rw [hnone, h.2]
    exact (changesOf_self n _).symm
  | _ =>
    rw [h.queueOf_eq rfl, changesOf_self]
    rfl

/-- **What is announced about a unique name**: that its connection registers, and
that it is gone. -/
theorem changesFor_unique (h : o.Exec s r s') (hn : startsWithColon n = true)
    (hasked : ∀ u name flags, o = .requestName u name flags → startsWithColon name = false)
    (hqueue : s.registry.queueOf n = []) :
    Registry.changesFor n (o.changes r) = [] ∨
      (∃ c, o = .swapRegistered c ∧ s.isRegistered c = false ∧ c.uniqueName = n ∧
        Registry.changesFor n (o.changes r) = [⟨n, none, some n⟩]) ∨
      (o = .removeConnection n ∧ Registry.changesFor n (o.changes r) = [⟨n, some n, none⟩]) := by
  cases o with
  | requestName u name flags =>
    refine .inl ?_
    have hne : n ≠ name := by
      rintro rfl
      rw [hasked u n flags rfl] at hn
      cases hn
    rw [h.1]
    show Registry.changesFor n (s.registry.requestName u name flags).1.2 = []
    rw [(Registry.steps_requestName _ _ _ _).changes, Registry.changesFor_changesOf, if_neg hne]
  | releaseName u name =>
    refine .inl ?_
    have hqueue' : s'.registry.queueOf n = [] := h.queueOf_eq_nil nofun hqueue
    rw [h.2] at hqueue'
    rw [h.1]
    show Registry.changesFor n (s.registry.releaseName u name).1.2 = []
    rw [(Registry.steps_releaseName _ _ _).changesFor n, hqueue, hqueue', changesOf_self]
  | removeConnection u =>
    obtain ⟨order, horder, hr, hs⟩ := h
    rw [hr]
    show Registry.changesFor n (s.registry.removeConnection u order).1 = [] ∨ _
    by_cases hu : n = u
    · rw [← hu]
      exact .inr (.inr ⟨rfl, Registry.changesFor_removeConnection_self horder n hqueue⟩)
    · refine .inl ?_
      rw [(Registry.removeConnection_spec horder u n).2.1 hu, hqueue]
      rfl
  | swapRegistered c =>
    have hr : r = s.isRegistered c := h.1
    show Registry.changesFor n (if r = true then [] else _) = [] ∨ _
    cases hreg : s.isRegistered c with
    | true =>
      rw [hr, hreg]
      exact .inl rfl
    | false =>
      rw [hr, hreg]
      by_cases hc : c.uniqueName = n
      · refine .inr (.inl ⟨c, rfl, hreg, hc, ?_⟩)
        rw [← hc]
        exact List.filter_cons_of_pos (beq_self_eq_true _)
      · exact .inl (List.filter_cons_of_neg fun h => hc (beq_iff_eq.mp h))
  | _ => exact .inl rfl

/-- Who is removed loses the unique name. -/
theorem mem_changesFor_removeConnection {u : String} {events : List NameOwnerChange}
    (h : BusOp.Exec (.removeConnection u) s events s') :
    (⟨u, some u, none⟩ : NameOwnerChange) ∈ Registry.changesFor u events := by
  obtain ⟨order, -, hr, -⟩ := h
  rw [hr]
  refine List.mem_filter.mpr ⟨?_, beq_self_eq_true u⟩
  exact List.mem_append_right _ (List.mem_singleton.mpr rfl)

end BusOp.Exec

/-! ## Who registers, joins and leaves -/

namespace JobStep

variable {c : ConnectionEntry} {u : String}

theorem swapRegistered {r : Bool} (hstep : JobStep bus j (.swapRegistered c) r j')
    (h : j.Settled s) : j.entry = some c ∧ s.registry.get c.uniqueName = some c := by
  cases hstep with
  | @dispatch c' =>
    obtain rfl : c = c' := h.2.1
    exact ⟨rfl, h.1⟩
  | announce =>
    have hself : c = ⟨c.id + 1, c.credentials, none⟩ := (h _).1
    exact absurd (congrArg ConnectionEntry.id hself) (Nat.succ_ne_self c.id).symm

theorem addConnection {r : Unit} (hstep : JobStep bus j (.addConnection c) r j')
    (h : j.Settled s) : j.entry = some c ∧ s.isRegistered c = false := by
  cases hstep with
  | add => exact ⟨rfl, congrArg Cells.isRegistered h.1⟩
  | dispatch => exact h.2.1.elim
  | announce => exact (h c).1.elim

theorem removeConnection {r : List NameOwnerChange}
    (hstep : JobStep bus j (.removeConnection u) r j') (h : j.Settled s) :
    ∃ c, j.entry = some c ∧ c.uniqueName = u ∧ s.registry.get u = some c ∧ j'.entry = none := by
  cases hstep with
  | @remove c => exact ⟨c, rfl, rfl, h, rfl⟩
  | dispatch => exact h.2.1.elim
  | announce => exact (h ⟨0, ⟨0, 0, 0⟩, none⟩).1.elim

end JobStep

/-! ## Whole runs -/

/-- **What a daemon has announced**: about any name a chain, whose last notice
names the owner; and nothing of a connection that has not registered. -/
structure Daemon.Truthful (S : Daemon) : Prop where
  linked : ∀ n, Linked (announced n S.world.log)
  owner : ∀ n, ∀ e ∈ (announced n S.world.log).getLast?,
    e.newOwner = (S.world.state.registry.getNameOwner n).getD ""
  fresh : ∀ id, S.world.state.registry.nextId ≤ id → announced (uniqueName id) S.world.log = []
  unregistered : ∀ {i : ℕ} {j : Job} {c : ConnectionEntry}, S.jobs[i]? = some j →
    j.entry = some c → S.world.state.isRegistered c = false →
    announced c.uniqueName S.world.log = []

namespace Daemon

/-- An operation that changes nothing about a name. -/
theorem announced_of_nil (hexec : World.Exec o S.world r w)
    (h : Registry.changesFor n (o.changes r) = []) :
    announced n w.log = announced n S.world.log := by
  rw [hexec.2]
  show announced n S.world.log ++ (Registry.changesFor n (o.changes r)).map _ = _
  rw [h, List.map_nil, List.append_nil]

/-- An operation that makes one change about a name. -/
theorem announced_of_singleton {change : NameOwnerChange} (hexec : World.Exec o S.world r w)
    (h : Registry.changesFor n (o.changes r) = [change]) :
    announced n w.log = announced n S.world.log ++ [change.notice] := by
  rw [hexec.2]
  show announced n S.world.log ++ (Registry.changesFor n (o.changes r)).map _ = _
  rw [h]
  rfl

/-- The chain about a name goes on with a change, and the change says who owns
the name. -/
theorem Truthful.concat {change : NameOwnerChange} (h : S.Truthful)
    (hexec : World.Exec o S.world r w) (hchange : Registry.changesFor n (o.changes r) = [change])
    (hold : ∀ last ∈ (announced n S.world.log).getLast?, change.notice.oldOwner = last.newOwner)
    (hnew : change.newOwner = w.state.registry.getNameOwner n) :
    Linked (announced n w.log) ∧ ∀ e ∈ (announced n w.log).getLast?,
      e.newOwner = (w.state.registry.getNameOwner n).getD "" := by
  rw [announced_of_singleton hexec hchange]
  refine ⟨(h.linked n).concat hold, fun e he => ?_⟩
  rw [List.getLast?_concat] at he
  rw [← Option.some.inj he, ← hnew]
  rfl

/-- The changes that a step makes about a unique name. -/
theorem Reachable.changesFor_unique (hreach : Reachable bus S) (hj : S.jobs[i]? = some j)
    (hstep : JobStep bus j o r j') (hexec : World.Exec o S.world r w)
    (hn : startsWithColon n = true) :
    Registry.changesFor n (o.changes r) = [] ∨
      (∃ c, o = .swapRegistered c ∧ S.world.state.isRegistered c = false ∧ c.uniqueName = n ∧
        Registry.changesFor n (o.changes r) = [⟨n, none, some n⟩]) ∨
      (o = .removeConnection n ∧ Registry.changesFor n (o.changes r) = [⟨n, some n, none⟩]) := by
  have hasked := (Reachable.requestsWellKnown (hreach.job hj hstep hexec.1)).1
  refine hexec.1.changesFor_unique hn ?_ (hreach.queueOf_unique hn)
  rintro u name flags rfl
  exact hasked

/-- The changes that a step makes about a well-known name. -/
theorem Reachable.changesFor_wellKnown (hreach : Reachable bus S) (hj : S.jobs[i]? = some j)
    (hstep : JobStep bus j o r j') (hexec : World.Exec o S.world r w)
    (hn : startsWithColon n = false) :
    Registry.changesFor n (o.changes r) = changesOf n (S.world.state.registry.getNameOwner n)
      (w.state.registry.getNameOwner n) := by
  refine hexec.1.changesFor_wellKnown hn ?_
  rintro u rfl
  obtain ⟨c, -, rfl, -⟩ := hstep.removeConnection (hreach.sessions.settled hj)
  exact startsWithColon_uniqueName c.id

/-- What a step announces about a well-known name. -/
theorem Truthful.announce_wellKnown (h : S.Truthful) (hreach : Reachable bus S)
    (hj : S.jobs[i]? = some j) (hstep : JobStep bus j o r j') (hexec : World.Exec o S.world r w)
    (hn : startsWithColon n = false) :
    Linked (announced n w.log) ∧ ∀ e ∈ (announced n w.log).getLast?,
      e.newOwner = (w.state.registry.getNameOwner n).getD "" := by
  have hchanges := hreach.changesFor_wellKnown hj hstep hexec hn
  by_cases hsame : S.world.state.registry.getNameOwner n = w.state.registry.getNameOwner n
  · rw [hsame, changesOf_self] at hchanges
    rw [announced_of_nil hexec hchanges, ← hsame]
    exact ⟨h.linked n, h.owner n⟩
  · rw [changesOf_of_ne hsame] at hchanges
    exact h.concat hexec hchanges (fun last hlast => (h.owner n last hlast).symm) rfl

/-- A step that announces nothing about a unique name leaves its owner as it was,
or it is the step by which its connection joins. -/
theorem Truthful.owner_of_nil (h : S.Truthful) (hreach : Reachable bus S)
    (hj : S.jobs[i]? = some j) (hstep : JobStep bus j o r j') (hexec : World.Exec o S.world r w)
    (hnone : Registry.changesFor n (o.changes r) = []) :
    w.state.registry.get n = S.world.state.registry.get n ∨ announced n S.world.log = [] := by
  unfold Registry.get
  rw [hexec.1.connections]
  cases o with
  | addConnection c =>
    by_cases hc : n = c.uniqueName
    · obtain ⟨hentry, hreg⟩ := hstep.addConnection (hreach.sessions.settled hj)
      exact .inr (hc ▸ h.unregistered hj hentry hreg)
    · exact .inl (AList.lookup_insert_ne hc)
  | removeConnection u =>
    refine .inl (AList.lookup_erase_ne ?_)
    rintro rfl
    have hself := hexec.1.mem_changesFor_removeConnection
    rw [show Registry.changesFor n r = [] from hnone] at hself
    cases hself
  | _ => exact .inl rfl

/-- What a step announces about a unique name. -/
theorem Truthful.announce_unique (h : S.Truthful) (hreach : Reachable bus S)
    (hj : S.jobs[i]? = some j) (hstep : JobStep bus j o r j') (hexec : World.Exec o S.world r w)
    (hn : startsWithColon n = true) :
    Linked (announced n w.log) ∧ ∀ e ∈ (announced n w.log).getLast?,
      e.newOwner = (w.state.registry.getNameOwner n).getD "" := by
  have hsettled := hreach.sessions.settled hj
  have howner : ∀ s : BusState, s.registry.getNameOwner n = (s.registry.get n).map fun _ => n :=
    fun s => if_pos hn
  rcases hreach.changesFor_unique hj hstep hexec hn with
    hnone | ⟨c, rfl, hreg, rfl, hchange⟩ | ⟨rfl, hchange⟩
  · rw [announced_of_nil hexec hnone]
    refine ⟨h.linked n, ?_⟩
    rcases h.owner_of_nil hreach hj hstep hexec hnone with hget | hnil
    · rw [howner, hget, ← howner]
      exact h.owner n
    · rw [hnil]
      exact nofun
  · obtain ⟨hentry, hget⟩ := hstep.swapRegistered hsettled
    refine h.concat hexec hchange (fun last hlast => ?_) ?_
    · rw [h.unregistered hj hentry hreg] at hlast
      cases hlast
    · have hget' : w.state.registry.get c.uniqueName = some c := by
        rw [hexec.1.2]
        exact hget
      rw [howner, hget']
      rfl
  · obtain ⟨c, hentry, rfl, hget, -⟩ := hstep.removeConnection hsettled
    refine h.concat hexec hchange (fun last hlast => ?_) ?_
    · rw [h.owner _ last hlast, howner, hget]
      rfl
    · have hget' : w.state.registry.get c.uniqueName = none := by
        unfold Registry.get
        rw [hexec.1.connections]
        exact AList.lookup_erase c.uniqueName S.world.state.registry.connections
      rw [howner, hget']
      rfl

/-- **A step announces what it changes**: the chain about a name goes on, and its
end names the owner. -/
theorem Truthful.announce (h : S.Truthful) (hreach : Reachable bus S) (hj : S.jobs[i]? = some j)
    (hstep : JobStep bus j o r j') (hexec : World.Exec o S.world r w) (n : String) :
    Linked (announced n w.log) ∧ ∀ e ∈ (announced n w.log).getLast?,
      e.newOwner = (w.state.registry.getNameOwner n).getD "" := by
  cases hn : startsWithColon n with
  | false => exact h.announce_wellKnown hreach hj hstep hexec hn
  | true => exact h.announce_unique hreach hj hstep hexec hn

/-- **A step makes one change about a name at most.** -/
theorem changesFor_step (hreach : Reachable bus S) (hj : S.jobs[i]? = some j)
    (hstep : JobStep bus j o r j') (hexec : World.Exec o S.world r w) (n : String) :
    Registry.changesFor n (o.changes r) = [] ∨
      ∃ change, Registry.changesFor n (o.changes r) = [change] := by
  cases hn : startsWithColon n with
  | false =>
    rw [hreach.changesFor_wellKnown hj hstep hexec hn]
    unfold changesOf
    split
    · exact .inl rfl
    · exact .inr ⟨_, rfl⟩
  | true =>
    rcases hreach.changesFor_unique hj hstep hexec hn with
      hnone | ⟨c, -, -, -, hchange⟩ | ⟨-, hchange⟩
    · exact .inl hnone
    · exact .inr ⟨_, hchange⟩
    · exact .inr ⟨_, hchange⟩

/-- Only the job of a connection announces anything about its unique name. -/
theorem changesFor_of_foreign {c : ConnectionEntry} (hreach : Reachable bus S)
    (hj : S.jobs[i]? = some j) (hstep : JobStep bus j o r j') (hexec : World.Exec o S.world r w)
    (ho : o.Foreign c) : Registry.changesFor c.uniqueName (o.changes r) = [] := by
  have hn : startsWithColon c.uniqueName = true := startsWithColon_uniqueName c.id
  rcases hreach.changesFor_unique hj hstep hexec hn with
    hnone | ⟨c', rfl, -, hname, -⟩ | ⟨rfl, -⟩
  · exact hnone
  · exact absurd (uniqueName_injective hname) ho
  · exact absurd rfl ho

/-- Of the connection of a job nothing has been announced after a step that leaves
it unregistered. -/
theorem Truthful.unregistered_step {c : ConnectionEntry} (h : S.Truthful)
    (hreach : Reachable bus S) (hj : S.jobs[i]? = some j) (hstep : JobStep bus j o r j')
    (hexec : World.Exec o S.world r w) (hc : j'.entry = some c)
    (hafter : w.state.isRegistered c = false) (hbefore : S.world.state.isRegistered c = false) :
    announced c.uniqueName w.log = [] := by
  have hsettled := hreach.sessions.settled hj
  rcases hstep.entry with heq | heq | ⟨id, peer, label, -, rfl, rfl, hr⟩
  · have hn : startsWithColon c.uniqueName = true := startsWithColon_uniqueName c.id
    have hnil := h.unregistered hj (heq ▸ hc) hbefore
    rcases hreach.changesFor_unique hj hstep hexec hn with
      hnone | ⟨c', rfl, -, hname, -⟩ | ⟨rfl, -⟩
    · exact (announced_of_nil hexec hnone).trans hnil
    · have hid : c.id = c'.id := (uniqueName_injective hname).symm
      have hset : w.state.isRegistered c = true := by
        unfold BusState.isRegistered
        rw [hexec.1.cells]
        exact congrArg Cells.isRegistered (if_pos (congrArg some hid.symm))
      rw [hset] at hafter
      cases hafter
    · obtain ⟨c', -, -, -, hgone⟩ := hstep.removeConnection hsettled
      rw [hgone] at hc
      cases hc
  · rw [heq] at hc
    cases hc
  · obtain rfl := eq_of_heq hr
    cases hc
    have hid : r = S.world.state.registry.nextId := hexec.1.1
    refine (announced_of_nil hexec rfl).trans (h.fresh r ?_)
    exact hid.ge

/-- **In every run, the announcements are true.** -/
theorem Reachable.truthful (h : Reachable bus S) : S.Truthful := by
  induction h with
  | refl => exact ⟨fun _ => List.isChain_nil, nofun, fun _ _ => rfl, nofun⟩
  | @tail S _ hreach hs ih =>
    cases hs with
    | accept peer =>
      refine ⟨ih.linked, ih.owner, ih.fresh, fun hj hc hreg => ?_⟩
      rcases getElem?_accept hj with hj | rfl
      · exact ih.unregistered hj hc hreg
      · cases hc
    | @job i j j' o r w hj hstep hexec =>
      have hreach : Reachable bus S := hreach
      have hsessions := hreach.sessions
      have hannounce := ih.announce hreach hj hstep hexec
      have hsame : ∀ c : ConnectionEntry, o.Foreign c →
          announced c.uniqueName w.log = announced c.uniqueName S.world.log := fun c ho =>
        announced_of_nil hexec (changesFor_of_foreign hreach hj hstep hexec ho)
      have hfresh : ∀ id, w.state.registry.nextId ≤ id →
          announced (uniqueName id) w.log = [] := by
        intro id hid
        have hle := hexec.1.nextId_le.trans hid
        refine (hsame ⟨id, ⟨0, 0, 0⟩, none⟩ (hstep.foreign (hsessions.settled hj) ?_)).trans
          (ih.fresh id hle)
        exact fun c hc => (Nat.lt_of_lt_of_le (hsessions.fresh hj hc) hle).ne
      refine ⟨fun n => (hannounce n).1, fun n => (hannounce n).2, hfresh, ?_⟩
      intro k j₁ c hk hc hreg
      have hreg' : S.world.state.isRegistered c = false := by
        rw [Bool.eq_false_iff]
        intro hbefore
        rw [hexec.1.isRegistered hbefore] at hreg
        cases hreg
      rcases getElem?_next hk with ⟨-, rfl⟩ | ⟨hki, hk⟩ | hk
      · exact ih.unregistered_step hreach hj hstep hexec hc hreg hreg'
      · exact (hsame c (hsessions.foreign hj hstep hk hki c hc)).trans (ih.unregistered hk hc hreg')
      · obtain ⟨c', msg, rfl⟩ := BusOp.entry_of_mem_spawned hk
        cases hc

end Daemon

end Oxibus
