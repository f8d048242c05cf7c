import Oxibus.Daemon.Queues

/-!
# Who owns a name

The registry starts empty and is changed by calls. `Registry.Run` are the
registries such calls lead to, with the events they have returned on the
way. In all of them the queues are in order, what the registry says of a
name's owner is the same whichever way it is asked, and the events are the
changes of ownership: whoever replays them knows every owner.
-/

namespace Oxibus

/-- **A call that concerns connections and names.** Connections are given by
their numbers. -/
inductive RegistryCall where
  | request (id : ℕ) (name : String) (flags : UInt32)
  | release (id : ℕ) (name : String)
  | remove (id : ℕ)
  | connect (c : ConnectionEntry)

namespace Registry

/-- **What a call does**: the events it returns and the registry it leaves. A
removal goes through the table in any order. -/
inductive Called : Registry → RegistryCall → List NameOwnerChange → Registry → Prop where
  | request (reg : Registry) (id : ℕ) (name : String) (flags : UInt32) :
    Called reg (.request id name flags) (reg.requestName (uniqueName id) name flags).1.2
      (reg.requestName (uniqueName id) name flags).2
  | release (reg : Registry) (id : ℕ) (name : String) :
    Called reg (.release id name) (reg.releaseName (uniqueName id) name).1.2
      (reg.releaseName (uniqueName id) name).2
  | remove {reg : Registry} {order : List String} (id : ℕ) (horder : order.Perm reg.names.keys) :
    Called reg (.remove id) (reg.removeConnection (uniqueName id) order).1
      (reg.removeConnection (uniqueName id) order).2
  | connect (reg : Registry) (c : ConnectionEntry) :
    Called reg (.connect c) [] (reg.addConnection c)

/-- **The registries calls lead to**, with the events returned so far. -/
inductive Run : Registry → List NameOwnerChange → Prop where
  | new : Run Registry.new []
  | call {reg reg' : Registry} {events changes : List NameOwnerChange} {call : RegistryCall}
    (h : Run reg events) (hcall : Called reg call changes reg') : Run reg' (events ++ changes)

variable {reg reg' : Registry} {events changes : List NameOwnerChange} {call : RegistryCall}
variable {name : String}

/-! ## The queues -/

/-- Every call takes a step in every queue. -/
theorem Called.queueStep (h : Called reg call changes reg') :
    ∃ u, ∀ n, QueueStep u (reg.queueOf n) (reg'.queueOf n) := by
  have hsteps : ∀ {u name : String}, reg.Steps u name changes reg' →
      ∀ n, QueueStep u (reg.queueOf n) (reg'.queueOf n) := by
    intro u name hstep n
    by_cases hn : n = name
    · rw [hn]
      exact hstep.queue
    · have hsame : reg'.queueOf n = reg.queueOf n := congrArg (Option.getD · []) (hstep.others n hn)
      rw [hsame]
      exact .keep _
  cases h with
  | request id name flags => exact ⟨uniqueName id, hsteps (steps_requestName _ _ _ _)⟩
  | release id name => exact ⟨uniqueName id, hsteps (steps_releaseName _ _ _)⟩
  | remove id horder =>
    refine ⟨uniqueName id, fun n => ?_⟩
    rw [(removeConnection_spec horder (uniqueName id) n).1]
    exact .leave _
  | connect c => exact ⟨c.uniqueName, fun n => .keep _⟩

/-- No call leaves an empty queue in the table. -/
theorem Called.filled (h : Called reg call changes reg') (hreg : reg.Filled) : reg'.Filled := by
  cases h with
  | request id name flags => exact (steps_requestName _ _ _ _).filled hreg
  | release id name => exact (steps_releaseName _ _ _).filled hreg
  | remove id horder => exact (removeConnection_spec horder (uniqueName id) "").2.2 hreg
  | connect c => exact hreg

theorem queue_new (n : String) : Registry.new.queue n = none := AList.lookup_empty n

/-- **The queues of a run are in order**: none is empty, and nobody is in one
twice. -/
theorem Run.queues (h : Run reg events) :
    reg.Filled ∧ ∀ n, (owners (reg.queueOf n)).Nodup := by
  induction h with
  | new =>
    refine ⟨fun n q hq => ?_, fun n => ?_⟩
    · rw [queue_new] at hq
      cases hq
    · rw [queueOf_eq_nil (queue_new n)]
      exact List.nodup_nil
  | call _ hcall ih =>
    obtain ⟨u, hstep⟩ := hcall.queueStep
    exact ⟨hcall.filled ih.1, fun n => (hstep n).nodup (ih.2 n)⟩

/-! ## The owner, asked in different ways -/

/-- The owner of a well-known name is the first in its queue. -/
theorem getNameOwner_eq (hname : startsWithColon name = false) :
    reg.getNameOwner name = primaryOwner (reg.queueOf name) := by
  rw [getNameOwner, if_neg (by rw [hname]; exact Bool.false_ne_true), queueOf, primaryOwner]
  cases reg.queue name <;> rfl

theorem head?_listQueuedOwners :
    (reg.listQueuedOwners name).head? = primaryOwner (reg.queueOf name) :=
  List.head?_map

/-- The connections of a run are kept under unique names. -/
theorem Run.startsWithColon (h : Run reg events) :
    ∀ n ∈ reg.connections.keys, startsWithColon n = true := by
  induction h with
  | new => exact fun n hn => absurd hn List.not_mem_nil
  | call _ hcall ih =>
    cases hcall with
    | request id name flags =>
      rw [(namesOnly_requestName _ _ _ _).connections]
      exact ih
    | release id name =>
      rw [(namesOnly_releaseName _ _ _).connections]
      exact ih
    | remove id horder =>
      intro n hn
      rw [connections_removeConnection] at hn
      exact ih n (AList.mem_keys.mp (AList.mem_erase.mp (AList.mem_keys.mpr hn)).2)
    | connect c =>
      intro n hn
      rcases (AList.mem_insert _).mp (AList.mem_keys.mpr hn) with rfl | hn
      · exact startsWithColon_uniqueName c.id
      · exact ih n (AList.mem_keys.mp hn)

/-- **A well-known name is listed if and only if it has an owner.** -/
theorem Run.mem_listNames (h : Run reg events) (hname : Oxibus.startsWithColon name = false) :
    name ∈ reg.listNames ↔ (reg.getNameOwner name).isSome = true := by
  have hunique : name ∉ reg.connections.keys := fun hmem => by
    rw [h.startsWithColon name hmem] at hname
    cases hname
  have hentry : name ∈ (reg.names.entries.filter fun e => !e.2.isEmpty).map Sigma.fst ↔
      ∃ q, reg.queue name = some q ∧ q ≠ [] := by
    rw [List.mem_map]
    constructor
    · rintro ⟨⟨n, q⟩, hmem, rfl⟩
      obtain ⟨hmem, hq⟩ := List.mem_filter.mp hmem
      exact ⟨q, AList.mem_lookup_iff.mpr hmem, by simpa using hq⟩
    · rintro ⟨q, hq, hne⟩
      exact ⟨⟨name, q⟩, List.mem_filter.mpr ⟨AList.mem_lookup_iff.mp hq, by simpa using hne⟩, rfl⟩
  rw [listNames, List.mem_append, or_iff_right hunique, hentry, getNameOwner_eq hname, queueOf]
  cases hq : reg.queue name with
  | none => simp [primaryOwner]
  | some q => cases q <;> simp [primaryOwner]

/-! ## Events -/

/-- **The events of a call are the changes it makes.** -/
theorem Called.changesFor (h : Called reg call changes reg')
    (hname : Oxibus.startsWithColon name = false) :
    changesFor name changes = changesOf name (reg.getNameOwner name) (reg'.getNameOwner name) := by
  rw [getNameOwner_eq hname, getNameOwner_eq hname]
  cases h with
  | request id n flags => exact (steps_requestName _ _ _ _).changesFor name
  | release id n => exact (steps_releaseName _ _ _).changesFor name
  | remove id horder =>
    obtain ⟨hqueue, hchanges, -⟩ := removeConnection_spec horder (uniqueName id) name
    rw [hqueue]
    refine hchanges ?_
    rintro rfl
    rw [startsWithColon_uniqueName] at hname
    cases hname
  | connect c => exact (changesOf_self _ _).symm

/-- **What the events say**: who owns a name, to somebody who has heard them
all. -/
def replayOwners (owner : String → Option String) (events : List NameOwnerChange) :
    String → Option String :=
  events.foldl (fun owner e => Function.update owner e.name e.newOwner) owner

/-- Only the events about a name matter for it. -/
theorem replayOwners_apply (owner : String → Option String) (events : List NameOwnerChange) :
    replayOwners owner events name
      = (Registry.changesFor name events).foldl (fun _ e => e.newOwner) (owner name) := by
  induction events generalizing owner with
  | nil => rfl
  | cons e events ih =>
    show replayOwners (Function.update owner e.name e.newOwner) events name = _
    rw [ih]
    by_cases hn : e.name = name
    · have hkept : Registry.changesFor name (e :: events) = e :: Registry.changesFor name events :=
        List.filter_cons_of_pos (beq_iff_eq.mpr hn)
      rw [hkept, ← hn, Function.update_self]
      rfl
    · have hskipped : Registry.changesFor name (e :: events) = Registry.changesFor name events :=
        List.filter_cons_of_neg fun h => hn (beq_iff_eq.mp h)
      rw [hskipped, Function.update_of_ne (Ne.symm hn)]

theorem Run.replayOwners (h : Run reg events) (hname : Oxibus.startsWithColon name = false) :
    replayOwners (fun _ => none) events name = reg.getNameOwner name := by
  induction h with
  | new =>
    rw [getNameOwner_eq hname, queueOf_eq_nil (queue_new name)]
    rfl
  | call _ hcall ih =>
    have hchanges := hcall.changesFor hname
    rw [Registry.replayOwners, List.foldl_append]
    show Registry.replayOwners (Registry.replayOwners _ _) _ name = _
    rw [replayOwners_apply, hchanges, ih, changesOf]
    split
    · next heq => exact heq
    · rfl

/-! ## The two results -/

/-- What a call leaves alone: a request and a release the queues for other
names, a removal everybody else in every queue. -/
def RegistryCall.Frame (reg reg' : Registry) : RegistryCall → Prop
  | .request _ name _ => ∀ n, n ≠ name → reg'.queue n = reg.queue n
  | .release _ name => ∀ n, n ≠ name → reg'.queue n = reg.queue n
  | .remove id => ∀ n, reg'.queueOf n = leaveQueue (uniqueName id) (reg.queueOf n)
  | .connect _ => ∀ n, reg'.queue n = reg.queue n

theorem Called.frame (h : Called reg call changes reg') : RegistryCall.Frame reg reg' call := by
  cases h with
  | request id name flags => exact (steps_requestName _ _ _ _).others
  | release id name => exact (steps_releaseName _ _ _).others
  | remove id horder => exact fun n => (removeConnection_spec horder _ n).1
  | connect c => exact fun n => rfl

/-- **The queues are kept.** After any calls, no queue is empty and nobody is
in one twice, and the views of a well-known name agree on its owner; and with
every further call, those who wait keep their order and the queues it is not
about stay as they are. -/
theorem queues_kept :
    (∀ reg events, Run reg events →
      (∀ name q, reg.queue name = some q → q ≠ [] ∧ (owners q).Nodup) ∧
      ∀ name, Oxibus.startsWithColon name = false →
        reg.nameHasOwner name = (reg.getNameOwner name).isSome ∧
        (name ∈ reg.listNames ↔ (reg.getNameOwner name).isSome = true) ∧
        (reg.listQueuedOwners name).head? = reg.getNameOwner name) ∧
    ∀ reg events call changes reg', Run reg events → Called reg call changes reg' →
      (∀ name x y, x ∈ waiting (reg'.queueOf name) → y ∈ waiting (reg'.queueOf name) →
        List.Sublist [x, y] (waiting (reg.queueOf name)) →
        List.Sublist [x, y] (waiting (reg'.queueOf name))) ∧
      RegistryCall.Frame reg reg' call := by
  constructor
  · intro reg events hrun
    obtain ⟨hfilled, hnodup⟩ := hrun.queues
    refine ⟨fun name q hq => ⟨hfilled name q hq, ?_⟩, fun name hname => ⟨rfl, ?_, ?_⟩⟩
    · have hqueue := hnodup name
      rwa [queueOf, hq] at hqueue
    · exact hrun.mem_listNames hname
    · rw [head?_listQueuedOwners, getNameOwner_eq hname]
  · intro reg events call changes reg' hrun hcall
    obtain ⟨u, hstep⟩ := hcall.queueStep
    refine ⟨fun name x y hx hy hxy => ?_, hcall.frame⟩
    exact (hstep name).order (hrun.queues.2 name) hx hy hxy

/-- **The events are the changes of ownership.** A call after any calls returns
one event for each well-known name whose owner it changes, from the old owner
to the new one, and none for the others; and who replays the events of all
calls so far knows the owner of every well-known name. -/
theorem changes_exact :
    (∀ reg events call changes reg', Run reg events → Called reg call changes reg' →
      ∀ name, Oxibus.startsWithColon name = false → (changes.filter fun e => e.name == name)
        = if reg.getNameOwner name = reg'.getNameOwner name then []
          else [⟨name, reg.getNameOwner name, reg'.getNameOwner name⟩]) ∧
    ∀ reg events, Run reg events → ∀ name, Oxibus.startsWithColon name = false →
      Registry.replayOwners (fun _ => none) events name = reg.getNameOwner name :=
  ⟨fun _ _ _ _ _ _ hcall _ hname => hcall.changesFor hname,
    fun _ _ hrun _ hname => hrun.replayOwners hname⟩

end Registry

end Oxibus
