import Oxibus.Daemon.Delivery
import Oxibus.Daemon.Ownership
import Oxibus.Daemon.Replay
import Oxibus.Daemon.Sessions

/-!
# Who is in a queue is on the bus

The registry keeps connections in one table and the queues for names in
another, and a unique name in a queue is only a text. Nothing in the registry
itself ties the two together: it would queue a name it has never seen.

What ties them is who calls it. A name is requested by the job that serves
the connection, between the moment it has put the connection into the table
and the moment it takes it out; and taking it out takes it out of every
queue. Since its number is never given out again, it does not come back.
-/

namespace Oxibus

open BusProg Daemon Registry

variable {bus : Bus} {S S' : Daemon} {j j' : Job} {o : BusOp} {r : o.Res}
variable {s s' : BusState} {w : World} {u x name : String}

/-! ## The queues after an operation -/

/-- Who is in a queue after a step was there before, or has made the step. -/
theorem QueueStep.mem_owners {q q' : List QueueEntry} (h : QueueStep u q q')
    (hx : x ∈ owners q') : x ∈ owners q ∨ x = u := by
  have hleft : ∀ {q : List QueueEntry}, x ∈ owners (leaveQueue u q) → x ∈ owners q := by
    intro q hx
    rw [owners_leaveQueue] at hx
    exact (List.mem_filter.mp hx).1
  cases h with
  | first he =>
    rw [owners, List.map_cons, List.map_nil, List.mem_singleton, he] at hx
    exact .inr hx
  | keep => exact .inl hx
  | @replace e primary rest back he hne hback =>
    rcases List.mem_cons.mp hx with hx | hx
    · exact .inr (hx.trans he)
    rw [← owners, owners, List.map_append] at hx
    rcases List.mem_append.mp hx with hx | hx
    · exact .inl (List.mem_cons_of_mem _ (hleft hx))
    · rcases hback with rfl | rfl
      · exact absurd hx List.not_mem_nil
      · exact .inl (List.mem_singleton.mp hx ▸ List.mem_cons_self)
  | wait he hnew =>
    rw [owners, List.map_append] at hx
    rcases List.mem_append.mp hx with hx | hx
    · exact .inl hx
    · rw [List.map_cons, List.map_nil, List.mem_singleton, he] at hx
      exact .inr hx
  | leave => exact .inl (hleft hx)

/-- Nobody comes into a queue by a release. -/
theorem Registry.mem_owners_releaseName {reg : Registry} {n : String}
    (hx : x ∈ owners ((reg.releaseName u n).2.queueOf name)) :
    x ∈ owners (reg.queueOf name) := by
  unfold releaseName at hx
  split at hx
  · exact hx
  · split at hx
    · by_cases hn : name = n
      · rw [hn] at hx ⊢
        have hleft : x ∈ owners (leaveQueue u (reg.queueOf n)) :=
          queueOf_releaseNameInternal reg u n ▸ hx
        rw [owners_leaveQueue] at hleft
        exact (List.mem_filter.mp hleft).1
      · have hsame : (reg.releaseNameInternal u n).2.queueOf name = reg.queueOf name :=
          congrArg (Option.getD · []) ((steps_releaseNameInternal reg u n).others name hn)
        exact hsame ▸ hx
    · exact hx

/-- **Who is in a queue after an operation** was in it before and has not been
removed, or has asked for the name. -/
theorem BusOp.Exec.mem_owners (h : o.Exec s r s') (hx : x ∈ owners (s'.registry.queueOf name)) :
    (x ∈ owners (s.registry.queueOf name) ∧ o ≠ .removeConnection x) ∨
      ∃ flags, o = .requestName x name flags := by
  cases o with
  | requestName u n flags =>
    rw [h.2] at hx
    have hstep := steps_requestName s.registry u n flags
    by_cases hn : name = n
    · rw [hn] at hx ⊢
      rcases hstep.queue.mem_owners hx with hx | rfl
      · exact .inl ⟨hx, nofun⟩
      · exact .inr ⟨flags, rfl⟩
    · have hsame : (s.registry.requestName u n flags).2.queueOf name = s.registry.queueOf name :=
        congrArg (Option.getD · []) (hstep.others name hn)
      exact .inl ⟨hsame ▸ hx, nofun⟩
  | releaseName u n =>
    rw [h.2] at hx
    exact .inl ⟨mem_owners_releaseName hx, nofun⟩
  | removeConnection u =>
    obtain ⟨order, horder, -, hs⟩ := h
    have hqueue : s'.registry.queueOf name = leaveQueue u (s.registry.queueOf name) := by
      rw [hs]
      exact (removeConnection_spec horder u name).1
    rw [hqueue, owners_leaveQueue] at hx
    obtain ⟨hx, hne⟩ := List.mem_filter.mp hx
    refine .inl ⟨hx, fun heq => ?_⟩
    cases heq
    simp at hne
  | tryBeginIncomplete max =>
    have hqueue : s'.registry.queueOf name = s.registry.queueOf name := by
      rw [h.2]
      show (s.registry.tryBeginIncomplete max).2.queueOf name = _
      unfold Registry.tryBeginIncomplete
      split <;> rfl
    exact .inl ⟨hqueue ▸ hx, nofun⟩
  | _ =>
    refine .inl ⟨?_, nofun⟩
    first
    | (rw [h.eq_of_not_isUpdate rfl] at hx; exact hx)
    | (rw [h] at hx; exact hx)
    | (rw [h.2] at hx; exact hx)

/-- **Who asks for a name is in the table.** -/
theorem JobStep.requester {n : String} {flags : UInt32} {r : UInt32 × List NameOwnerChange}
    (hstep : JobStep bus j (.requestName u n flags) r j') (hsettled : j.Settled s) :
    ∃ c, s.registry.get u = some c := by
  cases hstep with
  | @dispatch c o k r => exact ⟨c, (hsettled.2.1.1 : u = c.uniqueName) ▸ hsettled.1⟩
  | @announce o k r =>
    -- nobody is served: the request would be for two connections at once
    have hone : u = uniqueName 1 := (hsettled ⟨1, ⟨0, 0, 0⟩, none⟩).1.1
    have htwo : u = uniqueName 2 := (hsettled ⟨2, ⟨0, 0, 0⟩, none⟩).1.1
    exact absurd (uniqueName_injective (hone.symm.trans htwo)) (by decide)

/-! ## The invariant -/

/-- **A connection that is gone**: its number has been given out, no job speaks
for it, and the table does not have it. -/
structure Daemon.Gone (S : Daemon) (id : ℕ) : Prop where
  given : id < S.world.state.registry.nextId
  absent : S.world.state.registry.get (uniqueName id) = none
  silent : ∀ j ∈ S.jobs, ∀ c, j.entry = some c → c.id ≠ id

/-- **The two tables fit together**: who is in a queue is in the table of
connections, and who has been removed is gone. -/
structure Daemon.Present (S : Daemon) : Prop where
  queued : ∀ name, ∀ u ∈ S.world.state.registry.listQueuedOwners name,
    ∃ c, S.world.state.registry.get u = some c
  removed : ∀ s u r, (⟨s, .removeConnection u, r⟩ : BusEvent) ∈ S.world.log →
    ∃ id, u = uniqueName id ∧ S.Gone id

namespace Daemon

/-- Who is in a queue stays in the table, or leaves the queue. -/
theorem Present.queued_job {i : ℕ} (h : S.Present) (hsessions : S.Sessions)
    (hj : S.jobs[i]? = some j) (hstep : JobStep bus j o r j')
    (hexec : World.Exec o S.world r w) (hu : u ∈ w.state.registry.listQueuedOwners name) :
    ∃ c, w.state.registry.get u = some c := by
  have hkept : o ≠ .removeConnection u → (∃ c, S.world.state.registry.get u = some c) →
      ∃ c, w.state.registry.get u = some c := by
    rintro hne ⟨c, hc⟩
    unfold Registry.get at hc ⊢
    rw [hexec.1.connections]
    cases o with
    | addConnection c' =>
      by_cases hname : u = c'.uniqueName
      · exact ⟨c', hname ▸ AList.lookup_insert _⟩
      · exact ⟨c, (AList.lookup_insert_ne hname).trans hc⟩
    | removeConnection v =>
      exact ⟨c, (AList.lookup_erase_ne fun heq : u = v => hne (by rw [heq])).trans hc⟩
    | _ => exact ⟨c, hc⟩
  rcases hexec.1.mem_owners hu with ⟨hu, hne⟩ | ⟨flags, rfl⟩
  · exact hkept hne (h.queued name u hu)
  · exact hkept nofun (hstep.requester (hsessions.settled hj))

/-- Who is gone stays gone. -/
theorem Gone.job {i id : ℕ} (h : S.Gone id) (hsessions : S.Sessions) (hj : S.jobs[i]? = some j)
    (hstep : JobStep bus j o r j') (hexec : World.Exec o S.world r w) :
    Gone ⟨w, S.jobs.set i j' ++ o.spawned⟩ id := by
  have hsilent := h.silent j (List.mem_of_getElem? hj)
  have hforeign : o.Foreign ⟨id, ⟨0, 0, 0⟩, none⟩ :=
    hstep.foreign (hsessions.settled hj) fun c hc => hsilent c hc
  refine ⟨h.given.trans_le hexec.1.nextId_le, (hforeign.get hexec.1).trans h.absent, ?_⟩
  intro j₁ hj₁ c hc
  rcases List.mem_append.mp hj₁ with hj₁ | hj₁
  · rcases List.mem_or_eq_of_mem_set hj₁ with hj₁ | rfl
    · exact h.silent j₁ hj₁ c hc
    · rcases hstep.entry_or_next hexec.1 hc with hc | ⟨hid, -⟩
      · exact hsilent c hc
      · exact hid ▸ h.given.ne'
  · obtain ⟨c', msg, rfl⟩ := BusOp.entry_of_mem_spawned hj₁
    cases hc

/-- **Who is removed is gone.** -/
theorem Sessions.gone {i : ℕ} {c : ConnectionEntry} {events : List NameOwnerChange}
    (h : S.Sessions) (hj : S.jobs[i]? = some (.disconnecting c))
    (hexec : World.Exec (.removeConnection c.uniqueName) S.world events w) {p : BusProg Unit} :
    Gone ⟨w, S.jobs.set i (.announcing p) ++ []⟩ c.id := by
  refine ⟨(h.fresh hj rfl).trans_le hexec.1.nextId_le, ?_, ?_⟩
  · show w.state.registry.connections.lookup (uniqueName c.id) = none
    rw [hexec.1.connections]
    exact AList.lookup_erase _ _
  · intro j hj' c' hc' hid
    rw [List.append_nil] at hj'
    obtain ⟨k, hk⟩ := List.mem_iff_getElem?.mp hj'
    by_cases hki : k = i
    · rw [hki, List.getElem?_set_self (List.getElem?_eq_some_iff.mp hj).1] at hk
      rw [← Option.some.inj hk] at hc'
      cases hc'
    · rw [List.getElem?_set_ne (Ne.symm hki)] at hk
      exact hki (h.distinct hk hj hc' rfl hid)

/-- **In every run the two tables fit together.** -/
theorem Reachable.present (h : Reachable bus S) : S.Present := by
  induction h with
  | refl =>
    refine ⟨fun name u hu => ?_, nofun⟩
    have hnone : Registry.new.listQueuedOwners name = [] := by
      unfold Registry.listQueuedOwners
      rw [queue_new]
      rfl
    have hmem : u ∈ Registry.new.listQueuedOwners name := hu
    rw [hnone] at hmem
    exact absurd hmem List.not_mem_nil
  | tail hrun hs ih =>
    have hsessions := Reachable.sessions hrun
    cases hs with
    | accept peer =>
      refine ⟨ih.queued, fun s u r hmem => ?_⟩
      obtain ⟨id, hu, hgone⟩ := ih.removed s u r hmem
      refine ⟨id, hu, hgone.given, hgone.absent, fun j hj c hc => ?_⟩
      rcases List.mem_append.mp hj with hj | hj
      · exact hgone.silent j hj c hc
      · rw [List.mem_singleton.mp hj] at hc
        cases hc
    | @job i j j' o r w hj hstep hexec =>
      refine ⟨fun name u hu => ih.queued_job hsessions hj hstep hexec hu, fun s u r₁ hmem => ?_⟩
      rw [show w.log = _ from hexec.2] at hmem
      rcases List.mem_cons.mp hmem with heq | hmem
      · cases heq
        cases hstep with
        | dispatch => exact absurd (hsessions.settled hj).2.1 id
        | announce => exact absurd ((hsessions.settled hj) ⟨0, ⟨0, 0, 0⟩, none⟩).1 id
        | @remove c => exact ⟨c.id, rfl, hsessions.gone hj hexec⟩
      · obtain ⟨id, hu, hgone⟩ := ih.removed s u r₁ hmem
        exact ⟨id, hu, hgone.job hsessions hj hstep hexec⟩

/-- **No owner dangles**: every unique name in the queue for a name belongs to a
connection in the table, and one that has been removed is in no queue. -/
structure OwnersPresent (S : Daemon) : Prop where
  connected : ∀ name, ∀ u ∈ S.world.state.registry.listQueuedOwners name,
    ∃ c, S.world.state.registry.get u = some c ∧ c.uniqueName = u
  departed : ∀ s u r, (⟨s, .removeConnection u, r⟩ : BusEvent) ∈ S.world.log →
    ∀ name, u ∉ S.world.state.registry.listQueuedOwners name

/-- **No name has a dangling owner**, in any state a run leads to, however the
jobs take turns. -/
theorem no_dangling_owners (bus : Bus) (S : Daemon) (h : Reachable bus S) : S.OwnersPresent where
  connected name u hu := by
    obtain ⟨c, hc⟩ := h.present.queued name u hu
    exact ⟨c, hc, h.executed.1 u c hc⟩
  departed s u r hmem name hu := by
    obtain ⟨id, rfl, hgone⟩ := h.present.removed s u r hmem
    obtain ⟨c, hc⟩ := h.present.queued name _ hu
    rw [hgone.absent] at hc
    cases hc

/-! ## A client that owns a name and leaves -/

/-- A client connects, says Hello, and asks for a name. -/
def ownerScript : List Instruction :=
  [.accept ⟨1000, 1000, 4711⟩, .run 0 8, .receive 0 (frameOf (driverCall "Hello" [] 1)),
    .run 0 50, .receive 0 (frameOf (driverCall "RequestName" [.string "a.b", .uint32 0] 2)),
    .run 0 50]

example : (Daemon.new.replay plainBus ownerScript).world.state.registry.listQueuedOwners "a.b" =
    [":1.1"] := by decide +kernel

/-- It leaves, and is removed. -/
def ownerGone : Daemon := ((Daemon.new.replay plainBus ownerScript).hangUp 0).advance plainBus 0

theorem no_dangling_owners_departed : ownerGone.OwnersPresent :=
  no_dangling_owners plainBus ownerGone (((reachable_replay reachable_new ownerScript).trans
    (steps_hangUp _ 0)).trans (steps_advance _ 0))

end Daemon

end Oxibus
