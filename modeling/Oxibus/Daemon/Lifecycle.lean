import Oxibus.Daemon.Conduct

/-!
# The count of incomplete connections

The guard that counts a connection as incomplete is taken before the
handshake and dropped when `handle_connection` returns. That is right after
the handshake for the connections that fail it, and at the very end for the
others: the count includes every connection that is being served.

The invariant is that the counter is the number of guards. It is the number
of handshakes exactly when nobody who is past one holds a guard.
-/

namespace Oxibus

namespace Job

/-- The connection is admitted and has not finished a handshake: it is still
to come, going on, or will not take place. -/
def isIncomplete : Job → Bool
  | begun _ => true
  | wrapped _ => true
  | handshaking _ => true
  | rejected => true
  | _ => false

/-- The handshake is over, with or without success, and `handle_connection`
has not returned. -/
def isPastHandshake : Job → Bool
  | failed => true
  | authenticated _ => true
  | labelled _ _ => true
  | named _ => true
  | serving _ _ => true
  | disconnecting _ => true
  | announcing _ => true
  | _ => false

/-- The guard is held. -/
def holdsGuard (j : Job) : Bool := j.isIncomplete || j.isPastHandshake

theorem holdsGuard_eq (j : Job) :
    (if j.holdsGuard then 1 else 0) = (if j.isIncomplete then 1 else 0)
      + if j.isPastHandshake then 1 else 0 := by
  cases j <;> rfl

end Job

namespace Daemon

/-- The connections whose handshake has not finished. -/
def handshakes (S : Daemon) : ℕ := S.jobs.countP Job.isIncomplete

/-- The connections that are past their handshake and still held. -/
def pastHandshake (S : Daemon) : ℕ := S.jobs.countP Job.isPastHandshake

/-- The counter of the registry. -/
def incomplete (S : Daemon) : ℕ := S.world.state.registry.incomplete

end Daemon

/-! ## Who touches the counter -/

/-- **The guard is taken** while there is room, and not otherwise. -/
theorem exec_tryBeginIncomplete {max : ℕ} {s s' : BusState} {r : Bool}
    (h : BusOp.Exec (.tryBeginIncomplete max) s r s') :
    (r = false ∧ max ≤ s.registry.incomplete ∧
      s'.registry.incomplete = s.registry.incomplete) ∨
    (r = true ∧ s.registry.incomplete < max ∧
      s'.registry.incomplete = s.registry.incomplete + 1) := by
  obtain ⟨hr, hs⟩ := h
  rw [hs, hr]
  show ((s.registry.tryBeginIncomplete max).1 = false ∧ _ ∧
    (s.registry.tryBeginIncomplete max).2.incomplete = _) ∨
      ((s.registry.tryBeginIncomplete max).1 = true ∧ _ ∧
        (s.registry.tryBeginIncomplete max).2.incomplete = _)
  unfold Registry.tryBeginIncomplete
  by_cases hmax : max ≤ s.registry.incomplete
  · rw [if_pos hmax]
    exact Or.inl ⟨rfl, hmax, rfl⟩
  · rw [if_neg hmax]
    exact Or.inr ⟨rfl, not_le.mp hmax, rfl⟩

/-- Every operation but the two of the guard leaves the counter alone. -/
theorem BusOp.Exec.incomplete {o : BusOp} {s s' : BusState} {r : o.Res} (h : o.Exec s r s')
    (hbegin : ∀ max, o ≠ .tryBeginIncomplete max) (hend : o ≠ .endIncomplete) :
    s'.registry.incomplete = s.registry.incomplete := by
  cases o with
  | tryBeginIncomplete max => exact absurd rfl (hbegin max)
  | endIncomplete => exact absurd rfl hend
  | requestName uniqueName name flags =>
    rw [h.2]
    exact (Registry.namesOnly_requestName _ _ _ _).incomplete
  | releaseName uniqueName name =>
    rw [h.2]
    exact (Registry.namesOnly_releaseName _ _ _).incomplete
  | removeConnection name =>
    obtain ⟨order, -, -, hs⟩ := h
    rw [hs]
    exact (Registry.namesOnly_releaseNames _ _ _).incomplete
  | allocateUniqueName =>
    rw [h.2]
    rfl
  | swapRegistered =>
    rw [h.2]
    rfl
  | removeMatchRules =>
    rw [h.2]
    rfl
  | driverSerial => rw [h.2]
  | addConnection =>
    rw [h]
    rfl
  | storeMonitor =>
    rw [h]
    rfl
  | setMatchRules =>
    rw [h]
    rfl
  | pushMatchRule =>
    rw [h]
    rfl
  | record => rw [h]
  | extendEnvironment => rw [h]
  | _ => rw [h.eq_of_not_isUpdate rfl]

/-! ## The invariant -/

/-- A step of a dispatch keeps the counter. -/
theorem incomplete_of_routine {Q C : ConnectionEntry → Message → Prop} {o : BusOp} {r : o.Res}
    {w w' : World} (ho : Routine Q C o) (h : World.Exec o w r w') :
    w'.state.registry.incomplete = w.state.registry.incomplete := by
  refine h.1.incomplete ?_ ?_
  · rintro max rfl
    exact ho
  · rintro rfl
    exact ho

/-- **What a step of a job does to the counter**, it does to the guards. -/
theorem JobStep.incomplete {bus : Bus} {j j' : Job} {o : BusOp} {r : o.Res} {w w' : World}
    (hstep : JobStep bus j o r j') (hjob : j.Conducts w) (h : World.Exec o w r w')
    (hguard : (if j.holdsGuard then 1 else 0) ≤ w.state.registry.incomplete) :
    w'.state.registry.incomplete + (if j.holdsGuard then 1 else 0)
      = w.state.registry.incomplete + if j'.holdsGuard then 1 else 0 := by
  have hsame : (∀ max, o ≠ .tryBeginIncomplete max) → o ≠ .endIncomplete →
      w'.state.registry.incomplete = w.state.registry.incomplete := h.1.incomplete
  have hend : o = .endIncomplete → w'.state.registry.incomplete
      = w.state.registry.incomplete - 1 := by
    rintro rfl
    rw [show w'.state = _ from h.1]
    rfl
  cases hstep with
  | refused =>
    rcases exec_tryBeginIncomplete h.1 with ⟨-, -, hinc⟩ | ⟨hr, -⟩
    · rw [hinc]
      rfl
    · cases hr
  | began =>
    rcases exec_tryBeginIncomplete h.1 with ⟨hr, -⟩ | ⟨-, -, hinc⟩
    · cases hr
    · rw [hinc]
      rfl
  | drop =>
    rw [hend rfl]
    exact Nat.sub_add_cancel hguard
  | dropRejected =>
    rw [hend rfl]
    exact Nat.sub_add_cancel hguard
  | dropFailed =>
    rw [hend rfl]
    exact Nat.sub_add_cancel hguard
  | dispatch =>
    rw [incomplete_of_routine hjob.1 h]
    rfl
  | announce =>
    rw [incomplete_of_routine hjob.1 h]
    rfl
  | _ =>
    rw [hsame nofun nofun]
    rfl

theorem holdsGuard_spawned {o : BusOp} {j : Job} (h : j ∈ o.spawned) : j.holdsGuard = false := by
  cases o with
  | spawnWrite c msg =>
    rw [List.mem_singleton.mp h]
    rfl
  | _ => exact absurd h List.not_mem_nil

namespace Daemon

variable {bus : Bus} {S : Daemon}

/-- **The counter counts the guards.** -/
theorem Reachable.incomplete_eq_guards (h : Reachable bus S) :
    S.incomplete = S.jobs.countP Job.holdsGuard := by
  induction h with
  | refl => rfl
  | @tail S S' hreach hs ih =>
    cases hs with
    | accept peer =>
      rw [List.countP_append]
      exact ih
    | @job i j j' o r w hj hjob hexec =>
      have hcond := (Reachable.conducts hreach).2 j (List.mem_of_getElem? hj)
      have hguard : (if j.holdsGuard then 1 else 0) ≤ S.world.state.registry.incomplete := by
        rw [show S.world.state.registry.incomplete = _ from ih]
        split
        · next hg => exact List.countP_pos_iff.mpr ⟨j, List.mem_of_getElem? hj, hg⟩
        · exact Nat.zero_le _
      have hcount := Slots.countP_set (p := Job.holdsGuard) (b := j') hj
      have hspawned : o.spawned.countP Job.holdsGuard = 0 :=
        List.countP_eq_zero.mpr fun j hj => by simp [holdsGuard_spawned hj]
      have hstep := hjob.incomplete hcond hexec hguard
      rw [List.countP_append, hspawned]
      show w.state.registry.incomplete = _
      have hih : S.world.state.registry.incomplete = S.jobs.countP Job.holdsGuard := ih
      omega

/-- **The counter counts the handshakes and the connections past theirs.** -/
theorem Reachable.incomplete_eq (h : Reachable bus S) :
    S.incomplete = S.handshakes + S.pastHandshake := by
  rw [h.incomplete_eq_guards, handshakes, pastHandshake]
  induction S.jobs with
  | nil => rfl
  | cons j js ih =>
    rw [List.countP_cons, List.countP_cons, List.countP_cons, ih, j.holdsGuard_eq]
    omega

/-- **The counter is exact exactly while nobody is past a handshake.** It is
so for every reachable state of the daemon, and for every run: the states of
a run have an exact counter if and only if in none of them a connection that
is past its handshake is still held. And as long as that is so, a connection is turned down
only when as many handshakes as there may be are in progress. -/
theorem incomplete_eq_handshakes_iff (bus : Bus) :
    (∀ S, Reachable bus S → (S.incomplete = S.handshakes ↔ S.pastHandshake = 0)) ∧
    (∀ run : List Daemon, List.IsChain (Step bus) (new :: run) →
      ((∀ S ∈ run, S.incomplete = S.handshakes) ↔ ∀ S ∈ run, S.pastHandshake = 0)) ∧
    ∀ (S : Daemon) (w : World), Reachable bus S → S.pastHandshake = 0 →
      World.Exec (.tryBeginIncomplete bus.limits.maxIncompleteConnections) S.world false w →
      bus.limits.maxIncompleteConnections ≤ S.handshakes := by
  have hpoint : ∀ S, Reachable bus S → (S.incomplete = S.handshakes ↔ S.pastHandshake = 0) := by
    intro S hS
    rw [hS.incomplete_eq]
    omega
  refine ⟨hpoint, ?_, ?_⟩
  · intro run hrun
    have hreach := reachable_of_isChain reachable_new hrun
    constructor
    · exact fun h S hS => (hpoint S (hreach S hS)).mp (h S hS)
    · exact fun h S hS => (hpoint S (hreach S hS)).mpr (h S hS)
  · intro S w hS hnone hexec
    rcases exec_tryBeginIncomplete hexec.1 with ⟨-, hmax, -⟩ | ⟨hr, -⟩
    · rw [← (hpoint S hS).mpr hnone]
      exact hmax
    · cases hr

/-! ## A served connection stands in the way of others -/

/-- A session bus that admits one incomplete connection at a time. -/
def oneAtATime : Bus where
  kind := .session
  limits := ⟨1, 256, 512, 512⟩
  policy := ⟨[]⟩
  activatable := []
  guid := ""
  resolve uid := ⟨uid, none, []⟩
  apparmor := ⟨false, fun _ _ => none⟩

/-- A peer of user 1000. -/
def somePeer : PeerCredentials := ⟨1000, 1000, 4711⟩

/-- The state in which one connection holds its guard. -/
def oneGuarded : BusState := { BusState.new with registry := ⟨∅, ∅, 1, 1⟩ }

/-- **One connection that is past its handshake**: no handshake is in
progress, the counter is one, and the next connection is turned down. -/
theorem counts_pastHandshake : ∃ S w, Reachable oneAtATime S ∧ S.handshakes = 0 ∧
    S.incomplete = 1 ∧
    World.Exec (.tryBeginIncomplete oneAtATime.limits.maxIncompleteConnections) S.world false
      w := by
  have haccept := (@reachable_new oneAtATime).accept somePeer
  have hbegan := haccept.job (i := 0) (s := oneGuarded) rfl .began ⟨rfl, rfl⟩
  have hwrapped := hbegan.job (i := 0) rfl .wrapDone rfl
  have hcounted := hwrapped.job (i := 0) rfl (.counted (n := 0) (by decide)) ⟨rfl, rfl⟩
  have hdone := hcounted.job (i := 0) rfl .handshakeDone rfl
  exact ⟨_, ⟨oneGuarded, _⟩, hdone, rfl, rfl, ⟨rfl, rfl⟩, rfl⟩

end Daemon

end Oxibus
