import Oxibus.Daemon.Delivery

/-!
# Sessions

A connection has a number that no other connection has, and at most one job
that speaks for it: the one that has named it, serves it, and removes it. So
while that job runs, nobody else touches the connection's flags, its match
rules or its place in the registry – the operations of all other jobs are
*foreign* to it.

`Reachable.secure` is the rule this gives: a property of a job need only be
kept by the job's own steps and by foreign ones. Inside a dispatch, the same
is the relation `World.Beside`.
-/

namespace Oxibus

open BusProg

/-- The connection a job speaks for. -/
def Job.entry : Job → Option ConnectionEntry
  | named c => some c
  | serving c _ => some c
  | disconnecting c => some c
  | _ => none

/-- **An operation that is none of a connection's own.** -/
def BusOp.Foreign (c : ConnectionEntry) : BusOp → Prop
  | addConnection c' => c'.id ≠ c.id
  | removeConnection u => u ≠ c.uniqueName
  | requestName u _ _ => u ≠ c.uniqueName
  | releaseName u _ => u ≠ c.uniqueName
  | storeMonitor c' => c'.id ≠ c.id
  | swapRegistered c' => c'.id ≠ c.id
  | setMatchRules c' _ => c'.id ≠ c.id
  | pushMatchRule c' _ => c'.id ≠ c.id
  | removeMatchRules c' _ => c'.id ≠ c.id
  | readMessage c' => c'.id ≠ c.id
  | _ => True

/-- The operations of a dispatch on behalf of a connection, whatever it
writes. -/
abbrev Busy (c : ConnectionEntry) : BusOp → Prop :=
  Errand c (fun _ _ => True) (fun _ _ => True) fun _ _ => True

variable {bus : Bus} {S : Daemon} {c c' : ConnectionEntry} {o : BusOp} {r : o.Res}
variable {s s' : BusState} {w w' w'' : World} {j j' : Job}

/-! ## What foreign operations leave alone -/

theorem ConnectionEntry.uniqueName_ne (h : c.id ≠ c'.id) : c.uniqueName ≠ c'.uniqueName :=
  fun heq => h (uniqueName_injective heq)

/-- **What is done on behalf of one connection is foreign to the others.** -/
theorem Errand.foreign {N : String → UInt32 → Prop} {Q C : ConnectionEntry → Message → Prop}
    (ho : Errand c' N Q C o) (hne : c'.id ≠ c.id) : o.Foreign c := by
  cases o with
  | requestName u name flags =>
    rw [show u = c'.uniqueName from ho.1]
    exact ConnectionEntry.uniqueName_ne hne
  | releaseName u name =>
    rw [show u = c'.uniqueName from ho]
    exact ConnectionEntry.uniqueName_ne hne
  | storeMonitor c₁ => rwa [show c₁ = c' from ho]
  | swapRegistered c₁ => rwa [show c₁ = c' from ho]
  | setMatchRules c₁ rules => rwa [show c₁ = c' from ho]
  | pushMatchRule c₁ rule => rwa [show c₁ = c' from ho]
  | removeMatchRules c₁ raw => rwa [show c₁ = c' from ho]
  | addConnection => exact ho.elim
  | removeConnection => exact ho.elim
  | readMessage => exact ho.elim
  | _ => trivial

namespace BusOp.Foreign

/-- The flags and rules of the connection stay as they are. -/
theorem cells (ho : o.Foreign c) (h : o.Exec s r s') : s'.cells c.id = s.cells c.id := by
  rw [h.cells]
  refine if_neg fun howner => ?_
  obtain ⟨c', hc', hid⟩ := Option.map_eq_some_iff.mp howner
  cases o with
  | storeMonitor c₁ =>
    cases hc'
    exact ho hid
  | swapRegistered c₁ =>
    cases hc'
    exact ho hid
  | setMatchRules c₁ rules =>
    cases hc'
    exact ho hid
  | pushMatchRule c₁ rule =>
    cases hc'
    exact ho hid
  | removeMatchRules c₁ raw =>
    cases hc'
    exact ho hid
  | _ => cases hc'

/-- The entry of the connection stays as it is. -/
theorem get (ho : o.Foreign c) (h : o.Exec s r s') :
    s'.registry.get c.uniqueName = s.registry.get c.uniqueName := by
  unfold Registry.get
  rw [h.connections]
  cases o with
  | addConnection c' =>
    exact AList.lookup_insert_ne (ConnectionEntry.uniqueName_ne fun hid => ho hid.symm)
  | removeConnection u => exact AList.lookup_erase_ne (Ne.symm ho)
  | _ => rfl

end BusOp.Foreign

/-- A dispatch leaves the table of connections alone. -/
theorem Errand.connections {N : String → UInt32 → Prop} {Q C : ConnectionEntry → Message → Prop}
    (ho : Errand c N Q C o) (h : o.Exec s r s') :
    s'.registry.connections = s.registry.connections := by
  rw [h.connections]
  cases o with
  | addConnection => exact ho.elim
  | removeConnection => exact ho.elim
  | _ => rfl

/-! ## The invariant -/

/-- What a job can count on: the connection it names is new, the connection it
serves is in the registry, and a program it runs keeps to the connection it
serves. -/
def Job.Settled (s : BusState) : Job → Prop
  | named c => s.cells c.id = Cells.new ∧ s.registry.get c.uniqueName = none
  | serving c p => s.registry.get c.uniqueName = some c ∧ p.Only (Busy c)
  | disconnecting c => s.registry.get c.uniqueName = some c
  | announcing p => ∀ c, p.Only (Busy c)
  | _ => True

/-- **The jobs speak for different connections**, with numbers that have been
given out, and what has not been given out is untouched. -/
structure Daemon.Sessions (S : Daemon) : Prop where
  distinct : ∀ {i k : ℕ} {j j' : Job} {c c' : ConnectionEntry}, S.jobs[i]? = some j →
    S.jobs[k]? = some j' → j.entry = some c → j'.entry = some c' → c.id = c'.id → i = k
  fresh : ∀ {i : ℕ} {j : Job} {c : ConnectionEntry}, S.jobs[i]? = some j → j.entry = some c →
    c.id < S.world.state.registry.nextId
  untouched : ∀ id, S.world.state.registry.nextId ≤ id →
    S.world.state.cells id = Cells.new ∧ S.world.state.registry.get (uniqueName id) = none
  settled : ∀ {i : ℕ} {j : Job}, S.jobs[i]? = some j → j.Settled S.world.state

/-- **What a job does is foreign to the connections it does not speak for.** -/
theorem JobStep.foreign (hstep : JobStep bus j o r j') (hsettled : j.Settled s)
    (hne : ∀ c', j.entry = some c' → c'.id ≠ c.id) : o.Foreign c := by
  cases hstep with
  | add => exact hne _ rfl
  | read => exact hne _ rfl
  | readFailed => exact hne _ rfl
  | dispatch => exact hsettled.2.1.foreign (hne _ rfl)
  | remove => exact ConnectionEntry.uniqueName_ne (hne _ rfl)
  | announce =>
    exact (hsettled ⟨c.id + 1, c.credentials, none⟩).1.foreign (Nat.succ_ne_self c.id)
  | _ => trivial

/-- A job that waits for foreign operations can count on what it could count on
before. -/
theorem Job.Settled.stable (h : j.Settled s) (ho : ∀ c, j.entry = some c → o.Foreign c)
    (hexec : o.Exec s r s') : j.Settled s' := by
  cases j with
  | named c =>
    refine ⟨?_, ?_⟩
    · rw [(ho c rfl).cells hexec]
      exact h.1
    · rw [(ho c rfl).get hexec]
      exact h.2
  | serving c p =>
    refine ⟨?_, h.2⟩
    rw [(ho c rfl).get hexec]
    exact h.1
  | disconnecting c =>
    show s'.registry.get c.uniqueName = some c
    rw [(ho c rfl).get hexec]
    exact h
  | announcing p => exact h
  | _ => trivial

/-- The connection of a job after a step: the same, none, or a new one. -/
theorem JobStep.entry (hstep : JobStep bus j o r j') : j'.entry = j.entry ∨ j'.entry = none ∨
    ∃ (n : ℕ) (peer : PeerCredentials) (label : Option String), j.entry = none ∧
      j' = .named ⟨n, peer, label⟩ ∧ o = .allocateUniqueName ∧ HEq r n := by
  cases hstep with
  | @allocate peer label id => exact .inr (.inr ⟨id, peer, label, rfl, rfl, rfl, HEq.rfl⟩)
  | remove => exact .inr (.inl rfl)
  | _ => exact .inl rfl

/-- The connection a job speaks for after a step is its old one, or has the next
number. -/
theorem JobStep.entry_or_next (hstep : JobStep bus j o r j') (hexec : o.Exec s r s')
    (hc : j'.entry = some c) : j.entry = some c ∨
      (c.id = s.registry.nextId ∧ s'.registry.nextId = s.registry.nextId + 1) := by
  rcases hstep.entry with heq | heq | ⟨n, peer, label, -, rfl, ho, hr⟩
  · exact .inl (heq ▸ hc)
  · rw [heq] at hc
    cases hc
  · subst ho
    obtain rfl := eq_of_heq hr
    cases hc
    exact .inr ⟨hexec.1, hexec.nextId⟩

/-- The job that makes a step can count on what comes next. -/
theorem JobStep.settled (hstep : JobStep bus j o r j') (hexec : o.Exec s r s')
    (hsettled : j.Settled s) (hnew : ∀ id, s.registry.nextId ≤ id →
      s.cells id = Cells.new ∧ s.registry.get (uniqueName id) = none) : j'.Settled s' := by
  cases hstep with
  | @allocate peer label id =>
    obtain ⟨hid, hs⟩ : id = s.registry.nextId ∧ s' = _ := hexec
    rw [hs]
    exact hnew id hid.ge
  | @add c =>
    refine ⟨?_, trivial⟩
    unfold Registry.get
    rw [hexec.connections]
    exact AList.lookup_insert _
  | @read c msg =>
    refine ⟨?_, Dispatch.only_dispatchIncoming (fun _ _ _ => trivial) (fun _ _ _ => trivial)
      (fun _ => trivial) fun _ => trivial⟩
    rw [hexec.2]
    exact hsettled.1
  | readFailed =>
    rw [hexec.2]
    exact hsettled.1
  | @dispatch c o k r =>
    refine ⟨?_, hsettled.2.2 r⟩
    unfold Registry.get
    rw [hsettled.2.1.connections hexec]
    exact hsettled.1
  | remove =>
    exact fun c => (Dispatch.telling_broadcastNameOwnerChanges (fun _ _ _ _ => trivial) _).mono
      fun _ => Dispatch.Telling.errand
  | announce => exact fun c => (hsettled c).2 _
  | _ => trivial

/-! ## Whole runs -/

theorem BusOp.entry_of_mem_spawned (h : j ∈ o.spawned) : ∃ c msg, j = .copying c msg := by
  cases o with
  | spawnWrite c msg => exact ⟨c, msg, List.mem_singleton.mp h⟩
  | _ => exact absurd h List.not_mem_nil

/-- What holds of every job that copies holds of the jobs an operation starts. -/
theorem BusOp.forall_mem_spawned {P : Job → Prop} (hcopying : ∀ c msg, P (.copying c msg)) :
    ∀ j ∈ o.spawned, P j := by
  intro j hj
  obtain ⟨c, msg, rfl⟩ := entry_of_mem_spawned hj
  exact hcopying c msg

/-- A job after a step of one job, with its place: that one, another one, or a new
one. -/
theorem getElem?_next_place {jobs : List Job} {i k : ℕ} {j₁ : Job}
    (h : (jobs.set i j' ++ o.spawned)[k]? = some j₁) :
    (k = i ∧ j₁ = j') ∨ (k ≠ i ∧ jobs[k]? = some j₁) ∨ (jobs.length ≤ k ∧ j₁ ∈ o.spawned) := by
  rcases lt_or_ge k jobs.length with hk | hk
  · rw [List.getElem?_append_left (by rwa [List.length_set])] at h
    rcases Slots.getElem?_set_eq_some.mp h with ⟨rfl, -, rfl⟩ | ⟨hne, h⟩
    · exact .inl ⟨rfl, rfl⟩
    · exact .inr (.inl ⟨Ne.symm hne, h⟩)
  · rw [List.getElem?_append_right (by rwa [List.length_set])] at h
    exact .inr (.inr ⟨hk, List.mem_of_getElem? h⟩)

theorem getElem?_next {jobs : List Job} {i k : ℕ} {j₁ : Job}
    (h : (jobs.set i j' ++ o.spawned)[k]? = some j₁) :
    (k = i ∧ j₁ = j') ∨ (k ≠ i ∧ jobs[k]? = some j₁) ∨ j₁ ∈ o.spawned := by
  rcases getElem?_next_place h with h | h | h
  · exact .inl h
  · exact .inr (.inl h)
  · exact .inr (.inr h.2)

/-- The numbers that have not been given out are untouched after a step. -/
theorem JobStep.untouched (hstep : JobStep bus j o r j') (hexec : o.Exec s r s')
    (hsettled : j.Settled s) (hfresh : ∀ c, j.entry = some c → c.id < s.registry.nextId)
    (hnew : ∀ id, s.registry.nextId ≤ id →
      s.cells id = Cells.new ∧ s.registry.get (uniqueName id) = none) {id : ℕ}
    (hid : s.registry.nextId ≤ id) :
    s'.cells id = Cells.new ∧ s'.registry.get (uniqueName id) = none := by
  have hforeign : o.Foreign ⟨id, ⟨0, 0, 0⟩, none⟩ := hstep.foreign hsettled fun c hc =>
    (Nat.lt_of_lt_of_le (hfresh c hc) hid).ne
  obtain ⟨hcells, hget⟩ := hnew id hid
  exact ⟨(hforeign.cells hexec).trans hcells, (hforeign.get hexec).trans hget⟩

theorem BusOp.Exec.nextId_le (h : o.Exec s r s') : s.registry.nextId ≤ s'.registry.nextId := by
  rw [h.nextId]
  cases o with
  | allocateUniqueName => exact Nat.le_succ _
  | _ => exact le_rfl

namespace Daemon

/-- The step of one job is foreign to the connections of the others. -/
theorem Sessions.foreign (h : S.Sessions) {i k : ℕ} {j₁ : Job} (hj : S.jobs[i]? = some j)
    (hstep : JobStep bus j o r j') (hk : S.jobs[k]? = some j₁) (hki : k ≠ i) :
    ∀ c, j₁.entry = some c → o.Foreign c := fun _ hc =>
  hstep.foreign (h.settled hj) fun _ hc' hid => hki (h.distinct hk hj hc hc' hid.symm)

/-- One job makes a step. -/
theorem Sessions.job {i : ℕ} (h : S.Sessions) (hj : S.jobs[i]? = some j)
    (hstep : JobStep bus j o r j') (hexec : World.Exec o S.world r w) :
    Sessions ⟨w, S.jobs.set i j' ++ o.spawned⟩ := by
  have hnone : ∀ {j c}, j ∈ o.spawned → j.entry ≠ some c := by
    intro j c hj hc
    obtain ⟨c', msg, rfl⟩ := BusOp.entry_of_mem_spawned hj
    cases hc
  have hnextId := hexec.1.nextId_le
  -- the connection of the job that made the step is its old one or a new one
  have hentry := fun c (hc : j'.entry = some c) => hstep.entry_or_next hexec.1 hc
  have hfresh : ∀ c, j'.entry = some c → c.id < w.state.registry.nextId := by
    intro c hc
    rcases hentry c hc with hc | ⟨hid, hnext⟩
    · exact Nat.lt_of_lt_of_le (h.fresh hj hc) hnextId
    · rw [hid, hnext]
      exact Nat.lt_succ_self _
  -- another job does not speak for that connection
  have hother : ∀ {k j₁ c c'}, k ≠ i → S.jobs[k]? = some j₁ → j₁.entry = some c →
      j'.entry = some c' → c.id ≠ c'.id := by
    intro k j₁ c c' hki hk hc hc' hid
    rcases hentry c' hc' with hc' | ⟨hnew, -⟩
    · exact hki (h.distinct hk hj hc hc' hid)
    · have := h.fresh hk hc
      omega
  refine ⟨?_, ?_, ?_, ?_⟩
  · intro k l j₁ j₂ c c' hk hl hc hc' hid
    rcases getElem?_next hk with ⟨hki, rfl⟩ | ⟨hki, hk₁⟩ | hk₁
    · rcases getElem?_next hl with ⟨hli, rfl⟩ | ⟨hli, hl₂⟩ | hl₂
      · exact hki.trans hli.symm
      · exact absurd hid.symm (hother hli hl₂ hc' hc)
      · exact absurd hc' (hnone hl₂)
    · rcases getElem?_next hl with ⟨hli, rfl⟩ | ⟨hli, hl₂⟩ | hl₂
      · exact absurd hid (hother hki hk₁ hc hc')
      · exact h.distinct hk₁ hl₂ hc hc' hid
      · exact absurd hc' (hnone hl₂)
    · exact absurd hc (hnone hk₁)
  · intro k j₁ c hk hc
    rcases getElem?_next hk with ⟨-, rfl⟩ | ⟨-, hk⟩ | hk
    · exact hfresh c hc
    · exact Nat.lt_of_lt_of_le (h.fresh hk hc) hnextId
    · exact absurd hc (hnone hk)
  · intro id hid
    exact hstep.untouched hexec.1 (h.settled hj) (fun c hc => h.fresh hj hc) h.untouched
      (hnextId.trans hid)
  · intro k j₁ hk
    rcases getElem?_next hk with ⟨-, rfl⟩ | ⟨hki, hk⟩ | hk
    · exact hstep.settled hexec.1 (h.settled hj) h.untouched
    · exact (h.settled hk).stable (h.foreign hj hstep hk hki) hexec.1
    · obtain ⟨c, msg, rfl⟩ := BusOp.entry_of_mem_spawned hk
      trivial

/-- A job after a connection was accepted. -/
theorem getElem?_accept {jobs : List Job} {k : ℕ} {peer : PeerCredentials}
    (h : (jobs ++ [.accepted peer])[k]? = some j) : jobs[k]? = some j ∨ j = .accepted peer := by
  rcases lt_or_ge k jobs.length with hk | hk
  · exact .inl (List.getElem?_append_left hk ▸ h)
  · rw [List.getElem?_append_right hk] at h
    exact .inr (List.mem_singleton.mp (List.mem_of_getElem? h))

/-- **In every run, the jobs speak for different connections.** -/
theorem Reachable.sessions (h : Reachable bus S) : S.Sessions := by
  induction h with
  | refl =>
    refine ⟨nofun, nofun, fun id _ => ⟨rfl, ?_⟩, nofun⟩
    exact AList.lookup_empty _
  | tail _ hs ih =>
    cases hs with
    | accept peer =>
      refine ⟨?_, ?_, ih.untouched, ?_⟩
      · intro i k j j' c c' hj hk hc hc' hid
        rcases getElem?_accept hj with hj | rfl
        · rcases getElem?_accept hk with hk | rfl
          · exact ih.distinct hj hk hc hc' hid
          · cases hc'
        · cases hc
      · intro i j c hj hc
        rcases getElem?_accept hj with hj | rfl
        · exact ih.fresh hj hc
        · cases hc
      · intro i j hj
        rcases getElem?_accept hj with hj | rfl
        · exact ih.settled hj
        · trivial
    | job hj hstep hexec => exact ih.job hj hstep hexec

/-- **What every job guarantees while foreign operations run, every run
satisfies.** -/
theorem Reachable.secure {J : Job → World → Prop} {P : List BusEvent → BusEvent → Prop}
    (haccept : ∀ peer w, J (.accepted peer) w)
    (hstep : ∀ {j j' : Job} {o : BusOp} {r : o.Res} {w w' : World}, J j w →
      j.Settled w.state → JobStep bus j o r j' → World.Exec o w r w' →
      P w.log ⟨w.state, o, r⟩ ∧ J j' w' ∧ ∀ j ∈ o.spawned, J j w')
    (hstable : ∀ {j : Job} {o : BusOp} {r : o.Res} {w w' : World}, J j w →
      (∀ c, j.entry = some c → o.Foreign c) → World.Exec o w r w' → J j w')
    (h : Reachable bus S) :
    Logged P S.world.log ∧ ∀ (k : ℕ) (j : Job), S.jobs[k]? = some j → J j S.world := by
  induction h with
  | refl => exact ⟨trivial, nofun⟩
  | tail hrun hs ih =>
    obtain ⟨hlog, hjobs⟩ := ih
    have hsessions := Reachable.sessions hrun
    cases hs with
    | accept peer =>
      refine ⟨hlog, fun k j hk => ?_⟩
      rcases getElem?_accept hk with hk | rfl
      · exact hjobs k j hk
      · exact haccept peer _
    | @job i j j' o r w hj hjob hexec =>
      obtain ⟨hP, hnext, hspawned⟩ := hstep (hjobs i j hj) (hsessions.settled hj) hjob hexec
      refine ⟨?_, fun k j₁ hk => ?_⟩
      · show Logged P w.log
        rw [hexec.2]
        exact ⟨hP, hlog⟩
      · rcases getElem?_next hk with ⟨-, rfl⟩ | ⟨hki, hk⟩ | hk
        · exact hnext
        · exact hstable (hjobs k j₁ hk) (hsessions.foreign hj hjob hk hki) hexec
        · exact hspawned j₁ hk

end Daemon

/-! ## Beside a dispatch -/

/-- **A later world, as a connection sees it** while its job waits: nobody has
touched its flags, its rules or its entry. -/
structure World.Beside (c : ConnectionEntry) (w w' : World) : Prop extends w.Le w' where
  cells : w'.state.cells c.id = w.state.cells c.id
  entry : w'.state.registry.get c.uniqueName = w.state.registry.get c.uniqueName

namespace World

theorem Beside.refl (c : ConnectionEntry) (w : World) : w.Beside c w := ⟨.refl w, rfl, rfl⟩

theorem Beside.trans (h : w.Beside c w') (h' : w'.Beside c w'') : w.Beside c w'' :=
  ⟨h.toLe.trans h'.toLe, h'.cells.trans h.cells, h'.entry.trans h.entry⟩

/-- A foreign operation happens. -/
theorem Exec.beside (h : World.Exec o w r w') (ho : o.Foreign c) : w.Beside c w' :=
  ⟨h.le, ho.cells h.1, ho.get h.1⟩

end World

/-- **A program of foreign operations is as if nothing happened** to the
connection that is served. -/
theorem Prog.Only.beside {P : BusOp → Prop} {α : Type} {p : BusProg α} (h : p.Only P)
    {guar : Prog.Semantics BusOp BusOp.Res World} (hforeign : ∀ o, P o → o.Foreign c)
    (hguar : ∀ o w r w', P o → guar o w r w') :
    p.Ensures World.Exec (World.Beside c) guar (fun _ w' => w.Beside c w') w := by
  refine h.ensures (fun _ _ => World.Beside.trans) (fun o w₁ r w₁' ho hw hexec => ⟨?_, ?_⟩)
    (.refl c w)
  · exact hguar o w₁ r w₁' ho
  · exact hw.trans (hexec.beside (hforeign o ho))

namespace Dispatch

theorem Copying.foreign (ho : Copying o) : o.Foreign c := by
  cases o with
  | allConnections => trivial
  | isMonitor => trivial
  | spawnWrite => trivial
  | _ => exact ho.elim

theorem Telling.foreign {Q : ConnectionEntry → Message → Prop} (ho : Telling Q o) :
    o.Foreign c := by
  have herrand : Errand ⟨c.id + 1, c.credentials, none⟩ (fun _ _ => True) Q (fun _ _ => True) o :=
    ho.errand
  exact herrand.foreign (Nat.succ_ne_self c.id)

end Dispatch

end Oxibus
