import Oxibus.Daemon.Presence

/-!
# The states a run has been in

The log of a run keeps the state in which each operation was performed. Every
such state is one that the daemon was in, on the way to where it is now; so
what holds in every reachable state held then.

A connection that was in the table at one of these moments is in the table
later on, or is gone for good. So whoever is found under a unique name, at
whatever moment, is the same connection with the same credentials.
-/

namespace Oxibus

open BusProg Daemon Relation

variable {bus : Bus} {S S₁ S₂ : Daemon} {post pre : List BusEvent} {e e₁ e₂ : BusEvent}
variable {c c₁ c₂ : ConnectionEntry} {u name : String}

namespace Registry

/-- **Who has a name.** -/
def holder (reg : Registry) (name : String) : Option ConnectionEntry :=
  (reg.getNameOwner name).bind reg.get

theorem holder_of_owner {reg : Registry} (h : reg.getNameOwner name = some u) :
    reg.holder name = reg.get u := by
  unfold holder
  rw [h]
  rfl

theorem holder_of_none {reg : Registry} (h : reg.getNameOwner name = none) :
    reg.holder name = none := by
  unfold holder
  rw [h]
  rfl

end Registry

namespace Daemon

/-- The daemon goes on. -/
theorem Reachable.steps (h : Reachable bus S₁) (hsteps : ReflTransGen (Step bus) S₁ S₂) :
    Reachable bus S₂ := h.trans hsteps

/-- **The moment of an event**: the daemon in the state that the event found, with the
log of what was before it. -/
theorem Reachable.exists_moment (h : Reachable bus S) (hlog : S.world.log = post ++ e :: pre) :
    ∃ S₁, Reachable bus S₁ ∧ ReflTransGen (Step bus) S₁ S ∧ S₁.world = ⟨e.before, pre⟩ := by
  induction h generalizing post with
  | refl =>
    exact absurd hlog.symm (List.append_ne_nil_of_right_ne_nil post (List.cons_ne_nil e pre))
  | @tail S₂ _ hrun hs ih =>
    cases hs with
    | accept peer =>
      obtain ⟨S₁, hreach, hsteps, hworld⟩ := ih hlog
      exact ⟨S₁, hreach, hsteps.tail (.accept _ peer), hworld⟩
    | @job i j j' o r w hj hstep hexec =>
      replace hlog : w.log = post ++ e :: pre := hlog
      rw [hexec.2] at hlog
      cases post with
      | nil =>
        obtain ⟨rfl, hpre⟩ := List.cons.inj hlog
        refine ⟨S₂, hrun, .single (.job hj hstep hexec), ?_⟩
        rw [← hpre]
      | cons e' post =>
        obtain ⟨S₁, hreach, hsteps, hworld⟩ := ih (List.cons.inj hlog).2
        exact ⟨S₁, hreach, hsteps.tail (.job hj hstep hexec), hworld⟩

/-- Of two events of a log, the earlier one has its moment before the later one. -/
theorem Reachable.exists_moments (h : Reachable bus S) (hlog : [e₂, e₁].Sublist S.world.log) :
    ∃ S₁ S₂, Reachable bus S₁ ∧ ReflTransGen (Step bus) S₁ S₂ ∧
      S₁.world.state = e₁.before ∧ S₂.world.state = e₂.before := by
  obtain ⟨later, log, heq, hmem₂, hmem₁⟩ := List.cons_sublist_iff.mp hlog
  obtain ⟨post, pre, rfl⟩ := List.append_of_mem hmem₂
  rw [List.append_assoc, List.cons_append] at heq
  obtain ⟨S₂, hreach₂, -, hworld₂⟩ := h.exists_moment heq
  have hmem : e₁ ∈ S₂.world.log := by
    rw [hworld₂]
    exact List.mem_append_right _ (List.singleton_sublist.mp hmem₁)
  obtain ⟨post₁, pre₁, heq₁⟩ := List.append_of_mem hmem
  obtain ⟨S₁, hreach₁, hsteps, hworld₁⟩ := hreach₂.exists_moment heq₁
  exact ⟨S₁, S₂, hreach₁, hsteps, congrArg World.state hworld₁, congrArg World.state hworld₂⟩

/-- **Who is in the table stays there, or is gone for good**: one step. -/
theorem Reachable.keeps_get (h : Reachable bus S) (hstep : Step bus S S₂)
    (hget : S.world.state.registry.get c.uniqueName = some c) :
    S₂.world.state.registry.get c.uniqueName = some c ∨ S₂.Gone c.id := by
  cases hstep with
  | accept peer => exact .inl hget
  | @job i j j' o r w hj hstep hexec =>
    have hsessions := h.sessions
    show w.state.registry.get c.uniqueName = some c ∨ _
    cases o with
    | addConnection c' =>
      rw [Registry.get, hexec.1.connections]
      by_cases hname : c.uniqueName = c'.uniqueName
      · -- a connection that comes into the table was not there before
        cases hstep with
        | add =>
          have hnew : S.world.state.registry.get c'.uniqueName = none := (hsessions.settled hj).2
          rw [← hname, hget] at hnew
          cases hnew
        | dispatch => exact absurd (hsessions.settled hj).2.1 id
        | announce => exact absurd ((hsessions.settled hj) ⟨0, ⟨0, 0, 0⟩, none⟩).1 id
      · exact .inl ((AList.lookup_insert_ne hname).trans hget)
    | removeConnection v =>
      by_cases hname : c.uniqueName = v
      · cases hstep with
        | @remove c' events =>
          rw [uniqueName_injective hname]
          exact .inr (hsessions.gone hj hexec)
        | dispatch => exact absurd (hsessions.settled hj).2.1 id
        | announce => exact absurd ((hsessions.settled hj) ⟨0, ⟨0, 0, 0⟩, none⟩).1 id
      · rw [Registry.get, hexec.1.connections]
        exact .inl ((AList.lookup_erase_ne hname).trans hget)
    | _ =>
      rw [Registry.get, hexec.1.connections]
      exact .inl hget

/-- Who is gone stays gone. -/
theorem Reachable.keeps_gone {id : ℕ} (h : Reachable bus S) (hstep : Step bus S S₂)
    (hgone : S.Gone id) : S₂.Gone id := by
  cases hstep with
  | accept peer =>
    refine ⟨hgone.given, hgone.absent, fun j hj c hc => ?_⟩
    rcases List.mem_append.mp hj with hj | hj
    · exact hgone.silent j hj c hc
    · rw [List.mem_singleton.mp hj] at hc
      cases hc
  | job hj hstep hexec => exact hgone.job h.sessions hj hstep hexec

/-- **Who was in the table is there later on, or is gone for good.** -/
theorem Reachable.get_later (h : Reachable bus S₁) (hsteps : ReflTransGen (Step bus) S₁ S₂)
    (hget : S₁.world.state.registry.get c.uniqueName = some c) :
    S₂.world.state.registry.get c.uniqueName = some c ∨ S₂.Gone c.id := by
  induction hsteps with
  | refl => exact .inl hget
  | tail hsteps hs ih =>
    rcases ih with hget | hgone
    · exact (h.steps hsteps).keeps_get hs hget
    · exact .inr ((h.steps hsteps).keeps_gone hs hgone)

/-- **A unique name names one connection**: who is found under it later on is who was
found before. -/
theorem Reachable.same_entry (h : Reachable bus S₁) (hsteps : ReflTransGen (Step bus) S₁ S₂)
    (h₁ : S₁.world.state.registry.get u = some c₁) (h₂ : S₂.world.state.registry.get u = some c₂) :
    c₂ = c₁ := by
  obtain rfl := h.executed.1 u c₁ h₁
  rcases h.get_later hsteps h₁ with hlater | hgone
  · exact Option.some.inj (h₂.symm.trans hlater)
  · have habsent := hgone.absent
    rw [show uniqueName c₁.id = c₁.uniqueName from rfl, h₂] at habsent
    cases habsent

/-- **Who owns a name has it**: the connection is in the table. -/
theorem Reachable.exists_holder (h : Reachable bus S)
    (howner : S.world.state.registry.getNameOwner name = some u) :
    ∃ c, S.world.state.registry.holder name = some c ∧ c.uniqueName = u := by
  rw [Registry.holder_of_owner howner]
  unfold Registry.getNameOwner at howner
  split_ifs at howner
  · obtain ⟨c, hc, rfl⟩ := Option.map_eq_some_iff.mp howner
    exact ⟨c, hc, h.executed.1 name c hc⟩
  · obtain ⟨entry, hentry, rfl⟩ := Option.map_eq_some_iff.mp howner
    obtain ⟨queue, hqueue, hhead⟩ := Option.bind_eq_some_iff.mp hentry
    refine (no_dangling_owners bus S h).connected name _ ?_
    unfold Registry.listQueuedOwners
    rw [hqueue]
    exact List.mem_map_of_mem (List.mem_of_head? hhead)

end Daemon

end Oxibus
