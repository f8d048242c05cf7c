import Oxibus.Daemon.Broadcasts
import Oxibus.Daemon.Replay

/-!
# The accounts of a run

A subscriber is owed notices by the jobs that have changed an owner. The
accounts of a job say what it owes; it is broadcasting as long as it owes
anything. If a name changes its owner only while no job is broadcasting an
earlier change of it, then at most one job owes anything about the name, and
what the subscriber has heard is the end of what the registry has announced,
but for what that job owes. The ledger is this invariant, and a step of any
job keeps it.
-/

namespace Oxibus

open BusProg Daemon

variable {bus : Bus} {n : String} {c : ConnectionEntry} {o : BusOp} {r : o.Res}
variable {s s' : BusState} {x x' : World × Due} {w w' : World} {notice : Notice}

/-! ## Broadcasts in progress -/

/-- A write of a notice about a name. -/
def BusOp.TellsOf (n : String) : BusOp → Prop
  | .write _ msg => ∃ notice, msg.notice = some notice ∧ notice.name = n
  | _ => False

/-- **A program that is broadcasting**: it may still write a notice about a name,
for a change that is made. -/
abbrev Broadcasts {α : Type} (n : String) (p : BusProg α) : Prop :=
  p.MayReach (fun o => o.mayChange = false) (BusOp.TellsOf n)

/-- **A job that is broadcasting.** -/
def Job.Broadcasting (n : String) : Job → Prop
  | serving _ p => Broadcasts n p
  | announcing p => Broadcasts n p
  | _ => False

theorem BusOp.TellsOf.of_hears (h : (⟨s, o, r⟩ : BusEvent).hears c n = some notice) :
    o.TellsOf n := by
  cases o with
  | write c' msg =>
    cases r with
    | false => cases h
    | true =>
      have hsome : (if c' = c then msg.notice.filter fun notice => notice.name == n else none)
          = some notice := h
      split at hsome
      · obtain ⟨hnotice, hname⟩ := Option.filter_eq_some_iff.mp hsome
        exact ⟨notice, hnotice, beq_iff_eq.mp hname⟩
      · cases hsome
  | _ => cases h

theorem BusOp.TellsOf.of_misses (h : (⟨s, o, r⟩ : BusEvent).misses c n = true) : o.TellsOf n := by
  cases o with
  | write c' msg =>
    cases r with
    | true => cases h
    | false =>
      have hmissed : (c' == c && msg.notice.any fun notice => notice.name == n) = true := h
      obtain ⟨notice, hnotice, hname⟩ :=
        (Option.any_eq_true _ _).mp (Bool.and_eq_true_iff.mp hmissed).2
      exact ⟨notice, hnotice, beq_iff_eq.mp hname⟩
  | _ => cases h

/-- Telling leaves the subscribers. -/
theorem Dispatch.Telling.subscribed {Q : ConnectionEntry → Message → Prop}
    (ho : Dispatch.Telling Q o) (h : o.Exec s r s') (hs : s.Subscribed c) : s'.Subscribed c := by
  have hcells : s'.cells c.id = s.cells c.id := (Telling.foreign ho).cells h
  refine ⟨((Telling.foreign ho).get h).trans hs.entry, ?_, ?_⟩
  · rw [← hs.notMonitor]
    exact congrArg Cells.isMonitor hcells
  · obtain ⟨rule, hmem, hmatches⟩ := hs.rule
    refine ⟨rule, ?_, hmatches⟩
    rw [BusState.matchRules, hcells]
    exact hmem

/-- What an operation that tells of nothing makes of what is owed. -/
theorem Due.Next.of_not_tellsOf {due : Due} (ho : o.mayChange = false) (hnot : ¬ o.TellsOf n) :
    due.Next n c ⟨s, o, r⟩ due := by
  refine .kept ?_ ?_ ?_
  · rw [BusOp.changes_eq_nil ho]
    rfl
  · exact Option.eq_none_iff_forall_ne_some.mpr fun notice h => hnot (.of_hears h)
  · exact Bool.eq_false_iff.mpr fun h => hnot (.of_misses h)

/-! ## What is owed is being broadcast -/

section Programs

variable {α : Type} {p : BusProg α} {post : α → World × Due → Prop}

/-- The world after the answer of `BusOp.answer`. -/
def World.answered (w : World) (o : BusOp) : World :=
  ⟨(o.answer w.state).2, ⟨w.state, o, (o.answer w.state).1⟩ :: w.log⟩

theorem World.exec_answered (w : World) (o : BusOp) :
    World.Exec o w (o.answer w.state).1 (w.answered o) :=
  ⟨o.exec_answer w.state, rfl⟩

/-- What is owed after an operation that makes one change at most. -/
theorem exists_next {due : Due} (h : Registry.changesFor n (o.changes r) = [] ∨
      ∃ change, Registry.changesFor n (o.changes r) = [change]) :
    ∃ due', due.Next n c ⟨s, o, r⟩ due' ∧ due'.Settled := by
  rcases h with hnone | ⟨change, hone⟩
  · cases hhears : (⟨s, o, r⟩ : BusEvent).hears c n with
    | some notice => exact ⟨.nothing, .heard hnone hhears, nofun⟩
    | none =>
      refine ⟨due.weaken, .weakened hnone hhears, ?_⟩
      cases due <;> exact nofun
  · exact ⟨.maybe change.notice, .changed hone (.inl rfl), nofun⟩

/-- The same world without well-known names. -/
def World.emptied (w : World) : World :=
  ⟨{ w.state with registry := { w.state.registry with names := ∅ } }, w.log⟩

/-- Without well-known names, every operation makes one change at most. -/
theorem changesFor_answer (hnames : s.registry.names = ∅) (o : BusOp) :
    Registry.changesFor n (o.changes (o.answer s).1) = [] ∨
      ∃ change, Registry.changesFor n (o.changes (o.answer s).1) = [change] := by
  have hsingle : ∀ change : NameOwnerChange, Registry.changesFor n [change] = [] ∨
      ∃ change', Registry.changesFor n [change] = [change'] := by
    intro change
    by_cases hname : change.name = n
    · exact .inr ⟨change, List.filter_cons_of_pos (beq_iff_eq.mpr hname)⟩
    · exact .inl (List.filter_cons_of_neg fun h => hname (beq_iff_eq.mp h))
  have hof : ∀ old new : Option String, changesOf n old new = [] ∨
      ∃ change, changesOf n old new = [change] := by
    intro old new
    unfold changesOf
    split
    · exact .inl rfl
    · exact .inr ⟨_, rfl⟩
  cases o with
  | swapRegistered caller =>
    show Registry.changesFor n (if s.isRegistered caller = true then [] else _) = [] ∨
      ∃ change, Registry.changesFor n (if s.isRegistered caller = true then [] else _) = [change]
    split
    · exact .inl rfl
    · exact hsingle _
  | requestName u name flags =>
    have hchanges := (Registry.steps_requestName s.registry u name flags).changesFor n
    show Registry.changesFor n (s.registry.requestName u name flags).1.2 = [] ∨
      ∃ change, Registry.changesFor n (s.registry.requestName u name flags).1.2 = [change]
    rw [hchanges]
    exact hof _ _
  | releaseName u name =>
    have hchanges := (Registry.steps_releaseName s.registry u name).changesFor n
    show Registry.changesFor n (s.registry.releaseName u name).1.2 = [] ∨
      ∃ change, Registry.changesFor n (s.registry.releaseName u name).1.2 = [change]
    rw [hchanges]
    exact hof _ _
  | removeConnection u =>
    have hkeys : s.registry.names.keys = [] := by
      rw [hnames]
      rfl
    have hanswer : (BusOp.answer (.removeConnection u) s).1 = [⟨u, some u, none⟩] := by
      show (s.registry.removeConnection u s.registry.names.keys).1 = _
      rw [hkeys]
      rfl
    rw [hanswer]
    exact hsingle _
  | _ => exact .inl rfl

/-- An operation can be performed, if need be in a world without well-known
names. -/
theorem exists_tracked (hx : Valid c x) (o : BusOp) :
    ∃ x₁ r x₂, Meanwhile c x x₁ ∧ x₁.2 = x.2 ∧ Tracked n c o x₁ r x₂ := by
  have hvalid : Valid c (x.1.emptied, x.2) := by
    refine ⟨hx.keyed.of_connections rfl, fun notice h => ?_⟩
    have hsub := hx.subscribed notice h
    exact ⟨hsub.entry, hsub.notMonitor, hsub.rule⟩
  have hexec := x.1.emptied.exec_answered o
  have hnames : x.1.emptied.state.registry.names = ∅ := rfl
  obtain ⟨due', hnext, hsettled⟩ := exists_next (n := n) (c := c) (changesFor_answer hnames o)
  refine ⟨(x.1.emptied, x.2), _, (x.1.emptied.answered o, due'), ⟨.refl _, hvalid⟩, rfl,
    hexec, hnext,
    hexec.1.keyed hvalid.keyed, fun notice h => absurd h (hsettled notice)⟩

/-- While something is owed, a program goes on telling. -/
theorem telling_of_tracks {k : o.Res → BusProg α} (h : Tracks n c (.call o k) x post)
    (hx : Valid c x) (hdue : x.2 ≠ .nothing) : Dispatch.Telling (fun _ _ => True) o := by
  obtain ⟨x₁, r, x₂, h₁, hsame, hexec⟩ := exists_tracked hx o
  exact (h x₁ r x₂ h₁ hexec).1.telling (hsame ▸ hdue)

theorem mayChange_of_telling {Q : ConnectionEntry → Message → Prop}
    (ho : Dispatch.Telling Q o) : o.mayChange = false := by
  cases o with
  | swapRegistered => exact ho.elim
  | requestName => exact ho.elim
  | releaseName => exact ho.elim
  | removeConnection => exact ho.elim
  | _ => rfl

/-- **What is certain to be told is being broadcast.** -/
theorem broadcasts_of_certain (h : Tracks n c p x post)
    (hpost : ∀ a x', post a x' → x'.2.Settled) (hx : Valid c x) (hdue : x.2 = .certain notice) :
    Broadcasts n p := by
  induction p generalizing x with
  | ret a => exact absurd hdue (hpost a x h notice)
  | call o k ih =>
    have htelling := telling_of_tracks h hx (by rw [hdue]; exact nofun)
    have hchange := mayChange_of_telling htelling
    by_cases htells : o.TellsOf n
    · exact .here htells
    · have hexec := x.1.exec_answered o
      have hx' : Valid c (x.1.answered o, x.2) :=
        ⟨hexec.1.keyed hx.keyed, fun notice h =>
         htelling.subscribed hexec.1 (hx.subscribed notice h)⟩
      have hnext := (h x _ (x.1.answered o, x.2) hx.refl
        ⟨hexec, .of_not_tellsOf hchange htells, hx'⟩).2
      exact .later _ hchange (ih _ hnext hx' hdue)

/-- **What may be told, and is not being broadcast, is not owed.** -/
theorem tracks_nothing (h : Tracks n c p (w, .maybe notice) post)
    (hpost : ∀ a w, post a (w, .maybe notice) → post a (w, .nothing))
    (hkeyed : w.state.registry.Keyed) (hnot : ¬ Broadcasts n p) :
    Tracks n c p (w, .nothing) post := by
  induction p generalizing w with
  | ret a => exact hpost a w h
  | call o k ih =>
    have hvalid : ∀ {w : World}, w.state.registry.Keyed → Valid c (w, .maybe notice) :=
      fun hkeyed => ⟨hkeyed, nofun⟩
    have htelling := telling_of_tracks h (hvalid hkeyed) nofun
    have hchange := mayChange_of_telling htelling
    have htells : ¬ o.TellsOf n := fun htells => hnot (.here htells)
    rintro ⟨w₁, due₁⟩ r ⟨w₂, due₂⟩ h₁ hexec
    obtain rfl : due₁ = .nothing := h₁.1.nothing
    have hhears : (⟨w₁.state, o, r⟩ : BusEvent).hears c n = none :=
      Option.eq_none_iff_forall_ne_some.mpr fun notice h => htells (.of_hears h)
    obtain rfl : due₂ = .nothing := (hexec.2.1.left hchange hhears).nothing
    refine ⟨⟨fun hne => absurd rfl hne, fun notice hnotice => ?_, ?_⟩, ?_⟩
    · rw [hhears] at hnotice
      cases hnotice
    · rintro c' m rfl
      exact htelling.elim
    · have hmaybe := (h (w₁, .maybe notice) r (w₂, .maybe notice)
        ⟨.refl _, hvalid h₁.2.keyed⟩
        ⟨hexec.1, .of_not_tellsOf hchange htells, hvalid hexec.2.2.keyed⟩).2
      exact ih r hmaybe hexec.2.2.keyed fun hk => hnot (.later r hchange hk)

end Programs

/-! ## Jobs and what they owe -/

/-- **The accounts of a job**: its program pays what it owes, and is broadcasting
as long as it owes something; a copy is no notice, and a job without a
program owes nothing. -/
def Job.Accounted (n : String) (c : ConnectionEntry) (x : World × Due) : Job → Prop
  | serving _ p => Tracks n c p x (fun _ x' => Valid c x' ∧ x'.2.Settled) ∧
      (x.2 ≠ .nothing → Broadcasts n p)
  | announcing p => Tracks n c p x (fun _ x' => Valid c x' ∧ x'.2.Settled) ∧
      (x.2 ≠ .nothing → Broadcasts n p)
  | copying _ msg => msg.notice = none ∧ x.2 = .nothing
  | _ => x.2 = .nothing

/-- What is owed, or nothing in place of what may be told and is not. -/
def Due.Drops (due due' : Due) : Prop :=
  due' = due ∨ due' = .nothing ∧ ∃ notice, due = .maybe notice

variable {j j' : Job} {due : Due}

theorem Job.Accounted.broadcasting (h : j.Accounted n c x) (hdue : x.2 ≠ .nothing) :
    j.Broadcasting n := by
  cases j with
  | serving => exact h.2 hdue
  | announcing => exact h.2 hdue
  | copying => exact absurd h.2 hdue
  | _ => exact absurd h hdue

/-- While other tasks run, the accounts stay in order. -/
theorem Job.Accounted.stable (h : j.Accounted n c x) (hx : Meanwhile c x x')
    (hdue : x.2 = .nothing → x'.2 = .nothing) : j.Accounted n c x' := by
  have hprogram : ∀ {p : BusProg Unit},
      (Tracks n c p x (fun _ x' => Valid c x' ∧ x'.2.Settled) ∧ (x.2 ≠ .nothing → Broadcasts n p)) →
      Tracks n c p x' (fun _ x' => Valid c x' ∧ x'.2.Settled) ∧
        (x'.2 ≠ .nothing → Broadcasts n p) := by
    intro p hp
    refine ⟨hp.1.interfere (fun _ _ _ => Meanwhile.trans) ?_ hx, fun hne => hp.2 fun h =>
      hne (hdue h)⟩
    exact fun _ _ _ hmeanwhile hpost => ⟨hmeanwhile.2, hmeanwhile.1.settled hpost.2⟩
  cases j with
  | serving => exact hprogram h
  | announcing => exact hprogram h
  | copying => exact ⟨h.1, hdue h.2⟩
  | _ => exact hdue h

/-- What a program is not broadcasting is struck from its accounts. -/
theorem exists_accounts {p : BusProg Unit}
    (h : Tracks n c p (w, due) fun _ x' => Valid c x' ∧ x'.2.Settled) (hx : Valid c (w, due)) :
    ∃ due', due.Drops due' ∧ Tracks n c p (w, due') (fun _ x' => Valid c x' ∧ x'.2.Settled) ∧
      (due' ≠ .nothing → Broadcasts n p) := by
  cases due with
  | nothing => exact ⟨.nothing, .inl rfl, h, fun hne => absurd rfl hne⟩
  | certain notice =>
    exact ⟨_, .inl rfl, h, fun _ => broadcasts_of_certain h (fun _ _ hpost => hpost.2) hx rfl⟩
  | maybe notice =>
    by_cases hbroadcasts : Broadcasts n p
    · exact ⟨_, .inl rfl, h, fun _ => hbroadcasts⟩
    · refine ⟨.nothing, .inr ⟨rfl, notice, rfl⟩, ?_, fun hne => absurd rfl hne⟩
      refine tracks_nothing h (fun _ w hpost => ?_) hx.keyed hbroadcasts
      exact ⟨⟨hpost.1.keyed, nofun⟩, nofun⟩

/-- An operation that tells nobody of anything, by a job that owes nothing. -/
theorem pays_of_hears (hdue : x.2 = .nothing)
    (hears : (⟨x.1.state, o, r⟩ : BusEvent).hears c n = none)
    (hcopies : ∀ c' m, o ≠ .spawnWrite c' m) : Pays n c o x r := by
  refine ⟨fun hne => absurd hdue hne, fun notice hnotice => ?_, fun c' m ho => ?_⟩
  · rw [hears] at hnotice
    cases hnotice
  · exact absurd ho (hcopies c' m)

/-- A program that has returned broadcasts nothing, and owes nothing. -/
theorem nothing_of_ret (h : x.2 ≠ .nothing → Broadcasts n (.ret () : BusProg Unit)) :
    x.2 = .nothing := by
  by_contra hne
  exact Prog.not_mayReach_ret _ (h hne)

/-- **A step of a job keeps its accounts.** -/
theorem Job.Accounted.step (h : j.Accounted n c x) (hx : Valid c x)
    (hstep : JobStep bus j o r j') (hexec : Tracked n c o x r x') :
    Pays n c o x r ∧ (∃ due', x'.2.Drops due' ∧ j'.Accounted n c (x'.1, due')) ∧
      ∀ j ∈ o.spawned, j.Accounted n c (x'.1, .nothing) := by
  -- a step that is no part of a program
  have hplain : x.2 = .nothing → o.mayChange = false →
      (⟨x.1.state, o, r⟩ : BusEvent).hears c n = none → x'.2 = .nothing := fun hdue ho hears =>
    (hdue ▸ hexec.2.1.left ho hears).nothing
  -- a step of a program
  have hprogram : ∀ {k : o.Res → BusProg Unit},
      Tracks n c (.call o k) x (fun _ x' => Valid c x' ∧ x'.2.Settled) → Pays n c o x r ∧
        (∃ due', x'.2.Drops due' ∧
          Tracks n c (k r) (x'.1, due') (fun _ x' => Valid c x' ∧ x'.2.Settled) ∧
            (due' ≠ .nothing → Broadcasts n (k r))) ∧
        ∀ j ∈ o.spawned, j.Accounted n c (x'.1, .nothing) := by
    intro k hk
    obtain ⟨hpays, hnext⟩ := hk x r x' hx.refl hexec
    refine ⟨hpays, exists_accounts hnext hexec.2.2, fun j hj => ?_⟩
    cases o with
    | spawnWrite c' m =>
      rw [List.mem_singleton.mp hj]
      exact ⟨hpays.copies c' m rfl, rfl⟩
    | _ => exact absurd hj List.not_mem_nil
  have hnone : ∀ j ∈ ([] : List Job), j.Accounted n c (x'.1, .nothing) :=
    fun _ hj => absurd hj List.not_mem_nil
  have hidle : ∀ {j'' : Job}, (∀ w, j''.Accounted n c (w, .nothing)) → x.2 = .nothing →
      o.mayChange = false → (⟨x.1.state, o, r⟩ : BusEvent).hears c n = none →
      ∃ due', x'.2.Drops due' ∧ j''.Accounted n c (x'.1, due') := fun hj hdue ho hears =>
    ⟨.nothing, .inl (hplain hdue ho hears).symm, hj _⟩
  cases hstep with
  | @add c' =>
    have hdue : x.2 = .nothing := h
    have hdue' := hplain hdue rfl rfl
    refine ⟨pays_of_hears hdue rfl nofun, ⟨_, .inl rfl, ?_, fun hne => absurd hdue' hne⟩, hnone⟩
    exact ⟨hexec.2.2, by rw [hdue']; exact nofun⟩
  | @read c' msg =>
    have hdue := nothing_of_ret h.2
    have hdue' := hplain hdue rfl rfl
    refine ⟨pays_of_hears hdue rfl nofun, ⟨_, .inl rfl, ?_, fun hne => absurd hdue' hne⟩, hnone⟩
    exact Dispatch.tracks_dispatchIncoming hexec.2.2 hdue'
  | readFailed =>
    have hdue := nothing_of_ret h.2
    exact ⟨pays_of_hears hdue rfl nofun, hidle (fun _ => rfl) hdue rfl rfl, hnone⟩
  | dispatch => exact hprogram h.1
  | @remove c' events =>
    have hdue : x.2 = .nothing := h
    have howes : Dispatch.OwesOutcome n c ⟨.ok [], events⟩ x' :=
      Dispatch.owesOutcome_of_changes hexec hdue rfl
    refine ⟨Dispatch.pays_of_mayChange rfl hdue, ?_, hnone⟩
    exact exists_accounts (Dispatch.tracks_broadcastNameOwnerChanges howes.1 howes.2) howes.1
  | announce => exact hprogram h.1
  | drop =>
    have hdue := nothing_of_ret h.2
    exact ⟨pays_of_hears hdue rfl nofun, hidle (fun _ => rfl) hdue rfl rfl, hnone⟩
  | @copy c' msg written =>
    have hcalm : Calm n c (.write c' msg) := quiet_of_none h.1
    refine ⟨pays_of_hears h.2 hcalm.hears nofun, hidle (fun _ => rfl) h.2 rfl hcalm.hears, hnone⟩
  | _ => exact ⟨pays_of_hears h rfl nofun, hidle (fun _ => rfl) h rfl rfl, hnone⟩

/-! ## What has been told -/

/-- **What a subscriber has heard**, beside what was announced and what is still
owed: all of it from some point on, or all but the notice it is certain to
be told. What may be told is the first it would hear. -/
inductive Balanced (announced heard : List Notice) : Due → Prop where
  | nothing (h : heard <:+ announced) : Balanced announced heard .nothing
  | certain {notice : Notice} {before : List Notice} (h : announced = before ++ [notice])
    (hheard : heard <:+ before) : Balanced announced heard (.certain notice)
  | maybe {notice : Notice} {before : List Notice} (h : announced = before ++ [notice])
    (hheard : heard = []) : Balanced announced heard (.maybe notice)

variable {ann heard : List Notice} {due' : Due}

/-- To somebody who has heard nothing, only the last announcement is owed. -/
theorem balanced_nil_iff : Balanced ann [] due ↔
    ∀ notice, due.Owes notice → ∃ before, ann = before ++ [notice] := by
  constructor
  · intro h notice howes
    cases h with
    | nothing => exact (howes.elim nofun nofun)
    | certain h =>
      cases howes.resolve_left nofun
      exact ⟨_, h⟩
    | maybe h =>
      cases howes.resolve_right nofun
      exact ⟨_, h⟩
  · intro h
    cases due with
    | nothing => exact .nothing List.nil_suffix
    | certain notice =>
      obtain ⟨before, hann⟩ := h notice (.inr rfl)
      exact .certain hann List.nil_suffix
    | maybe notice =>
      obtain ⟨before, hann⟩ := h notice (.inl rfl)
      exact .maybe hann rfl

theorem Balanced.suffix (h : Balanced ann heard .nothing) : heard <:+ ann := by
  cases h with
  | nothing h => exact h

/-- What has been heard of a chain is a chain. -/
theorem Balanced.linked (h : Balanced ann heard due) (hann : Linked ann) : Linked heard := by
  cases h with
  | nothing h => exact hann.suffix h
  | certain h hheard =>
    rw [h] at hann
    exact hann.left_of_append.suffix hheard
  | maybe _ hheard =>
    rw [hheard]
    exact List.isChain_nil

/-- The subscriber hears what it is owed. -/
theorem Balanced.hear (h : Balanced ann heard due) (howes : due.Owes notice) :
    Balanced ann (heard ++ [notice]) .nothing := by
  refine .nothing ?_
  cases h with
  | nothing => exact (howes.elim nofun nofun)
  | certain h hheard =>
    cases howes.resolve_left nofun
    rw [h]
    obtain ⟨front, rfl⟩ := hheard
    exact ⟨front, (List.append_assoc _ _ _).symm⟩
  | maybe h hheard =>
    cases howes.resolve_right nofun
    rw [h, hheard]
    exact List.suffix_append _ _

/-- What may be told need not be. -/
theorem Balanced.drops (h : Balanced ann heard due) (hdrops : due.Drops due') :
    Balanced ann heard due' := by
  rcases hdrops with rfl | ⟨rfl, notice, rfl⟩
  · exact h
  · cases h with
    | maybe _ hheard =>
      rw [hheard]
      exact .nothing List.nil_suffix

theorem Due.Drops.owes (h : due.Drops due') (howes : due'.Owes notice) : due.Owes notice := by
  rcases h with rfl | ⟨rfl, -⟩
  · exact howes
  · exact (howes.elim nofun nofun)

theorem Due.Left.owes_of (h : due.Left due') (howes : due'.Owes notice) : due.Owes notice := by
  rcases h with rfl | rfl
  · exact howes
  · cases due with
    | nothing => exact (howes.elim nofun nofun)
    | certain notice' =>
      cases howes.resolve_right nofun
      exact .inr rfl
    | maybe notice' => exact howes

theorem Due.Owes.unique {notice' : Notice} (h : due.Owes notice) (h' : due.Owes notice') :
    notice = notice' := by
  rcases h with rfl | rfl
  · exact Due.maybe.inj (h'.resolve_right nofun)
  · exact Due.certain.inj (h'.resolve_left nofun)

/-! ## The ledger of the daemon -/

/-- **The ledger**: the accounts of all jobs, of which at most one owes something,
and what the subscriber has heard. -/
structure Ledger (n : String) (c : ConnectionEntry) (S : Daemon) (heard : List Notice)
    (dues : ℕ → Due) (i : ℕ) : Prop where
  accounts : ∀ {k : ℕ} {j : Job}, S.jobs[k]? = some j → j.Accounted n c (S.world, dues k)
  one : ∀ k, k ≠ i → dues k = .nothing
  idle : ∀ k, S.jobs.length ≤ k → dues k = .nothing
  valid : ∀ k, Valid c (S.world, dues k)
  balanced : Balanced (announced n S.world.log) heard (dues i)

variable {S : Daemon} {dues dues' : ℕ → Due} {i k : ℕ}

/-- **The accounts after a step**: those of the job that made it, and of the others,
which waited. -/
theorem Ledger.accounts_step (h : Ledger n c S heard dues i) (hk : S.jobs[k]? = some j)
    (hstep : JobStep bus j o r j') (hexec : Tracked n c o (S.world, dues k) r (w, due'))
    (hrest : ∀ l, Meanwhile c (S.world, dues l) (w, dues' l)) :
    Pays n c o (S.world, dues k) r ∧ ∃ due'', due'.Drops due'' ∧
      (∀ {l : ℕ} {j : Job}, (S.jobs.set k j' ++ o.spawned)[l]? = some j →
        j.Accounted n c (w, Function.update dues' k due'' l)) ∧
      (∀ l, (S.jobs.set k j' ++ o.spawned).length ≤ l →
        Function.update dues' k due'' l = .nothing) ∧
      ∀ l, Valid c (w, Function.update dues' k due'' l) := by
  obtain ⟨hpays, ⟨due'', hdrops, hnext⟩, hspawned⟩ := (h.accounts hk).step (h.valid k) hstep hexec
  have hlt := Slots.lt_length_of_getElem? hk
  have hnothing : ∀ l, dues l = .nothing → dues' l = .nothing := fun l hl =>
    (hl ▸ (hrest l).1).nothing
  have hfar : ∀ l, S.jobs.length ≤ l → Function.update dues' k due'' l = .nothing := by
    intro l hl
    rw [Function.update_of_ne (Nat.lt_of_lt_of_le hlt hl).ne']
    exact hnothing l (h.idle l hl)
  refine ⟨hpays, due'', hdrops, ?_, ?_, fun l => ?_⟩
  · intro l j₁ hl
    rcases getElem?_next_place hl with ⟨rfl, rfl⟩ | ⟨hne, hl⟩ | ⟨hle, hmem⟩
    · rw [Function.update_self]
      exact hnext
    · rw [Function.update_of_ne hne]
      exact (h.accounts hl).stable (hrest l) (hnothing l)
    · rw [hfar l hle]
      exact hspawned j₁ hmem
  · intro l hl
    exact hfar l (Nat.le_trans (Slots.length_le_set_append _ _ _ _) hl)
  · by_cases hl : l = k
    · rw [hl, Function.update_self]
      refine ⟨hexec.2.2.keyed, fun notice hcertain => hexec.2.2.subscribed notice ?_⟩
      rcases hdrops with rfl | ⟨rfl, -⟩
      · exact hcertain
      · cases hcertain
    · rw [Function.update_of_ne hl]
      exact (hrest l).2

/-- When a change waits for the broadcasts, nothing is owed. -/
theorem Ledger.nothing (h : Ledger n c S heard dues i) (hidle : ∀ j ∈ S.jobs, ¬ j.Broadcasting n)
    (l : ℕ) : dues l = .nothing := by
  cases hl : S.jobs[l]? with
  | none => exact h.idle l (List.getElem?_eq_none_iff.mp hl)
  | some j =>
    by_contra hne
    exact hidle j (List.mem_of_getElem? hl) ((h.accounts hl).broadcasting hne)

/-- An operation that changes something tells nobody. -/
theorem hears_of_changes {change : NameOwnerChange}
    (h : Registry.changesFor n (o.changes r) = [change]) :
    (⟨s, o, r⟩ : BusEvent).hears c n = none := by
  cases o with
  | write c' m => cases h
  | _ => rfl

/-- Everybody but one owes nothing after the accounts of one job have changed. -/
theorem update_eq_nothing {dues : ℕ → Due} (hrest : ∀ l, l ≠ i → l ≠ k → dues l = .nothing)
    (hself : k ≠ i → due = .nothing) {l : ℕ} (hl : l ≠ i) :
    Function.update dues k due l = .nothing := by
  by_cases hlk : l = k
  · rw [hlk, Function.update_self]
    exact hself (hlk ▸ hl)
  · rw [Function.update_of_ne hlk]
    exact hrest l hl hlk

/-! ### Steps of a run with a subscriber -/

/-- The subscriber hears a notice: the job that made the step owed it. -/
theorem Ledger.step_hears {notice : Notice} (h : Ledger n c S heard dues i)
    (hk : S.jobs[k]? = some j) (hstep : JobStep bus j o r j') (hexec : World.Exec o S.world r w)
    (hvalid : ∀ due, Valid c (w, due)) (hnone : Registry.changesFor n (o.changes r) = [])
    (hhears : (⟨S.world.state, o, r⟩ : BusEvent).hears c n = some notice) :
    ∃ dues' i', Ledger n c ⟨w, S.jobs.set k j' ++ o.spawned⟩ (heard ++ [notice]) dues' i' := by
  have htracked : Tracked n c o (S.world, dues k) r (w, .nothing) :=
    ⟨hexec, .heard hnone hhears, hvalid _⟩
  obtain ⟨hpays, due'', hdrops, haccounts, hidle, hvalid'⟩ :=
    h.accounts_step hk hstep htracked fun l => ⟨.refl _, hvalid _⟩
  have howes : (dues k).Owes notice := hpays.hears notice hhears
  have hki : k = i := by
    by_contra hne
    rw [h.one k hne] at howes
    exact howes.elim nofun nofun
  obtain rfl : due'' = .nothing := by
    rcases hdrops with hdue | ⟨hdue, -⟩
    · exact hdue
    · exact hdue
  refine ⟨_, i, haccounts, fun l => ?_, hidle, hvalid', ?_⟩
  · exact update_eq_nothing (fun l hl _ => h.one l hl) fun _ => rfl
  · show Balanced (announced n w.log) (heard ++ [notice]) _
    rw [announced_of_nil hexec hnone, ← hki, Function.update_self]
    exact (hki ▸ h.balanced).hear howes

/-- Nothing changes and the subscriber hears nothing, nor does it miss anything. -/
theorem Ledger.step_kept (h : Ledger n c S heard dues i)
    (hk : S.jobs[k]? = some j) (hstep : JobStep bus j o r j') (hexec : World.Exec o S.world r w)
    (hvalid : ∀ due, Valid c (w, due)) (hnone : Registry.changesFor n (o.changes r) = [])
    (hhears : (⟨S.world.state, o, r⟩ : BusEvent).hears c n = none)
    (hmiss : (⟨S.world.state, o, r⟩ : BusEvent).misses c n = false) :
    ∃ dues' i', Ledger n c ⟨w, S.jobs.set k j' ++ o.spawned⟩ heard dues' i' := by
  have htracked : Tracked n c o (S.world, dues k) r (w, dues k) :=
    ⟨hexec, .kept hnone hhears hmiss, hvalid _⟩
  obtain ⟨-, due'', hdrops, haccounts, hidle, hvalid'⟩ :=
    h.accounts_step hk hstep htracked fun l => ⟨.refl _, hvalid _⟩
  refine ⟨_, i, haccounts, fun l => ?_, hidle, hvalid', ?_⟩
  · refine update_eq_nothing (fun l hl _ => h.one l hl) fun hki => ?_
    rcases hdrops with hdue | ⟨hdue, -⟩
    · rw [hdue]
      exact h.one k hki
    · exact hdue
  · show Balanced (announced n w.log) heard _
    rw [announced_of_nil hexec hnone]
    by_cases hik : i = k
    · rw [hik, Function.update_self]
      exact (hik ▸ h.balanced).drops hdrops
    · rw [Function.update_of_ne hik]
      exact h.balanced

/-- There is a change: the job that makes it is certain to tell the subscriber. -/
theorem Ledger.step_changed {change : NameOwnerChange} (h : Ledger n c S heard dues i)
    (hk : S.jobs[k]? = some j) (hstep : JobStep bus j o r j') (hexec : World.Exec o S.world r w)
    (hvalid : ∀ due, Valid c (w, due)) (hone : Registry.changesFor n (o.changes r) = [change])
    (hall : ∀ l, dues l = .nothing) :
    ∃ dues' i', Ledger n c ⟨w, S.jobs.set k j' ++ o.spawned⟩ heard dues' i' := by
  have htracked : Tracked n c o (S.world, dues k) r (w, .certain change.notice) :=
    ⟨hexec, .changed hone (.inr rfl), hvalid _⟩
  obtain ⟨-, due'', hdrops, haccounts, hidle, hvalid'⟩ :=
    h.accounts_step hk hstep htracked fun l => ⟨.refl _, hvalid _⟩
  obtain rfl : due'' = .certain change.notice := by
    rcases hdrops with hdue | ⟨-, notice, hmaybe⟩
    · exact hdue
    · cases hmaybe
  refine ⟨_, k, haccounts, fun l => ?_, hidle, hvalid', ?_⟩
  · exact update_eq_nothing (fun l _ _ => hall l) fun hkk => absurd rfl hkk
  · show Balanced (announced n w.log) heard _
    rw [Function.update_self, announced_of_singleton hexec hone]
    refine .certain rfl ?_
    have hbalanced := h.balanced
    rw [hall i] at hbalanced
    exact hbalanced.suffix

/-- **A step while the connection is a subscriber**: what it hears is added to what
it has heard. -/
theorem Ledger.step_heard (h : Ledger n c S heard dues i) (hreach : Reachable bus S)
    (hk : S.jobs[k]? = some j) (hstep : JobStep bus j o r j') (hexec : World.Exec o S.world r w)
    (hwaits : Registry.changesFor n (o.changes r) ≠ [] → ∀ j ∈ S.jobs, ¬ j.Broadcasting n)
    (hsub : w.state.Subscribed c)
    (hmiss : (⟨S.world.state, o, r⟩ : BusEvent).misses c n = false) :
    ∃ dues' i', Ledger n c ⟨w, S.jobs.set k j' ++ o.spawned⟩
      (heard ++ ((⟨S.world.state, o, r⟩ : BusEvent).hears c n).toList) dues' i' := by
  have hvalid : ∀ due : Due, Valid c (w, due) := fun due =>
    ⟨hexec.1.keyed hreach.executed.1, fun _ _ => hsub⟩
  rcases changesFor_step hreach hk hstep hexec n with hnone | ⟨change, hone⟩
  · cases hhears : (⟨S.world.state, o, r⟩ : BusEvent).hears c n with
    | some notice => exact h.step_hears hk hstep hexec hvalid hnone hhears
    | none =>
      rw [Option.toList_none, List.append_nil]
      exact h.step_kept hk hstep hexec hvalid hnone hhears hmiss
  · have hall := h.nothing (hwaits (by rw [hone]; exact List.cons_ne_nil _ _))
    rw [hears_of_changes hone, Option.toList_none, List.append_nil]
    exact h.step_changed hk hstep hexec hvalid hone hall

/-! ### Steps of a run with somebody who has heard nothing -/

theorem Due.settled_weaken (due : Due) : due.weaken.Settled := by
  cases due <;> exact nofun

theorem Due.eq_nothing (h : ∀ notice, ¬ due.Owes notice) : due = .nothing := by
  cases due with
  | nothing => rfl
  | maybe notice => exact absurd (.inl rfl) (h notice)
  | certain notice => exact absurd (.inr rfl) (h notice)

/-- Others owe no more than they did. -/
theorem Ledger.meanwhile_weaken (hkeyed : w.state.registry.Keyed) (l : ℕ) :
    Meanwhile c (S.world, dues l) (w, (dues l).weaken) :=
  ⟨.inr rfl, hkeyed, fun notice hcertain => absurd hcertain ((dues l).settled_weaken notice)⟩

/-- Without a change, nothing is owed that was not owed before. -/
theorem Ledger.step_unchanged (h : Ledger n c S [] dues i) (hreach : Reachable bus S)
    (hk : S.jobs[k]? = some j) (hstep : JobStep bus j o r j') (hexec : World.Exec o S.world r w)
    (hnone : Registry.changesFor n (o.changes r) = []) :
    ∃ dues' i', Ledger n c ⟨w, S.jobs.set k j' ++ o.spawned⟩ [] dues' i' := by
  have hkeyed := hexec.1.keyed hreach.executed.1
  obtain ⟨due', hnext, hsettled⟩ : ∃ due', (dues k).Next n c ⟨S.world.state, o, r⟩ due' ∧
      due'.Settled := exists_next (.inl hnone)
  have htracked : Tracked n c o (S.world, dues k) r (w, due') :=
    ⟨hexec, hnext, hkeyed, fun notice hcertain => absurd hcertain (hsettled notice)⟩
  obtain ⟨-, due'', hdrops, haccounts, hidle, hvalid⟩ :=
    h.accounts_step hk hstep htracked (meanwhile_weaken hkeyed)
  have hbalanced := balanced_nil_iff.mp h.balanced
  -- what is owed now was owed before
  have howes : ∀ notice, due''.Owes notice → (dues k).Owes notice := by
    intro notice howes
    have howes' := hdrops.owes howes
    cases hnext with
    | changed h =>
      rw [hnone] at h
      cases h
    | heard => exact howes'.elim nofun nofun
    | kept => exact howes'
    | weakened => exact Due.Left.owes_of (.inr rfl) howes'
  refine ⟨_, i, haccounts, fun l => ?_, hidle, hvalid, balanced_nil_iff.mpr fun notice hown => ?_⟩
  · refine update_eq_nothing (fun l hl _ => by rw [h.one l hl]; rfl) fun hki => ?_
    refine Due.eq_nothing fun notice hown => ?_
    have howed := howes notice hown
    rw [h.one k hki] at howed
    exact howed.elim nofun nofun
  · show ∃ before, announced n w.log = before ++ [notice]
    rw [announced_of_nil hexec hnone]
    by_cases hik : i = k
    · rw [hik, Function.update_self] at hown
      exact hbalanced notice (hik ▸ howes notice hown)
    · rw [Function.update_of_ne hik] at hown
      exact hbalanced notice (Due.Left.owes_of (.inr rfl) hown)

/-- With a change, nothing but its notice is owed. -/
theorem Ledger.step_announced {change : NameOwnerChange} (h : Ledger n c S [] dues i)
    (hreach : Reachable bus S) (hk : S.jobs[k]? = some j) (hstep : JobStep bus j o r j')
    (hexec : World.Exec o S.world r w) (hone : Registry.changesFor n (o.changes r) = [change])
    (hall : ∀ l, dues l = .nothing) :
    ∃ dues' i', Ledger n c ⟨w, S.jobs.set k j' ++ o.spawned⟩ [] dues' i' := by
  have hkeyed := hexec.1.keyed hreach.executed.1
  have htracked : Tracked n c o (S.world, dues k) r (w, .maybe change.notice) :=
    ⟨hexec, .changed hone (.inl rfl), hkeyed, nofun⟩
  obtain ⟨-, due'', hdrops, haccounts, hidle, hvalid⟩ :=
    h.accounts_step hk hstep htracked (meanwhile_weaken hkeyed)
  refine ⟨_, k, haccounts, fun l => ?_, hidle, hvalid, balanced_nil_iff.mpr fun notice hown => ?_⟩
  · exact update_eq_nothing (fun l _ _ => by rw [hall l]; rfl) fun hkk => absurd rfl hkk
  · show ∃ before, announced n w.log = before ++ [notice]
    rw [Function.update_self] at hown
    have hnotice : change.notice = notice := Due.Owes.unique (.inl rfl) (hdrops.owes hown)
    exact ⟨announced n S.world.log, hnotice ▸ announced_of_singleton hexec hone⟩

/-- **A step of somebody who has heard nothing**, whether it is a subscriber or
not. -/
theorem Ledger.step_unheard (h : Ledger n c S [] dues i) (hreach : Reachable bus S)
    (hk : S.jobs[k]? = some j) (hstep : JobStep bus j o r j') (hexec : World.Exec o S.world r w)
    (hwaits : Registry.changesFor n (o.changes r) ≠ [] → ∀ j ∈ S.jobs, ¬ j.Broadcasting n) :
    ∃ dues' i', Ledger n c ⟨w, S.jobs.set k j' ++ o.spawned⟩ [] dues' i' := by
  rcases changesFor_step hreach hk hstep hexec n with hnone | ⟨change, hone⟩
  · exact h.step_unchanged hreach hk hstep hexec hnone
  · have hall := h.nothing (hwaits (by rw [hone]; exact List.cons_ne_nil _ _))
    exact h.step_announced hreach hk hstep hexec hone hall

end Oxibus
