import Oxibus.Daemon.Registry

/-!
# The queues for names

Every well-known name has a queue: its owner first, then those who wait. A
call of the registry on behalf of a connection does one of five things to a
queue (`QueueStep`), and what holds of queues – nobody is in one twice, those
who wait keep their order, the owner changes only as the events say – is
proved of the five. The calls of the registry are then shown to make such
steps: a request and a release in one queue, a removal in all of them.
-/

namespace Oxibus

open Registry

/-! ## What can happen to a queue -/

/-- The connections in a queue, the owner first. -/
def owners (q : List QueueEntry) : List String := q.map QueueEntry.uniqueName

/-- The owner of a queue. -/
def primaryOwner (q : List QueueEntry) : Option String := q.head?.map QueueEntry.uniqueName

/-- Those who wait in a queue. -/
def waiting (q : List QueueEntry) : List String := (owners q).tail

/-- **What a connection can do to a queue.** -/
inductive QueueStep (u : String) : List QueueEntry → List QueueEntry → Prop where
  /-- It is the first to ask. -/
  | first {e : QueueEntry} (he : e.uniqueName = u) : QueueStep u [] [e]
  /-- Nothing changes. -/
  | keep (q : List QueueEntry) : QueueStep u q q
  /-- It takes the place of the owner, who may go to the end of the queue. -/
  | replace {e primary : QueueEntry} {rest back : List QueueEntry} (he : e.uniqueName = u)
    (hne : primary.uniqueName ≠ u) (hback : back = [] ∨ back = [primary]) :
    QueueStep u (primary :: rest) (e :: (leaveQueue u rest ++ back))
  /-- It goes to the end of the queue. -/
  | wait {e primary : QueueEntry} {rest : List QueueEntry} (he : e.uniqueName = u)
    (hnew : u ∉ owners (primary :: rest)) :
    QueueStep u (primary :: rest) (primary :: rest ++ [e])
  /-- It leaves the queue. -/
  | leave (q : List QueueEntry) : QueueStep u q (leaveQueue u q)

variable {u x y : String} {q q' : List QueueEntry}

theorem owners_leaveQueue : owners (leaveQueue u q) = (owners q).filter (· != u) := by
  unfold owners leaveQueue
  rw [List.filter_map]
  rfl

theorem not_mem_owners_leaveQueue : u ∉ owners (leaveQueue u q) := by
  rw [owners_leaveQueue]
  intro h
  simpa using (List.mem_filter.mp h).2

theorem inQueue_eq_false : inQueue u q = false ↔ u ∉ owners q := by
  unfold inQueue owners
  rw [List.any_eq_false]
  simp only [beq_iff_eq, List.mem_map, not_exists, not_and]

/-- **Nobody is in a queue twice.** -/
theorem QueueStep.nodup (h : QueueStep u q q') (hq : (owners q).Nodup) : (owners q').Nodup := by
  cases h with
  | first he => exact List.nodup_singleton _
  | keep => exact hq
  | @replace e primary rest back he hne hback =>
    obtain ⟨hprimary, hrest⟩ := List.nodup_cons.mp hq
    have hleft : (owners (leaveQueue u rest)).Nodup := by
      rw [owners_leaveQueue]
      exact hrest.filter _
    have hdisjoint : ∀ x ∈ owners (leaveQueue u rest), x ∈ owners rest := by
      intro x hx
      rw [owners_leaveQueue] at hx
      exact (List.mem_filter.mp hx).1
    show (e.uniqueName :: owners (leaveQueue u rest ++ back)).Nodup
    rw [he, owners, List.map_append]
    rcases hback with rfl | rfl
    · rw [List.map_nil, List.append_nil]
      exact List.nodup_cons.mpr ⟨not_mem_owners_leaveQueue, hleft⟩
    · refine List.nodup_cons.mpr ⟨fun hmem => ?_, ?_⟩
      · rcases List.mem_append.mp hmem with hmem | hmem
        · exact not_mem_owners_leaveQueue hmem
        · exact hne (List.mem_singleton.mp hmem).symm
      · refine List.nodup_append.mpr ⟨hleft, List.nodup_singleton _, fun x hx z hz hxz => ?_⟩
        rw [List.map_cons, List.map_nil, List.mem_singleton] at hz
        rw [hxz, hz] at hx
        exact hprimary (hdisjoint _ hx)
  | @wait e primary rest he hnew =>
    rw [owners, List.map_append]
    refine List.nodup_append.mpr ⟨hq, List.nodup_singleton _, fun x hx z hz hxz => ?_⟩
    rw [List.map_cons, List.map_nil, List.mem_singleton, he] at hz
    rw [hxz, hz] at hx
    exact hnew hx
  | leave =>
    rw [owners_leaveQueue]
    exact hq.filter _

/-- Two members of a list, none of them its first, are in the same order behind
it. -/
theorem sublist_tail {l : List String} (hl : l.Nodup) (hx : x ∈ l.tail)
    (h : List.Sublist [x, y] l) : List.Sublist [x, y] l.tail := by
  cases l with
  | nil => exact absurd hx List.not_mem_nil
  | cons z l =>
    rcases List.sublist_cons_iff.mp h with h | ⟨r, hr, -⟩
    · exact h
    · rw [(List.cons.inj hr).1] at hx
      exact absurd hx (List.nodup_cons.mp hl).1

/-- **Those who wait keep their order.** -/
theorem QueueStep.order (h : QueueStep u q q') (hq : (owners q).Nodup) (hx : x ∈ waiting q')
    (hy : y ∈ waiting q') (hxy : List.Sublist [x, y] (waiting q)) :
    List.Sublist [x, y] (waiting q') := by
  have hq' := h.nodup hq
  have hfilter : ∀ {l : List String}, x ≠ u → y ≠ u → List.Sublist [x, y] l →
      List.Sublist [x, y] (l.filter (· != u)) := by
    intro l hxu hyu hl
    have hkept : [x, y].filter (· != u) = [x, y] := by simp [hxu, hyu]
    rw [← hkept]
    exact hl.filter _
  cases h with
  | first he => cases hxy
  | keep => exact hxy
  | @replace e primary rest back he hne hback =>
    have hwaiting : waiting (e :: (leaveQueue u rest ++ back))
        = (owners rest).filter (· != u) ++ owners back := by
      show owners (leaveQueue u rest ++ back) = _
      rw [owners, List.map_append]
      exact congrArg (· ++ owners back) owners_leaveQueue
    have hu : e.uniqueName ∉ owners (leaveQueue u rest ++ back) := (List.nodup_cons.mp hq').1
    rw [he] at hu
    rw [hwaiting]
    refine (hfilter ?_ ?_ hxy).trans (List.sublist_append_left _ _)
    · exact fun hxu => hu (hxu ▸ hx)
    · exact fun hyu => hu (hyu ▸ hy)
  | @wait e primary rest he hnew =>
    have hwaiting : waiting (primary :: rest ++ [e]) = owners rest ++ [e.uniqueName] := by
      show owners (rest ++ [e]) = _
      rw [owners, List.map_append]
      rfl
    rw [hwaiting]
    exact hxy.trans (List.sublist_append_left _ _)
  | leave =>
    have hmem : ∀ {z}, z ∈ waiting (leaveQueue u q) → z ≠ u := fun hz hzu =>
      not_mem_owners_leaveQueue (hzu ▸ List.mem_of_mem_tail hz)
    refine sublist_tail hq' hx ?_
    rw [owners_leaveQueue]
    exact hfilter (hmem hx) (hmem hy) (hxy.trans (List.tail_sublist _))

/-! ## What the events say -/

/-- The event that a name's owner has changed, if it has. -/
def changesOf (name : String) (old new : Option String) : List NameOwnerChange :=
  if old = new then [] else [⟨name, old, new⟩]

@[simp] theorem changesOf_self (name : String) (owner : Option String) :
    changesOf name owner owner = [] := if_pos rfl

theorem changesOf_of_ne {name : String} {old new : Option String} (h : old ≠ new) :
    changesOf name old new = [⟨name, old, new⟩] := if_neg h

theorem name_of_mem_changesOf {name : String} {old new : Option String} {e : NameOwnerChange}
    (h : e ∈ changesOf name old new) : e.name = name := by
  unfold changesOf at h
  split at h
  · cases h
  · rw [List.mem_singleton.mp h]

/-! ## One call, one queue -/

namespace Registry

variable {reg reg' : Registry} {name : String} {flags : UInt32}

/-- The queue for a name, empty if the name is not in the table. -/
def queueOf (reg : Registry) (name : String) : List QueueEntry := (reg.queue name).getD []

/-- No queue in the table is empty. -/
def Filled (reg : Registry) : Prop := ∀ name q, reg.queue name = some q → q ≠ []

theorem queueOf_eq_nil (h : reg.queue name = none) : reg.queueOf name = [] := by
  rw [queueOf, h]
  rfl

theorem queue_setQueue_self : (reg.setQueue name q).queue name = some q :=
  AList.lookup_insert _

theorem queue_setQueue_of_ne {n : String} (h : n ≠ name) :
    (reg.setQueue name q).queue n = reg.queue n :=
  AList.lookup_insert_ne h

theorem queueOf_setQueue : (reg.setQueue name q).queueOf name = q := by
  rw [queueOf, queue_setQueue_self]
  rfl

theorem queue_putQueue_of_ne {n : String} (h : n ≠ name) :
    (reg.putQueue name q).queue n = reg.queue n := by
  unfold putQueue
  split
  · exact AList.lookup_erase_ne h
  · exact queue_setQueue_of_ne h

theorem queueOf_putQueue : (reg.putQueue name q).queueOf name = q := by
  unfold putQueue
  split
  · next hempty =>
    have hlookup : Registry.queue { reg with names := reg.names.erase name } name = none :=
      AList.lookup_erase _ _
    rw [queueOf_eq_nil hlookup, List.isEmpty_iff.mp hempty]
  · exact queueOf_setQueue

theorem filled_setQueue (h : reg.Filled) (hq : q ≠ []) : (reg.setQueue name q).Filled := by
  intro n p hp
  by_cases hn : n = name
  · rw [hn, queue_setQueue_self] at hp
    rw [← Option.some.inj hp]
    exact hq
  · rw [queue_setQueue_of_ne hn] at hp
    exact h n p hp

theorem filled_putQueue (h : reg.Filled) : (reg.putQueue name q).Filled := by
  unfold putQueue
  split
  · intro n p hp
    by_cases hn : n = name
    · have hlookup : (reg.names.erase name).lookup n = some p := hp
      rw [hn, AList.lookup_erase] at hlookup
      cases hlookup
    · have hlookup : (reg.names.erase name).lookup n = some p := hp
      rw [AList.lookup_erase_ne hn] at hlookup
      exact h n p hlookup
  · next hempty => exact filled_setQueue h fun hq => hempty (by rw [hq]; rfl)

/-- **A call on behalf of a connection, in one queue**: what it does to the
queue, that it leaves the others alone, and what its events say. -/
structure Steps (reg : Registry) (u name : String) (changes : List NameOwnerChange)
    (reg' : Registry) : Prop where
  queue : QueueStep u (reg.queueOf name) (reg'.queueOf name)
  others : ∀ n, n ≠ name → reg'.queue n = reg.queue n
  changes : changes = changesOf name (primaryOwner (reg.queueOf name))
    (primaryOwner (reg'.queueOf name))
  filled : reg.Filled → reg'.Filled
  namesOnly : reg.NamesOnly reg'

theorem Steps.keep (reg : Registry) (u name : String) : reg.Steps u name [] reg :=
  ⟨.keep _, fun _ _ => rfl, (changesOf_self _ _).symm, id, .refl reg⟩

/-- A call that puts another queue in place. -/
theorem Steps.set {changes : List NameOwnerChange} (h : QueueStep u (reg.queueOf name) q)
    (hq : q ≠ [])
    (hchanges : changes = changesOf name (primaryOwner (reg.queueOf name)) (primaryOwner q)) :
    reg.Steps u name changes (reg.setQueue name q) where
  queue := by rwa [queueOf_setQueue]
  others _ hn := queue_setQueue_of_ne hn
  changes := by rwa [queueOf_setQueue]
  filled hreg := filled_setQueue hreg hq
  namesOnly := reg.namesOnly_setQueue name q

theorem uniqueName_requestEntry : (requestEntry u flags).uniqueName = u := rfl

/-- **A request takes one step in the queue for its name.** -/
theorem steps_requestName (reg : Registry) (u name : String) (flags : UInt32) :
    reg.Steps u name (reg.requestName u name flags).1.2 (reg.requestName u name flags).2 := by
  unfold requestName
  split
  · next primary rest hq =>
    have hqueue : reg.queueOf name = primary :: rest := hq
    split
    · exact .keep reg u name
    next hne =>
    split
    · refine .set ?_ (List.cons_ne_nil _ _) ?_
      · rw [hqueue]
        refine .replace uniqueName_requestEntry hne ?_
        split
        · exact Or.inl rfl
        · exact Or.inr rfl
      · rw [hqueue]
        exact (changesOf_of_ne fun h => hne (Option.some.inj h)).symm
    split
    · exact .keep reg u name
    split
    · exact .keep reg u name
    next hnew =>
    refine .set ?_ (by simp) ?_
    · rw [hqueue]
      exact .wait rfl (inQueue_eq_false.mp (Bool.eq_false_iff.mpr hnew))
    · rw [hqueue]
      exact (changesOf_self _ _).symm
  · next hq =>
    have hqueue : reg.queueOf name = [] := hq
    refine .set ?_ (List.cons_ne_nil _ _) ?_
    · rw [hqueue]
      exact .first uniqueName_requestEntry
    · rw [hqueue]
      exact (changesOf_of_ne (Option.some_ne_none u).symm).symm

/-! ## Leaving -/

theorem primaryOwner_leaveQueue_ne : primaryOwner (leaveQueue u q) ≠ some u := by
  intro h
  obtain ⟨e, he, hu⟩ := Option.map_eq_some_iff.mp h
  have hmem : e.uniqueName ∈ owners (leaveQueue u q) := List.mem_map_of_mem (List.mem_of_head? he)
  rw [hu] at hmem
  exact not_mem_owners_leaveQueue hmem

/-- Who is not the owner leaves without a change of owner. -/
theorem primaryOwner_leaveQueue (h : primaryOwner q ≠ some u) :
    primaryOwner (leaveQueue u q) = primaryOwner q := by
  cases q with
  | nil => rfl
  | cons e q =>
    have he : (e.uniqueName != u) = true := by
      rw [bne_iff_ne]
      exact fun heq => h (congrArg some heq)
    have hleft : leaveQueue u (e :: q) = e :: leaveQueue u q := List.filter_cons_of_pos he
    rw [hleft]
    rfl

theorem leaveQueue_of_not_mem (h : inQueue u q = false) : leaveQueue u q = q := by
  refine List.filter_eq_self.mpr fun e he => ?_
  rw [bne_iff_ne]
  intro heq
  exact inQueue_eq_false.mp h (heq ▸ List.mem_map_of_mem he)

/-- **A connection leaves the queue for a name**, and nothing else. -/
theorem queueOf_releaseNameInternal (reg : Registry) (u name : String) :
    (reg.releaseNameInternal u name).2.queueOf name = leaveQueue u (reg.queueOf name) := by
  unfold releaseNameInternal
  split
  · next hnone =>
    rw [queueOf_eq_nil hnone]
    rfl
  · next q hq =>
    have hqueue : reg.queueOf name = q := by
      rw [queueOf, hq]
      rfl
    split
    · rw [hqueue]
      exact queueOf_putQueue
    · next hnew =>
      rw [hqueue, leaveQueue_of_not_mem (Bool.eq_false_iff.mpr hnew)]

/-- **It takes one step in this queue.** -/
theorem steps_releaseNameInternal (reg : Registry) (u name : String) :
    reg.Steps u name (reg.releaseNameInternal u name).1.toList
      (reg.releaseNameInternal u name).2 := by
  have hqueue := queueOf_releaseNameInternal reg u name
  refine ⟨?_, ?_, ?_, ?_, reg.namesOnly_releaseNameInternal u name⟩
  · rw [hqueue]
    exact .leave _
  · intro n hn
    unfold releaseNameInternal
    split
    · rfl
    · split
      · exact queue_putQueue_of_ne hn
      · rfl
  · rw [hqueue]
    unfold releaseNameInternal
    split
    · next hnone =>
      rw [queueOf_eq_nil hnone]
      rfl
    · next q hq =>
      rw [show reg.queueOf name = q by rw [queueOf, hq]; rfl]
      split
      · show (if primaryOwner q == some u then some _ else none).toList = _
        by_cases hprimary : primaryOwner q = some u
        · rw [if_pos (beq_iff_eq.mpr hprimary), hprimary,
            changesOf_of_ne primaryOwner_leaveQueue_ne.symm]
          rfl
        · rw [if_neg (fun h => hprimary (beq_iff_eq.mp h)), primaryOwner_leaveQueue hprimary,
            changesOf_self]
          rfl
      · next hnew =>
        rw [leaveQueue_of_not_mem (Bool.eq_false_iff.mpr hnew), changesOf_self]
        rfl
  · intro hreg
    unfold releaseNameInternal
    split
    · exact hreg
    · split
      · exact filled_putQueue hreg
      · exact hreg

/-- **A release takes one step in the queue for its name.** -/
theorem steps_releaseName (reg : Registry) (u name : String) :
    reg.Steps u name (reg.releaseName u name).1.2 (reg.releaseName u name).2 := by
  unfold releaseName
  split
  · exact .keep reg u name
  · split
    · exact steps_releaseNameInternal reg u name
    · exact .keep reg u name

/-! ## Removal -/

/-- The events about one name. -/
def changesFor (n : String) (changes : List NameOwnerChange) : List NameOwnerChange :=
  changes.filter fun e => e.name == n

theorem changesFor_changesOf {n : String} {old new : Option String} :
    changesFor n (changesOf name old new) = if n = name then changesOf name old new else [] := by
  unfold changesFor
  split
  · next hn =>
    exact List.filter_eq_self.mpr fun e he => beq_iff_eq.mpr (hn ▸ name_of_mem_changesOf he)
  · next hn =>
    refine List.filter_eq_nil_iff.mpr fun e he => ?_
    rw [beq_iff_eq, name_of_mem_changesOf he]
    exact fun h => hn h.symm

/-- **The events of one call about any name** are the change it makes to the
name's owner. -/
theorem Steps.changesFor {changes : List NameOwnerChange} (h : reg.Steps u name changes reg')
    (n : String) : changesFor n changes =
      changesOf n (primaryOwner (reg.queueOf n)) (primaryOwner (reg'.queueOf n)) := by
  rw [h.changes, changesFor_changesOf]
  split
  · next hn => rw [hn]
  · next hn =>
    have hsame : reg'.queueOf n = reg.queueOf n := congrArg (Option.getD · []) (h.others n hn)
    rw [hsame, changesOf_self]

/-- **A connection leaves the queues for some names**, one after the other. -/
theorem releaseNames_spec {names : List String} (hnames : names.Nodup) (reg : Registry)
    (u n : String) :
    (releaseNames u names reg).2.queueOf n =
        (if n ∈ names then leaveQueue u (reg.queueOf n) else reg.queueOf n) ∧
      changesFor n (releaseNames u names reg).1 = (if n ∈ names then
        changesOf n (primaryOwner (reg.queueOf n)) (primaryOwner (leaveQueue u (reg.queueOf n)))
        else []) ∧ (reg.Filled → (releaseNames u names reg).2.Filled) := by
  induction names generalizing reg with
  | nil => exact ⟨rfl, rfl, id⟩
  | cons name names ih =>
    obtain ⟨hname, hrest⟩ := List.nodup_cons.mp hnames
    have hstep := steps_releaseNameInternal reg u name
    obtain ⟨hqueue, hchanges, hfilled⟩ := ih hrest (reg.releaseNameInternal u name).2
    have happend : changesFor n (releaseNames u (name :: names) reg).1 =
        changesFor n (reg.releaseNameInternal u name).1.toList ++
          changesFor n (releaseNames u names (reg.releaseNameInternal u name).2).1 :=
      List.filter_append _ _
    rw [hstep.changes, changesFor_changesOf] at happend
    refine ⟨?_, ?_, fun hreg => hfilled (hstep.filled hreg)⟩
    · show (releaseNames u names (reg.releaseNameInternal u name).2).2.queueOf n = _
      rw [hqueue]
      by_cases hn : n = name
      · rw [hn, if_neg hname, if_pos List.mem_cons_self, queueOf_releaseNameInternal]
      · have hsame : (reg.releaseNameInternal u name).2.queueOf n = reg.queueOf n :=
          congrArg (Option.getD · []) (hstep.others n hn)
        rw [hsame]
        exact if_congr (List.mem_cons.trans (or_iff_right hn)).symm rfl rfl
    · rw [happend, hchanges]
      by_cases hn : n = name
      · rw [hn, if_pos rfl, if_neg hname, if_pos List.mem_cons_self, List.append_nil,
          queueOf_releaseNameInternal]
      · have hsame : (reg.releaseNameInternal u name).2.queueOf n = reg.queueOf n :=
          congrArg (Option.getD · []) (hstep.others n hn)
        rw [if_neg hn, hsame, List.nil_append]
        exact if_congr (List.mem_cons.trans (or_iff_right hn)).symm rfl rfl

/-- **A removed connection leaves every queue**, and nobody else does; every
name it owned has an event, and no other name but its own. -/
theorem removeConnection_spec {reg : Registry} {order : List String}
    (horder : order.Perm reg.names.keys) (u n : String) :
    (reg.removeConnection u order).2.queueOf n = leaveQueue u (reg.queueOf n) ∧
      (n ≠ u → changesFor n (reg.removeConnection u order).1 = changesOf n
        (primaryOwner (reg.queueOf n)) (primaryOwner (leaveQueue u (reg.queueOf n)))) ∧
      (reg.Filled → (reg.removeConnection u order).2.Filled) := by
  have hnodup : order.Nodup := horder.nodup_iff.mpr reg.names.keys_nodup
  obtain ⟨hqueue, hchanges, hfilled⟩ := releaseNames_spec hnodup
    { reg with connections := reg.connections.erase u } u n
  have habsent : n ∉ order → reg.queueOf n = [] := fun hn =>
    queueOf_eq_nil (AList.lookup_eq_none.mpr fun hmem => hn (horder.mem_iff.mpr hmem))
  refine ⟨hqueue.trans ?_, fun hu => ?_, hfilled⟩
  · split
    · rfl
    · next hn =>
      show reg.queueOf n = _
      rw [habsent hn]
      rfl
  · have happend : changesFor n (reg.removeConnection u order).1 =
        changesFor n (releaseNames u order
          { reg with connections := reg.connections.erase u }).1 ++
          changesFor n [⟨u, some u, none⟩] := List.filter_append _ _
    have hown : changesFor n [⟨u, some u, none⟩] = [] := by
      unfold changesFor
      rw [List.filter_cons_of_neg (by simpa using hu.symm), List.filter_nil]
    rw [happend, hown, List.append_nil, hchanges]
    split
    · rfl
    · next hn =>
      rw [habsent hn]
      rfl

/-- A connection whose unique name has no queue is announced as gone once. -/
theorem changesFor_removeConnection_self {reg : Registry} {order : List String}
    (horder : order.Perm reg.names.keys) (u : String) (hu : reg.queueOf u = []) :
    changesFor u (reg.removeConnection u order).1 = [⟨u, some u, none⟩] := by
  have hnodup : order.Nodup := horder.nodup_iff.mpr reg.names.keys_nodup
  obtain ⟨-, hchanges, -⟩ := releaseNames_spec hnodup
    { reg with connections := reg.connections.erase u } u u
  have hqueue : queueOf { reg with connections := reg.connections.erase u } u = [] := hu
  have hnone : changesFor u (releaseNames u order
      { reg with connections := reg.connections.erase u }).1 = [] := by
    rw [hchanges, hqueue]
    split <;> rfl
  have happend : changesFor u (reg.removeConnection u order).1 =
      changesFor u (releaseNames u order { reg with connections := reg.connections.erase u }).1 ++
        changesFor u [⟨u, some u, none⟩] := List.filter_append _ _
  rw [happend, hnone, List.nil_append]
  exact List.filter_cons_of_pos (beq_self_eq_true u)

end Registry

end Oxibus
