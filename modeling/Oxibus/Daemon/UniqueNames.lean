import Oxibus.Daemon.Annotated
import Oxibus.Daemon.Heralds
import Oxibus.Daemon.Presence

/-!
# The life of a unique name

A connection owns its unique name from the moment it is put into the table of
connections until it is taken out: the registry looks into the table and
nowhere else. The bus tells of it at other moments. The name is announced as
acquired when the first Hello of its connection is handled, and as lost when
the connection is removed, whether it has said Hello or not.

So what everyone is told about a unique name is at most two changes, the first one of
them for the first Hello, the second one for the removal, and between the two
the name has its owner and is listed. It has both as well while its connection
has yet to say Hello.
-/

namespace Oxibus

open BusProg Daemon

/-! ## What everyone is told -/

/-- **What is noted**: what each job has to tell of, and the changes whose
broadcasts have begun, the latest first. -/
structure Tidings where
  heralds : ℕ → Herald
  told : List NameOwnerChange

/-- The notes of what is told. -/
def tidings : Annotation Tidings where
  initial := ⟨fun _ => ⟨none, []⟩, []⟩
  after := fun _ i _ o r _ x =>
    ⟨Function.update x.heralds i (o.herald r (x.heralds i)), (x.heralds i).next o ++ x.told⟩

/-- A connection acquires its unique name. -/
def ConnectionEntry.acquisition (c : ConnectionEntry) : NameOwnerChange :=
  ⟨c.uniqueName, none, some c.uniqueName⟩

/-- It loses it. -/
def ConnectionEntry.loss (c : ConnectionEntry) : NameOwnerChange :=
  ⟨c.uniqueName, some c.uniqueName, none⟩

namespace BusEvent

/-- The first Hello of the connection with a unique name is handled. -/
def isFirstHello (n : String) : BusEvent → Bool
  | ⟨_, .swapRegistered c, false⟩ => c.uniqueName == n
  | _ => false

/-- The connection with a unique name is put into the table. -/
def isAdmission (n : String) : BusEvent → Bool
  | ⟨_, .addConnection c, _⟩ => c.uniqueName == n
  | _ => false

/-- It is removed. -/
def isRemoval (n : String) : BusEvent → Bool
  | ⟨_, .removeConnection u, _⟩ => u == n
  | _ => false

end BusEvent

/-- **The changes of a unique name that a log knows of**: one for the first Hello, and
one for the removal. -/
def ConnectionEntry.changes (c : ConnectionEntry) (log : List BusEvent) : List NameOwnerChange :=
  (if log.any (BusEvent.isFirstHello c.uniqueName) then [c.acquisition] else []) ++
    if log.any (BusEvent.isRemoval c.uniqueName) then [c.loss] else []

/-- **The life of a unique name.** When its connection has said Hello, everyone is told
of that and of the removal, but for what one job has yet to tell of; its owner
is there from the admission of its connection to the removal. -/
structure LifeCycle (S : Annotated Tidings) (c : ConnectionEntry) : Prop where
  told : S.daemon.world.log.any (BusEvent.isFirstHello c.uniqueName) = true →
    ∃ i, Registry.changesFor c.uniqueName S.note.told.reverse ++
      Registry.changesFor c.uniqueName (S.note.heralds i).pending =
        c.acquisition ::
          if S.daemon.world.log.any (BusEvent.isRemoval c.uniqueName) then [c.loss] else []
  /-- Nobody acquires a unique name without Hello. -/
  silent : S.daemon.world.log.any (BusEvent.isFirstHello c.uniqueName) = false →
    c.acquisition ∉ S.note.told
  /-- Nobody loses it twice, or stays. -/
  lost : S.note.told.count c.loss ≤ 1 ∧
    (c.loss ∈ S.note.told → S.daemon.world.log.any (BusEvent.isRemoval c.uniqueName) = true)
  /-- A job does nothing else as long as it has something to tell of. -/
  prompt : ∀ i j, S.daemon.jobs[i]? = some j → j.isBusy = false → (S.note.heralds i).pending = []
  /-- Every notice that is written is of a change that is told. -/
  genuine : ∀ s c' m r notice, (⟨s, .write c' m, r⟩ : BusEvent) ∈ S.daemon.world.log →
    m.notice = some notice → ∃ change ∈ S.note.told, change.notice = notice
  /-- The connection says Hello when it is in the table. -/
  admitted : S.daemon.world.log.any (BusEvent.isFirstHello c.uniqueName) = true →
    S.daemon.world.log.any (BusEvent.isAdmission c.uniqueName) = true
  owner : S.daemon.world.state.registry.getNameOwner c.uniqueName =
    if S.daemon.world.log.any (BusEvent.isAdmission c.uniqueName) = true ∧
      S.daemon.world.log.any (BusEvent.isRemoval c.uniqueName) = false then some c.uniqueName
    else none
  listed : c.uniqueName ∈ S.daemon.world.state.registry.listNames ↔
    S.daemon.world.log.any (BusEvent.isAdmission c.uniqueName) = true ∧
      S.daemon.world.log.any (BusEvent.isRemoval c.uniqueName) = false

variable {bus : Bus} {S S' : Annotated Tidings} {c : ConnectionEntry} {D : Daemon}
variable {i k : ℕ} {j j' : Job} {o : BusOp} {r : o.Res} {w : World} {n : String}
variable {t : Herald} {change : NameOwnerChange}

/-! ## What is told is what changes -/

/-- What is told next and what is to be told then is what was to be told, and what
changes. -/
theorem next_herald (ht : Tells o t) :
    t.next o ++ (o.herald r t).pending = t.pending ++ o.changes r := by
  by_cases ho : o.mayChange = true
  · have hnext : t.next o = [] := by
      cases o with
      | allConnections => cases ho
      | _ => rfl
    rw [hnext, herald_of_mayChange ho, ht.changes ho]
  · rw [BusOp.changes_eq_nil (Bool.not_eq_true _ ▸ ho), List.append_nil]
    cases o with
    | allConnections =>
      show t.pending.head?.toList ++ t.pending.tail = t.pending
      cases t.pending <;> rfl
    | swapRegistered => exact absurd rfl ho
    | requestName => exact absurd rfl ho
    | releaseName => exact absurd rfl ho
    | removeConnection => exact absurd rfl ho
    | _ => rfl

/-- What is being told of was told of before, or is told of next. -/
theorem telling_herald (h : (o.herald r t).telling = some change) :
    change ∈ t.next o ∨ t.telling = some change := by
  cases o with
  | allConnections => exact .inl (Option.mem_toList.mpr h)
  | _ => exact .inr h

/-- **The notes are about what the jobs do.** -/
structure Announcing (S : Annotated Tidings) : Prop where
  heralds : ∀ {i : ℕ} {j : Job}, S.daemon.jobs[i]? = some j → j.Heralds (S.note.heralds i)
  idle : ∀ i, S.daemon.jobs.length ≤ i → (S.note.heralds i).pending = []
  telling : ∀ i change, (S.note.heralds i).telling = some change → change ∈ S.note.told
  genuine : ∀ s c' m r notice, (⟨s, .write c' m, r⟩ : BusEvent) ∈ S.daemon.world.log →
    m.notice = some notice → ∃ change ∈ S.note.told, change.notice = notice

theorem announcing_new : Announcing tidings.new where
  heralds := nofun
  idle := fun _ _ => rfl
  telling := nofun
  genuine := fun _ _ _ _ _ hmem => absurd hmem List.not_mem_nil

theorem Announcing.step (h : Announcing S) (hs : tidings.Step bus S S') : Announcing S' := by
  cases hs with
  | accept peer =>
    refine ⟨fun {i j} hj => ?_, fun i hi => h.idle i ?_, h.telling, h.genuine⟩
    · rcases Slots.getElem?_concat_eq_some.mp hj with hj | ⟨rfl, rfl⟩
      · exact h.heralds hj
      · exact h.idle _ le_rfl
    · refine Nat.le_trans ?_ hi
      rw [List.length_append]
      exact Nat.le_add_right _ _
  | @job i j j' o r w hj hstep hexec =>
    obtain ⟨htells, hnext⟩ := (h.heralds hj).step hstep
    have hlt := Slots.lt_length_of_getElem? hj
    refine ⟨fun {k j₁} hk => ?_, fun k hk => ?_, fun k change hchange => ?_, ?_⟩
    · show j₁.Heralds (Function.update S.note.heralds i _ k)
      rcases getElem?_next_place hk with ⟨rfl, rfl⟩ | ⟨hne, hk⟩ | ⟨hle, hmem⟩
      · rwa [Function.update_self]
      · rw [Function.update_of_ne hne]
        exact h.heralds hk
      · -- a copy for a monitor
        rw [Function.update_of_ne (Nat.lt_of_lt_of_le hlt hle).ne']
        cases o with
        | spawnWrite c m =>
          rw [List.mem_singleton.mp hmem]
          exact ⟨htells.copies c m rfl, h.idle k hle⟩
        | _ => exact absurd hmem List.not_mem_nil
    · have hle : S.daemon.jobs.length ≤ k := Nat.le_trans (Slots.length_le_set_append _ _ _ _) hk
      show (Function.update S.note.heralds i _ k).pending = []
      rw [Function.update_of_ne (Nat.lt_of_lt_of_le hlt hle).ne']
      exact h.idle k hle
    · show change ∈ (S.note.heralds i).next o ++ S.note.told
      change (Function.update S.note.heralds i _ k).telling = some change at hchange
      refine List.mem_append.mpr ?_
      by_cases hk : k = i
      · rw [hk, Function.update_self] at hchange
        exact (telling_herald hchange).imp_right (h.telling i change)
      · rw [Function.update_of_ne hk] at hchange
        exact .inr (h.telling k change hchange)
    · intro s c' m r' notice hmem hnotice
      show ∃ change ∈ (S.note.heralds i).next o ++ S.note.told, _
      rw [show Annotated.daemon _ = _ from rfl, show w.log = _ from hexec.2] at hmem
      rcases List.mem_cons.mp hmem with heq | hmem
      · cases heq
        obtain ⟨change, hchange, hnotice⟩ := htells.writes c' m notice rfl hnotice
        exact ⟨change, List.mem_append_right _ (h.telling i change hchange), hnotice⟩
      · obtain ⟨change, hchange, hnotice⟩ := h.genuine s c' m r' notice hmem hnotice
        exact ⟨change, List.mem_append_right _ hchange, hnotice⟩

theorem Annotated.announcing (h : tidings.Reachable bus S) : Announcing S := by
  induction h with
  | refl => exact announcing_new
  | tail _ hs ih => exact ih.step hs

/-! ## The changes of a unique name -/

/-- Of the first Hello there is a change to tell of. -/
theorem changesFor_of_isFirstHello {s : BusState}
    (h : BusEvent.isFirstHello n ⟨s, o, r⟩ = true) :
    Registry.changesFor n (o.changes r) = [⟨n, none, some n⟩] := by
  cases o with
  | swapRegistered c =>
    cases r with
    | true => cases h
    | false =>
      rw [← beq_iff_eq.mp h]
      exact List.filter_cons_of_pos (beq_self_eq_true _)
  | _ => cases h

/-- Who has announced nothing about a unique name has handled no Hello of its
connection. -/
theorem not_isFirstHello_of_announced {log : List BusEvent} (h : announced n log = []) :
    log.any (BusEvent.isFirstHello n) = false := by
  induction log with
  | nil => rfl
  | cons e log ih =>
    obtain ⟨hold, hnew⟩ := List.append_eq_nil_iff.mp h
    rw [List.any_cons, ih hold, Bool.or_false, Bool.eq_false_iff]
    intro hhello
    have hchanges := List.map_eq_nil_iff.mp hnew
    rw [changesFor_of_isFirstHello hhello] at hchanges
    cases hchanges

/-- **The jobs that have changes of a unique name to tell of**: one at most, and it
speaks for the connection until that is removed. -/
structure Reported (S : Annotated Tidings) (c : ConnectionEntry) (i : ℕ) : Prop where
  changes : Registry.changesFor c.uniqueName S.note.told.reverse ++
    Registry.changesFor c.uniqueName (S.note.heralds i).pending = c.changes S.daemon.world.log
  others : ∀ k, k ≠ i → Registry.changesFor c.uniqueName (S.note.heralds k).pending = []
  holder : Registry.changesFor c.uniqueName (S.note.heralds i).pending ≠ [] →
    S.daemon.world.log.any (BusEvent.isRemoval c.uniqueName) = true ∨
      ∃ j c', S.daemon.jobs[i]? = some j ∧ j.entry = some c' ∧ c'.id = c.id

theorem reported_new (c : ConnectionEntry) : Reported tidings.new c 0 where
  changes := rfl
  others := fun _ _ => rfl
  holder := fun h => absurd rfl h

/-- Nobody speaks for a connection that was removed. -/
theorem Daemon.Reachable.silent_of_isRemoval (h : Reachable bus D)
    (hremoved : D.world.log.any (BusEvent.isRemoval c.uniqueName) = true)
    (hj : D.jobs[i]? = some j) :
    ∀ c', j.entry = some c' → c'.id ≠ c.id := by
  obtain ⟨⟨s, o, r⟩, hmem, hremoval⟩ := List.any_eq_true.mp hremoved
  cases o with
  | removeConnection u =>
    obtain ⟨id, hu, hgone⟩ := h.present.removed s u r hmem
    have hid : id = c.id := uniqueName_injective (hu.symm.trans (beq_iff_eq.mp hremoval))
    rw [← hid]
    exact hgone.silent j (List.mem_of_getElem? hj)
  | _ => cases hremoval

/-- **The changes of a unique name in one step**: none, or its connection acquires it
by its first Hello, or loses it by the removal. -/
theorem Daemon.Reachable.changes_step (hreach : Reachable bus D) (hj : D.jobs[i]? = some j)
    (hstep : JobStep bus j o r j') (hexec : World.Exec o D.world r w) (c : ConnectionEntry) :
    c.changes w.log = c.changes D.world.log ++ Registry.changesFor c.uniqueName (o.changes r) ∧
      (Registry.changesFor c.uniqueName (o.changes r) ≠ [] →
        ∃ c', j.entry = some c' ∧ c'.id = c.id) := by
  have hsettled := hreach.sessions.settled hj
  have hlog : w.log = ⟨D.world.state, o, r⟩ :: D.world.log := hexec.2
  have hstay : ∀ {c'}, j.entry = some c' → c'.id = c.id →
      D.world.log.any (BusEvent.isRemoval c.uniqueName) = false :=
    fun hentry hid => Bool.eq_false_iff.mpr fun hremoved =>
      hreach.silent_of_isRemoval hremoved hj _ hentry hid
  have hn : startsWithColon c.uniqueName = true := startsWithColon_uniqueName c.id
  rcases hreach.changesFor_unique hj hstep hexec hn with
    hnone | ⟨c', rfl, hreg, hname, hchange⟩ | ⟨rfl, hchange⟩
  · have hfirst : BusEvent.isFirstHello c.uniqueName ⟨D.world.state, o, r⟩ = false := by
      refine Bool.eq_false_iff.mpr fun hhello => ?_
      rw [changesFor_of_isFirstHello hhello] at hnone
      cases hnone
    have hremoval : BusEvent.isRemoval c.uniqueName ⟨D.world.state, o, r⟩ = false := by
      refine Bool.eq_false_iff.mpr fun hremoval => ?_
      cases o with
      | removeConnection u =>
        have hself := hexec.1.mem_changesFor_removeConnection
        rw [beq_iff_eq.mp hremoval,
          show Registry.changesFor c.uniqueName r = [] from hnone] at hself
        cases hself
      | _ => cases hremoval
    refine ⟨?_, fun h => absurd hnone h⟩
    unfold ConnectionEntry.changes
    rw [hlog, List.any_cons, List.any_cons, hfirst, hremoval, Bool.false_or, Bool.false_or, hnone,
      List.append_nil]
  · obtain ⟨hentry, -⟩ := hstep.swapRegistered hsettled
    have hid : c'.id = c.id := uniqueName_injective hname
    have hfirst := not_isFirstHello_of_announced (hreach.truthful.unregistered hj hentry hreg)
    rw [hname] at hfirst
    have hr : r = false := hexec.1.1.trans hreg
    subst hr
    have hhello : BusEvent.isFirstHello c.uniqueName ⟨D.world.state, .swapRegistered c', false⟩ =
      true := beq_iff_eq.mpr hname
    refine ⟨?_, fun _ => ⟨c', hentry, hid⟩⟩
    unfold ConnectionEntry.changes
    rw [hlog, List.any_cons, List.any_cons, hhello, hfirst, hstay hentry hid, hchange]
    rfl
  · obtain ⟨c', hentry, hname, -⟩ := hstep.removeConnection hsettled
    have hid : c'.id = c.id := uniqueName_injective hname
    have hremoval : BusEvent.isRemoval c.uniqueName
      ⟨D.world.state, .removeConnection c.uniqueName, r⟩ = true := beq_self_eq_true _
    have hfirst : BusEvent.isFirstHello c.uniqueName
      ⟨D.world.state, .removeConnection c.uniqueName, r⟩ = false := rfl
    refine ⟨?_, fun _ => ⟨c', hentry, hid⟩⟩
    unfold ConnectionEntry.changes
    rw [hlog, List.any_cons, List.any_cons, hremoval, hfirst, Bool.false_or, Bool.true_or,
      hstay hentry hid, hchange, if_pos rfl, if_neg Bool.false_ne_true, List.append_nil]
    rfl

theorem reverse_next : (t.next o).reverse = t.next o := by
  cases o with
  | allConnections =>
    show t.pending.head?.toList.reverse = t.pending.head?.toList
    cases t.pending <;> rfl
  | _ => rfl

/-- A job speaks for its connection until that is removed. -/
theorem JobStep.entry_of_ne {c' : ConnectionEntry} (hstep : JobStep bus j o r j')
    (hc : j.entry = some c') (ho : o ≠ .removeConnection c'.uniqueName) : j'.entry = some c' := by
  cases hstep with
  | add => exact hc
  | read => exact hc
  | readFailed => exact hc
  | dispatch => exact hc
  | remove =>
    cases hc
    exact absurd rfl ho
  | _ => cases hc

namespace Reported

/-- A job that changes the unique name is the one that has changes of it to tell of, if any
has. -/
theorem holds (h : Reported S c i) (hreach : Daemon.Reachable bus S.daemon)
    (hj : S.daemon.jobs[k]? = some j) {c' : ConnectionEntry} (hentry : j.entry = some c')
    (hid : c'.id = c.id) : Reported S c k := by
  by_cases hik : i = k
  · exact hik ▸ h
  have hnone : Registry.changesFor c.uniqueName (S.note.heralds i).pending = [] := by
    by_contra hne
    rcases h.holder hne with hremoved | ⟨j₀, c₀, hj₀, hentry₀, hid₀⟩
    · exact hreach.silent_of_isRemoval hremoved hj _ hentry hid
    · exact hik (hreach.sessions.distinct hj₀ hj hentry₀ hentry (hid₀.trans hid.symm))
  refine ⟨?_, fun m hm => ?_, fun hne => absurd (h.others k (Ne.symm hik)) hne⟩
  · rw [h.others k (Ne.symm hik), ← hnone]
    exact h.changes
  · by_cases hmi : m = i
    · exact hmi ▸ hnone
    · exact h.others m hmi

/-- A connection is accepted. -/
theorem accept (h : Reported S c i) (peer : PeerCredentials) : Reported
    { S with daemon := { S.daemon with jobs := S.daemon.jobs ++ [.accepted peer] } } c i where
  changes := h.changes
  others := h.others
  holder := by
    intro hne
    refine (h.holder hne).imp_right ?_
    rintro ⟨j, c', hj, hc'⟩
    exact ⟨j, c', (List.getElem?_append_left (Slots.lt_length_of_getElem? hj)).trans hj, hc'⟩

/-- **A job makes a step**, the one that has something to tell of if it changes the
name. -/
theorem job (h : Reported S c i) (hreach : Daemon.Reachable bus S.daemon) (hann : Announcing S)
    (hj : S.daemon.jobs[k]? = some j) (hstep : JobStep bus j o r j')
    (hexec : World.Exec o S.daemon.world r w)
    (hk : Registry.changesFor c.uniqueName (o.changes r) ≠ [] → k = i) :
    Reported ⟨⟨w, S.daemon.jobs.set k j' ++ o.spawned⟩,
      tidings.after S.daemon k j o r w S.note⟩ c i := by
  obtain ⟨hshape, hspeaks⟩ := hreach.changes_step hj hstep hexec c
  have hbalance := congrArg (Registry.changesFor c.uniqueName)
    (next_herald (r := r) ((hann.heralds hj).step hstep).1)
  unfold Registry.changesFor at hbalance
  rw [List.filter_append, List.filter_append] at hbalance
  -- the others have nothing to tell of the name, and change nothing of it
  have hothers : k ≠ i → Registry.changesFor c.uniqueName ((S.note.heralds k).next o) = [] ∧
      Registry.changesFor c.uniqueName (o.herald r (S.note.heralds k)).pending = [] ∧
      Registry.changesFor c.uniqueName (o.changes r) = [] := by
    intro hki
    have hnone : Registry.changesFor c.uniqueName (o.changes r) = [] :=
      of_not_not fun hne => hki (hk hne)
    have hempty := hbalance.trans (by
      rw [show List.filter _ (S.note.heralds k).pending = [] from h.others k hki,
        show List.filter _ (o.changes r) = [] from hnone, List.append_nil])
    obtain ⟨hnext, hpending⟩ := List.append_eq_nil_iff.mp hempty
    exact ⟨hnext, hpending, hnone⟩
  refine ⟨?_, fun m hm => ?_, fun hne => ?_⟩
  · show Registry.changesFor c.uniqueName ((S.note.heralds k).next o ++ S.note.told).reverse ++
      Registry.changesFor c.uniqueName (Function.update S.note.heralds k _ i).pending =
        c.changes w.log
    rw [hshape, ← h.changes, List.reverse_append, reverse_next]
    unfold Registry.changesFor
    rw [List.filter_append, List.append_assoc, List.append_assoc]
    refine congrArg _ ?_
    by_cases hki : k = i
    · rw [hki] at hbalance ⊢
      rw [Function.update_self]
      exact hbalance
    · obtain ⟨hnext, -, hnone⟩ := hothers hki
      rw [Function.update_of_ne (Ne.symm hki), show List.filter _ ((S.note.heralds k).next o) = []
        from hnext, show List.filter _ (o.changes r) = [] from hnone, List.append_nil,
        List.nil_append]
  · show Registry.changesFor c.uniqueName (Function.update S.note.heralds k _ m).pending = []
    by_cases hmk : m = k
    · rw [hmk, Function.update_self]
      exact (hothers (hmk ▸ hm)).2.1
    · rw [Function.update_of_ne hmk]
      exact h.others m hm
  · change Registry.changesFor c.uniqueName
      (Function.update S.note.heralds k _ i).pending ≠ [] at hne
    show w.log.any _ = true ∨ ∃ j c', (S.daemon.jobs.set k j' ++ o.spawned)[i]? = some j ∧ _
    have hspeaker : S.daemon.world.log.any (BusEvent.isRemoval c.uniqueName) = true ∨
        ∃ j c', S.daemon.jobs[i]? = some j ∧ j.entry = some c' ∧ c'.id = c.id := by
      by_cases hki : k = i
      · rw [hki] at hj hbalance hne
        rw [Function.update_self] at hne
        by_cases hnone : Registry.changesFor c.uniqueName (o.changes r) = []
        · refine h.holder fun hpending => hne ?_
          have hempty := hbalance.trans (by
            rw [show List.filter _ (S.note.heralds i).pending = [] from hpending,
              show List.filter _ (o.changes r) = [] from hnone, List.append_nil])
          exact (List.append_eq_nil_iff.mp hempty).2
        · obtain ⟨c', hentry, hid⟩ := hspeaks hnone
          exact .inr ⟨j, c', hj, hentry, hid⟩
      · rw [Function.update_of_ne (Ne.symm hki)] at hne
        exact h.holder hne
    rw [show w.log = _ from hexec.2, List.any_cons, Bool.or_eq_true]
    rcases hspeaker with hremoved | ⟨j₀, c', hj₀, hentry, hid⟩
    · exact .inl (.inr hremoved)
    by_cases hremoval : o = .removeConnection c'.uniqueName
    · subst hremoval
      refine .inl (.inl (beq_iff_eq.mpr ?_))
      exact congrArg uniqueName hid
    refine .inr ?_
    by_cases hki : k = i
    · subst hki
      rw [hj] at hj₀
      cases hj₀
      exact ⟨j', c', Slots.getElem?_set_append_self hj, hstep.entry_of_ne hentry hremoval, hid⟩
    · exact ⟨j₀, c', Slots.getElem?_set_append_of_ne hj₀ hki, hentry, hid⟩

end Reported

/-- **In every run one job at most has changes of a unique name to tell of.** -/
theorem Annotated.reported (h : tidings.Reachable bus S) (c : ConnectionEntry) :
    ∃ i, Reported S c i := by
  induction h with
  | refl => exact ⟨0, reported_new c⟩
  | @tail S _ hrun hs ih =>
    obtain ⟨i, h⟩ := ih
    have hreach := Annotation.Reachable.daemon hrun
    cases hs with
    | accept peer => exact ⟨i, h.accept peer⟩
    | @job k j j' o r w hj hstep hexec =>
      have hann := Annotated.announcing hrun
      by_cases hnone : Registry.changesFor c.uniqueName (o.changes r) = []
      · exact ⟨i, h.job hreach hann hj hstep hexec fun hne => absurd hnone hne⟩
      · obtain ⟨c', hentry, hid⟩ := (hreach.changes_step hj hstep hexec c).2 hnone
        exact ⟨k, (h.holds hreach hj hentry hid).job hreach hann hj hstep hexec fun _ => rfl⟩

/-! ## Who is visible -/

/-- Who is put into the table is found under the unique name. -/
theorem BusOp.Exec.get_addConnection {s s' : BusState} {r : Unit} {c' : ConnectionEntry}
    (h : BusOp.Exec (.addConnection c') s r s') :
    s'.registry.get n = if n = c'.uniqueName then some c' else s.registry.get n := by
  unfold Registry.get
  rw [h.connections]
  split
  · next hname => exact hname ▸ AList.lookup_insert _
  · next hname => exact AList.lookup_insert_ne hname

/-- Who is removed is not found any more. -/
theorem BusOp.Exec.get_removeConnection {s s' : BusState} {r : List NameOwnerChange} {u : String}
    (h : BusOp.Exec (.removeConnection u) s r s') :
    s'.registry.get n = if n = u then none else s.registry.get n := by
  unfold Registry.get
  rw [h.connections]
  split
  · next hname => exact hname ▸ AList.lookup_erase _ _
  · next hname => exact AList.lookup_erase_ne hname

/-- **The connection is in the table** from its admission to its removal. -/
theorem Daemon.Reachable.isSome_get (h : Reachable bus D) (c : ConnectionEntry) :
    (D.world.state.registry.get c.uniqueName).isSome = true ↔
      D.world.log.any (BusEvent.isAdmission c.uniqueName) = true ∧
        D.world.log.any (BusEvent.isRemoval c.uniqueName) = false := by
  induction h with
  | refl => exact ⟨nofun, fun h => h.1⟩
  | @tail D _ hrun hs ih =>
    have hrun : Reachable bus D := hrun
    cases hs with
    | accept peer => exact ih
    | @job i j j' o r w hj hstep hexec =>
      show (w.state.registry.get c.uniqueName).isSome = true ↔
        w.log.any _ = true ∧ w.log.any _ = false
      rw [show w.log = _ from hexec.2, List.any_cons, List.any_cons]
      cases o with
      | addConnection c' =>
        obtain ⟨hentry, -⟩ := hstep.addConnection (hrun.sessions.settled hj)
        rw [hexec.1.get_addConnection]
        by_cases hname : c.uniqueName = c'.uniqueName
        · have hstay : D.world.log.any (BusEvent.isRemoval c.uniqueName) = false := by
            refine Bool.eq_false_iff.mpr fun hremoved => ?_
            exact hrun.silent_of_isRemoval hremoved hj _ hentry (uniqueName_injective hname.symm)
          have hadmission : BusEvent.isAdmission c.uniqueName
            ⟨D.world.state, .addConnection c', r⟩ = true := beq_iff_eq.mpr hname.symm
          rw [if_pos hname, hadmission, hstay]
          exact ⟨fun _ => ⟨rfl, rfl⟩, fun _ => rfl⟩
        · have hadmission : BusEvent.isAdmission c.uniqueName
            ⟨D.world.state, .addConnection c', r⟩ = false :=
            beq_eq_false_iff_ne.mpr (Ne.symm hname)
          rw [if_neg hname, hadmission]
          exact ih
      | removeConnection u =>
        rw [hexec.1.get_removeConnection]
        by_cases hname : c.uniqueName = u
        · have hremoval : BusEvent.isRemoval c.uniqueName
            ⟨D.world.state, .removeConnection u, r⟩ = true := beq_iff_eq.mpr hname.symm
          rw [if_pos hname, hremoval]
          exact ⟨nofun, fun h => Bool.noConfusion h.2⟩
        · have hremoval : BusEvent.isRemoval c.uniqueName
            ⟨D.world.state, .removeConnection u, r⟩ = false :=
            beq_eq_false_iff_ne.mpr (Ne.symm hname)
          rw [if_neg hname, hremoval]
          exact ih
      | _ =>
        unfold Registry.get at ih ⊢
        rw [hexec.1.connections]
        exact ih

/-- A unique name is listed if its connection is in the table. -/
theorem Daemon.Reachable.mem_listNames_unique (h : Reachable bus D)
    (hn : startsWithColon n = true) :
    n ∈ D.world.state.registry.listNames ↔ (D.world.state.registry.get n).isSome = true := by
  have hqueue := h.queueOf_unique hn
  have hother : n ∉ ((D.world.state.registry.names.entries.filter fun e => !e.2.isEmpty).map
      Sigma.fst) := by
    intro hmem
    obtain ⟨⟨n', q⟩, hq, rfl⟩ := List.mem_map.mp hmem
    obtain ⟨hmem, hne⟩ := List.mem_filter.mp hq
    rw [Registry.queueOf, show D.world.state.registry.queue n' = some q from
      AList.mem_lookup_iff.mpr hmem] at hqueue
    rw [show q = [] from hqueue] at hne
    cases hne
  rw [Registry.listNames, List.mem_append, or_iff_left hother, Registry.get,
    AList.lookup_isSome]
  exact AList.mem_keys.symm

/-- Who says Hello has been admitted. -/
theorem Daemon.Reachable.isAdmission_of_isFirstHello (h : Reachable bus D) (c : ConnectionEntry)
    (hhello : D.world.log.any (BusEvent.isFirstHello c.uniqueName) = true) :
    D.world.log.any (BusEvent.isAdmission c.uniqueName) = true := by
  induction h with
  | refl => cases hhello
  | @tail D _ hrun hs ih =>
    have hrun : Reachable bus D := hrun
    cases hs with
    | accept peer => exact ih hhello
    | @job i j j' o r w hj hstep hexec =>
      change w.log.any _ = true at hhello
      show w.log.any _ = true
      rw [show w.log = _ from hexec.2, List.any_cons, Bool.or_eq_true] at hhello ⊢
      rcases hhello with hhello | hhello
      · cases o with
        | swapRegistered c' =>
          cases r with
          | true => cases hhello
          | false =>
            obtain ⟨-, hget⟩ := hstep.swapRegistered (hrun.sessions.settled hj)
            rw [beq_iff_eq.mp hhello] at hget
            exact .inr ((hrun.isSome_get c).mp (by rw [hget]; rfl)).1
        | _ => cases hhello
      · exact .inr (ih hhello)

/-! ## The life of a unique name -/

namespace Reported

/-- What is told of is a change that the log knows of. -/
theorem mem_changes (h : Reported S c i) (hname : change.name = c.uniqueName)
    (hchange : change ∈ S.note.told) : change ∈ c.changes S.daemon.world.log := by
  rw [← h.changes]
  refine List.mem_append_left _ (List.mem_filter.mpr ⟨?_, beq_iff_eq.mpr hname⟩)
  exact List.mem_reverse.mpr hchange

theorem silent (h : Reported S c i)
    (hhello : S.daemon.world.log.any (BusEvent.isFirstHello c.uniqueName) = false) :
    c.acquisition ∉ S.note.told := by
  intro hmem
  have hchange := h.mem_changes rfl hmem
  unfold ConnectionEntry.changes at hchange
  rw [hhello, if_neg Bool.false_ne_true, List.nil_append] at hchange
  split at hchange
  · cases List.mem_singleton.mp hchange
  · cases hchange

theorem lost (h : Reported S c i) (hmem : c.loss ∈ S.note.told) :
    S.daemon.world.log.any (BusEvent.isRemoval c.uniqueName) = true := by
  have hchange := h.mem_changes rfl hmem
  by_contra hnot
  unfold ConnectionEntry.changes at hchange
  rw [if_neg hnot, List.append_nil] at hchange
  split at hchange
  · cases List.mem_singleton.mp hchange
  · cases hchange

/-- **The loss is told of once.** -/
theorem count_loss_le (h : Reported S c i) : S.note.told.count c.loss ≤ 1 := by
  have hne : (c.acquisition == c.loss) = false := by
    refine beq_eq_false_iff_ne.mpr fun heq => ?_
    cases congrArg NameOwnerChange.newOwner heq
  calc S.note.told.count c.loss
      = (Registry.changesFor c.uniqueName S.note.told.reverse).count c.loss := by
        rw [← List.count_reverse]
        symm
        refine List.count_filter (p := fun e : NameOwnerChange => e.name == c.uniqueName) ?_
        exact beq_self_eq_true c.uniqueName
    _ ≤ (c.changes S.daemon.world.log).count c.loss := by
        rw [← h.changes, List.count_append]
        exact Nat.le_add_right _ _
    _ ≤ 1 := by
        unfold ConnectionEntry.changes
        rw [List.count_append]
        split <;> split <;> simp [List.count_cons, hne]

end Reported

/-- **In every run every unique name has its life**: everyone is told that it is acquired
for the first Hello of its connection, and then that it is lost for the removal;
and its owner is there from the admission to the removal. -/
theorem lifeCycle_of_reachable (h : tidings.Reachable bus S) (c : ConnectionEntry) :
    LifeCycle S c := by
  have hreach := h.daemon
  have hann := Annotated.announcing h
  obtain ⟨i, hreported⟩ := Annotated.reported h c
  have hn : startsWithColon c.uniqueName = true := startsWithColon_uniqueName c.id
  have hget := hreach.isSome_get c
  refine ⟨fun hhello => ⟨i, ?_⟩, hreported.silent, ⟨hreported.count_loss_le, hreported.lost⟩,
    fun i j hj hbusy => (hann.heralds hj).pending hbusy, hann.genuine,
    hreach.isAdmission_of_isFirstHello c, ?_,
    (hreach.mem_listNames_unique hn).trans hget⟩
  · rw [hreported.changes, ConnectionEntry.changes, if_pos hhello]
    rfl
  rw [Registry.getNameOwner, if_pos hn]
  by_cases hthere : (S.daemon.world.state.registry.get c.uniqueName).isSome = true
  · rw [if_pos (hget.mp hthere)]
    obtain ⟨c', hc'⟩ := Option.isSome_iff_exists.mp hthere
    rw [hc']
    rfl
  · rw [if_neg fun hboth => hthere (hget.mpr hboth)]
    rw [Option.not_isSome_iff_eq_none.mp hthere]
    rfl

/-! ## A connection that leaves without Hello -/

/-- **The life that is told of**: a unique name that is lost has been acquired, and
it has an owner and is listed while it has been acquired and has not been
lost. -/
structure LifeAsTold (S : Annotated Tidings) (c : ConnectionEntry) : Prop where
  lost : c.loss ∈ S.note.told → c.acquisition ∈ S.note.told
  owner : (S.daemon.world.state.registry.getNameOwner c.uniqueName).isSome = true ↔
    c.acquisition ∈ S.note.told ∧ c.loss ∉ S.note.told
  listed : c.uniqueName ∈ S.daemon.world.state.registry.listNames ↔
    c.acquisition ∈ S.note.told ∧ c.loss ∉ S.note.told

/-- A client connects and says nothing. -/
def silentScript : List Instruction := [.accept ⟨1000, 1000, 4711⟩, .run 0 8]

/-- It is there. -/
def silentThere : Annotated Tidings := tidings.replay plainBus silentScript

/-- It leaves, is removed, and everyone is told. -/
def silentGone : Annotated Tidings :=
  tidings.advances plainBus 0 3 (tidings.hangUp 0 silentThere)

theorem reachable_silentThere : tidings.Reachable plainBus silentThere :=
  tidings.reachable_replay silentScript

theorem reachable_silentGone : tidings.Reachable plainBus silentGone :=
  (reachable_silentThere.trans (tidings.steps_hangUp 0)).trans (tidings.steps_advances 0 3)

/-- **A client that says nothing does not live as told**: its name has an owner and is listed,
and has not been acquired; and when it leaves, the loss of a name is told of that was never
acquired. -/
theorem not_lifeAsTold_of_silent :
    (¬ ∀ (bus : Bus) (S : Annotated Tidings), tidings.Reachable bus S → ∀ c : ConnectionEntry,
      (S.daemon.world.state.registry.getNameOwner c.uniqueName).isSome = true ∧
        c.uniqueName ∈ S.daemon.world.state.registry.listNames → c.acquisition ∈ S.note.told) ∧
    ¬ ∀ (bus : Bus) (S : Annotated Tidings), tidings.Reachable bus S → ∀ c, LifeAsTold S c := by
  constructor
  · intro h
    have hacquired := h plainBus silentThere reachable_silentThere (peerConnection 1)
      ⟨by decide +kernel, by decide +kernel⟩
    exact absurd hacquired (by decide +kernel)
  · intro h
    have hlife := h plainBus silentGone reachable_silentGone (peerConnection 1)
    exact absurd (hlife.lost (by decide +kernel)) (by decide +kernel)

/-- A client connects, says Hello and leaves. -/
def greetedGone : Annotated Tidings :=
  tidings.advances plainBus 0 40 (tidings.hangUp 0 (tidings.replay plainBus (silentScript ++
    [.receive 0 (frameOf (driverCall "Hello" [] 1)), .run 0 50])))

theorem reachable_greetedGone : tidings.Reachable plainBus greetedGone :=
  ((tidings.reachable_replay _).trans (tidings.steps_hangUp 0)).trans (tidings.steps_advances 0 40)

/-- Everyone was told that its name was acquired, and then that it was lost. -/
theorem lifeCycle_greeted :
    greetedGone.note.told = [(peerConnection 1).loss, (peerConnection 1).acquisition] ∧
      LifeCycle greetedGone (peerConnection 1) :=
  ⟨by decide +kernel, lifeCycle_of_reachable reachable_greetedGone (peerConnection 1)⟩

end Oxibus
