import Oxibus.Daemon.Ownership

/-!
# What a request for a name leads to

A request answers with one of four replies and may change the queue for the
name. `Requested` lists the six ways it can go, and two questions about
requests are answered from the list.

Does the reply say where the connection now stands? It does, but for one who
waits already and asks again without wanting to wait: it is told that the name
exists, as if it stood nowhere, and goes on waiting (`describes_iff`).

And which of its flags count, if a connection has asked more than once? The
flags are written down with a place in the queue, when the connection enters
the queue or takes the name over. A request of one who has a place already is
answered and forgotten, flags and all. So the latest flags count exactly if
the latest request asked for the same as the one that was written down
(`latestFlagsCount_iff`).
-/

namespace Oxibus

open Registry

/-- Whether a request has a flag. -/
def hasFlag (flags flag : UInt32) : Bool := flags &&& flag != 0

/-- Whether the owner lets the request have the name. -/
def replaces (flags : UInt32) (primary : QueueEntry) : Bool :=
  hasFlag flags flagReplaceExisting && primary.allowReplacement

/-- **How a request can go**: the queue before it, its reply, and the queue after it. -/
inductive Requested (u : String) (flags : UInt32) :
    List QueueEntry → UInt32 → List QueueEntry → Prop where
  /-- Nobody has the name. -/
  | first : Requested u flags [] requestReplyPrimaryOwner [requestEntry u flags]
  /-- The connection has it. -/
  | already {primary : QueueEntry} {rest : List QueueEntry} (howner : primary.uniqueName = u) :
    Requested u flags (primary :: rest) requestReplyAlreadyOwner (primary :: rest)
  /-- It takes the place of the owner, who goes to the end if it is willing to wait. -/
  | replace {primary : QueueEntry} {rest : List QueueEntry} (howner : primary.uniqueName ≠ u)
    (hreplaces : replaces flags primary = true) :
    Requested u flags (primary :: rest) requestReplyPrimaryOwner
      (requestEntry u flags :: (leaveQueue u rest ++ if primary.doNotQueue then [] else [primary]))
  /-- It does not want to wait. -/
  | refuse {primary : QueueEntry} {rest : List QueueEntry} (howner : primary.uniqueName ≠ u)
    (hreplaces : replaces flags primary = false) (hqueue : hasFlag flags flagDoNotQueue = true) :
    Requested u flags (primary :: rest) requestReplyExists (primary :: rest)
  /-- It waits already. -/
  | wait {primary : QueueEntry} {rest : List QueueEntry} (howner : primary.uniqueName ≠ u)
    (hreplaces : replaces flags primary = false) (hqueue : hasFlag flags flagDoNotQueue = false)
    (hmem : u ∈ owners (primary :: rest)) :
    Requested u flags (primary :: rest) requestReplyInQueue (primary :: rest)
  /-- It goes to the end of the queue. -/
  | join {primary : QueueEntry} {rest : List QueueEntry} (howner : primary.uniqueName ≠ u)
    (hreplaces : replaces flags primary = false) (hqueue : hasFlag flags flagDoNotQueue = false)
    (hnew : u ∉ owners (primary :: rest)) :
    Requested u flags (primary :: rest) requestReplyInQueue
      (primary :: rest ++ [requestEntry u flags])

namespace Registry

variable {reg reg' : Registry} {u name : String} {flags : UInt32} {q q' : List QueueEntry}
  {reply : UInt32}

/-- **Every request goes one of these ways.** -/
theorem requested (reg : Registry) (u name : String) (flags : UInt32) :
    Requested u flags (reg.queueOf name) (reg.requestName u name flags).1.1
      ((reg.requestName u name flags).2.queueOf name) := by
  unfold requestName
  split
  · next primary rest hq =>
    have hqueue : reg.queueOf name = primary :: rest := hq
    split
    · next howner =>
      rw [hqueue]
      exact .already howner
    next howner =>
    split
    · next hreplaces =>
      simp only [queueOf_setQueue, hqueue]
      exact .replace howner hreplaces
    next hreplaces =>
    have hreplaces : replaces flags primary = false := Bool.eq_false_iff.mpr hreplaces
    split
    · next hdnq =>
      rw [hqueue]
      exact .refuse howner hreplaces hdnq
    next hdnq =>
    have hdnq : hasFlag flags flagDoNotQueue = false := Bool.eq_false_iff.mpr hdnq
    split
    · next hin =>
      rw [hqueue]
      refine .wait howner hreplaces hdnq ?_
      by_contra hnot
      rw [inQueue_eq_false.mpr hnot] at hin
      cases hin
    · next hnew =>
      have hentry : { requestEntry u flags with doNotQueue := false } = requestEntry u flags := by
        rw [requestEntry, ← hdnq]
        rfl
      rw [queueOf_setQueue, hqueue, hentry]
      exact .join howner hreplaces hdnq (inQueue_eq_false.mp (Bool.eq_false_iff.mpr hnew))
  · next hq =>
    have hqueue : reg.queueOf name = [] := hq
    rw [queueOf_setQueue, hqueue]
    exact .first

/-! ## What the reply says -/

/-- **A reply describes a queue**: who is told to own the name is the first in it, who is
told to wait is behind the first, and who is told that the name exists is not in it. -/
structure Describes (reply : UInt32) (u : String) (q : List QueueEntry) : Prop where
  owner : primaryOwner q = some u ↔
    reply = requestReplyPrimaryOwner ∨ reply = requestReplyAlreadyOwner
  waits : (u ∈ owners q ∧ primaryOwner q ≠ some u) ↔ reply = requestReplyInQueue
  absent : u ∉ owners q ↔ reply = requestReplyExists

/-- **One who waits asks without wanting to wait**, and cannot have the name. -/
def Impatient (q : List QueueEntry) (u : String) (flags : UInt32) : Prop :=
  u ∈ owners q ∧ ∃ primary ∈ q.head?, primary.uniqueName ≠ u ∧ replaces flags primary = false ∧
    hasFlag flags flagDoNotQueue = true

theorem describes_of_owner (h : primaryOwner q = some u)
    (hreply : reply = requestReplyPrimaryOwner ∨ reply = requestReplyAlreadyOwner) :
    Describes reply u q := by
  have hmem : u ∈ owners q := by
    obtain ⟨e, he, rfl⟩ := Option.map_eq_some_iff.mp h
    exact List.mem_map_of_mem (List.mem_of_head? he)
  refine ⟨iff_of_true h hreply, iff_of_false (fun hw => hw.2 h) ?_,
    iff_of_false (fun ha => ha hmem) ?_⟩
  · rcases hreply with rfl | rfl <;> decide
  · rcases hreply with rfl | rfl <;> decide

theorem describes_of_waits (h : primaryOwner q ≠ some u) (hmem : u ∈ owners q) :
    Describes requestReplyInQueue u q :=
  ⟨iff_of_false h (by decide), iff_of_true ⟨hmem, h⟩ rfl,
    iff_of_false (fun ha => ha hmem) (by decide)⟩

theorem describes_exists_iff (h : primaryOwner q ≠ some u) :
    Describes requestReplyExists u q ↔ u ∉ owners q := by
  constructor
  · exact fun hd => hd.absent.mpr rfl
  · exact fun hnot => ⟨iff_of_false h (by decide), iff_of_false (fun hw => hnot hw.1) (by decide),
      iff_of_true hnot rfl⟩

/-- **When the reply of a request describes the queue after it.** -/
theorem describes_iff (reg : Registry) (u name : String) (flags : UInt32) :
    Describes (reg.requestName u name flags).1.1 u ((reg.requestName u name flags).2.queueOf name) ↔
      ¬ Impatient (reg.queueOf name) u flags := by
  have hreq := requested reg u name flags
  generalize reg.queueOf name = q at hreq ⊢
  generalize (reg.requestName u name flags).1.1 = reply at hreq ⊢
  generalize (reg.requestName u name flags).2.queueOf name = q' at hreq ⊢
  have hne : ∀ {primary : QueueEntry} {rest : List QueueEntry}, primary.uniqueName ≠ u →
      primaryOwner (primary :: rest) ≠ some u := fun h heq => h (Option.some.inj heq)
  cases hreq with
  | first =>
    refine iff_of_true (describes_of_owner rfl (.inl rfl)) ?_
    rintro ⟨hmem, -⟩
    cases hmem
  | already howner =>
    refine iff_of_true (describes_of_owner (congrArg some howner) (.inr rfl)) ?_
    rintro ⟨-, primary, hprimary, hother, -⟩
    cases hprimary
    exact hother howner
  | replace howner hreplaces =>
    refine iff_of_true (describes_of_owner rfl (.inl rfl)) ?_
    rintro ⟨-, primary, hprimary, -, hnot, -⟩
    cases hprimary
    rw [hreplaces] at hnot
    cases hnot
  | refuse howner hreplaces hqueue =>
    rw [describes_exists_iff (hne howner), not_iff_not]
    exact ⟨fun hmem => ⟨hmem, _, rfl, howner, hreplaces, hqueue⟩, And.left⟩
  | wait howner hreplaces hqueue hmem =>
    refine iff_of_true (describes_of_waits (hne howner) hmem) ?_
    rintro ⟨-, primary, hprimary, -, -, hdnq⟩
    rw [hqueue] at hdnq
    cases hdnq
  | join howner hreplaces hqueue hnew =>
    refine iff_of_true (describes_of_waits (hne howner) ?_) ?_
    · exact List.mem_map_of_mem (List.mem_append_right _ List.mem_cons_self)
    · rintro ⟨hmem, -⟩
      exact hnew hmem

/-- The first connection has a name and the second waits for it. -/
def contested : Registry :=
  ((Registry.new.requestName (uniqueName 1) "com.example.Foo" 0).2.requestName (uniqueName 2)
    "com.example.Foo" 0).2

/-- **The second asks again**, without wanting to wait, and is told that the name exists. -/
theorem contested_not_describes :
    ¬ ∀ (reg : Registry) (events : List NameOwnerChange) (id : ℕ) (name : String) (flags : UInt32),
      Run reg events → Describes (reg.requestName (uniqueName id) name flags).1.1 (uniqueName id)
        ((reg.requestName (uniqueName id) name flags).2.queueOf name) := by
  intro h
  have hrun : ∃ events, Run contested events :=
    ⟨_, .call (.call .new (.request _ 1 "com.example.Foo" 0)) (.request _ 2 "com.example.Foo" 0)⟩
  obtain ⟨events, hrun⟩ := hrun
  have hdescribes := h contested events 2 "com.example.Foo" flagDoNotQueue hrun
  have habsent := hdescribes.absent.mpr (by decide +kernel)
  exact absurd habsent (by decide +kernel)

/-! ## Which flags count -/

/-- The flags of a call, if it is a connection's request for a name. -/
def flagsOf (id : ℕ) (name : String) : RegistryCall → Option UInt32
  | .request id' name' flags => if id' = id ∧ name' = name then some flags else none
  | _ => none

/-- **The registries calls lead to**, with the calls made so far, the latest first, each
with the registry it met. -/
inductive History : Registry → List (Registry × RegistryCall) → Prop where
  | new : History Registry.new []
  | call {reg reg' : Registry} {past : List (Registry × RegistryCall)}
    {changes : List NameOwnerChange} {call : RegistryCall} (h : History reg past)
    (hcall : Called reg call changes reg') : History reg' ((reg, call) :: past)

/-- The flags of a connection's latest request for a name. -/
def latestFlags (id : ℕ) (name : String) (past : List (Registry × RegistryCall)) :
    Option UInt32 :=
  past.findSome? fun p => flagsOf id name p.2

/-- **A request that is heeded**: its connection is not in the queue, or it takes the
name over. -/
def heeds (q : List QueueEntry) (u : String) (flags : UInt32) : Bool :=
  !inQueue u q || q.head?.any fun primary => primary.uniqueName != u && replaces flags primary

/-- The flags of a connection's latest request for a name that was heeded. -/
def heededFlags (id : ℕ) (name : String) (past : List (Registry × RegistryCall)) :
    Option UInt32 :=
  past.findSome? fun p =>
    (flagsOf id name p.2).filter fun flags => heeds (p.1.queueOf name) (uniqueName id) flags

/-- **The flags `f` count** for the owner of a name: whoever wants to replace it does so
exactly if they allow it, and then it stays in the queue exactly if they do not refuse
to wait. -/
def FlagsCount (reg : Registry) (u name : String) (f : UInt32) : Prop :=
  ∀ (d : String) (flags : UInt32), d ≠ u → hasFlag flags flagReplaceExisting = true →
    (primaryOwner ((reg.requestName d name flags).2.queueOf name) = some d ↔
      hasFlag f flagAllowReplacement = true) ∧
    (primaryOwner ((reg.requestName d name flags).2.queueOf name) = some d →
      (u ∈ owners ((reg.requestName d name flags).2.queueOf name) ↔
        hasFlag f flagDoNotQueue = false))

variable {id : ℕ} {e : QueueEntry} {past : List (Registry × RegistryCall)} {f g : UInt32}

theorem mem_leaveQueue : e ∈ leaveQueue u q ↔ e ∈ q ∧ e.uniqueName ≠ u := by
  rw [leaveQueue, List.mem_filter, bne_iff_ne]

/-- Somebody else's step in a queue leaves no new place of a connection there. -/
theorem mem_of_queueStep (h : QueueStep u q q') (he : e ∈ q')
    (hne : e.uniqueName ≠ u) : e ∈ q := by
  cases h with
  | first hu => exact absurd (List.mem_singleton.mp he ▸ hu) hne
  | keep => exact he
  | @replace e' primary rest back hu howner hback =>
    rcases List.mem_cons.mp he with rfl | he
    · exact absurd hu hne
    rcases List.mem_append.mp he with he | he
    · exact List.mem_cons_of_mem primary (mem_leaveQueue.mp he).1
    · rcases hback with rfl | rfl
      · cases he
      · exact List.mem_singleton.mp he ▸ List.mem_cons_self
  | @wait e' primary rest hu hnew =>
    rcases List.mem_append.mp he with he | he
    · exact he
    · exact absurd (List.mem_singleton.mp he ▸ hu) hne
  | leave => exact (mem_leaveQueue.mp he).1

/-- **The place of who has asked** is new if the request is heeded, and the one it had
before if not. -/
theorem entry_of_requested (h : Requested u flags q reply q') (he : e ∈ q')
    (hu : e.uniqueName = u) : (heeds q u flags = true ∧ e = requestEntry u flags) ∨
      (heeds q u flags = false ∧ e ∈ q) := by
  have hin : ∀ {q : List QueueEntry}, e ∈ q → inQueue u q = true := by
    intro q he
    by_contra hnot
    exact inQueue_eq_false.mp (Bool.eq_false_iff.mpr hnot) (hu ▸ List.mem_map_of_mem he)
  have hkept : ∀ {primary : QueueEntry} {rest : List QueueEntry}, e ∈ primary :: rest →
      replaces flags primary = false → heeds (primary :: rest) u flags = false := by
    intro primary rest he hreplaces
    simp [heeds, hin he, hreplaces]
  cases h with
  | first => exact .inl ⟨rfl, List.mem_singleton.mp he⟩
  | @already primary rest howner => exact .inr ⟨by simp [heeds, hin he, howner], he⟩
  | @replace primary rest howner hreplaces =>
    refine .inl ⟨by simp [heeds, howner, hreplaces], ?_⟩
    rcases List.mem_cons.mp he with rfl | he
    · rfl
    rcases List.mem_append.mp he with he | he
    · exact absurd hu (mem_leaveQueue.mp he).2
    · split at he
      · cases he
      · exact absurd (List.mem_singleton.mp he ▸ hu) howner
  | refuse howner hreplaces hqueue => exact .inr ⟨hkept he hreplaces, he⟩
  | wait howner hreplaces hqueue hmem => exact .inr ⟨hkept he hreplaces, he⟩
  | @join primary rest howner hreplaces hqueue hnew =>
    refine .inl ⟨by rw [heeds, inQueue_eq_false.mpr hnew]; rfl, ?_⟩
    rcases List.mem_append.mp he with he | he
    · exact absurd (hu ▸ List.mem_map_of_mem he) hnew
    · exact List.mem_singleton.mp he

theorem mem_of_releaseName {name' : String} (he : e ∈ (reg.releaseName u name').2.queueOf name) :
    e ∈ reg.queueOf name := by
  unfold releaseName at he
  split at he
  · exact he
  · split at he
    · by_cases hn : name = name'
      · rw [hn] at he ⊢
        exact (mem_leaveQueue.mp (queueOf_releaseNameInternal reg u name' ▸ he)).1
      · have hsame : (reg.releaseNameInternal u name').2.queueOf name = reg.queueOf name :=
          congrArg (Option.getD · []) ((steps_releaseNameInternal reg u name').others name hn)
        exact hsame ▸ he
    · exact he

/-- **A call leaves the places of a connection in a queue as they were**, unless it is its
own request for the name. -/
theorem Called.mem_queueOf {call : RegistryCall}
    {changes : List NameOwnerChange} (h : Called reg call changes reg')
    (hcall : flagsOf id name call = none) (he : e ∈ reg'.queueOf name)
    (hu : e.uniqueName = uniqueName id) : e ∈ reg.queueOf name := by
  cases h with
  | request id' name' flags =>
    by_cases hn : name = name'
    · subst hn
      have hid : id' ≠ id := by
        rintro rfl
        rw [flagsOf, if_pos ⟨rfl, rfl⟩] at hcall
        cases hcall
      refine mem_of_queueStep
        (steps_requestName reg (uniqueName id') name flags).queue he fun heq => ?_
      exact hid (uniqueName_injective (heq.symm.trans hu))
    · have hsame : (reg.requestName (uniqueName id') name' flags).2.queueOf name
          = reg.queueOf name :=
        congrArg (Option.getD · []) ((steps_requestName reg _ name' flags).others name hn)
      exact hsame ▸ he
  | release id' name' => exact mem_of_releaseName he
  | remove id' horder =>
    rw [(removeConnection_spec horder (uniqueName id') name).1] at he
    exact (mem_leaveQueue.mp he).1
  | connect c => exact he

theorem History.run (h : History reg past) : ∃ events, Run reg events := by
  induction h with
  | new => exact ⟨[], .new⟩
  | call _ hcall ih =>
    obtain ⟨events, hrun⟩ := ih
    exact ⟨_, .call hrun hcall⟩

/-- **A place in a queue holds the flags of the request that was heeded last.** -/
theorem History.entry (h : History reg past) (he : e ∈ reg.queueOf name)
    (hu : e.uniqueName = uniqueName id) :
    ∃ g, heededFlags id name past = some g ∧ e = requestEntry (uniqueName id) g := by
  induction h with
  | new =>
    rw [queueOf_eq_nil (queue_new name)] at he
    cases he
  | @call reg reg' past changes call _ hcall ih =>
    cases hflags : flagsOf id name call with
    | none =>
      obtain ⟨g, hg, heq⟩ := ih (hcall.mem_queueOf hflags he hu)
      refine ⟨g, ?_, heq⟩
      rw [heededFlags, List.findSome?_cons, hflags]
      exact hg
    | some flags =>
      obtain rfl : call = .request id name flags := by
        cases call with
        | request id' name' flags' =>
          rw [flagsOf] at hflags
          split at hflags
          · next heq =>
            cases hflags
            rw [heq.1, heq.2]
          · cases hflags
        | _ => cases hflags
      cases hcall
      rw [heededFlags, List.findSome?_cons, hflags, Option.filter]
      rcases entry_of_requested (requested reg (uniqueName id) name flags) he hu with
        ⟨hheeds, heq⟩ |
        ⟨hheeds, hold⟩
      · exact ⟨flags, by rw [if_pos hheeds], heq⟩
      · rw [if_neg (by rw [hheeds]; exact Bool.false_ne_true)]
        exact ih hold

/-- Who has been heeded has asked. -/
theorem exists_latestFlags (h : heededFlags id name past = some g) :
    ∃ f, latestFlags id name past = some f := by
  obtain ⟨p, hp, hsome⟩ := List.exists_of_findSome?_eq_some h
  have hflags : flagsOf id name p.2 = some g := (Option.filter_eq_some_iff.mp hsome).1
  rw [← Option.isSome_iff_exists, latestFlags, List.findSome?_isSome_iff]
  exact ⟨p, hp, by rw [hflags]; rfl⟩

/-- **The flags of its place count for the owner.** -/
theorem flagsCount_of_entry {rest : List QueueEntry}
    (hq : reg.queueOf name = requestEntry u g :: rest) (hnew : u ∉ owners rest) :
    FlagsCount reg u name g := by
  intro d flags hd hreplace
  have hreq := requested reg d name flags
  rw [hq] at hreq
  generalize (reg.requestName d name flags).1.1 = reply at hreq
  generalize (reg.requestName d name flags).2.queueOf name = q' at hreq ⊢
  have hreplaces : replaces flags (requestEntry u g) = hasFlag g flagAllowReplacement := by
    rw [replaces, hreplace]
    rfl
  have hstays : ∀ {q : List QueueEntry}, replaces flags (requestEntry u g) = false →
      (primaryOwner (requestEntry u g :: q) = some d ↔ hasFlag g flagAllowReplacement = true) ∧
      (primaryOwner (requestEntry u g :: q) = some d →
        (u ∈ owners (requestEntry u g :: q) ↔ hasFlag g flagDoNotQueue = false)) := by
    intro q hnot
    have howner : primaryOwner (requestEntry u g :: q) ≠ some d :=
      fun h => hd (Option.some.inj h).symm
    rw [hreplaces] at hnot
    exact ⟨iff_of_false howner (by rw [hnot]; exact Bool.false_ne_true),
      fun h => absurd h howner⟩
  cases hreq with
  | already howner => exact absurd howner.symm hd
  | replace howner hallow =>
    refine ⟨iff_of_true rfl (hreplaces.symm.trans hallow), fun _ => ?_⟩
    -- nothing but the place it is given at the end keeps it in the queue
    have hothers : u ∉ owners (leaveQueue d rest) := fun hmem => hnew (by
      rw [owners_leaveQueue] at hmem
      exact (List.mem_filter.mp hmem).1)
    have hmem : u ∈ owners (requestEntry d flags :: (leaveQueue d rest ++
        if (requestEntry u g).doNotQueue then [] else [requestEntry u g])) ↔
        u ∈ owners (if (requestEntry u g).doNotQueue then [] else [requestEntry u g]) := by
      show u ∈ d :: owners _ ↔ _
      rw [owners, List.map_append, List.mem_cons, List.mem_append, or_iff_right hd.symm]
      exact or_iff_right hothers
    rw [hmem]
    show u ∈ owners (if hasFlag g flagDoNotQueue = true then [] else [requestEntry u g]) ↔ _
    cases hasFlag g flagDoNotQueue with
    | true => exact iff_of_false List.not_mem_nil (by decide)
    | false => exact iff_of_true List.mem_cons_self rfl
  | refuse howner hnot hqueue => exact hstays hnot
  | wait howner hnot hqueue hmem => exact hstays hnot
  | join howner hnot hqueue hnew => exact hstays hnot

/-- **When the latest flags of an owner count**: they say the same as the latest ones that
were heeded, of its being replaced and, if it can be, of its waiting afterwards. -/
theorem latestFlagsCount_iff (h : History reg past)
    (howner : primaryOwner (reg.queueOf name) = some (uniqueName id)) :
    ∃ f g, latestFlags id name past = some f ∧ heededFlags id name past = some g ∧
      (FlagsCount reg (uniqueName id) name f ↔
        hasFlag f flagAllowReplacement = hasFlag g flagAllowReplacement ∧
        (hasFlag g flagAllowReplacement = true →
          hasFlag f flagDoNotQueue = hasFlag g flagDoNotQueue)) := by
  obtain ⟨e, rest, hq, hu⟩ : ∃ e rest, reg.queueOf name = e :: rest ∧
      e.uniqueName = uniqueName id := by
    obtain ⟨e, he, hu⟩ := Option.map_eq_some_iff.mp howner
    exact ⟨e, _, (List.cons_head?_tail he).symm, hu⟩
  obtain ⟨g, hg, rfl⟩ := h.entry (hq ▸ List.mem_cons_self) hu
  obtain ⟨f, hf⟩ := exists_latestFlags hg
  obtain ⟨events, hrun⟩ := h.run
  have hnodup := hrun.queues.2 name
  rw [hq] at hnodup
  have hcount := flagsCount_of_entry hq (List.nodup_cons.mp hnodup).1
  refine ⟨f, g, hf, hg, fun hlatest => ?_, fun ⟨hallow, hwait⟩ d flags hd hreplace => ?_⟩
  · -- let anybody else ask for the name
    have hother : uniqueName (id + 1) ≠ uniqueName id := fun heq =>
      absurd (uniqueName_injective heq) (Nat.succ_ne_self id)
    obtain ⟨htakes, hstays⟩ := hlatest _ flagReplaceExisting hother rfl
    obtain ⟨htakes', hstays'⟩ := hcount _ flagReplaceExisting hother rfl
    refine ⟨Bool.eq_iff_iff.mpr (htakes.symm.trans htakes'), fun hallow => ?_⟩
    have htaken := htakes'.mpr hallow
    have hsame := (hstays htaken).symm.trans (hstays' htaken)
    rw [← Bool.not_inj_iff, Bool.eq_iff_iff, Bool.not_eq_true', Bool.not_eq_true']
    exact hsame
  · obtain ⟨htakes, hstays⟩ := hcount d flags hd hreplace
    refine ⟨hallow ▸ htakes, fun htaken => ?_⟩
    rw [hwait (htakes.mp htaken)]
    exact hstays htaken

/-- A connection lets others have the name that it asks for. -/
def lending : Registry :=
  (Registry.new.requestName (uniqueName 1) "com.example.Foo" flagAllowReplacement).2

/-- It owns it, and asks for it once more, with one flag more. -/
def lendingAgain : List (Registry × RegistryCall) :=
  [(lending, .request 1 "com.example.Foo" (flagAllowReplacement ||| flagReplaceExisting)),
    (Registry.new, .request 1 "com.example.Foo" flagAllowReplacement)]

/-- It is replaced as it has said last, though only its first request was heeded. -/
theorem latestFlagsCount_iff_lendingAgain :
    latestFlags 1 "com.example.Foo" lendingAgain = some 3 ∧
    heededFlags 1 "com.example.Foo" lendingAgain = some 1 ∧
    ∃ f g, latestFlags 1 "com.example.Foo" lendingAgain = some f ∧
      heededFlags 1 "com.example.Foo" lendingAgain = some g ∧
      (FlagsCount (lending.requestName (uniqueName 1) "com.example.Foo" 3).2 (uniqueName 1)
        "com.example.Foo" f ↔
          hasFlag f flagAllowReplacement = hasFlag g flagAllowReplacement ∧
          (hasFlag g flagAllowReplacement = true →
            hasFlag f flagDoNotQueue = hasFlag g flagDoNotQueue)) :=
  ⟨by decide +kernel, by decide +kernel, latestFlagsCount_iff
    (.call (.call .new (.request _ 1 "com.example.Foo" flagAllowReplacement))
      (.request _ 1 "com.example.Foo" 3)) (by decide +kernel)⟩

/-- An owner lets others have its name, and then asks again and does not. -/
def withdrawn : Registry :=
  ((Registry.new.requestName (uniqueName 1) "com.example.Foo" flagAllowReplacement).2.requestName
    (uniqueName 1) "com.example.Foo" 0).2

/-- **It is replaced nonetheless.** -/
theorem withdrawn_not_flagsCount :
    ¬ ∀ (reg : Registry) (past : List (Registry × RegistryCall)) (id : ℕ) (name : String)
      (f : UInt32), History reg past → primaryOwner (reg.queueOf name) = some (uniqueName id) →
        latestFlags id name past = some f → FlagsCount reg (uniqueName id) name f := by
  intro h
  have hhistory := History.call (.call .new
    (.request _ 1 "com.example.Foo" flagAllowReplacement)) (.request _ 1 "com.example.Foo" 0)
  have hcount := h withdrawn _ 1 "com.example.Foo" 0 hhistory (by decide +kernel) rfl
  have htakes := (hcount (uniqueName 2) flagReplaceExisting (by decide +kernel) rfl).1
  exact absurd (htakes.mp (by decide +kernel)) (by decide)

end Registry

end Oxibus
