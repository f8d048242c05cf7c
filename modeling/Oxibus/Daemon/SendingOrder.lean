import Oxibus.Daemon.Annotated
import Oxibus.Daemon.Eavesdropping

/-!
# The order of the messages of one sender

A connection's task reads a message, does all its writing, and reads the next
one. So what it writes to anybody is in the order in which the messages came.
The copies for monitors are left to tasks of their own, one for each copy, and
these may run in any order: a monitor may be sent the second message of a
client before the first, and a copy after a later message that was written to
it directly.

A letter says which message a job has to do with: who has sent it, and when
it was read. Letters are noted beside the daemon, and deliveries with them.
-/

namespace Oxibus

open BusProg Daemon

/-! ## Letters and deliveries -/

/-- **The message a job has to do with.** -/
structure Letter where
  sender : ConnectionEntry
  /-- As it was read. -/
  message : Message
  /-- The length of the log when it was read. -/
  sentAt : ℕ
  /-- The job is a copy for a monitor. -/
  copied : Bool

/-- What is passed on of a letter. -/
def Letter.forwarded (l : Letter) : Message := l.message.setSender l.sender.uniqueName

/-- A message was written to a connection. -/
structure Delivery where
  letter : Letter
  recipient : ConnectionEntry
  message : Message

/-- **What is noted**: the letter of each job, and the deliveries, the latest
first. -/
structure Post where
  letters : ℕ → Option Letter
  delivered : List Delivery

/-- The letters after an operation of a job: a copy has the letter of the job that
leaves it. -/
def lettersAfter (D : Daemon) (i : ℕ) : (o : BusOp) → o.Res → (ℕ → Option Letter) →
    ℕ → Option Letter
  | .readMessage c, some msg, letters =>
    Function.update letters i (some ⟨c, msg, D.world.log.length, false⟩)
  | .spawnWrite _ _, _, letters =>
    Function.update letters D.jobs.length ((letters i).map fun l => { l with copied := true })
  | _, _, letters => letters

/-- The deliveries after an operation of a job: what it has written and is not of
the driver. -/
def deliveredAfter (i : ℕ) : (o : BusOp) → o.Res → Post → List Delivery
  | .write c msg, true, post =>
    if msg.sender = some WellKnown.busName then post.delivered
    else
      match post.letters i with
      | some l => ⟨l, c, msg⟩ :: post.delivered
      | none => post.delivered
  | _, _, post => post.delivered

/-- The notes of letters and deliveries. -/
def postal : Annotation Post where
  initial := ⟨fun _ => none, []⟩
  after := fun D i _ o r _ post => ⟨lettersAfter D i o r post.letters, deliveredAfter i o r post⟩

/-- **The messages of one connection that were written to another**, the latest
first. -/
def Post.deliveries (post : Post) (A B : ConnectionEntry) : List Letter :=
  (post.delivered.filter fun d => d.letter.sender == A && d.recipient == B).map Delivery.letter

/-- Letters in the order in which they were sent; the list has the latest
first. -/
def Chronological (letters : List Letter) : Prop :=
  letters.Pairwise fun later earlier => earlier.sentAt ≤ later.sentAt

/-- A message that is not of the driver was written. -/
def BusEvent.forwarded : BusEvent → Option (ConnectionEntry × Message)
  | ⟨_, .write c msg, true⟩ =>
    if msg.sender = some WellKnown.busName then none else some (c, msg)
  | _ => none

/-- The letter says who has sent what, and when. -/
def Letter.Read (log : List BusEvent) (l : Letter) : Prop :=
  ∃ s, log.reverse[l.sentAt]? = some ⟨s, .readMessage l.sender, some l.message⟩

/-- **The order of one sender is kept**: in all that its own task writes to
anybody, and in all that is written to whoever is no monitor. The deliveries
are what the log says was written of clients, each with the message it is. -/
structure OrderKept (S : Annotated Post) : Prop where
  written : (S.note.delivered.map fun d => (d.recipient, d.message)) =
    S.daemon.world.log.filterMap BusEvent.forwarded
  genuine : ∀ d ∈ S.note.delivered, d.letter.Read S.daemon.world.log ∧
    d.message = d.letter.forwarded
  direct : ∀ A B, Chronological ((S.note.deliveries A B).filter fun l => !l.copied)
  others : ∀ A B, S.daemon.world.state.isMonitor B = false → Chronological (S.note.deliveries A B)

variable {bus : Bus} {S S' : Annotated Post} {D : Daemon} {i k : ℕ} {j j' : Job}
    {o : BusOp} {r : o.Res}
variable {w : World} {letters : ℕ → Option Letter} {l : Letter} {post : Post} {d : Delivery}

/-! ## One operation -/

/-- **A letter after an operation**: an old one, the one that was read, or that of a
copy. -/
theorem lettersAfter_eq_some (h : lettersAfter D i o r letters k = some l) :
    letters k = some l ∨
      (k = i ∧ l.copied = false ∧ l.sentAt = D.world.log.length ∧ o = .readMessage l.sender ∧
        HEq r (some l.message)) ∨
      (k = D.jobs.length ∧ l.copied = true ∧
        ∃ c m l₀, o = .spawnWrite c m ∧ letters i = some l₀ ∧ l = { l₀ with copied := true }) := by
  cases o with
  | readMessage c =>
    cases r with
    | none => exact .inl h
    | some m =>
      by_cases hk : k = i
      · subst hk
        rw [show lettersAfter D k (.readMessage c) (some m) letters k = _ from
          Function.update_self ..] at h
        cases h
        exact .inr (.inl ⟨rfl, rfl, rfl, rfl, HEq.rfl⟩)
      · rw [show lettersAfter D i (.readMessage c) (some m) letters k = _ from
          Function.update_of_ne hk ..] at h
        exact .inl h
  | spawnWrite c m =>
    by_cases hk : k = D.jobs.length
    · rw [hk, show lettersAfter D i (.spawnWrite c m) r letters D.jobs.length = _ from
        Function.update_self ..] at h
      obtain ⟨l₀, hl₀, rfl⟩ := Option.map_eq_some_iff.mp h
      exact .inr (.inr ⟨hk, rfl, c, m, l₀, rfl, hl₀, rfl⟩)
    · rw [show lettersAfter D i (.spawnWrite c m) r letters k = _ from
        Function.update_of_ne hk ..] at h
      exact .inl h
  | _ => exact .inl h

/-- **The deliveries after an operation**: the old ones, and one more if a message was
written that is not of the driver. -/
theorem deliveredAfter_cases (i : ℕ) (o : BusOp) (r : o.Res) (post : Post) :
    deliveredAfter i o r post = post.delivered ∨ ∃ l c msg, post.letters i = some l ∧
      o = .write c msg ∧ msg.sender ≠ some WellKnown.busName ∧
      deliveredAfter i o r post = ⟨l, c, msg⟩ :: post.delivered := by
  cases o with
  | write c msg =>
    cases r with
    | false => exact .inl rfl
    | true =>
      simp only [deliveredAfter]
      split
      · exact .inl rfl
      · next hsender =>
        cases hl : post.letters i with
        | none => exact .inl rfl
        | some l => exact .inr ⟨l, c, msg, rfl, rfl, hsender, rfl⟩
  | _ => exact .inl rfl

/-! ## Copies are for monitors -/

/-- Whoever a copy is written to is a monitor. -/
def Job.CopiesToMonitor (s : BusState) (j : Job) : Prop :=
  ∀ c m, j = .copying c m → s.isMonitor c = true

theorem Daemon.Reachable.copiesToMonitor (h : Daemon.Reachable bus D) :
    ∀ j ∈ D.jobs, j.CopiesToMonitor D.world.state := by
  have hjobs := (h.guarantee (J := fun j w => j.KeepsWay w ∧ j.CopiesToMonitor w.state)
    (P := ForwardedRightly) (fun _ _ => ⟨trivial, nofun⟩) ?_ ?_).2
  · exact fun j hj => (hjobs j hj).2
  · intro j j' o r w w' hj hstep hexec
    obtain ⟨hright, hnext, hspawned⟩ := keepsWay_step hj.1 hstep hexec
    refine ⟨hright, ⟨hnext, ?_⟩, fun j₁ hj₁ => ⟨hspawned j₁ hj₁, ?_⟩⟩
    · rintro c m rfl
      cases hstep
    · rintro c m rfl
      cases o with
      | spawnWrite c' m' =>
        cases List.mem_singleton.mp hj₁
        exact hexec.1.isMonitor hright
      | _ => exact absurd hj₁ List.not_mem_nil
  · intro j o r w w' hj hexec
    exact ⟨hj.1.stable hexec, fun c m hcopying => hexec.1.isMonitor (hj.2 c m hcopying)⟩

/-! ## Whose letters there are -/

/-- The job has read messages of the connection: it serves it, or has. -/
def Job.HasServed (c : ConnectionEntry) : Job → Prop
  | serving c' _ => c' = c
  | disconnecting c' => c' = c
  | announcing _ => True
  | finished => True
  | _ => False

theorem Job.HasServed.entry {c c' : ConnectionEntry} (h : j.HasServed c) (hc : j.entry = some c') :
    c' = c := by
  cases j with
  | serving => exact Option.some.inj hc ▸ h
  | disconnecting => exact Option.some.inj hc ▸ h
  | named => exact h.elim
  | _ => cases hc

theorem Job.HasServed.step {c : ConnectionEntry} (h : j.HasServed c)
    (hstep : JobStep bus j o r j') :
    j'.HasServed c := by
  cases hstep with
  | read => exact h
  | readFailed => exact h
  | dispatch => exact h
  | remove => trivial
  | announce => trivial
  | drop => trivial
  | _ => exact h.elim

/-- **The letters of a run**: a connection's own job has its letters, and no
other job has, copies apart. -/
structure Lettered (D : Daemon) (letters : ℕ → Option Letter) : Prop where
  served : ∀ {i : ℕ} {j : Job} {l : Letter}, letters i = some l → l.copied = false →
    D.jobs[i]? = some j → j.HasServed l.sender
  /-- No other job speaks for the sender. -/
  foreign : ∀ {i k : ℕ} {j : Job} {l : Letter} {c : ConnectionEntry}, letters i = some l →
    l.copied = false → D.jobs[k]? = some j → j.entry = some c → k ≠ i → c.id ≠ l.sender.id
  /-- No other job has letters of the sender. -/
  distinct : ∀ {i k : ℕ} {l l' : Letter}, letters i = some l → letters k = some l' →
    l.copied = false → l'.copied = false → l.sender.id = l'.sender.id → i = k
  known : ∀ {i : ℕ} {l : Letter}, letters i = some l →
    l.sender.id < D.world.state.registry.nextId ∧ l.sentAt < D.world.log.length ∧
      i < D.jobs.length
  /-- The letter of a copy is with the job that writes it. -/
  copying : ∀ {i : ℕ} {j : Job} {l : Letter}, letters i = some l → l.copied = true →
    D.jobs[i]? = some j → (∃ c m, j = .copying c m) ∨ j = .finished

namespace Lettered

theorem new : Lettered Daemon.new fun _ => none where
  served := nofun
  foreign := nofun
  distinct := nofun
  known := nofun
  copying := nofun

/-- A connection is accepted. -/
theorem accept (h : Lettered D letters) (peer : PeerCredentials) :
    Lettered { D with jobs := D.jobs ++ [.accepted peer] } letters where
  served := by
    intro i j l hl hcopied hj
    change (D.jobs ++ _)[i]? = some j at hj
    rw [List.getElem?_append_left (h.known hl).2.2] at hj
    exact h.served hl hcopied hj
  foreign := by
    intro i k j l c hl hcopied hj hc
    rcases getElem?_accept hj with hj | rfl
    · exact h.foreign hl hcopied hj hc
    · cases hc
  distinct := h.distinct
  known := by
    intro i l hl
    obtain ⟨hid, hsent, hlt⟩ := h.known hl
    refine ⟨hid, hsent, Nat.lt_of_lt_of_le hlt ?_⟩
    rw [List.length_append]
    exact Nat.le_add_right _ _
  copying := by
    intro i j l hl hcopied hj
    change (D.jobs ++ _)[i]? = some j at hj
    rw [List.getElem?_append_left (h.known hl).2.2] at hj
    exact h.copying hl hcopied hj

/-- A job makes a step, and nobody has another letter than before. -/
theorem step_same (h : Lettered D letters) (hj : D.jobs[i]? = some j)
    (hstep : JobStep bus j o r j') (hexec : World.Exec o D.world r w) :
    Lettered ⟨w, D.jobs.set i j' ++ o.spawned⟩ letters := by
  have hnextId := hexec.1.nextId_le
  have hspawned : ∀ {j₁ : Job} {c : ConnectionEntry}, j₁ ∈ o.spawned → j₁.entry ≠ some c := by
    intro j₁ c hj₁ hc
    obtain ⟨c', m, rfl⟩ := BusOp.entry_of_mem_spawned hj₁
    cases hc
  refine ⟨?_, ?_, h.distinct, fun hl => ?_, ?_⟩
  · intro k j₁ l hl hcopied hk
    rcases getElem?_next_place hk with ⟨rfl, rfl⟩ | ⟨-, hk⟩ | ⟨hle, -⟩
    · exact (h.served hl hcopied hj).step hstep
    · exact h.served hl hcopied hk
    · exact absurd (h.known hl).2.2 (Nat.not_lt.mpr hle)
  · intro m k j₁ l c hl hcopied hk hc hne
    rcases getElem?_next hk with ⟨rfl, rfl⟩ | ⟨-, hk⟩ | hmem
    · rcases hstep.entry_or_next hexec.1 hc with hc | ⟨hid, -⟩
      · exact h.foreign hl hcopied hj hc hne
      · rw [hid]
        exact (h.known hl).1.ne'
    · exact h.foreign hl hcopied hk hc hne
    · exact absurd hc (hspawned hmem)
  · obtain ⟨hid, hsent, hlt⟩ := h.known hl
    refine ⟨Nat.lt_of_lt_of_le hid hnextId, ?_, ?_⟩
    · show _ < w.log.length
      rw [hexec.2]
      exact Nat.lt_succ_of_lt hsent
    · exact Nat.lt_of_lt_of_le hlt (Slots.length_le_set_append _ _ _ _)
  · intro k j₁ l hl hcopied hk
    rcases getElem?_next_place hk with ⟨rfl, rfl⟩ | ⟨-, hk⟩ | ⟨hle, -⟩
    · -- a copy that is written is finished
      rcases h.copying hl hcopied hj with ⟨c, m, rfl⟩ | rfl
      · cases hstep
        exact .inr rfl
      · cases hstep
    · exact h.copying hl hcopied hk
    · exact absurd (h.known hl).2.2 (Nat.not_lt.mpr hle)

/-- A job that serves a connection has a letter of its. -/
theorem read (h : Lettered D letters) (hsessions : D.Sessions) (hj : D.jobs[i]? = some j)
    {c : ConnectionEntry} (hc : j.entry = some c) (hserved : j.HasServed c) {n : ℕ} {m : Message}
    (hn : n < D.world.log.length) :
    Lettered D (Function.update letters i (some ⟨c, m, n, false⟩)) := by
  have hcases : ∀ {k l}, Function.update letters i (some ⟨c, m, n, false⟩) k = some l →
      (k = i ∧ l = ⟨c, m, n, false⟩) ∨ (k ≠ i ∧ letters k = some l) := by
    intro k l hl
    by_cases hk : k = i
    · rw [hk, Function.update_self] at hl
      exact .inl ⟨hk, (Option.some.inj hl).symm⟩
    · rw [Function.update_of_ne hk] at hl
      exact .inr ⟨hk, hl⟩
  refine ⟨fun {k j₁ l} hl hcopied hk => ?_, fun {m k j₁ l c'} hl hcopied hk hc' hne => ?_,
    fun {k k' l l'} hl hl' hcopied hcopied' hid => ?_, fun {k l} hl => ?_,
    fun {k j₁ l} hl hcopied hk => ?_⟩
  · rcases hcases hl with ⟨rfl, rfl⟩ | ⟨-, hl⟩
    · exact Option.some.inj (hj.symm.trans hk) ▸ hserved
    · exact h.served hl hcopied hk
  · rcases hcases hl with ⟨rfl, rfl⟩ | ⟨-, hl⟩
    · exact fun hid => hne (hsessions.distinct hk hj hc' hc hid)
    · exact h.foreign hl hcopied hk hc' hne
  · rcases hcases hl with ⟨hk, rfl⟩ | ⟨hne, hold⟩
    · rcases hcases hl' with ⟨hk', rfl⟩ | ⟨hne', hold'⟩
      · rw [hk, hk']
      · exact absurd hid (h.foreign hold' hcopied' hj hc hne'.symm)
    · rcases hcases hl' with ⟨hk', rfl⟩ | ⟨-, hold'⟩
      · exact absurd hid.symm (h.foreign hold hcopied hj hc hne.symm)
      · exact h.distinct hold hold' hcopied hcopied' hid
  · rcases hcases hl with ⟨rfl, rfl⟩ | ⟨-, hl⟩
    · exact ⟨hsessions.fresh hj hc, hn, Slots.lt_length_of_getElem? hj⟩
    · exact h.known hl
  · rcases hcases hl with ⟨rfl, rfl⟩ | ⟨-, hl⟩
    · cases hcopied
    · exact h.copying hl hcopied hk

/-- A job that copies has the letter of the job that has left the copy. -/
theorem copy (h : Lettered D letters) {n : ℕ} {c : ConnectionEntry} {m : Message}
    (hj : D.jobs[n]? = some (.copying c m)) (hl : letters i = some l) :
    Lettered D (Function.update letters n (some { l with copied := true })) := by
  have hcases : ∀ {k l'}, Function.update letters n (some { l with copied := true }) k = some l' →
      (k = n ∧ l' = { l with copied := true }) ∨ letters k = some l' := by
    intro k l' hl'
    by_cases hk : k = n
    · rw [hk, Function.update_self] at hl'
      exact .inl ⟨hk, (Option.some.inj hl').symm⟩
    · rw [Function.update_of_ne hk] at hl'
      exact .inr hl'
  have hdirect : ∀ {k l'}, Function.update letters n (some { l with copied := true }) k = some l' →
      l'.copied = false → letters k = some l' := by
    intro k l' hl' hcopied
    rcases hcases hl' with ⟨-, rfl⟩ | hl'
    · cases hcopied
    · exact hl'
  refine ⟨fun hl' hcopied hk => h.served (hdirect hl' hcopied) hcopied hk,
    fun hl' hcopied hk hc hne => h.foreign (hdirect hl' hcopied) hcopied hk hc hne,
    fun hl' hl'' hcopied hcopied' hid => h.distinct (hdirect hl' hcopied) (hdirect hl'' hcopied')
      hcopied hcopied' hid, fun {k l'} hl' => ?_, fun {k j₁ l'} hl' hcopied hk => ?_⟩
  · rcases hcases hl' with ⟨rfl, rfl⟩ | hl'
    · obtain ⟨hid, hsent, -⟩ := h.known hl
      exact ⟨hid, hsent, Slots.lt_length_of_getElem? hj⟩
    · exact h.known hl'
  · rcases hcases hl' with ⟨rfl, rfl⟩ | hl'
    · exact .inl ⟨c, m, Option.some.inj (hk.symm.trans hj)⟩
    · exact h.copying hl' hcopied hk

/-- **A job makes a step**: it has read a message, or leaves a copy of its own, or
nobody has another letter than before. -/
theorem step (h : Lettered D letters) (hsessions : D.Sessions) (hj : D.jobs[i]? = some j)
    (hstep : JobStep bus j o r j') (hexec : World.Exec o D.world r w) :
    Lettered ⟨w, D.jobs.set i j' ++ o.spawned⟩ (lettersAfter D i o r letters) := by
  have hsame := h.step_same hj hstep hexec
  have hsessions' := hsessions.job hj hstep hexec
  have hself : (D.jobs.set i j' ++ o.spawned)[i]? = some j' := Slots.getElem?_set_append_self hj
  cases o with
  | readMessage c =>
    cases r with
    | none => exact hsame
    | some m =>
      have hlog : D.world.log.length < w.log.length := by
        rw [hexec.2]
        exact Nat.lt_succ_self _
      cases hstep with
      | read => exact hsame.read hsessions' hself rfl rfl hlog
      | dispatch => exact ((hsessions.settled hj).2.1).elim
      | announce => exact ((hsessions.settled hj) c).1.elim
  | spawnWrite c m =>
    show Lettered _ (Function.update letters D.jobs.length _)
    cases hl : letters i with
    | none =>
      have hnone : letters D.jobs.length = none := by
        refine Option.eq_none_iff_forall_ne_some.mpr fun l hl => ?_
        exact absurd (h.known hl).2.2 (Nat.lt_irrefl _)
      rw [Option.map_none, ← hnone, Function.update_eq_self]
      exact hsame
    | some l =>
      refine hsame.copy (c := c) (m := m) ?_ hl
      show (D.jobs.set i j' ++ [_])[D.jobs.length]? = _
      have hlen : D.jobs.length = (D.jobs.set i j').length := List.length_set.symm
      rw [hlen, List.getElem?_concat_length]
  | _ => exact hsame

end Lettered

/-! ## What has been delivered -/

/-- **The deliveries of a run**, beside the letters. -/
structure Sorted (S : Annotated Post) : Prop where
  lettered : Lettered S.daemon S.note.letters
  copies : ∀ d ∈ S.note.delivered, d.letter.copied = true →
    S.daemon.world.state.isMonitor d.recipient = true
  /-- The sender has gone on to what its job has to do with now. -/
  latest : ∀ d ∈ S.note.delivered, d.letter.copied = false → ∃ i l, S.note.letters i = some l ∧
    l.copied = false ∧ l.sender = d.letter.sender ∧ d.letter.sentAt ≤ l.sentAt
  ordered : ∀ A, Chronological ((S.note.delivered.map Delivery.letter).filter fun l =>
    l.sender == A && !l.copied)

theorem sorted_new : Sorted postal.new where
  lettered := .new
  copies := fun _ hd => absurd hd List.not_mem_nil
  latest := fun _ hd => absurd hd List.not_mem_nil
  ordered := fun _ => .nil

/-- What was delivered is no later than the letters that there are now, after an
operation of a job. -/
theorem Sorted.latest_after (h : Sorted S) (hsessions : S.daemon.Sessions)
    (hj : S.daemon.jobs[i]? = some j) (hstep : JobStep bus j o r j') (hd : d ∈ S.note.delivered)
    (hcopied : d.letter.copied = false) :
    ∃ k l, lettersAfter S.daemon i o r S.note.letters k = some l ∧ l.copied = false ∧
      l.sender = d.letter.sender ∧ d.letter.sentAt ≤ l.sentAt := by
  obtain ⟨k, l, hl, hl', hsender, hle⟩ := h.latest d hd hcopied
  have hknown := h.lettered.known hl
  cases o with
  | readMessage c =>
    cases r with
    | none => exact ⟨k, l, hl, hl', hsender, hle⟩
    | some m =>
      by_cases hk : k = i
      · -- its sender has sent another one
        subst hk
        have hserved := h.lettered.served hl hl' hj
        have hc : c = l.sender := by
          cases hstep with
          | read => exact hserved
          | dispatch => exact ((hsessions.settled hj).2.1).elim
          | announce => exact ((hsessions.settled hj) c).1.elim
        refine ⟨k, ⟨c, m, S.daemon.world.log.length, false⟩, Function.update_self .., rfl, ?_, ?_⟩
        · exact hc.trans hsender
        · exact hle.trans hknown.2.1.le
      · exact ⟨k, l, (Function.update_of_ne hk ..).trans hl, hl', hsender, hle⟩
  | spawnWrite c m =>
    exact ⟨k, l, (Function.update_of_ne hknown.2.2.ne ..).trans hl, hl', hsender, hle⟩
  | _ => exact ⟨k, l, hl, hl', hsender, hle⟩

/-- **A step keeps the deliveries in order.** -/
theorem Sorted.step (h : Sorted S) (hreach : Daemon.Reachable bus S.daemon)
    (hs : postal.Step bus S S') : Sorted S' := by
  cases hs with
  | accept peer => exact ⟨h.lettered.accept peer, h.copies, h.latest, h.ordered⟩
  | @job i j j' o r w hj hstep hexec =>
    have hlettered := h.lettered.step hreach.sessions hj hstep hexec
    have hcopies : ∀ d ∈ S.note.delivered, d.letter.copied = true →
        w.state.isMonitor d.recipient = true :=
      fun d hd hcopied => hexec.1.isMonitor (h.copies d hd hcopied)
    have hlatest := fun d => h.latest_after hreach.sessions hj hstep (d := d)
    rcases deliveredAfter_cases i o r S.note with hsame | ⟨l, c, m, hl, rfl, -, hnew⟩
    · refine ⟨hlettered, ?_, ?_, ?_⟩
      · show ∀ d ∈ deliveredAfter i o r S.note, _
        rw [hsame]
        exact hcopies
      · show ∀ d ∈ deliveredAfter i o r S.note, _
        rw [hsame]
        exact hlatest
      · show ∀ A, Chronological (((deliveredAfter i o r S.note).map _).filter _)
        rw [hsame]
        exact h.ordered
    · refine ⟨hlettered, ?_, ?_, ?_⟩
      · show ∀ d ∈ deliveredAfter i (.write c m) r S.note, _
        rw [hnew]
        intro d hd hcopied
        rcases List.mem_cons.mp hd with rfl | hd
        · -- the job is a copy for this connection
          have hmonitor := hreach.copiesToMonitor j (List.mem_of_getElem? hj)
          rcases h.lettered.copying hl hcopied hj with ⟨c', m', rfl⟩ | rfl
          · cases hstep
            exact hexec.1.isMonitor (hmonitor c m rfl)
          · cases hstep
        · exact hcopies d hd hcopied
      · show ∀ d ∈ deliveredAfter i (.write c m) r S.note, _
        rw [hnew]
        intro d hd hcopied
        rcases List.mem_cons.mp hd with rfl | hd
        · exact ⟨i, l, hl, hcopied, rfl, le_rfl⟩
        · exact hlatest d hd hcopied
      · show ∀ A, Chronological (((deliveredAfter i (.write c m) r S.note).map _).filter _)
        rw [hnew]
        intro A
        rw [List.map_cons, List.filter_cons]
        split
        · next hA =>
          have hA : l.sender = A ∧ l.copied = false := by simpa using hA
          refine List.pairwise_cons.mpr ⟨fun l' hl' => ?_, h.ordered A⟩
          obtain ⟨hmem, hA'⟩ := List.mem_filter.mp hl'
          have hA' : l'.sender = A ∧ l'.copied = false := by simpa using hA'
          obtain ⟨d, hd, rfl⟩ := List.mem_map.mp hmem
          -- what its sender has gone on to is the letter of this job
          obtain ⟨k, l₁, hl₁, hcopied₁, hsender₁, hle⟩ := h.latest d hd hA'.2
          have hk : k = i := by
            refine h.lettered.distinct hl₁ hl hcopied₁ hA.2 ?_
            rw [hsender₁, hA'.1, hA.1]
          subst hk
          rwa [Option.some.inj (hl.symm.trans hl₁)]
        · exact h.ordered A

theorem Annotated.sorted (h : postal.Reachable bus S) : Sorted S := by
  induction h with
  | refl => exact sorted_new
  | tail hrun hs ih =>
    have hreach := Annotation.Reachable.daemon hrun
    exact ih.step hreach hs

/-! ## What the letters say -/

/-- What is written with a letter: its message, or one of the driver. -/
def Passes (x : Option Letter) (m : Message) : Prop := DriverBuilt m ∨ ∃ l ∈ x, m = l.forwarded

/-- A job writes what is written with its letter. -/
def Job.Forwards (x : Option Letter) : Job → Prop
  | serving _ p => p.Only (Routine (fun _ => Passes x) fun _ => Passes x)
  | announcing p => p.Only (Routine (fun _ => Passes x) fun _ => Passes x)
  | copying _ m => Passes x m
  | _ => True

theorem Job.Forwards.write {x : Option Letter} {c : ConnectionEntry} {m : Message} {r : Bool}
    (h : j.Forwards x) (hstep : JobStep bus j (.write c m) r j') : Passes x m := by
  cases hstep with
  | dispatch => exact h.1
  | announce => exact h.1
  | copy => exact h

theorem lettersAfter_of_ne (hk : k ≠ i) (hlt : k < D.jobs.length) :
    lettersAfter D i o r letters k = letters k := by
  cases o with
  | readMessage c =>
    cases r with
    | none => rfl
    | some m => exact Function.update_of_ne hk ..
  | spawnWrite c m => exact Function.update_of_ne hlt.ne ..
  | _ => rfl

/-- A job keeps its letter, unless it reads a message. -/
theorem lettersAfter_self (hlt : i < D.jobs.length) (ho : ∀ c, o ≠ .readMessage c) :
    lettersAfter D i o r letters i = letters i := by
  cases o with
  | readMessage c => exact absurd rfl (ho c)
  | spawnWrite c m => exact Function.update_of_ne hlt.ne ..
  | _ => rfl

/-- **A job makes a step, with its letter**: what it writes then is written with the
letter it has then. -/
theorem Job.Forwards.step (h : j.Forwards (letters i)) (hlt : i < D.jobs.length)
    (hstep : JobStep bus j o r j') : j'.Forwards (lettersAfter D i o r letters i) := by
  have hcall : ∀ {o : BusOp} {k : o.Res → BusProg Unit} {r : o.Res},
      (Prog.call o k).Only (Routine (fun _ => Passes (letters i)) fun _ => Passes (letters i)) →
      (k r).Only (Routine (fun _ => Passes (lettersAfter D i o r letters i))
        fun _ => Passes (lettersAfter D i o r letters i)) := by
    intro o k r hp
    rw [lettersAfter_self hlt]
    · exact hp.2 r
    · rintro c rfl
      exact hp.1.elim
  cases hstep with
  | dispatch => exact hcall h
  | announce => exact hcall h
  | @read c m =>
    show Prog.Only _ (Dispatch.dispatchIncoming bus c m)
    rw [show lettersAfter D i (.readMessage c) (some m) letters i = _ from
      Function.update_self ..]
    exact Dispatch.routine_dispatchIncoming (fun _ _ => Or.inl)
      (fun _ => Or.inr ⟨_, rfl, rfl⟩) fun _ => Or.inr ⟨_, rfl, rfl⟩
  | @remove c events =>
    have htelling : (Dispatch.broadcastNameOwnerChanges bus events).Only
        (Dispatch.Telling fun _ => Passes (letters i)) :=
      Dispatch.telling_broadcastNameOwnerChanges (fun _ _ hm _ => Or.inl hm) events
    exact htelling.mono fun _ ho => (ho.errand : Errand c (fun _ _ => True) _ _ _).routine
  | _ => trivial

/-- The copy that a job leaves has its letter. -/
theorem Job.Forwards.spawned (h : j.Forwards (letters i)) (hstep : JobStep bus j o r j')
    {j₁ : Job} (hk : (D.jobs.set i j' ++ o.spawned)[k]? = some j₁) (hle : D.jobs.length ≤ k)
    (hmem : j₁ ∈ o.spawned) : j₁.Forwards (lettersAfter D i o r letters k) := by
  cases o with
  | spawnWrite c m =>
    have hlt := Slots.lt_length_of_getElem? hk
    rw [List.length_append, List.length_set] at hlt
    obtain rfl : k = D.jobs.length := Nat.le_antisymm (Nat.le_of_lt_succ hlt) hle
    rw [show lettersAfter D i (.spawnWrite c m) r letters D.jobs.length = _ from
      Function.update_self .., List.mem_singleton.mp hmem]
    have hm : Passes (letters i) m := by
      cases hstep with
      | dispatch => exact h.1
      | announce => exact h.1
    rcases hm with hdriver | ⟨l, hl, hm⟩
    · exact .inl hdriver
    · exact .inr ⟨_, Option.mem_map_of_mem _ hl, hm⟩
  | _ => exact absurd hmem List.not_mem_nil

theorem Letter.Read.cons {log : List BusEvent} (h : l.Read log) (e : BusEvent) :
    l.Read (e :: log) := by
  obtain ⟨s, hs⟩ := h
  refine ⟨s, ?_⟩
  obtain ⟨hlt, -⟩ := List.getElem?_eq_some_iff.mp hs
  rw [List.reverse_cons, List.getElem?_append_left hlt, hs]

/-- **The letters say what has happened**, and the deliveries what was written. -/
structure Accurate (S : Annotated Post) : Prop where
  read : ∀ {i : ℕ} {l : Letter}, S.note.letters i = some l → l.Read S.daemon.world.log
  forwards : ∀ {i : ℕ} {j : Job}, S.daemon.jobs[i]? = some j → j.Forwards (S.note.letters i)
  written : (S.note.delivered.map fun d => (d.recipient, d.message)) =
    S.daemon.world.log.filterMap BusEvent.forwarded
  genuine : ∀ d ∈ S.note.delivered, d.letter.Read S.daemon.world.log ∧
    d.message = d.letter.forwarded

theorem accurate_new : Accurate postal.new where
  read := nofun
  forwards := nofun
  written := rfl
  genuine := fun _ hd => absurd hd List.not_mem_nil

/-- What a job writes is noted, if it is not of the driver. -/
theorem map_deliveredAfter (h : j.Forwards (post.letters i)) (hstep : JobStep bus j o r j')
    (s : BusState) :
    ((deliveredAfter i o r post).map fun d => (d.recipient, d.message)) =
      (BusEvent.forwarded ⟨s, o, r⟩).toList ++
        post.delivered.map fun d => (d.recipient, d.message) := by
  cases o with
  | write c m =>
    cases r with
    | false => rfl
    | true =>
      simp only [deliveredAfter, BusEvent.forwarded]
      split
      · rfl
      · next hsender =>
        rcases h.write hstep with hdriver | ⟨l, hl, -⟩
        · exact absurd hdriver.sender hsender
        · rw [Option.mem_def.mp hl]
          rfl
  | _ => rfl

theorem Accurate.step (h : Accurate S) (hs : postal.Step bus S S') : Accurate S' := by
  cases hs with
  | accept peer =>
    refine ⟨h.read, fun {k j} hj => ?_, h.written, h.genuine⟩
    rcases getElem?_accept hj with hj | rfl
    · exact h.forwards hj
    · trivial
  | @job i j j' o r w hj hstep hexec =>
    have hlt := Slots.lt_length_of_getElem? hj
    have hlog : w.log = ⟨S.daemon.world.state, o, r⟩ :: S.daemon.world.log := hexec.2
    have hforwards := h.forwards hj
    refine ⟨fun {k l} hl => ?_, fun {k j₁} hk => ?_, ?_, ?_⟩
    · show l.Read w.log
      rw [hlog]
      rcases lettersAfter_eq_some hl with
        hl | ⟨-, -, hsent, rfl, hr⟩ | ⟨-, -, c, m, l₀, -, hl₀, rfl⟩
      · exact (h.read hl).cons _
      · cases hr
        refine ⟨S.daemon.world.state, ?_⟩
        rw [hsent, List.reverse_cons, ← List.length_reverse, List.getElem?_concat_length]
      · exact (h.read hl₀).cons _
    · rcases getElem?_next_place hk with ⟨rfl, rfl⟩ | ⟨hne, hk⟩ | ⟨hle, hmem⟩
      · exact hforwards.step hlt hstep
      · show j₁.Forwards (lettersAfter S.daemon i o r S.note.letters k)
        rw [lettersAfter_of_ne hne (Slots.lt_length_of_getElem? hk)]
        exact h.forwards hk
      · exact hforwards.spawned hstep hk hle hmem
    · show ((deliveredAfter i o r S.note).map _) = w.log.filterMap _
      rw [map_deliveredAfter hforwards hstep S.daemon.world.state, h.written, hlog,
        List.filterMap_cons]
      cases BusEvent.forwarded ⟨S.daemon.world.state, o, r⟩ with
      | none => rfl
      | some x => rfl
    · show ∀ d ∈ deliveredAfter i o r S.note, d.letter.Read w.log ∧ _
      have hold : ∀ d ∈ S.note.delivered, d.letter.Read w.log ∧ d.message = d.letter.forwarded := by
        intro d hd
        rw [hlog]
        exact ⟨(h.genuine d hd).1.cons _, (h.genuine d hd).2⟩
      rcases deliveredAfter_cases i o r S.note with hsame | ⟨l, c, m, hl, rfl, hsender, hnew⟩
      · rwa [hsame]
      · rw [hnew]
        refine List.forall_mem_cons.mpr ⟨⟨?_, ?_⟩, hold⟩
        · rw [hlog]
          exact (h.read hl).cons _
        · rcases hforwards.write hstep with hdriver | ⟨l', hl', hm⟩
          · exact absurd hdriver.sender hsender
          · rwa [← Option.some.inj (hl.symm.trans hl')] at hm

theorem Annotated.accurate (h : postal.Reachable bus S) : Accurate S := by
  induction h with
  | refl => exact accurate_new
  | tail _ hs ih => exact ih.step hs

/-! ## The order of one sender -/

/-- What one connection was sent of another is part of all that was delivered of it. -/
theorem Post.deliveries_sublist (post : Post) (A B : ConnectionEntry) :
    (post.deliveries A B).Sublist
      ((post.delivered.map Delivery.letter).filter fun l => l.sender == A) := by
  unfold deliveries
  rw [List.filter_map]
  refine List.Sublist.map _ ?_
  rw [show (fun d : Delivery => d.letter.sender == A && d.recipient == B) =
    fun d => (d.recipient == B) && (((fun l : Letter => l.sender == A) ∘ Delivery.letter) d) from
      funext fun d => Bool.and_comm ..]
  rw [← List.filter_filter]
  exact List.filter_sublist

/-- What is written to whoever is no monitor is written by the job of the sender. -/
theorem Sorted.copied_of_mem_deliveries (h : Sorted S) {A B : ConnectionEntry}
    (hB : S.daemon.world.state.isMonitor B = false) (hl : l ∈ S.note.deliveries A B) :
    l.copied = false := by
  obtain ⟨d, hd, rfl⟩ := List.mem_map.mp hl
  obtain ⟨hmem, hd⟩ := List.mem_filter.mp hd
  have hrecipient : d.recipient = B := by
    simp only [Bool.and_eq_true, beq_iff_eq] at hd
    exact hd.2
  refine Bool.eq_false_iff.mpr fun hcopied => ?_
  have hmonitor := h.copies d hmem hcopied
  rw [hrecipient, hB] at hmonitor
  cases hmonitor

/-- **The order of every sender is kept in every run**, copies for monitors apart. -/
theorem orderKept_of_reachable (h : postal.Reachable bus S) : OrderKept S := by
  have hsorted := Annotated.sorted h
  have haccurate := Annotated.accurate h
  have hdirect : ∀ A B, Chronological ((S.note.deliveries A B).filter fun l => !l.copied) := by
    intro A B
    refine List.Pairwise.sublist ?_ (hsorted.ordered A)
    rw [show (fun l : Letter => l.sender == A && !l.copied) =
      fun l => !l.copied && l.sender == A from funext fun l => Bool.and_comm ..,
      ← List.filter_filter]
    exact (S.note.deliveries_sublist A B).filter _
  refine ⟨haccurate.written, haccurate.genuine, hdirect, fun A B hB => ?_⟩
  have hall := hdirect A B
  rwa [List.filter_eq_self.mpr] at hall
  intro l hl
  rw [hsorted.copied_of_mem_deliveries hB hl]
  rfl

/-! ## Two copies for a monitor -/

/-- A client becomes a monitor. Another one sends two messages, and the copy of
the second one is written first. -/
def overtakingScript : List Instruction :=
  monitorScript [] ++ [.accept ⟨1000, 1000, 4712⟩, .run 1 8,
    .receive 1 (frameOf (driverCall "Hello" [] 1)), .run 1 80,
    .receive 1 (frameOf (Dispatch.callTo "a.Service")), .run 1 80,
    .receive 1 (frameOf (Dispatch.callTo "b.Service")), .run 1 80, .run 4 1, .run 3 1]

/-- The client that sends the two messages. -/
def overtaker : ConnectionEntry := ⟨2, ⟨1000, 1000, 4712⟩, none⟩

/-- Whether letters are in the order in which they were sent. -/
def inOrder : List Letter → Bool
  | later :: earlier :: letters =>
    decide (earlier.sentAt ≤ later.sentAt) && inOrder (earlier :: letters)
  | _ => true

theorem Chronological.inOrder {letters : List Letter} (h : Chronological letters) :
    inOrder letters = true := by
  induction h with
  | nil => rfl
  | @cons later letters hlater _ ih =>
    cases letters with
    | nil => rfl
    | cons earlier letters =>
      have hle := hlater earlier List.mem_cons_self
      rw [Oxibus.inOrder, decide_eq_true hle, ih, Bool.and_self]

/-- **A monitor gets the second message before the first.** -/
theorem not_chronological_of_copies : ¬ ∀ (bus : Bus) (S : Annotated Post), postal.Reachable bus S →
    ∀ A B, Chronological (S.note.deliveries A B) := by
  intro h
  have hreachable : postal.Reachable plainBus _ := postal.reachable_replay overtakingScript
  have horder := (h plainBus _ hreachable overtaker (peerConnection 1)).inOrder
  exact absurd horder (by decide +kernel)

/-- What the two clients are sent in that run by whoever is no monitor is in order. -/
theorem orderKept_overtaking : OrderKept (postal.replay plainBus overtakingScript) :=
  orderKept_of_reachable (postal.reachable_replay overtakingScript)

end Oxibus
