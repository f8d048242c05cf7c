import Oxibus.Daemon.Addressing
import Oxibus.Daemon.Convergence

/-!
# Readers that stall

A write waits for the socket: `write_all_with_fds` puts as many bytes into the
buffer of the socket as there is room for, and goes on when the peer has read
some. Whoever writes waits with it, and does nothing else meanwhile.

The daemon is `Buffered` when that is followed beside it: how much room the
buffer of each connection has, and how much of what a job writes is in the
buffer. A connection that never reads again keeps everything from the others
that a job would write after what is for it, unless that has room
(`delivers_of_fits`); only copies for monitors have jobs of their own.
-/

namespace Oxibus

open BusProg Daemon Relation

/-- The bytes of a message; none if it cannot be encoded. -/
def Message.wireLength (m : Message) : ℕ :=
  match m.toBytes with
  | .ok bytes => bytes.length
  | _ => 0

/-- **What a job is writing**, and to whom. -/
def Job.writes : Job → Option (ConnectionEntry × Message)
  | serving _ (.call (.write c m) _) => some (c, m)
  | announcing (.call (.write c m) _) => some (c, m)
  | copying c m => some (c, m)
  | _ => none

/-- The operations that have to do with a socket of a connection. -/
def BusOp.isSocket : BusOp → Bool
  | .write _ _ => true
  | .readMessage _ => true
  | _ => false

namespace JobStep

variable {bus : Bus} {j j' : Job} {o : BusOp} {r : o.Res} {c : ConnectionEntry} {m : Message}

theorem writes_of_write {r : Bool} (h : JobStep bus j (.write c m) r j') :
    j.writes = some (c, m) := by
  cases h with
  | dispatch => rfl
  | announce => rfl
  | copy => rfl

/-- A job that is writing does nothing else. -/
theorem eq_write (h : JobStep bus j o r j') (hwrites : j.writes = some (c, m)) :
    o = .write c m := by
  cases h with
  | @dispatch c₁ o k =>
    cases o with
    | write => cases hwrites; rfl
    | _ => cases hwrites
  | @announce o k =>
    cases o with
    | write => cases hwrites; rfl
    | _ => cases hwrites
  | copy => cases hwrites; rfl
  | _ => cases hwrites

theorem writes_eq_none (h : JobStep bus j o r j') (ho : o.isSocket = false) : j.writes = none := by
  refine Option.eq_none_iff_forall_ne_some.mpr fun x hx => ?_
  obtain rfl := h.eq_write hx
  cases ho

theorem exists_of_writes (bus : Bus) (hwrites : j.writes = some (c, m)) (r : Bool) :
    ∃ j', JobStep bus j (.write c m) r j' := by
  cases j with
  | serving c₁ p =>
    cases p with
    | ret => cases hwrites
    | call o k =>
      cases o with
      | write =>
        cases hwrites
        exact ⟨_, .dispatch⟩
      | _ => cases hwrites
  | announcing p =>
    cases p with
    | ret => cases hwrites
    | call o k =>
      cases o with
      | write =>
        cases hwrites
        exact ⟨_, .announce⟩
      | _ => cases hwrites
  | copying =>
    cases hwrites
    exact ⟨_, .copy⟩
  | _ => cases hwrites

end JobStep

/-- **The daemon with the buffers of its sockets.** -/
structure Buffered where
  daemon : Daemon
  /-- The bytes that the buffer of a connection has room for. -/
  room : ℕ → ℕ
  /-- The bytes of what a job is writing that are in the buffer. -/
  sent : ℕ → ℕ
  /-- The peer has closed the connection. -/
  closed : ℕ → Bool

namespace Buffered

/-- **Who makes a step.** -/
inductive Mover where
  /-- The listener. -/
  | listener
  /-- A job of the daemon. -/
  | job (i : ℕ)
  /-- A job that has written a message. -/
  | wrote (i : ℕ) (c : ConnectionEntry) (m : Message)
  /-- The peer of the connection with a number: it reads, or sends a message that is
  read, or closes. -/
  | peer (id : ℕ)

/-- The daemon as it starts, with buffers of this size. -/
def new (capacity : ℕ) : Buffered := ⟨Daemon.new, fun _ => capacity, fun _ => 0, fun _ => false⟩

/-- **A step of the daemon with its buffers.** -/
inductive Step (bus : Bus) (capacity : ℕ) : Buffered → Mover → Buffered → Prop where
  | accept (S : Buffered) (peer : PeerCredentials) :
    Step bus capacity S .listener
      { S with daemon := { S.daemon with jobs := S.daemon.jobs ++ [.accepted peer] } }
  /-- A job does something that has nothing to do with a socket. -/
  | job {S : Buffered} {i : ℕ} {j j' : Job} {o : BusOp} {r : o.Res} {w : World}
    (hj : S.daemon.jobs[i]? = some j) (hstep : JobStep bus j o r j')
    (hexec : World.Exec o S.daemon.world r w) (ho : o.isSocket = false) :
    Step bus capacity S (.job i) { S with daemon := ⟨w, S.daemon.jobs.set i j' ++ o.spawned⟩ }
  /-- A job reads what the peer has sent. -/
  | read {S : Buffered} {i : ℕ} {j j' : Job} {c : ConnectionEntry} {r : Option Message} {w : World}
    (hj : S.daemon.jobs[i]? = some j) (hstep : JobStep bus j (.readMessage c) r j')
    (hexec : World.Exec (.readMessage c) S.daemon.world r w) :
    Step bus capacity S (.peer c.id) { S with daemon := ⟨w, S.daemon.jobs.set i j' ++ []⟩ }
  /-- A job puts bytes into the buffer. -/
  | push {S : Buffered} {i n : ℕ} {j : Job} {c : ConnectionEntry} {m : Message}
    (hj : S.daemon.jobs[i]? = some j) (hwrites : j.writes = some (c, m))
    (hm : m.toBytes.isOk = true) (hopen : S.closed c.id = false) (hn : 0 < n)
    (hroom : n ≤ S.room c.id) (hleft : S.sent i + n ≤ m.wireLength) :
    Step bus capacity S (.job i)
      { S with
        room := Function.update S.room c.id (S.room c.id - n)
        sent := Function.update S.sent i (S.sent i + n) }
  /-- The whole message is in the buffer. -/
  | wrote {S : Buffered} {i : ℕ} {j j' : Job} {c : ConnectionEntry} {m : Message} {w : World}
    (hj : S.daemon.jobs[i]? = some j) (hstep : JobStep bus j (.write c m) true j')
    (hexec : World.Exec (.write c m) S.daemon.world true w) (hm : m.toBytes.isOk = true)
    (hsent : S.sent i = m.wireLength) :
    Step bus capacity S (.wrote i c m)
      { S with
        daemon := ⟨w, S.daemon.jobs.set i j' ++ []⟩
        sent := Function.update S.sent i 0 }
  /-- The message cannot be encoded, or the peer is gone. -/
  | failed {S : Buffered} {i : ℕ} {j j' : Job} {c : ConnectionEntry} {m : Message} {w : World}
    (hj : S.daemon.jobs[i]? = some j) (hstep : JobStep bus j (.write c m) false j')
    (hexec : World.Exec (.write c m) S.daemon.world false w)
    (h : m.toBytes.isOk = false ∨ S.closed c.id = true) :
    Step bus capacity S (.job i)
      { S with
        daemon := ⟨w, S.daemon.jobs.set i j' ++ []⟩
        sent := Function.update S.sent i 0 }
  /-- The peer reads bytes from the buffer. -/
  | drain (S : Buffered) (id n : ℕ) (h : S.room id + n ≤ capacity) :
    Step bus capacity S (.peer id) { S with room := Function.update S.room id (S.room id + n) }
  | close (S : Buffered) (id : ℕ) :
    Step bus capacity S (.peer id) { S with closed := Function.update S.closed id true }

/-- The systems that the daemon can be in. -/
def Reachable (bus : Bus) (capacity : ℕ) (S : Buffered) : Prop :=
  ReflTransGen (fun S S' => ∃ m, Step bus capacity S m S') (new capacity) S

/-- **An execution without any step of one peer.** -/
def Without (bus : Bus) (capacity : ℕ) (c : ConnectionEntry) (S S' : Buffered) : Prop :=
  ReflTransGen (fun S S' => ∃ m, m ≠ .peer c.id ∧ Step bus capacity S m S') S S'

/-- **A message is written without one peer**: by some execution without any step of it
the job writes the message. -/
def Delivers (bus : Bus) (capacity : ℕ) (c : ConnectionEntry) (S : Buffered) (i : ℕ)
    (dest : ConnectionEntry) (m : Message) : Prop :=
  ∃ S' S'', Without bus capacity c S S' ∧ Step bus capacity S' (.wrote i dest m) S''

/-! ## What is still to be written -/

/-- What becomes of a write when there is room: the message is written if it can be
encoded and the peer is there. -/
def answers (S : Buffered) (c : ConnectionEntry) (m : Message) : Bool :=
  m.toBytes.isOk && !S.closed c.id

/-- **A step of one job, as it would be if the buffers had room.** -/
inductive Ahead (bus : Bus) (i : ℕ) (S : Buffered) : Daemon → Daemon → Prop where
  | job {D : Daemon} {j j' : Job} {o : BusOp} {r : o.Res} {w : World}
    (hj : D.jobs[i]? = some j) (hstep : JobStep bus j o r j') (hexec : World.Exec o D.world r w)
    (ho : o.isSocket = false) : Ahead bus i S D ⟨w, D.jobs.set i j' ++ o.spawned⟩
  | write {D : Daemon} {j j' : Job} {c : ConnectionEntry} {m : Message} {w : World}
    (hj : D.jobs[i]? = some j) (hstep : JobStep bus j (.write c m) (S.answers c m) j')
    (hexec : World.Exec (.write c m) D.world (S.answers c m) w) :
    Ahead bus i S D ⟨w, D.jobs.set i j' ++ []⟩

/-- The bytes that an operation has written to a connection. -/
def load (c : ConnectionEntry) : BusEvent → ℕ
  | ⟨_, .write c' m, true⟩ => if c'.id = c.id then m.wireLength else 0
  | _ => 0

/-- **A job has a message to write to a connection**, and will write it when it has gone on as
far as to another state of the daemon. -/
structure ToWrite (bus : Bus) (S : Buffered) (i : ℕ) (dest : ConnectionEntry) (m : Message)
    (D : Daemon) : Prop where
  ahead : ReflTransGen (Ahead bus i S) S.daemon D
  writing : D.jobs[i]?.bind Job.writes = some (dest, m)
  answered : S.answers dest m = true

/-- The bytes for a connection of which a job has some in the buffer. -/
def backlog (S : Buffered) (i : ℕ) (c : ConnectionEntry) : ℕ :=
  match S.daemon.jobs[i]?.bind Job.writes with
  | some (c', _) => if c'.id = c.id then S.sent i else 0
  | none => 0

/-- **What is in the way has room**: what the job has to write to a connection until
then, less what is in the buffer already. -/
def Fits (S : Buffered) (i : ℕ) (c : ConnectionEntry) (D : Daemon) : Prop :=
  ((since S.daemon D).map (load c)).sum ≤ S.room c.id + S.backlog i c

/-- **A job is blocked by a connection**: what it is writing has no room. -/
def Blocked (S : Buffered) (i : ℕ) (c : ConnectionEntry) : Prop :=
  ∃ c' m, S.daemon.jobs[i]?.bind Job.writes = some (c', m) ∧ c'.id = c.id ∧
    S.answers c' m = true ∧ S.room c.id + S.sent i < m.wireLength

variable {bus : Bus} {capacity : ℕ} {S S' : Buffered} {mover : Mover} {i k : ℕ} {j j' : Job}
variable {o : BusOp} {r : o.Res} {c c' dest : ConnectionEntry} {m m' : Message}
    {D : Daemon} {w : World}

/-! ## Buffers and the daemon -/

/-- A step of the daemon with its buffers is one of the daemon, or none. -/
theorem Step.daemon (h : Step bus capacity S mover S') :
    Daemon.Step bus S.daemon S'.daemon ∨ S'.daemon = S.daemon := by
  cases h with
  | accept peer => exact .inl (.accept _ peer)
  | job hj hstep hexec => exact .inl (.job hj hstep hexec)
  | read hj hstep hexec => exact .inl (.job hj hstep hexec)
  | wrote hj hstep hexec => exact .inl (.job hj hstep hexec)
  | failed hj hstep hexec => exact .inl (.job hj hstep hexec)
  | push => exact .inr rfl
  | drain => exact .inr rfl
  | close => exact .inr rfl

/-- **Without its buffers it is the daemon.** -/
theorem Reachable.daemon (h : Reachable bus capacity S) : Daemon.Reachable bus S.daemon := by
  induction h with
  | refl => exact .refl
  | tail _ hs ih =>
    obtain ⟨_, hstep⟩ := hs
    rcases hstep.daemon with hstep | hsame
    · exact ih.step hstep
    · rwa [hsame]

/-- **The invariant**: buffers keep to their size, and what is in them of a message that
is not written yet is of a job that is writing it. -/
structure Proper (capacity : ℕ) (S : Buffered) : Prop where
  room : ∀ id, S.room id ≤ capacity
  sent : ∀ i, S.sent i ≠ 0 → ∃ j c m, S.daemon.jobs[i]? = some j ∧ j.writes = some (c, m) ∧
    m.toBytes.isOk = true ∧ S.sent i ≤ m.wireLength

theorem proper_new (capacity : ℕ) : Proper capacity (new capacity) where
  room := fun _ => le_rfl
  sent := fun _ h => absurd rfl h

/-- Another job's step leaves the bytes of the jobs that are writing. -/
theorem Proper.sent_of_ne {l : List Job} (h : Proper capacity S) (hne : i ≠ k)
    (hsent : S.sent k ≠ 0) : ∃ j c m, (S.daemon.jobs.set i j' ++ l)[k]? = some j ∧
      j.writes = some (c, m) ∧ m.toBytes.isOk = true ∧ S.sent k ≤ m.wireLength := by
  obtain ⟨j, c, m, hk, hwrites⟩ := h.sent k hsent
  exact ⟨j, c, m, Slots.getElem?_set_append_of_ne hk hne, hwrites⟩

/-- So does the end of a write, which leaves nothing of its own. -/
theorem Proper.sent_of_ended {l : List Job} (h : Proper capacity S)
    (hsent : Function.update S.sent i 0 k ≠ 0) : ∃ j c m,
      (S.daemon.jobs.set i j' ++ l)[k]? = some j ∧ j.writes = some (c, m) ∧
      m.toBytes.isOk = true ∧ Function.update S.sent i 0 k ≤ m.wireLength := by
  by_cases hki : k = i
  · rw [hki, Function.update_self] at hsent
    exact absurd rfl hsent
  · rw [Function.update_of_ne hki] at hsent ⊢
    exact h.sent_of_ne (Ne.symm hki) hsent

/-- Who is not writing has nothing in a buffer. -/
theorem Proper.sent_eq_zero (h : Proper capacity S) (hj : S.daemon.jobs[i]? = some j)
    (hwrites : j.writes = none) : S.sent i = 0 := by
  by_contra hne
  obtain ⟨j₁, c, m, hj₁, hwrites₁, -⟩ := h.sent i hne
  rw [hj] at hj₁
  cases hj₁
  rw [hwrites] at hwrites₁
  cases hwrites₁

theorem Proper.step (h : Proper capacity S) (hs : Step bus capacity S mover S') :
    Proper capacity S' := by
  cases hs with
  | accept peer =>
    refine ⟨h.room, fun i hi => ?_⟩
    obtain ⟨j, c, m, hj, hwrites⟩ := h.sent i hi
    refine ⟨j, c, m, ?_, hwrites⟩
    exact Slots.getElem?_concat_eq_some.mpr (.inl hj)
  | @job i j j' o r w hj hstep hexec ho =>
    refine ⟨h.room, fun k hk => ?_⟩
    by_cases hki : i = k
    · subst hki
      exact absurd (h.sent_eq_zero hj (hstep.writes_eq_none ho)) hk
    · exact h.sent_of_ne hki hk
  | @read i j j' c r w hj hstep hexec =>
    refine ⟨h.room, fun k hk => ?_⟩
    by_cases hki : i = k
    · subst hki
      obtain ⟨j₁, c₁, m₁, hj₁, hwrites, -⟩ := h.sent i hk
      rw [hj] at hj₁
      cases hj₁
      cases hstep.eq_write hwrites
    · exact h.sent_of_ne hki hk
  | @push i n j c m hj hwrites hm hopen hn hroom hleft =>
    refine ⟨fun id => ?_, fun k hk => ?_⟩
    · show Function.update S.room c.id _ id ≤ capacity
      by_cases hid : id = c.id
      · rw [hid, Function.update_self]
        exact (Nat.sub_le _ _).trans (h.room c.id)
      · rw [Function.update_of_ne hid]
        exact h.room id
    · change Function.update S.sent i _ k ≠ 0 at hk
      show ∃ j c m, _ ∧ _ ∧ _ ∧ Function.update S.sent i _ k ≤ _
      by_cases hki : k = i
      · subst hki
        rw [Function.update_self]
        exact ⟨j, c, m, hj, hwrites, hm, hleft⟩
      · rw [Function.update_of_ne hki] at hk ⊢
        exact h.sent k hk
  | wrote hj hstep hexec hm hsent => exact ⟨h.room, fun k hk => h.sent_of_ended hk⟩
  | failed hj hstep hexec hfail => exact ⟨h.room, fun k hk => h.sent_of_ended hk⟩
  | drain id n hn =>
    refine ⟨fun id' => ?_, h.sent⟩
    show Function.update S.room id _ id' ≤ capacity
    by_cases hid : id' = id
    · rw [hid, Function.update_self]
      exact hn
    · rw [Function.update_of_ne hid]
      exact h.room id'
  | close => exact ⟨h.room, h.sent⟩

theorem Reachable.proper (h : Reachable bus capacity S) : Proper capacity S := by
  induction h with
  | refl => exact proper_new capacity
  | tail _ hs ih =>
    obtain ⟨_, hstep⟩ := hs
    exact ih.step hstep

/-! ## A job that is blocked -/

/-- The job stands at a write to the connection that has no room, and its peer is there. -/
theorem Blocked.exists (h : S.Blocked i c) : ∃ j c' m, S.daemon.jobs[i]? = some j ∧
    j.writes = some (c', m) ∧ c'.id = c.id ∧ m.toBytes.isOk = true ∧ S.closed c.id = false ∧
      S.room c.id + S.sent i < m.wireLength := by
  obtain ⟨c', m, hwrites, hid, hanswers, hroom⟩ := h
  obtain ⟨j, hj, hwrites⟩ := Option.bind_eq_some_iff.mp hwrites
  obtain ⟨hok, hopen⟩ := Bool.and_eq_true_iff.mp hanswers
  rw [Bool.not_eq_true', hid] at hopen
  exact ⟨j, c', m, hj, hwrites, hid, hok, hopen, hroom⟩

theorem blocked_of {j : Job} (hj : S.daemon.jobs[i]? = some j) (hwrites : j.writes = some (c', m))
    (hid : c'.id = c.id) (hok : m.toBytes.isOk = true) (hopen : S.closed c.id = false)
    (hroom : S.room c.id + S.sent i < m.wireLength) : S.Blocked i c := by
  refine ⟨c', m, ?_, hid, ?_, hroom⟩
  · rw [hj]
    exact hwrites
  · rw [answers, hok, hid, hopen]
    rfl

/-- **As long as the peer does nothing, the job is blocked.** -/
theorem Blocked.step (h : S.Blocked i c) (hs : Step bus capacity S mover S')
    (hmover : mover ≠ .peer c.id) : S'.Blocked i c := by
  obtain ⟨j, c', m, hj, hwrites, hid, hok, hopen, hroom⟩ := h.exists
  -- another job's step, whatever it is
  have hother : ∀ {k : ℕ} {j' : Job} {l : List Job}, k ≠ i →
      (S.daemon.jobs.set k j' ++ l)[i]? = some j :=
    fun hki => Slots.getElem?_set_append_of_ne hj hki
  have hsent : ∀ {k n : ℕ}, k ≠ i → Function.update S.sent k n i = S.sent i :=
    fun hki => Function.update_of_ne (Ne.symm hki) ..
  cases hs with
  | accept peer =>
    refine blocked_of (j := j) ?_ hwrites hid hok hopen hroom
    exact Slots.getElem?_concat_eq_some.mpr (.inl hj)
  | @job k j₁ j' o r w hj₁ hstep hexec ho =>
    by_cases hki : k = i
    · subst hki
      rw [hj] at hj₁
      cases hj₁
      rw [hstep.eq_write hwrites] at ho
      cases ho
    · exact blocked_of (hother hki) hwrites hid hok hopen hroom
  | @read k j₁ j' c₁ r w hj₁ hstep hexec =>
    by_cases hki : k = i
    · subst hki
      rw [hj] at hj₁
      cases hj₁
      cases hstep.eq_write hwrites
    · exact blocked_of (hother hki) hwrites hid hok hopen hroom
  | @push k n j₁ c₁ m₁ hj₁ hwrites₁ hm₁ hopen₁ hn hroom₁ hleft =>
    refine blocked_of hj hwrites hid hok hopen ?_
    show Function.update S.room c₁.id _ c.id + Function.update S.sent k _ i < _
    have hle : Function.update S.room c₁.id (S.room c₁.id - n) c.id ≤ S.room c.id := by
      by_cases hc : c.id = c₁.id
      · rw [hc, Function.update_self]
        exact Nat.sub_le _ _
      · rw [Function.update_of_ne hc]
    by_cases hki : k = i
    · subst hki
      rw [hj] at hj₁
      cases hj₁
      rw [hwrites] at hwrites₁
      cases hwrites₁
      rw [← hid, Function.update_self, Function.update_self]
      rw [← hid] at hroom
      omega
    · rw [hsent hki]
      omega
  | @wrote k j₁ j' c₁ m₁ w hj₁ hstep hexec hm₁ hsent₁ =>
    by_cases hki : k = i
    · subst hki
      rw [hj] at hj₁
      cases hj₁
      cases hstep.eq_write hwrites
      omega
    · refine blocked_of (hother hki) hwrites hid hok hopen ?_
      show S.room c.id + Function.update S.sent k 0 i < _
      rwa [hsent hki]
  | @failed k j₁ j' c₁ m₁ w hj₁ hstep hexec hfail =>
    by_cases hki : k = i
    · subst hki
      rw [hj] at hj₁
      cases hj₁
      cases hstep.eq_write hwrites
      rw [hok, hid, hopen] at hfail
      rcases hfail with hfail | hfail <;> cases hfail
    · refine blocked_of (hother hki) hwrites hid hok hopen ?_
      show S.room c.id + Function.update S.sent k 0 i < _
      rwa [hsent hki]
  | drain id n hn =>
    have hne : c.id ≠ id := fun heq => hmover (by rw [heq])
    refine blocked_of hj hwrites hid hok hopen ?_
    show Function.update S.room id _ c.id + S.sent i < _
    rwa [Function.update_of_ne hne]
  | close id =>
    have hne : c.id ≠ id := fun heq => hmover (by rw [heq])
    refine blocked_of hj hwrites hid hok ?_ hroom
    show Function.update S.closed id true c.id = false
    rwa [Function.update_of_ne hne]

theorem Blocked.without (h : S.Blocked i c) (hrun : Without bus capacity c S S') :
    S'.Blocked i c := by
  induction hrun with
  | refl => exact h
  | tail _ hs ih =>
    obtain ⟨mover, hmover, hstep⟩ := hs
    exact ih.step hstep hmover

/-- **A blocked job writes nothing to anybody else.** -/
theorem Blocked.not_delivers (h : S.Blocked i c) (hne : dest.id ≠ c.id) :
    ¬ Delivers bus capacity c S i dest m := by
  rintro ⟨S', S'', hrun, hstep⟩
  obtain ⟨j, c', m', hj, hwrites, hid, -⟩ := (h.without hrun).exists
  cases hstep with
  | wrote hj₁ hstep =>
    rw [hj] at hj₁
    cases hj₁
    cases hstep.eq_write hwrites
    exact hne hid

/-! ## A job that goes ahead -/

/-- **The whole message gets into the buffer of another connection**, whose peer reads
when it has to. -/
theorem exists_pushed (bus : Bus) (hcapacity : 0 < capacity) (hj : S.daemon.jobs[i]? = some j)
    (hwrites : j.writes = some (dest, m)) (hanswers : S.answers dest m = true)
    (hne : dest.id ≠ c.id) (hle : S.sent i ≤ m.wireLength) :
    ∃ S', Without bus capacity c S S' ∧ S'.daemon = S.daemon ∧ S'.closed = S.closed ∧
      S'.room c.id = S.room c.id ∧ S'.sent i = m.wireLength ∧ ∀ k, k ≠ i →
      S'.sent k = S.sent k := by
  obtain ⟨n, hn⟩ := Nat.exists_eq_add_of_le hle
  obtain ⟨hok, hopen⟩ := Bool.and_eq_true_iff.mp hanswers
  rw [Bool.not_eq_true'] at hopen
  induction n generalizing S with
  | zero => exact ⟨S, .refl, rfl, rfl, rfl, hn.symm, fun _ _ => rfl⟩
  | succ n ih =>
    -- there is room for a byte, or the peer makes some
    obtain ⟨S₁, hrun, hdaemon, hclosed, hroom, hsent, hfree⟩ : ∃ S₁, Without bus capacity c S S₁ ∧
        S₁.daemon = S.daemon ∧ S₁.closed = S.closed ∧ S₁.room c.id = S.room c.id ∧
        S₁.sent = S.sent ∧ 0 < S₁.room dest.id := by
      by_cases hfree : 0 < S.room dest.id
      · exact ⟨S, .refl, rfl, rfl, rfl, rfl, hfree⟩
      · have hnone : S.room dest.id = 0 := Nat.eq_zero_of_not_pos hfree
        refine ⟨_, .single ⟨_, ?_, .drain S dest.id 1 (by omega)⟩, rfl, rfl, ?_, rfl, ?_⟩
        · exact fun heq => hne (Mover.peer.inj heq)
        · exact Function.update_of_ne (Ne.symm hne) ..
        · show 0 < Function.update S.room dest.id _ dest.id
          rw [Function.update_self]
          omega
    have hpush : Step bus capacity S₁ (.job i) _ := .push (n := 1) (hdaemon ▸ hj) hwrites hok
      (hclosed ▸ hopen) Nat.one_pos hfree (by rw [hsent]; omega)
    have hsent₂ : Function.update S₁.sent i (S₁.sent i + 1) i = S.sent i + 1 := by
      rw [Function.update_self, hsent]
    have hleft : m.wireLength = Function.update S₁.sent i (S₁.sent i + 1) i + n := by
      rw [hsent₂]
      omega
    obtain ⟨S', hrun', hdaemon', hclosed', hroom', hsent', hothers⟩ :=
      ih (S := { S₁ with
        room := Function.update S₁.room dest.id (S₁.room dest.id - 1)
        sent := Function.update S₁.sent i (S₁.sent i + 1) })
      (hdaemon ▸ hj) (by rw [answers, hclosed]; exact hanswers)
      (hsent₂.trans_le (by omega)) hleft (hclosed ▸ hopen)
    refine ⟨S', (hrun.tail ⟨.job i, nofun, hpush⟩).trans hrun', hdaemon'.trans hdaemon,
      hclosed'.trans hclosed, ?_, hsent', fun k hk => ?_⟩
    · rw [hroom', ← hroom]
      exact Function.update_of_ne (Ne.symm hne) ..
    · rw [hothers k hk, ← hsent]
      exact Function.update_of_ne hk ..

/-- **The whole message gets into the buffer** that has room for what is left of it. -/
theorem exists_pushed_of_room (bus : Bus) (capacity : ℕ) (hj : S.daemon.jobs[i]? = some j)
    (hwrites : j.writes = some (dest, m)) (hanswers : S.answers dest m = true)
    (hid : dest.id = c.id) (hle : S.sent i ≤ m.wireLength)
    (hroom : m.wireLength ≤ S.room c.id + S.sent i) :
    ∃ S', Without bus capacity c S S' ∧ S'.daemon = S.daemon ∧ S'.closed = S.closed ∧
      S'.room c.id + m.wireLength = S.room c.id + S.sent i ∧ S'.sent i = m.wireLength := by
  obtain ⟨hok, hopen⟩ := Bool.and_eq_true_iff.mp hanswers
  rw [Bool.not_eq_true'] at hopen
  by_cases hall : S.sent i = m.wireLength
  · exact ⟨S, .refl, rfl, rfl, by rw [hall], hall⟩
  · refine ⟨_,
      .single ⟨.job i, nofun, .push (n := m.wireLength - S.sent i) hj hwrites hok hopen (by omega)
      (by rw [hid]; omega) (by omega)⟩, rfl, rfl, ?_, ?_⟩
    · show Function.update S.room dest.id _ c.id + _ = _
      rw [hid, Function.update_self]
      omega
    · show Function.update S.sent i _ i = _
      rw [Function.update_self]
      omega

theorem Without.reachable (h : Without bus capacity c S S') (hreach : Reachable bus capacity S) :
    Reachable bus capacity S' :=
  ReflTransGen.trans hreach (ReflTransGen.mono (fun _ _ ⟨mover, _, hstep⟩ => ⟨mover, hstep⟩) _ _ h)

theorem backlog_of_writes (hj : S.daemon.jobs[i]? = some j) (hwrites : j.writes = some (c', m)) :
    S.backlog i c = if c'.id = c.id then S.sent i else 0 := by
  unfold backlog
  rw [hj, Option.bind_some, hwrites]

theorem backlog_of_none (hj : S.daemon.jobs[i]? = some j) (hwrites : j.writes = none) :
    S.backlog i c = 0 := by
  unfold backlog
  rw [hj, Option.bind_some, hwrites]

theorem backlog_of_sent (hsent : S.sent i = 0) : S.backlog i c = 0 := by
  unfold backlog
  split
  · rw [hsent, ite_self]
  · rfl

theorem load_of_isSocket {s : BusState} (ho : o.isSocket = false) :
    load c ⟨s, o, r⟩ = 0 := by
  cases o with
  | write => cases ho
  | _ => rfl

/-- A job that is writing has not put more into the buffer than there is. -/
theorem Proper.sent_le (h : Proper capacity S) (hj : S.daemon.jobs[i]? = some j)
    (hwrites : j.writes = some (c', m)) : S.sent i ≤ m.wireLength := by
  by_cases hsent : S.sent i = 0
  · rw [hsent]
    exact Nat.zero_le _
  · obtain ⟨j₁, c₁, m₁, hj₁, hwrites₁, -, hle⟩ := h.sent i hsent
    rw [hj] at hj₁
    cases hj₁
    rw [hwrites] at hwrites₁
    cases hwrites₁
    exact hle

/-- **A state that a job gets to without one peer**, with the room that it leaves. -/
structure Arrives (bus : Bus) (capacity : ℕ) (S : Buffered) (i : ℕ) (c : ConnectionEntry)
    (D : Daemon)
    (bytes : ℕ) (S' : Buffered) : Prop where
  without : Without bus capacity c S S'
  daemon : S'.daemon = D
  closed : S'.closed = S.closed
  /-- A connection that is closed is written nothing. -/
  room : S.closed c.id = false →
    S'.room c.id + S'.backlog i c + bytes = S.room c.id + S.backlog i c

namespace Arrives

variable {bytes : ℕ}

/-- The job does something that has nothing to do with a socket. -/
theorem job (h : Arrives bus capacity S i c D bytes S') (hreach : Reachable bus capacity S)
    (hj : D.jobs[i]? = some j) (hstep : JobStep bus j o r j') (hexec : World.Exec o D.world r w)
    (ho : o.isSocket = false) :
    ∃ S'', Arrives bus capacity S i c ⟨w, D.jobs.set i j' ++ o.spawned⟩ bytes S'' := by
  obtain rfl := h.daemon
  refine ⟨_, h.without.tail ⟨.job i, nofun, .job hj hstep hexec ho⟩, rfl, h.closed, fun hopen => ?_⟩
  have hnone := hstep.writes_eq_none ho
  have hsent : S'.sent i = 0 := (h.without.reachable hreach).proper.sent_eq_zero hj hnone
  rw [backlog_of_sent (by exact hsent), ← h.room hopen, backlog_of_none hj hnone]

/-- The job has written a message to another connection. -/
theorem wrote (h : Arrives bus capacity S i c D bytes S') (hreach : Reachable bus capacity S)
    (hcapacity : 0 < capacity) (hj : D.jobs[i]? = some j)
    (hstep : JobStep bus j (.write dest m) true j')
    (hexec : World.Exec (.write dest m) D.world true w) (hanswers : S.answers dest m = true)
    (hne : dest.id ≠ c.id) :
    ∃ S'', Arrives bus capacity S i c ⟨w, D.jobs.set i j' ++ []⟩ bytes S'' := by
  obtain rfl := h.daemon
  have hproper := (h.without.reachable hreach).proper
  have hanswers' : S'.answers dest m = true := by
    rw [answers, h.closed]
    exact hanswers
  obtain ⟨S₁, hrun, hdaemon, hclosed, hroom, hsent, -⟩ := exists_pushed bus hcapacity hj
    hstep.writes_of_write hanswers' hne (hproper.sent_le hj hstep.writes_of_write)
  rw [← hdaemon] at hj hexec ⊢
  refine ⟨_, (h.without.trans hrun).tail ⟨.wrote i dest m, nofun, .wrote hj hstep hexec
    (Bool.and_eq_true_iff.mp hanswers).1 hsent⟩, rfl, hclosed.trans h.closed, fun hopen => ?_⟩
  rw [backlog_of_sent (Function.update_self ..), ← h.room hopen,
    backlog_of_writes (hdaemon ▸ hj) hstep.writes_of_write, if_neg hne]
  show S₁.room c.id + 0 + bytes = _
  rw [hroom]

/-- The job has written a message to the connection, which had room for it. -/
theorem wrote_of_room (h : Arrives bus capacity S i c D bytes S')
    (hreach : Reachable bus capacity S) (hj : D.jobs[i]? = some j)
    (hstep : JobStep bus j (.write dest m) true j')
    (hexec : World.Exec (.write dest m) D.world true w) (hanswers : S.answers dest m = true)
    (hid : dest.id = c.id) (hfits : m.wireLength + bytes ≤ S.room c.id + S.backlog i c) :
    ∃ S'', Arrives bus capacity S i c ⟨w, D.jobs.set i j' ++ []⟩ (m.wireLength + bytes) S'' := by
  obtain rfl := h.daemon
  have hproper := (h.without.reachable hreach).proper
  have hanswers' : S'.answers dest m = true := by
    rw [answers, h.closed]
    exact hanswers
  have hopen : S.closed c.id = false := by
    have hboth := (Bool.and_eq_true_iff.mp hanswers).2
    rwa [Bool.not_eq_true', hid] at hboth
  have hbacklog : S'.backlog i c = S'.sent i := by
    rw [backlog_of_writes hj hstep.writes_of_write, if_pos hid]
  have hroom := h.room hopen
  obtain ⟨S₁, hrun, hdaemon, hclosed, hroom₁, hsent⟩ := exists_pushed_of_room bus capacity
    hj hstep.writes_of_write hanswers' hid
    (hproper.sent_le hj hstep.writes_of_write) (by omega)
  rw [← hdaemon] at hj hexec ⊢
  refine ⟨_, (h.without.trans hrun).tail ⟨.wrote i dest m, nofun, .wrote hj hstep hexec
    (Bool.and_eq_true_iff.mp hanswers).1 hsent⟩, rfl, hclosed.trans h.closed, fun _ => ?_⟩
  rw [backlog_of_sent (Function.update_self ..)]
  show S₁.room c.id + 0 + (m.wireLength + bytes) = _
  omega

/-- The job fails to write a message. -/
theorem failed (h : Arrives bus capacity S i c D bytes S') (hreach : Reachable bus capacity S)
    (hj : D.jobs[i]? = some j) (hstep : JobStep bus j (.write dest m) false j')
    (hexec : World.Exec (.write dest m) D.world false w) (hanswers : S.answers dest m = false) :
    ∃ S'', Arrives bus capacity S i c ⟨w, D.jobs.set i j' ++ []⟩ bytes S'' := by
  obtain rfl := h.daemon
  have hfail : m.toBytes.isOk = false ∨ S'.closed dest.id = true := by
    rw [h.closed]
    rcases Bool.and_eq_false_iff.mp hanswers with hok | hclosed
    · exact .inl hok
    · exact .inr (by rwa [Bool.not_eq_false'] at hclosed)
  refine ⟨_, h.without.tail ⟨.job i, nofun, .failed hj hstep hexec hfail⟩, rfl, h.closed,
    fun hopen => ?_⟩
  rw [backlog_of_sent (Function.update_self ..), ← h.room hopen,
    backlog_of_writes hj hstep.writes_of_write]
  split
  · next hid =>
    -- nothing was in the buffer: the message cannot be encoded
    have hnone : S'.sent i = 0 := by
      by_contra hsent
      obtain ⟨j₁, c₁, m₁, hj₁, hwrites₁, hok, -⟩ :=
        (h.without.reachable hreach).proper.sent i hsent
      rw [hj] at hj₁
      cases hj₁
      rw [hstep.writes_of_write] at hwrites₁
      cases hwrites₁
      rw [hok, hid, h.closed, hopen] at hfail
      rcases hfail with hfail | hfail <;> cases hfail
    rw [hnone]
  · rfl

end Arrives

/-- **A job gets as far as it would if the buffers had room**, when what it writes to
the connection on its way fits. -/
theorem exists_arrives (hreach : Reachable bus capacity S) (hcapacity : 0 < capacity)
    (hahead : ReflTransGen (Ahead bus i S) S.daemon D) :
    ∃ es : List BusEvent, D.world.log = es ++ S.daemon.world.log ∧
      ((es.map (load c)).sum ≤ S.room c.id + S.backlog i c →
        ∃ S', Arrives bus capacity S i c D (es.map (load c)).sum S') := by
  induction hahead with
  | refl => exact ⟨[], rfl, fun _ => ⟨S, .refl, rfl, rfl, fun _ => rfl⟩⟩
  | @tail D _ _ hs ih =>
    obtain ⟨es, hlog, harrives⟩ := ih
    cases hs with
    | @job j j' o r w hj hstep hexec ho =>
      refine ⟨⟨D.world.state, o, r⟩ :: es, ?_, fun hfits => ?_⟩
      · show w.log = _
        rw [hexec.2, hlog]
        rfl
      · rw [List.map_cons, List.sum_cons, load_of_isSocket ho, Nat.zero_add] at hfits ⊢
        obtain ⟨S', h⟩ := harrives hfits
        exact h.job hreach hj hstep hexec ho
    | @write j j' dest m w hj hstep hexec =>
      refine ⟨⟨D.world.state, .write dest m, S.answers dest m⟩ :: es, ?_, fun hfits => ?_⟩
      · show w.log = _
        rw [hexec.2, hlog]
        rfl
      · rw [List.map_cons, List.sum_cons] at hfits ⊢
        obtain ⟨S', h⟩ := harrives (Nat.le_trans (Nat.le_add_left _ _) hfits)
        cases hanswers : S.answers dest m with
        | false =>
          rw [hanswers] at hstep hexec
          rw [show load c ⟨_, .write dest m, false⟩ = 0 from rfl, Nat.zero_add]
          exact h.failed hreach hj hstep hexec hanswers
        | true =>
          rw [hanswers] at hstep hexec hfits
          by_cases hid : dest.id = c.id
          · rw [show load c ⟨_, .write dest m, true⟩ = m.wireLength from if_pos hid] at hfits ⊢
            exact h.wrote_of_room hreach hj hstep hexec hanswers hid hfits
          · rw [show load c ⟨_, .write dest m, true⟩ = 0 from if_neg hid, Nat.zero_add]
            exact h.wrote hreach hcapacity hj hstep hexec hanswers hid

/-- **A reader that stalls keeps nothing from the others if what is for it has room.** A
message that a job has to write to another connection is written by some execution
without any step of the stalled one, if what the job writes to that before fits into
the buffer. A job that waits for more room than there is writes nothing to
anybody else. -/
theorem delivers_of_fits (bus : Bus) (capacity : ℕ) (S : Buffered) (h : Reachable bus capacity S)
    (c dest : ConnectionEntry) (i : ℕ) (m : Message) (hne : dest.id ≠ c.id)
    (hroom : 0 < S.room dest.id) :
    (∀ D, ToWrite bus S i dest m D → S.Fits i c D → Delivers bus capacity c S i dest m) ∧
      (S.Blocked i c → ¬ Delivers bus capacity c S i dest m) := by
  refine ⟨fun D hwrite hfits => ?_, fun hblocked => hblocked.not_delivers hne⟩
  have hcapacity : 0 < capacity := hroom.trans_le (h.proper.room dest.id)
  obtain ⟨es, hlog, harrives⟩ := exists_arrives h hcapacity hwrite.ahead (c := c)
  have hbytes : (es.map (load c)).sum ≤ S.room c.id + S.backlog i c := by
    have hsum : ((since S.daemon D).map (load c)).sum = (es.map (load c)).sum := by
      rw [since_eq hlog, List.map_reverse, List.sum_reverse]
    exact hsum.symm.trans_le hfits
  obtain ⟨S₁, harrive⟩ := harrives hbytes
  obtain rfl := harrive.daemon
  obtain ⟨j, hj, hwrites⟩ := Option.bind_eq_some_iff.mp hwrite.writing
  have hanswers : S₁.answers dest m = true := by
    rw [answers, harrive.closed]
    exact hwrite.answered
  have hok := (Bool.and_eq_true_iff.mp hanswers).1
  obtain ⟨S₂, hrun, hdaemon, -, -, hsent, -⟩ := exists_pushed bus hcapacity hj hwrites
    hanswers hne ((harrive.without.reachable h).proper.sent_le hj hwrites)
  obtain ⟨j', hstep⟩ := JobStep.exists_of_writes bus hwrites true
  exact ⟨S₂, _, harrive.without.trans hrun, .wrote
    (w := ⟨S₂.daemon.world.state,
      ⟨S₂.daemon.world.state, .write dest m, true⟩ :: S₂.daemon.world.log⟩)
    (hdaemon ▸ hj) hstep ⟨⟨fun _ => hok, rfl⟩, rfl⟩ hok hsent⟩

/-! ## Runs with buffers of any size -/

/-- A write that fails only if the message cannot be encoded. -/
def goesThrough : BusEvent → Bool
  | ⟨_, .write _ m, written⟩ => written == m.toBytes.isOk
  | _ => true

/-- **Every run of the daemon in which nobody is gone is a run with buffers of any
size**, whose peers read when they have to. -/
theorem exists_reachable (hcapacity : 0 < capacity) (h : Daemon.Reachable bus D)
    (hlog : D.world.log.all goesThrough = true) : ∃ S, Reachable bus capacity S ∧ S.daemon = D ∧
      (∀ i, S.sent i = 0) ∧ ∀ id, S.closed id = false := by
  induction h with
  | refl => exact ⟨new capacity, .refl, rfl, fun _ => rfl, fun _ => rfl⟩
  | @tail D _ hrun hs ih =>
    cases hs with
    | accept peer =>
      obtain ⟨S, hS, rfl, hsent, hopen⟩ := ih hlog
      exact ⟨_, hS.tail ⟨_, .accept S peer⟩, rfl, hsent, hopen⟩
    | @job i j j' o r w hj hstep hexec =>
      change w.log.all goesThrough = true at hlog
      rw [hexec.2, List.all_cons, Bool.and_eq_true] at hlog
      obtain ⟨S, hS, rfl, hsent, hopen⟩ := ih hlog.2
      by_cases ho : o.isSocket = true
      · cases o with
        | readMessage c => exact ⟨_, hS.tail ⟨_, .read hj hstep hexec⟩, rfl, hsent, hopen⟩
        | write c m =>
          have hok : r = m.toBytes.isOk := beq_iff_eq.mp hlog.1
          cases r with
          | false =>
            refine ⟨_, hS.tail ⟨_, .failed hj hstep hexec (.inl hok.symm)⟩, rfl, fun k => ?_, hopen⟩
            show Function.update S.sent i 0 k = 0
            by_cases hk : k = i
            · rw [hk, Function.update_self]
            · rw [Function.update_of_ne hk, hsent]
          | true =>
            have hanswers : S.answers c m = true := by
              rw [answers, ← hok, hopen]
              rfl
            obtain ⟨S₁, hrun, hdaemon, hclosed, -, hall, hothers⟩ := exists_pushed bus
              (c := ⟨c.id + 1, c.credentials, none⟩) hcapacity hj hstep.writes_of_write hanswers
              (Nat.succ_ne_self c.id).symm (by rw [hsent]; exact Nat.zero_le _)
            rw [← hdaemon] at hj hexec ⊢
            refine ⟨_, (hrun.reachable hS).tail ⟨_, .wrote hj hstep hexec hok.symm hall⟩, rfl,
              fun k => ?_, fun id => ?_⟩
            · show Function.update S₁.sent i 0 k = 0
              by_cases hk : k = i
              · rw [hk, Function.update_self]
              · rw [Function.update_of_ne hk, hothers k hk, hsent]
            · show S₁.closed id = false
              rw [hclosed]
              exact hopen id
        | _ => cases ho
      · rw [Bool.not_eq_true] at ho
        exact ⟨_, hS.tail ⟨_, .job hj hstep hexec ho⟩, rfl, hsent, hopen⟩

/-! ## Runs that are replayed -/

/-- A move has the answer of a peaceful world. -/
theorem exists_move {s : BusState} {move : Move} (h : j.move bus s = some move) :
    ∃ o next, move = Move.of s o next := by
  cases j with
  | serving c p =>
    cases p with
    | ret => cases h
    | call =>
      cases h
      exact ⟨_, _, rfl⟩
  | announcing p =>
    cases p with
    | ret =>
      cases h
      exact ⟨_, _, rfl⟩
    | call =>
      cases h
      exact ⟨_, _, rfl⟩
  | finished => cases h
  | _ =>
    cases h
    exact ⟨_, _, rfl⟩

/-- **A job that is replayed goes ahead** as if the buffers had room. -/
theorem ahead_advance (hreach : Daemon.Reachable bus D) (hopen : ∀ id, S.closed id = false) :
    ReflTransGen (Ahead bus i S) D (D.advance bus i) := by
  unfold Daemon.advance
  split
  · next move hmove =>
    obtain ⟨j, hj, hmove⟩ := Option.bind_eq_some_iff.mp hmove
    obtain ⟨o, next, rfl⟩ := exists_move hmove
    obtain ⟨hstep, hexec⟩ := Job.move_sound hmove
    change JobStep bus j o (o.answer D.world.state).1 _ at hstep
    show ReflTransGen _ D ⟨⟨_, ⟨_, o, (o.answer D.world.state).1⟩ :: _⟩, _⟩
    by_cases ho : o.isSocket = true
    · cases o with
      | write c m =>
        have hres : m.toBytes.isOk = S.answers c m := by
          rw [answers, hopen]
          exact (Bool.and_true _).symm
        change JobStep bus j (.write c m) m.toBytes.isOk (next m.toBytes.isOk) at hstep
        change BusOp.Exec (.write c m) D.world.state m.toBytes.isOk D.world.state at hexec
        show ReflTransGen _ D ⟨⟨D.world.state, ⟨D.world.state, .write c m, m.toBytes.isOk⟩ :: _⟩,
          D.jobs.set i (next m.toBytes.isOk) ++ []⟩
        rw [hres] at hstep hexec ⊢
        exact .single (.write hj hstep ⟨hexec, rfl⟩)
      | readMessage c =>
        -- nobody reads in the middle of a program
        have hsettled := hreach.sessions.settled hj
        change JobStep bus j (.readMessage c) none (next none) at hstep
        generalize next none = j₁ at hstep
        cases hstep with
        | readFailed => cases hmove
        | dispatch => exact hsettled.2.1.elim
        | announce => exact (hsettled c).1.elim
      | _ => cases ho
    · exact .single (.job hj hstep ⟨hexec, rfl⟩ (Bool.not_eq_true _ ▸ ho))
  · exact .refl

theorem ahead_advances (hreach : Daemon.Reachable bus D)
    (hopen : ∀ id, S.closed id = false) (n : ℕ) :
    ReflTransGen (Ahead bus i S) D (D.advances bus i n) := by
  induction n generalizing D with
  | zero => exact .refl
  | succ n ih =>
    exact (ahead_advance hreach hopen).trans (ih (hreach.trans (steps_advance D i)))

/-! ## A subscriber that does not read -/

/-- Two of three clients ask for the notices, and the third for a name. Its job is about to tell
the second client. -/
def stallingScript : List Instruction :=
  threeScript ++ subscribe 1 ++ [askForName 2 0, .run 2 14]

def stalling : Daemon := Daemon.new.replay plainBus stallingScript

/-- It has told the second client, and is about to tell the first. -/
def unstalled : Daemon := stalling.advances plainBus 2 5

/-- The second client. -/
def stalled : ConnectionEntry := ⟨2, ⟨1000, 1000, 4712⟩, none⟩

/-- Whether a job is about to write a message that can be encoded, and is longer than some
bytes, to a connection. -/
def isWriting (D : Daemon) (i : ℕ) (c : ConnectionEntry) (bytes : ℕ) : Bool :=
  (D.jobs[i]?.bind Job.writes).any fun x => x.1 == c && x.2.toBytes.isOk && bytes < x.2.wireLength

theorem exists_of_isWriting {bytes : ℕ} (h : isWriting D i c bytes = true) :
    ∃ m, D.jobs[i]?.bind Job.writes = some (c, m) ∧ m.toBytes.isOk = true ∧
    bytes < m.wireLength := by
  obtain ⟨⟨c', m⟩, hwrites, hboth⟩ := (Option.any_eq_true _ _).mp h
  simp only [Bool.and_eq_true, beq_iff_eq, decide_eq_true_eq] at hboth
  obtain ⟨⟨rfl, hok⟩, hlong⟩ := hboth
  exact ⟨m, hwrites, hok, hlong⟩

/-- The peer of a connection can read all that is in its buffer. -/
theorem exists_drained (h : Reachable bus capacity S) (id : ℕ) : ∃ S', Reachable bus capacity S' ∧
    S'.daemon = S.daemon ∧ S'.sent = S.sent ∧ S'.closed = S.closed ∧
    S'.room = Function.update S.room id capacity := by
  have hroom : S.room id + (capacity - S.room id) = capacity :=
    Nat.add_sub_cancel' (h.proper.room id)
  refine ⟨_, h.tail ⟨_, .drain S id (capacity - S.room id) hroom.le⟩, rfl, rfl, rfl, ?_⟩
  show Function.update S.room id (S.room id + (capacity - S.room id)) = _
  rw [hroom]

/-- The run with buffers of any size, when the first two clients have read everything. -/
theorem exists_stalling (hcapacity : 0 < capacity) : ∃ S, Reachable plainBus capacity S ∧
    S.daemon = stalling ∧ S.sent 2 = 0 ∧ (∀ id, S.closed id = false) ∧
    S.room 1 = capacity ∧ S.room 2 = capacity := by
  have hreach : Daemon.Reachable plainBus stalling := reachable_replay reachable_new stallingScript
  obtain ⟨S, hS, hdaemon, hsent, hopen⟩ : ∃ S, Reachable plainBus capacity S ∧
      S.daemon = stalling ∧ (∀ i, S.sent i = 0) ∧ ∀ id, S.closed id = false :=
    exists_reachable hcapacity hreach (by decide +kernel)
  obtain ⟨S₁, hS₁, hdaemon₁, hsent₁, hclosed₁, hroom₁⟩ := exists_drained hS 1
  obtain ⟨S₂, hS₂, hdaemon₂, hsent₂, hclosed₂, hroom₂⟩ := exists_drained hS₁ 2
  refine ⟨S₂, hS₂, (hdaemon₂.trans hdaemon₁).trans hdaemon, ?_, ?_, ?_, ?_⟩
  · rw [hsent₂, hsent₁]
    exact hsent 2
  · rw [hclosed₂, hclosed₁]
    exact hopen
  · rw [hroom₂, hroom₁]
    rfl
  · rw [hroom₂]
    rfl

/-- The job has the notice for the first client still to write. -/
theorem exists_toWrite {S : Buffered} (hdaemon : S.daemon = stalling)
    (hopen : ∀ id, S.closed id = false) :
    ∃ m, ToWrite plainBus S 2 (peerConnection 1) m unstalled := by
  obtain ⟨m, hwrites, hok, -⟩ :
      ∃ m, unstalled.jobs[2]?.bind Job.writes = some (peerConnection 1, m) ∧
      m.toBytes.isOk = true ∧ 0 < m.wireLength := exists_of_isWriting (by decide +kernel)
  have hreach : Daemon.Reachable plainBus stalling := reachable_replay reachable_new stallingScript
  refine ⟨m, ?_, hwrites, ?_⟩
  · rw [hdaemon]
    exact ahead_advances hreach hopen 5
  · rw [answers, hok, hopen]
    rfl

/-- **The second client does not read, and the first is told nothing.** -/
theorem stalled_reader : ¬ ∀ (bus : Bus) (capacity : ℕ) (S : Buffered), Reachable bus capacity S →
    ∀ (c dest : ConnectionEntry) (i : ℕ) (m : Message) (D : Daemon), dest.id ≠ c.id →
      0 < S.room dest.id → ToWrite bus S i dest m D → Delivers bus capacity c S i dest m := by
  intro h
  obtain ⟨S, hS, hdaemon, hsent, hopen, hroom, -⟩ := exists_stalling (by decide : 0 < 64)
  obtain ⟨m, hwrite⟩ := exists_toWrite hdaemon hopen
  have hdelivers := h plainBus 64 S hS stalled (peerConnection 1) 2 m unstalled (by decide)
    (hroom.symm ▸ (by decide : 0 < 64)) hwrite
  refine Blocked.not_delivers ?_ (show (peerConnection 1).id ≠ stalled.id by decide) hdelivers
  obtain ⟨m', hwrites, hok, hlong⟩ : ∃ m, stalling.jobs[2]?.bind Job.writes = some (stalled, m) ∧
      m.toBytes.isOk = true ∧ 64 < m.wireLength := exists_of_isWriting (by decide +kernel)
  refine ⟨stalled, m', hdaemon ▸ hwrites, rfl, ?_, ?_⟩
  · rw [answers, hok, hopen]
    rfl
  · rw [hsent]
    exact Nat.lt_of_le_of_lt (hS.proper.room stalled.id) hlong

/-- In a larger buffer there is room for the notice to the second client, and the first is told
though the second does not read. -/
theorem delivers_stalling : ((since stalling unstalled).map (load stalled)).sum = 193 ∧
    ∃ S, Reachable plainBus 4096 S ∧ S.daemon = stalling ∧ S.room stalled.id = 4096 ∧
      ∃ m, Delivers plainBus 4096 stalled S 2 (peerConnection 1) m := by
  have hload : ((since stalling unstalled).map (load stalled)).sum = 193 := by decide +kernel
  obtain ⟨S, hS, hdaemon, -, hopen, hroom, hroom'⟩ := exists_stalling (by decide : 0 < 4096)
  obtain ⟨m, hwrite⟩ := exists_toWrite hdaemon hopen
  refine ⟨hload, S, hS, hdaemon, hroom', m, (delivers_of_fits plainBus 4096 S hS stalled
    (peerConnection 1) 2 m (by decide) (hroom.symm ▸ (by decide : 0 < 4096))).1 unstalled hwrite ?_⟩
  unfold Fits
  rw [hdaemon, hload, show S.room stalled.id = 4096 from hroom']
  exact Nat.le_add_right_of_le (by decide)

end Buffered

end Oxibus
