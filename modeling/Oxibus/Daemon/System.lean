import Oxibus.Lib.Slots
import Oxibus.Daemon.Dispatch

/-!
# The daemon as a system of jobs

Every accepted connection is a job of its own, which runs `handle_connection`:
it is counted as incomplete, goes through its handshake, is given a name,
and from then on reads messages and dispatches them one by one until it is
gone. A copy for a monitor is a job too. The jobs take turns, one operation
at a time, in any order.

The log keeps every operation with the state it found and its answer, the
latest first. What holds of every run is stated about the log of every
reachable system, and `Reachable.guarantee` is the rule by which it is
proved: what one job guarantees of its operations while the others run.
-/

namespace Oxibus

/-- **An operation that was performed**, in a state and with an answer. -/
structure BusEvent where
  before : BusState
  op : BusOp
  res : op.Res

/-- The shared state and what has happened to it. -/
structure World where
  state : BusState
  /-- The operations so far, the latest first. -/
  log : List BusEvent

/-- An operation happens and is logged. -/
def World.Exec (o : BusOp) (w : World) (r : o.Res) (w' : World) : Prop :=
  o.Exec w.state r w'.state ∧ w'.log = ⟨w.state, o, r⟩ :: w.log

/-- **A job**: how far `handle_connection` has come for a connection, or a
copy of a message to write. The guard that counts the connection as
incomplete is held from `begun` on, up to `finished`. -/
inductive Job where
  /-- The connection is accepted, nothing is done yet. -/
  | accepted (peer : PeerCredentials)
  /-- The guard is taken. -/
  | begun (peer : PeerCredentials)
  /-- The socket is wrapped. -/
  | wrapped (peer : PeerCredentials)
  /-- The handshake is going on. -/
  | handshaking (peer : PeerCredentials)
  /-- The connection is turned down without a handshake; the guard is dropped
  next. -/
  | rejected
  /-- The handshake has failed or timed out; the guard is dropped next. -/
  | failed
  /-- The handshake has succeeded. -/
  | authenticated (peer : PeerCredentials)
  /-- The security label is known. -/
  | labelled (peer : PeerCredentials) (label : Option String)
  /-- The connection has its name, and is not in the registry yet. -/
  | named (c : ConnectionEntry)
  /-- A message is being dispatched; once the program returns, the next one
  is read. -/
  | serving (c : ConnectionEntry) (p : BusProg Unit)
  /-- The peer is gone. -/
  | disconnecting (c : ConnectionEntry)
  /-- The connection is removed, and everybody is told. -/
  | announcing (p : BusProg Unit)
  /-- A copy of a message is to be written. -/
  | copying (c : ConnectionEntry) (msg : Message)
  /-- Nothing is left to do. -/
  | finished

/-- **The next operation of a job**, and the job after its answer. -/
inductive JobStep (bus : Bus) : Job → (o : BusOp) → o.Res → Job → Prop where
  | refused {peer : PeerCredentials} :
    JobStep bus (.accepted peer) (.tryBeginIncomplete bus.limits.maxIncompleteConnections) false
      .finished
  | began {peer : PeerCredentials} :
    JobStep bus (.accepted peer) (.tryBeginIncomplete bus.limits.maxIncompleteConnections) true
      (.begun peer)
  | wrapFailed {peer : PeerCredentials} : JobStep bus (.begun peer) .wrapSocket false .rejected
  | wrapDone {peer : PeerCredentials} : JobStep bus (.begun peer) .wrapSocket true (.wrapped peer)
  | tooMany {peer : PeerCredentials} {n : ℕ} (h : bus.limits.maxConnectionsPerUser ≤ n) :
    JobStep bus (.wrapped peer) (.connectionCountForUid peer.uid) n .rejected
  | counted {peer : PeerCredentials} {n : ℕ} (h : n < bus.limits.maxConnectionsPerUser) :
    JobStep bus (.wrapped peer) (.connectionCountForUid peer.uid) n (.handshaking peer)
  | handshakeFailed {peer : PeerCredentials} :
    JobStep bus (.handshaking peer) .handshake false .failed
  | handshakeDone {peer : PeerCredentials} :
    JobStep bus (.handshaking peer) .handshake true (.authenticated peer)
  | readLabel {peer : PeerCredentials} {label : Option String} :
    JobStep bus (.authenticated peer) .readLabel label (.labelled peer label)
  | allocate {peer : PeerCredentials} {label : Option String} {id : ℕ} :
    JobStep bus (.labelled peer label) .allocateUniqueName id (.named ⟨id, peer, label⟩)
  | add {c : ConnectionEntry} :
    JobStep bus (.named c) (.addConnection c) () (.serving c (.ret ()))
  | read {c : ConnectionEntry} {msg : Message} :
    JobStep bus (.serving c (.ret ())) (.readMessage c) (some msg)
      (.serving c (Dispatch.dispatchIncoming bus c msg))
  | readFailed {c : ConnectionEntry} :
    JobStep bus (.serving c (.ret ())) (.readMessage c) none (.disconnecting c)
  | dispatch {c : ConnectionEntry} {o : BusOp} {k : o.Res → BusProg Unit} {r : o.Res} :
    JobStep bus (.serving c (.call o k)) o r (.serving c (k r))
  | remove {c : ConnectionEntry} {events : List NameOwnerChange} :
    JobStep bus (.disconnecting c) (.removeConnection c.uniqueName) events
      (.announcing (Dispatch.broadcastNameOwnerChanges bus events))
  | announce {o : BusOp} {k : o.Res → BusProg Unit} {r : o.Res} :
    JobStep bus (.announcing (.call o k)) o r (.announcing (k r))
  | drop : JobStep bus (.announcing (.ret ())) .endIncomplete () .finished
  | dropRejected : JobStep bus .rejected .endIncomplete () .finished
  | dropFailed : JobStep bus .failed .endIncomplete () .finished
  | copy {c : ConnectionEntry} {msg : Message} {written : Bool} :
    JobStep bus (.copying c msg) (.write c msg) written .finished

/-- The jobs an operation starts. -/
def BusOp.spawned : BusOp → List Job
  | .spawnWrite c msg => [.copying c msg]
  | _ => []

/-- **The daemon**: the shared state and the jobs, in the order they were
started. -/
structure Daemon where
  world : World
  jobs : List Job

namespace Daemon

/-- The daemon as it starts. -/
def new : Daemon := ⟨⟨BusState.new, []⟩, []⟩

/-- **A step of the daemon**: a connection is accepted, or one job performs
its next operation. -/
inductive Step (bus : Bus) : Daemon → Daemon → Prop where
  | accept (S : Daemon) (peer : PeerCredentials) :
    Step bus S { S with jobs := S.jobs ++ [.accepted peer] }
  | job {S : Daemon} {i : ℕ} {j j' : Job} {o : BusOp} {r : o.Res} {w : World}
    (hj : S.jobs[i]? = some j) (hstep : JobStep bus j o r j') (hexec : World.Exec o S.world r w) :
    Step bus S ⟨w, S.jobs.set i j' ++ o.spawned⟩

/-- The systems the daemon can be in. -/
def Reachable (bus : Bus) (S : Daemon) : Prop := Relation.ReflTransGen (Step bus) new S

variable {bus : Bus} {S S' : Daemon}

theorem reachable_new : Reachable bus new := .refl

theorem Reachable.step (h : Reachable bus S) (hstep : Step bus S S') : Reachable bus S' :=
  h.tail hstep

theorem Reachable.accept (h : Reachable bus S) (peer : PeerCredentials) :
    Reachable bus { S with jobs := S.jobs ++ [.accepted peer] } :=
  h.step (.accept S peer)

/-- A job performs its next operation. -/
theorem Reachable.job {i : ℕ} {j j' : Job} {o : BusOp} {r : o.Res} {s : BusState}
    (h : Reachable bus S) (hj : S.jobs[i]? = some j) (hstep : JobStep bus j o r j')
    (hexec : o.Exec S.world.state r s) :
    Reachable bus ⟨⟨s, ⟨S.world.state, o, r⟩ :: S.world.log⟩, S.jobs.set i j' ++ o.spawned⟩ :=
  h.step (.job hj hstep ⟨hexec, rfl⟩)

/-- The states of a run are reachable. -/
theorem reachable_of_isChain {run : List Daemon} (h : Reachable bus S)
    (hrun : List.IsChain (Step bus) (S :: run)) : ∀ S' ∈ run, Reachable bus S' := by
  induction run generalizing S with
  | nil => exact nofun
  | cons S₁ run ih =>
    obtain ⟨hstep, hrest⟩ := List.isChain_cons_cons.mp hrun
    intro S' hS'
    rcases List.mem_cons.mp hS' with rfl | hS'
    · exact h.step hstep
    · exact ih (h.step hstep) hrest S' hS'

/-- Every event of a log satisfies a property, given the events before it. -/
def Logged (P : List BusEvent → BusEvent → Prop) : List BusEvent → Prop
  | [] => True
  | e :: log => P log e ∧ Logged P log

theorem Logged.of_append {P : List BusEvent → BusEvent → Prop} {post log : List BusEvent}
    {e : BusEvent} (h : Logged P (post ++ e :: log)) : P log e := by
  induction post with
  | nil => exact h.1
  | cons _ post ih => exact ih h.2

/-- A step from a system that meets a condition. -/
structure StepWhere (bus : Bus) (C : Daemon → Prop) (S S' : Daemon) : Prop where
  step : Step bus S S'
  holds : C S

/-- **What every job guarantees under a condition, every run that meets it satisfies.** A
property of jobs that each step of a job keeps, that holds of the jobs it
starts, and that no step of another job destroys, makes every logged event
satisfy what the steps guarantee. -/
theorem guarantee_where {C : Daemon → Prop} {J : Job → World → Prop}
    {P : List BusEvent → BusEvent → Prop}
    (haccept : ∀ peer w, J (.accepted peer) w)
    (hstep : ∀ {S : Daemon} {j j' : Job} {o : BusOp} {r : o.Res} {w' : World}, C S → j ∈ S.jobs →
      J j S.world → JobStep bus j o r j' → World.Exec o S.world r w' →
      P S.world.log ⟨S.world.state, o, r⟩ ∧ J j' w' ∧ ∀ j ∈ o.spawned, J j w')
    (hstable : ∀ {j : Job} {o : BusOp} {r : o.Res} {w w' : World}, J j w →
      World.Exec o w r w' → J j w')
    (h : Relation.ReflTransGen (StepWhere bus C) new S) :
    Logged P S.world.log ∧ ∀ j ∈ S.jobs, J j S.world := by
  induction h with
  | refl => exact ⟨trivial, nofun⟩
  | tail _ hs ih =>
    obtain ⟨hlog, hjobs⟩ := ih
    obtain ⟨hs, hholds⟩ := hs
    cases hs with
    | accept peer =>
      refine ⟨hlog, fun j hj => ?_⟩
      rcases List.mem_append.mp hj with hj | hj
      · exact hjobs j hj
      · rw [List.mem_singleton.mp hj]
        exact haccept peer _
    | @job i j j' o r w hj hjob hexec =>
      have hmem := List.mem_of_getElem? hj
      obtain ⟨hP, hnext, hspawned⟩ := hstep hholds hmem (hjobs _ hmem) hjob hexec
      refine ⟨?_, fun j₁ hj₁ => ?_⟩
      · show Logged P w.log
        rw [hexec.2]
        exact ⟨hP, hlog⟩
      · rcases List.mem_append.mp hj₁ with hj₁ | hj₁
        · rcases List.mem_or_eq_of_mem_set hj₁ with hj₁ | rfl
          · exact hstable (hjobs j₁ hj₁) hexec
          · exact hnext
        · exact hspawned j₁ hj₁

/-- **What every job guarantees, every run satisfies.** -/
theorem Reachable.guarantee {J : Job → World → Prop}
    {P : List BusEvent → BusEvent → Prop}
    (haccept : ∀ peer w, J (.accepted peer) w)
    (hstep : ∀ {j j' : Job} {o : BusOp} {r : o.Res} {w w' : World}, J j w →
      JobStep bus j o r j' → World.Exec o w r w' →
      P w.log ⟨w.state, o, r⟩ ∧ J j' w' ∧ ∀ j ∈ o.spawned, J j w')
    (hstable : ∀ {j : Job} {o : BusOp} {r : o.Res} {w w' : World}, J j w →
      World.Exec o w r w' → J j w')
    (h : Reachable bus S) : Logged P S.world.log ∧ ∀ j ∈ S.jobs, J j S.world :=
  guarantee_where (C := fun _ => True) haccept (fun _ _ => hstep) hstable
    (Relation.ReflTransGen.mono (fun _ _ hs => ⟨hs, trivial⟩) _ _ h)

end Daemon

end Oxibus
