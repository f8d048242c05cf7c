import Oxibus.Daemon.Replay

/-!
# Notes beside the daemon

Some properties of runs speak of more than the state and the log say: which
message a task has to do with, or how far a task is with what it has begun.
An annotation keeps notes of that kind. They follow from what the jobs do and
change nothing of it: every run of the daemon is a run with notes
(`exists_reachable`), and a run can be replayed with its notes.
-/

namespace Oxibus

open Relation

/-- **What is noted**: at first, and after an operation of a job of the daemon. -/
structure Annotation (G : Type) where
  initial : G
  after : Daemon → ℕ → Job → (o : BusOp) → o.Res → World → G → G

/-- **The daemon with notes.** -/
structure Annotated (G : Type) where
  daemon : Daemon
  note : G

namespace Annotation

variable {G : Type} (A : Annotation G) {bus : Bus} {S S' : Annotated G} {D D' : Daemon}

def new : Annotated G := ⟨Daemon.new, A.initial⟩

/-- **A step of the daemon, with its note.** -/
inductive Step (bus : Bus) : Annotated G → Annotated G → Prop where
  | accept (S : Annotated G) (peer : PeerCredentials) :
    Step bus S { S with daemon := { S.daemon with jobs := S.daemon.jobs ++ [.accepted peer] } }
  | job {S : Annotated G} {i : ℕ} {j j' : Job} {o : BusOp} {r : o.Res} {w : World}
    (hj : S.daemon.jobs[i]? = some j) (hstep : JobStep bus j o r j')
    (hexec : World.Exec o S.daemon.world r w) :
    Step bus S ⟨⟨w, S.daemon.jobs.set i j' ++ o.spawned⟩, A.after S.daemon i j o r w S.note⟩

/-- The annotated systems the daemon can be in. -/
def Reachable (bus : Bus) (S : Annotated G) : Prop := ReflTransGen (A.Step bus) A.new S

variable {A}

theorem Step.daemon (h : A.Step bus S S') : Daemon.Step bus S.daemon S'.daemon := by
  cases h with
  | accept peer => exact .accept _ peer
  | job hj hstep hexec => exact .job hj hstep hexec

/-- Without the notes it is a run of the daemon. -/
theorem Reachable.daemon (h : A.Reachable bus S) : Daemon.Reachable bus S.daemon := by
  induction h with
  | refl => exact .refl
  | tail _ hs ih => exact ih.step hs.daemon

variable (A)

theorem exists_step (h : Daemon.Step bus S.daemon D) : ∃ S', A.Step bus S S' ∧ S'.daemon = D := by
  obtain ⟨daemon, note⟩ := S
  cases h with
  | accept peer => exact ⟨_, .accept _ peer, rfl⟩
  | job hj hstep hexec => exact ⟨_, .job (S := ⟨daemon, note⟩) hj hstep hexec, rfl⟩

/-- **Every run of the daemon is a run with notes.** -/
theorem exists_reachable (h : Daemon.Reachable bus D) : ∃ S, A.Reachable bus S ∧ S.daemon = D := by
  induction h with
  | refl => exact ⟨A.new, .refl, rfl⟩
  | tail _ hs ih =>
    obtain ⟨S, hrun, rfl⟩ := ih
    obtain ⟨S', hstep, hS'⟩ := A.exists_step hs
    exact ⟨S', hrun.tail hstep, hS'⟩

/-! ## Replaying a run with its notes -/

/-- One move of the job with a number, if it has one. -/
def advance (bus : Bus) (i : ℕ) (S : Annotated G) : Annotated G :=
  match S.daemon.jobs[i]? with
  | some j =>
    match j.move bus S.daemon.world.state with
    | some m =>
      let w : World := ⟨m.state, ⟨S.daemon.world.state, m.op, m.res⟩ :: S.daemon.world.log⟩
      ⟨⟨w, S.daemon.jobs.set i m.job ++ m.op.spawned⟩,
        A.after S.daemon i j m.op m.res w S.note⟩
    | none => S
  | none => S

/-- A number of moves of one job. -/
def advances (bus : Bus) (i : ℕ) : ℕ → Annotated G → Annotated G
  | 0, S => S
  | n + 1, S => advances bus i n (A.advance bus i S)

/-- A waiting job reads a frame; nothing happens if it does not wait, or the
frame does not decode. -/
def receive (bus : Bus) (i : ℕ) (frame : List UInt8) (S : Annotated G) : Annotated G :=
  match S.daemon.jobs[i]?, Message.fromBytes frame [] with
  | some (.serving c (.ret _)), .ok msg =>
    let w : World := ⟨S.daemon.world.state,
      ⟨S.daemon.world.state, .readMessage c, some msg⟩ :: S.daemon.world.log⟩
    ⟨⟨w, S.daemon.jobs.set i (.serving c (Dispatch.dispatchIncoming bus c msg)) ++ []⟩,
      A.after S.daemon i (.serving c (.ret ())) (.readMessage c) (some msg) w S.note⟩
  | _, _ => S

/-- A waiting job finds its peer gone; nothing happens if it does not wait. -/
def hangUp (i : ℕ) (S : Annotated G) : Annotated G :=
  match S.daemon.jobs[i]? with
  | some (.serving c (.ret _)) =>
    let w : World := ⟨S.daemon.world.state,
      ⟨S.daemon.world.state, .readMessage c, none⟩ :: S.daemon.world.log⟩
    ⟨⟨w, S.daemon.jobs.set i (.disconnecting c) ++ []⟩,
      A.after S.daemon i (.serving c (.ret ())) (.readMessage c) none w S.note⟩
  | _ => S

/-- Carry out one instruction. -/
def follow (bus : Bus) (S : Annotated G) : Instruction → Annotated G
  | .accept peer => { S with daemon := { S.daemon with jobs := S.daemon.jobs ++ [.accepted peer] } }
  | .run i moves => A.advances bus i moves S
  | .receive i frame => A.receive bus i frame S

/-- **Carry out a list of instructions.** -/
def replay (bus : Bus) (instructions : List Instruction) : Annotated G :=
  instructions.foldl (A.follow bus) A.new

section Keeping

variable {A} {R : Annotated G → Annotated G → Prop} {I : Annotated G → Prop} {i : ℕ}

/-- **What the steps of a job keep**: from where it holds they are of a kind, and it holds
after them. -/
structure Keeps (A : Annotation G) (bus : Bus) (R : Annotated G → Annotated G → Prop)
    (I : Annotated G → Prop) (i : ℕ) : Prop where
  step : ∀ {S : Annotated G} {j j' : Job} {o : BusOp} {r : o.Res} {w : World}, I S →
    S.daemon.jobs[i]? = some j → JobStep bus j o r j' → World.Exec o S.daemon.world r w →
    R S ⟨⟨w, S.daemon.jobs.set i j' ++ o.spawned⟩, A.after S.daemon i j o r w S.note⟩ ∧
      I ⟨⟨w, S.daemon.jobs.set i j' ++ o.spawned⟩, A.after S.daemon i j o r w S.note⟩

theorem Keeps.advance (h : A.Keeps bus R I i) (hS : I S) :
    ReflTransGen R S (A.advance bus i S) ∧ I (A.advance bus i S) := by
  unfold Annotation.advance
  split
  · next j hj =>
    split
    · next m hm =>
      obtain ⟨hstep, hexec⟩ := Job.move_sound hm
      have hworld : World.Exec m.op S.daemon.world m.res
          ⟨m.state, ⟨S.daemon.world.state, m.op, m.res⟩ :: S.daemon.world.log⟩ := ⟨hexec, rfl⟩
      obtain ⟨hnext, hkept⟩ := h.step hS hj hstep hworld
      exact ⟨.single hnext, hkept⟩
    · exact ⟨.refl, hS⟩
  · exact ⟨.refl, hS⟩

theorem Keeps.advances (h : A.Keeps bus R I i) (hS : I S) (moves : ℕ) :
    ReflTransGen R S (A.advances bus i moves S) ∧ I (A.advances bus i moves S) := by
  induction moves generalizing S with
  | zero => exact ⟨.refl, hS⟩
  | succ moves ih =>
    obtain ⟨hnext, hkept⟩ := h.advance hS
    obtain ⟨hrest, hkept⟩ := ih hkept
    exact ⟨hnext.trans hrest, hkept⟩

theorem Keeps.receive (h : A.Keeps bus R I i) (hS : I S) (frame : List UInt8) :
    ReflTransGen R S (A.receive bus i frame S) ∧ I (A.receive bus i frame S) := by
  unfold Annotation.receive
  split
  · next c a msg hj hmsg =>
    obtain ⟨hnext, hkept⟩ := h.step hS hj .read (Daemon.exec_readMessage hmsg S.daemon.world)
    exact ⟨.single hnext, hkept⟩
  · exact ⟨.refl, hS⟩

end Keeping

/-- Every step of a job is a step with notes. -/
theorem keeps_step (i : ℕ) : A.Keeps bus (A.Step bus) (fun _ => True) i :=
  ⟨fun _ hj hstep hexec => ⟨.job hj hstep hexec, trivial⟩⟩

theorem steps_advances (i n : ℕ) : ReflTransGen (A.Step bus) S (A.advances bus i n S) :=
  ((A.keeps_step i).advances trivial n).1

theorem steps_receive (i : ℕ) (frame : List UInt8) :
    ReflTransGen (A.Step bus) S (A.receive bus i frame S) :=
  ((A.keeps_step i).receive trivial frame).1

theorem steps_hangUp (i : ℕ) : ReflTransGen (A.Step bus) S (A.hangUp i S) := by
  unfold hangUp
  split
  · next c a hj => exact .single (.job hj .readFailed ⟨⟨nofun, rfl⟩, rfl⟩)
  · exact .refl

/-- **A replay is a run.** -/
theorem reachable_replay (instructions : List Instruction) :
    A.Reachable bus (A.replay bus instructions) := by
  have hsteps : ∀ S, ReflTransGen (A.Step bus) S (instructions.foldl (A.follow bus) S) := by
    induction instructions with
    | nil => exact fun S => .refl
    | cons instruction instructions ih =>
      intro S
      refine .trans ?_ (ih (A.follow bus S instruction))
      cases instruction with
      | accept peer => exact .single (.accept S peer)
      | run i moves => exact A.steps_advances i moves
      | receive i frame => exact A.steps_receive i frame
  exact hsteps A.new

end Annotation

end Oxibus
