import Oxibus.Daemon.System

/-!
# Replaying a run

The steps of the daemon leave open what the outside does and in which order
the jobs run. Here both are chosen: an operation has one answer, the one of a
peaceful world, and a list of instructions says which job runs next and what
it reads. What comes out is a run of the daemon (`reachable_replay`), and it
can be computed.
-/

namespace Oxibus

/-- **The answer of a peaceful world**, and the state afterwards: sockets work,
handshakes succeed, and hash tables are gone through in the order they are
kept in. -/
def BusOp.answer : (o : BusOp) → BusState → o.Res × BusState
  | allConnections, s => (s.registry.allConnections, s)
  | get name, s => (s.registry.get name, s)
  | getNameOwner name, s => (s.registry.getNameOwner name, s)
  | ownerLookup, s => (s.registry.getNameOwner, s)
  | listNames, s => (s.registry.listNames, s)
  | listQueuedOwners name, s => (s.registry.listQueuedOwners name, s)
  | namesHeldBy name, s => (s.registry.namesHeldBy name, s)
  | connectionCount, s => (s.registry.connectionCount, s)
  | connectionCountForUid uid, s => (s.registry.connectionCountForUid uid, s)
  | tryBeginIncomplete max, s =>
    ((s.registry.tryBeginIncomplete max).1,
      { s with registry := (s.registry.tryBeginIncomplete max).2 })
  | endIncomplete, s => ((), { s with registry := s.registry.endIncomplete })
  | allocateUniqueName, s =>
    (s.registry.allocateUniqueName.1, { s with registry := s.registry.allocateUniqueName.2 })
  | addConnection c, s => ((), { s with registry := s.registry.addConnection c })
  | removeConnection name, s =>
    ((s.registry.removeConnection name s.registry.names.keys).1,
      { s with registry := (s.registry.removeConnection name s.registry.names.keys).2 })
  | requestName uniqueName name flags, s =>
    ((s.registry.requestName uniqueName name flags).1,
      { s with registry := (s.registry.requestName uniqueName name flags).2 })
  | releaseName uniqueName name, s =>
    ((s.registry.releaseName uniqueName name).1,
      { s with registry := (s.registry.releaseName uniqueName name).2 })
  | isMonitor c, s => (s.isMonitor c, s)
  | isRegistered c, s => (s.isRegistered c, s)
  | matchRules c, s => (s.matchRules c, s)
  | storeMonitor c, s => ((), s.setCells c { s.cells c.id with isMonitor := true })
  | swapRegistered c, s =>
    (s.isRegistered c, s.setCells c { s.cells c.id with isRegistered := true })
  | setMatchRules c rules, s => ((), s.setCells c { s.cells c.id with matchRules := rules })
  | pushMatchRule c rule, s =>
    ((), s.setCells c { s.cells c.id with matchRules := s.matchRules c ++ [rule] })
  | removeMatchRules c raw, s =>
    let left := (s.matchRules c).filter fun rule => rule.raw != raw
    (left.length != (s.matchRules c).length, s.setCells c { s.cells c.id with matchRules := left })
  | record what, s => ((), { s with stats := s.stats.record what })
  | stats, s => (s.stats, s)
  | uptimeSecs, s => (0, s)
  | driverSerial, s =>
    ((nextSerial s.driverSerial).1, { s with driverSerial := (nextSerial s.driverSerial).2 })
  | extendEnvironment pairs, s =>
    ((), { s with activationEnvironment := pairs.reverse ++ s.activationEnvironment })
  | write _ msg, s => (msg.toBytes.isOk, s)
  | spawnWrite _ _, s => ((), s)
  | spawnService _, s => (none, s)
  | pollCount, s => (0, s)
  | wrapSocket, s => (true, s)
  | handshake, s => (true, s)
  | readLabel, s => (none, s)
  | readMessage _, s => (none, s)

/-- It is one of the answers the operation can give. -/
theorem BusOp.exec_answer (o : BusOp) (s : BusState) : o.Exec s (o.answer s).1 (o.answer s).2 := by
  cases o with
  | allConnections => exact ⟨.refl _, rfl⟩
  | listNames => exact ⟨.refl _, rfl⟩
  | removeConnection name => exact ⟨s.registry.names.keys, .refl _, rfl, rfl⟩
  | write c msg => exact ⟨id, rfl⟩
  | readMessage c => exact ⟨nofun, rfl⟩
  | _ => first | exact ⟨rfl, rfl⟩ | exact rfl

/-! ## One operation of one job -/

/-- **A move of a job**: its operation with the answer and the state
afterwards, and what is left of the job. -/
structure Move where
  op : BusOp
  res : op.Res
  state : BusState
  job : Job

/-- An operation whose answer only selects what is left. -/
def Move.of (s : BusState) (o : BusOp) (next : o.Res → Job) : Move :=
  ⟨o, (o.answer s).1, (o.answer s).2, next (o.answer s).1⟩

/-- **The next move of a job** in a state. A connection that waits for a message
has none. -/
def Job.move (bus : Bus) (s : BusState) : Job → Option Move
  | accepted peer =>
    some (.of s (.tryBeginIncomplete bus.limits.maxIncompleteConnections) fun admitted =>
      if admitted then .begun peer else .finished)
  | begun peer => some (.of s .wrapSocket fun ok => if ok then .wrapped peer else .rejected)
  | wrapped peer => some (.of s (.connectionCountForUid peer.uid) fun (n : ℕ) =>
    if bus.limits.maxConnectionsPerUser ≤ n then .rejected else .handshaking peer)
  | handshaking peer =>
    some (.of s .handshake fun ok => if ok then .authenticated peer else .failed)
  | rejected => some (.of s .endIncomplete fun _ => .finished)
  | failed => some (.of s .endIncomplete fun _ => .finished)
  | authenticated peer => some (.of s .readLabel fun label => .labelled peer label)
  | labelled peer label => some (.of s .allocateUniqueName fun id => .named ⟨id, peer, label⟩)
  | named c => some (.of s (.addConnection c) fun _ => .serving c (.ret ()))
  | serving _ (.ret _) => none
  | serving c (.call o k) => some (.of s o fun r => .serving c (k r))
  | disconnecting c => some (.of s (.removeConnection c.uniqueName) fun events =>
    .announcing (Dispatch.broadcastNameOwnerChanges bus events))
  | announcing (.ret _) => some (.of s .endIncomplete fun _ => .finished)
  | announcing (.call o k) => some (.of s o fun r => .announcing (k r))
  | copying c msg => some (.of s (.write c msg) fun _ => .finished)
  | finished => none

variable {bus : Bus} {s : BusState} {j : Job} {m : Move}

theorem Move.exec_of {o : BusOp} {next : o.Res → Job} :
    (Move.of s o next).op.Exec s (Move.of s o next).res (Move.of s o next).state :=
  o.exec_answer s

/-- **A move is a step of the job.** -/
theorem Job.move_sound (h : j.move bus s = some m) :
    JobStep bus j m.op m.res m.job ∧ m.op.Exec s m.res m.state := by
  cases j with
  | accepted peer =>
    cases h
    have hstep : ∀ admitted : Bool, JobStep bus (.accepted peer)
        (.tryBeginIncomplete bus.limits.maxIncompleteConnections) admitted
        (if admitted then .begun peer else .finished) := by
      intro admitted
      cases admitted with
      | true => exact .began
      | false => exact .refused
    exact ⟨hstep _, Move.exec_of⟩
  | begun peer =>
    cases h
    exact ⟨.wrapDone, Move.exec_of⟩
  | wrapped peer =>
    cases h
    refine ⟨?_, Move.exec_of⟩
    show JobStep bus (.wrapped peer) _ _ (if _ then _ else _)
    split
    · next hmany => exact .tooMany hmany
    · next hfew => exact .counted (not_le.mp hfew)
  | handshaking peer =>
    cases h
    exact ⟨.handshakeDone, Move.exec_of⟩
  | rejected =>
    cases h
    exact ⟨.dropRejected, Move.exec_of⟩
  | failed =>
    cases h
    exact ⟨.dropFailed, Move.exec_of⟩
  | authenticated peer =>
    cases h
    exact ⟨.readLabel, Move.exec_of⟩
  | labelled peer label =>
    cases h
    exact ⟨.allocate, Move.exec_of⟩
  | named c =>
    cases h
    exact ⟨.add, Move.exec_of⟩
  | serving c p =>
    cases p with
    | ret a => cases h
    | call o k =>
      cases h
      exact ⟨.dispatch, Move.exec_of⟩
  | disconnecting c =>
    cases h
    exact ⟨.remove, Move.exec_of⟩
  | announcing p =>
    cases p with
    | ret a =>
      cases h
      exact ⟨.drop, Move.exec_of⟩
    | call o k =>
      cases h
      exact ⟨.announce, Move.exec_of⟩
  | copying c msg =>
    cases h
    exact ⟨.copy, Move.exec_of⟩
  | finished => cases h

/-! ## Instructions -/

/-- **What happens next.** -/
inductive Instruction where
  /-- A peer connects. -/
  | accept (peer : PeerCredentials)
  /-- A job makes a number of moves, or as many as it can. -/
  | run (i moves : ℕ)
  /-- A job that waits for a message reads a frame. -/
  | receive (i : ℕ) (frame : List UInt8)

/-- The job is at no operation of a program. -/
def Job.isResting : Job → Bool
  | serving _ (.call _ _) => false
  | announcing (.call _ _) => false
  | _ => true

namespace Daemon

/-- One move of the job with a number, if it has one. -/
def advance (bus : Bus) (i : ℕ) (S : Daemon) : Daemon :=
  match S.jobs[i]?.bind (Job.move bus S.world.state) with
  | some m => ⟨⟨m.state, ⟨S.world.state, m.op, m.res⟩ :: S.world.log⟩,
      S.jobs.set i m.job ++ m.op.spawned⟩
  | none => S

/-- A number of moves of one job. -/
def advances (bus : Bus) (i : ℕ) : ℕ → Daemon → Daemon
  | 0, S => S
  | n + 1, S => advances bus i n (S.advance bus i)

/-- A waiting job reads a frame; nothing happens if it does not wait, or the
frame does not decode. -/
def receive (bus : Bus) (i : ℕ) (frame : List UInt8) (S : Daemon) : Daemon :=
  match S.jobs[i]?, Message.fromBytes frame [] with
  | some (.serving c (.ret _)), .ok msg =>
    ⟨⟨S.world.state, ⟨S.world.state, .readMessage c, some msg⟩ :: S.world.log⟩,
      S.jobs.set i (.serving c (Dispatch.dispatchIncoming bus c msg)) ++ []⟩
  | _, _ => S

/-- A waiting job finds its peer gone; nothing happens if it does not wait. -/
def hangUp (i : ℕ) (S : Daemon) : Daemon :=
  match S.jobs[i]? with
  | some (.serving c (.ret _)) =>
    ⟨⟨S.world.state, ⟨S.world.state, .readMessage c, none⟩ :: S.world.log⟩,
      S.jobs.set i (.disconnecting c) ++ []⟩
  | _ => S

/-- Carry out one instruction. -/
def follow (bus : Bus) (S : Daemon) : Instruction → Daemon
  | .accept peer => { S with jobs := S.jobs ++ [.accepted peer] }
  | .run i moves => advances bus i moves S
  | .receive i frame => receive bus i frame S

/-- **Carry out a list of instructions.** -/
def replay (bus : Bus) (S : Daemon) (instructions : List Instruction) : Daemon :=
  instructions.foldl (follow bus) S

variable {S : Daemon}

/-- **What one move does**: nothing, or a step of the job. -/
theorem advance_cases (bus : Bus) (S : Daemon) (i : ℕ) : S.advance bus i = S ∨
    ∃ (j : Job) (m : Move), S.jobs[i]? = some j ∧ JobStep bus j m.op m.res m.job ∧
      m.op.Exec S.world.state m.res m.state ∧
      S.advance bus i = ⟨⟨m.state, ⟨S.world.state, m.op, m.res⟩ :: S.world.log⟩,
        S.jobs.set i m.job ++ m.op.spawned⟩ := by
  unfold advance
  split
  · next m hm =>
    obtain ⟨j, hj, hmove⟩ := Option.bind_eq_some_iff.mp hm
    obtain ⟨hstep, hexec⟩ := Job.move_sound hmove
    exact .inr ⟨j, m, hj, hstep, hexec, rfl⟩
  · exact .inl rfl

/-- A message may be read that a frame decodes to. -/
theorem exec_readMessage {c : ConnectionEntry} {frame : List UInt8} {msg : Message}
    (h : Message.fromBytes frame [] = .ok msg) (w : World) :
    World.Exec (.readMessage c) w (some msg)
      ⟨w.state, ⟨w.state, .readMessage c, some msg⟩ :: w.log⟩ := by
  refine ⟨⟨fun m hm => ?_, rfl⟩, rfl⟩
  rw [← Option.some.inj hm]
  exact ⟨frame, [], h⟩

/-- **What the reading of a frame does**: nothing, or the step of a job that waits. -/
theorem receive_cases (bus : Bus) (S : Daemon) (i : ℕ) (frame : List UInt8) :
    S.receive bus i frame = S ∨ ∃ c msg, S.jobs[i]? = some (.serving c (.ret ())) ∧
      World.Exec (.readMessage c) S.world (some msg)
        ⟨S.world.state, ⟨S.world.state, .readMessage c, some msg⟩ :: S.world.log⟩ ∧
      S.receive bus i frame =
        ⟨⟨S.world.state, ⟨S.world.state, .readMessage c, some msg⟩ :: S.world.log⟩,
          S.jobs.set i (.serving c (Dispatch.dispatchIncoming bus c msg)) ++ []⟩ := by
  unfold receive
  split
  · next c a msg hj hmsg => exact .inr ⟨c, msg, hj, exec_readMessage hmsg S.world, rfl⟩
  · exact .inl rfl

/-- The steps of one move. -/
theorem steps_advance (S : Daemon) (i : ℕ) :
    Relation.ReflTransGen (Step bus) S (S.advance bus i) := by
  rcases S.advance_cases bus i with hsame | ⟨j, m, hj, hstep, hexec, hnext⟩
  · rw [hsame]
  · rw [hnext]
    exact .single (.job hj hstep ⟨hexec, rfl⟩)

theorem steps_advances (S : Daemon) (i n : ℕ) :
    Relation.ReflTransGen (Step bus) S (advances bus i n S) := by
  induction n generalizing S with
  | zero => exact .refl
  | succ n ih => exact (steps_advance S i).trans (ih _)

theorem steps_receive (S : Daemon) (i : ℕ) (frame : List UInt8) :
    Relation.ReflTransGen (Step bus) S (S.receive bus i frame) := by
  rcases S.receive_cases bus i frame with hsame | ⟨c, msg, hj, hexec, hnext⟩
  · rw [hsame]
  · rw [hnext]
    exact .single (.job hj .read hexec)

theorem steps_hangUp (S : Daemon) (i : ℕ) :
    Relation.ReflTransGen (Step bus) S (S.hangUp i) := by
  unfold hangUp
  split
  · next c a hj => exact .single (.job hj .readFailed ⟨⟨nofun, rfl⟩, rfl⟩)
  · exact .refl

/-- **A replay is a run of the daemon.** -/
theorem steps_replay (S : Daemon) (instructions : List Instruction) :
    Relation.ReflTransGen (Step bus) S (S.replay bus instructions) := by
  induction instructions generalizing S with
  | nil => exact .refl
  | cons instruction instructions ih =>
    refine .trans ?_ (ih (follow bus S instruction))
    cases instruction with
    | accept peer => exact .single (.accept S peer)
    | run i moves => exact steps_advances S i moves
    | receive i frame => exact steps_receive S i frame

theorem reachable_replay (h : Reachable bus S) (instructions : List Instruction) :
    Reachable bus (S.replay bus instructions) :=
  h.trans (steps_replay S instructions)

/-! ## Replays of which every move passes a test -/

/-- Whether a number of moves of one job pass a test, each in the state it is made in. -/
def advancesWhere (bus : Bus) (test : ℕ → Daemon → Bool) (i : ℕ) : ℕ → Daemon → Bool
  | 0, _ => true
  | n + 1, S => test i S && advancesWhere bus test i n (S.advance bus i)

/-- **Whether all moves of a replay pass a test.** -/
def replaysWhere (bus : Bus) (test : ℕ → Daemon → Bool) : List Instruction → Daemon → Bool
  | [], _ => true
  | instruction :: instructions, S =>
    (match instruction with
      | .run i moves => advancesWhere bus test i moves S
      | _ => true) && replaysWhere bus test instructions (follow bus S instruction)

/-- **A replay whose moves pass a test is a run of the steps that the test is for**, if these
include what the outside does. -/
theorem steps_replayWhere {R : Daemon → Daemon → Prop} {test : ℕ → Daemon → Bool}
    (hmove : ∀ S i, test i S = true → Relation.ReflTransGen R S (S.advance bus i))
    (haccept : ∀ (S : Daemon) peer, R S { S with jobs := S.jobs ++ [.accepted peer] })
    (hreceive : ∀ S i frame, Relation.ReflTransGen R S (S.receive bus i frame))
    {instructions : List Instruction} (h : replaysWhere bus test instructions S = true) :
    Relation.ReflTransGen R S (S.replay bus instructions) := by
  have hmoves : ∀ {i n S}, advancesWhere bus test i n S = true →
      Relation.ReflTransGen R S (advances bus i n S) := by
    intro i n
    induction n with
    | zero => exact fun _ => .refl
    | succ n ih =>
      intro S h
      obtain ⟨hfirst, hrest⟩ := (Bool.and_eq_true _ _).mp h
      exact (hmove S i hfirst).trans (ih hrest)
  induction instructions generalizing S with
  | nil => exact .refl
  | cons instruction instructions ih =>
    obtain ⟨hfirst, hrest⟩ := (Bool.and_eq_true _ _).mp h
    refine .trans ?_ (ih hrest)
    cases instruction with
    | accept peer => exact .single (haccept S peer)
    | run i moves => exact hmoves hfirst
    | receive i frame => exact hreceive S i frame

end Daemon

/-! ## A bus to replay runs on -/

/-- A session bus without a policy and without services. -/
def plainBus : Bus where
  kind := .session
  limits := ⟨64, 256, 512, 512⟩
  policy := ⟨[]⟩
  activatable := []
  guid := ""
  resolve uid := ⟨uid, none, []⟩
  apparmor := ⟨false, fun _ _ => none⟩

/-- The frame of a message; nothing if it cannot be encoded. -/
def frameOf (m : Message) : List UInt8 :=
  match m.toBytes with
  | .ok bytes => bytes
  | _ => []

/-- A call of a method of the driver. -/
def driverCall (member : String) (args : List Value) (serial : UInt32) : Message :=
  (((Message.Builder.methodCall WellKnown.busPath member).destination WellKnown.busName).args
    args).build serial

end Oxibus
