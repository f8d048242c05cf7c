import Oxibus.Daemon.Addressing
import Oxibus.Daemon.ConnectionLimits

/-!
# What monitors overhear

The policy is asked before a call is delivered and before a signal is
broadcast. A copy for a monitor is made before that, and nobody is asked: not
when a connection becomes a monitor, and not when it is left a copy. So a
connection that may not receive a message hears it all the same once it is a
monitor, be it a stranger or the very one the message is for.

Nothing else carries a message to one connection past the policy and past
the owner of its destination. A run is without eavesdropping if no monitor
among the connections a message is about to be copied for is one that may not
receive it; and a run that comes to such a monitor may go on to write it the
message.
-/

namespace Oxibus

open BusProg Daemon Relation

variable (bus : Bus) (log : List BusEvent) (conn : ConnectionEntry) (msg : Message)

/-- A copy has been left for the connection. -/
def CopyLeft : Prop :=
  ∃ (s : BusState) (r : Unit), (⟨s, .spawnWrite conn msg, r⟩ : BusEvent) ∈ log

/-- **Who is entitled to a message for one connection**: whoever the policy lets receive it,
and the owner of its destination, as it was found when the message was routed,
unless the message has been copied for it as for a monitor. -/
inductive Entitled : Prop where
  | permitted (h : bus.policy.canReceive (bus.identity conn) msg msg.sender = true)
  | addressed (h : Addressed log conn msg) (hcopy : ¬ CopyLeft log conn msg)

/-- **Nobody eavesdrops**: a client's message for one connection is written only to
those who are entitled to it. A message that cannot be encoded is written to
nobody. -/
def NoEavesdropping : Prop :=
  Logged (fun log e => match e.op with
    | .write conn msg => Routed log msg → msg.destination ≠ none → msg.toBytes.isOk = true →
      Entitled bus log conn msg
    | _ => True) log

/-- **A job is about to copy a message** for a connection, if that is a monitor: the
dispatch of the message has read the table, and the connection is among
those it has not looked at yet. -/
inductive Job.AboutToCopy : Job → Prop where
  | intro {c : ConnectionEntry} {conns : List ConnectionEntry} {k : Unit → BusProg Unit}
    (hconn : conn ∈ conns) :
    AboutToCopy (.serving c (Prog.forEach (Dispatch.copyToMonitor msg) conns >>= k))

/-- **A monitor that overhears a message**: the message is for one connection and about
to be copied for it, and the policy does not let it receive the message. -/
structure Daemon.Overhears (S : Daemon) : Prop where
  copied : ∃ j ∈ S.jobs, j.AboutToCopy conn msg
  destination : msg.destination ≠ none
  encodable : msg.toBytes.isOk = true
  monitor : S.world.state.isMonitor conn = true
  forbidden : bus.policy.canReceive (bus.identity conn) msg msg.sender = false

/-- No monitor overhears anything. -/
def Daemon.Discreet (S : Daemon) : Prop :=
  ∀ (conn : ConnectionEntry) (msg : Message), ¬ S.Overhears bus conn msg

variable {bus log conn msg} {S S' : Daemon} {w w' : World} {j j' : Job} {o : BusOp} {r : o.Res}
variable {s s' : BusState}

/-! ## Where a message comes from -/

/-- An event of a log and the events before it. -/
theorem Daemon.Logged.exists_split {P : List BusEvent → BusEvent → Prop}
    (h : ∀ post e pre, log = post ++ e :: pre → P pre e) : Logged P log := by
  induction log with
  | nil => trivial
  | cons e log ih =>
    exact ⟨h [] e log rfl, ih fun post e' pre heq => h (e :: post) e' pre (congrArg (e :: ·) heq)⟩

/-- **What is written**: a message of the driver, one for everyone, one that is
addressed to the connection, or a copy that has been left for it. -/
def ForwardedRightly (log : List BusEvent) (e : BusEvent) : Prop :=
  match e.op with
  | .write conn msg =>
    DriverBuilt msg ∨ msg.IsOpen ∨ Addressed log conn msg ∨ CopyLeft log conn msg
  | .spawnWrite conn _ => e.before.isMonitor conn = true
  | _ => True

/-- What a job still writes is as the guarantee says, or a copy that has been left. -/
def Job.KeepsWay (w : World) : Job → Prop
  | serving _ p => Oxibus.KeepsWay p w fun _ => True
  | announcing p => Oxibus.KeepsWay p w fun _ => True
  | copying c msg => CopyLeft w.log c msg
  | _ => True

theorem CopyLeft.later (h : CopyLeft w.log conn msg) (hle : w.Le w') :
    CopyLeft w'.log conn msg := by
  obtain ⟨s, r, hmem⟩ := h
  exact ⟨s, r, hle.log.subset hmem⟩

theorem Job.KeepsWay.stable (h : j.KeepsWay w) (hexec : World.Exec o w r w') : j.KeepsWay w' := by
  have hprog : ∀ {p : BusProg Unit}, (Oxibus.KeepsWay p w fun _ => True) →
      Oxibus.KeepsWay p w' fun _ => True :=
    fun h => h.interfere (fun _ _ _ => World.Le.trans) (fun _ _ _ _ _ => trivial) hexec.le
  cases j with
  | serving c p => exact hprog h
  | announcing p => exact hprog h
  | copying c msg => exact h.later hexec.le
  | _ => trivial

/-- A dispatch performs its next operation. -/
theorem keepsWay_call {k : o.Res → BusProg Unit} (h : KeepsWay (.call o k) w fun _ => True)
    (hexec : World.Exec o w r w') :
    ForwardedRightly w.log ⟨w.state, o, r⟩ ∧ (KeepsWay (k r) w' fun _ => True) ∧
      ∀ j ∈ o.spawned, j.KeepsWay w' := by
  obtain ⟨hguar, hnext⟩ := h w r w' (.refl w) hexec
  refine ⟨?_, hnext, fun j hj => ?_⟩
  · cases o with
    | write c msg =>
      rcases hguar with hdriver | hopen | haddressed
      · exact .inl hdriver
      · exact .inr (.inl hopen)
      · exact .inr (.inr (.inl haddressed))
    | spawnWrite c msg => exact hguar
    | _ => trivial
  · cases o with
    | spawnWrite c msg =>
      rw [List.mem_singleton.mp hj]
      refine ⟨w.state, r, ?_⟩
      rw [hexec.2]
      exact List.mem_cons_self
    | _ => exact absurd hj List.not_mem_nil

theorem keepsWay_step (h : j.KeepsWay w) (hstep : JobStep bus j o r j')
    (hexec : World.Exec o w r w') :
    ForwardedRightly w.log ⟨w.state, o, r⟩ ∧ j'.KeepsWay w' ∧ ∀ j ∈ o.spawned, j.KeepsWay w' := by
  have hnone : ∀ j ∈ ([] : List Job), j.KeepsWay w' := fun _ hj => absurd hj List.not_mem_nil
  cases hstep with
  | dispatch => exact keepsWay_call h hexec
  | announce => exact keepsWay_call h hexec
  | copy => exact ⟨.inr (.inr (.inr h)), trivial, hnone⟩
  | read =>
    exact ⟨trivial, Dispatch.way_dispatchIncoming (hexec.recorded (List.nil_sublist _)), hnone⟩
  | remove => exact ⟨trivial, Dispatch.way_broadcastNameOwnerChanges _, hnone⟩
  | _ => exact ⟨trivial, trivial, hnone⟩

/-- **In every run, a message for one connection is written to whom it is addressed to, or
as a copy that has been left for a monitor.** -/
theorem Daemon.Reachable.forwardedRightly (h : Reachable bus S) :
    Logged ForwardedRightly S.world.log :=
  (h.guarantee (fun _ _ => trivial) keepsWay_step Job.KeepsWay.stable).1

/-- Copies are made of no message of the driver. -/
def CopiesClients (_ : List BusEvent) (e : BusEvent) : Prop :=
  match e.op with
  | .spawnWrite _ msg => ¬ DriverBuilt msg
  | _ => True

/-- A program that has no message of the driver copied. -/
abbrev CopiesClientsOnly (p : BusProg Unit) : Prop :=
  p.Only (Routine (fun _ _ => True) fun _ msg => ¬ DriverBuilt msg)

/-- What a job still does. -/
def Job.CopiesClients : Job → Prop
  | serving _ p => CopiesClientsOnly p
  | announcing p => CopiesClientsOnly p
  | _ => True

theorem copiesClients_call {k : o.Res → BusProg Unit} (h : CopiesClientsOnly (.call o k)) :
    CopiesClients w.log ⟨w.state, o, r⟩ ∧ CopiesClientsOnly (k r) := by
  refine ⟨?_, h.2 r⟩
  cases o with
  | spawnWrite => exact h.1
  | _ => trivial

theorem copiesClients_step (h : j.CopiesClients) (hstep : JobStep bus j o r j') :
    CopiesClients w.log ⟨w.state, o, r⟩ ∧ j'.CopiesClients ∧ ∀ j ∈ o.spawned, j.CopiesClients := by
  have hspawned : ∀ j ∈ o.spawned, j.CopiesClients :=
    BusOp.forall_mem_spawned fun _ _ => trivial
  cases hstep with
  | dispatch =>
    obtain ⟨hevent, hnext⟩ := copiesClients_call (w := w) h
    exact ⟨hevent, hnext, hspawned⟩
  | announce =>
    obtain ⟨hevent, hnext⟩ := copiesClients_call (w := w) h
    exact ⟨hevent, hnext, hspawned⟩
  | read =>
    exact ⟨trivial, Dispatch.routine_dispatchIncoming (fun _ _ _ => trivial) (fun _ => trivial)
      fun _ hdriver => hdriver.ne_setSender rfl, hspawned⟩
  | @remove c events =>
    have htelling : (Dispatch.broadcastNameOwnerChanges bus events).Only
        (Dispatch.Telling fun _ _ => True) :=
      Dispatch.telling_broadcastNameOwnerChanges (fun _ _ _ _ => trivial) events
    refine ⟨trivial, htelling.mono fun _ ho => ?_, hspawned⟩
    exact (ho.errand : Errand c (fun _ _ => True) _ _ _).routine
  | _ => exact ⟨trivial, trivial, hspawned⟩

/-- **In every run, no copy is left of a message of the driver.** -/
theorem Daemon.Reachable.not_driverBuilt (h : Reachable bus S)
    (hcopy : CopyLeft S.world.log M msg) :
    ¬ DriverBuilt msg := by
  have hlogged := (h.guarantee (J := fun j _ => j.CopiesClients) (P := CopiesClients)
    (fun _ _ => trivial) (fun hj hstep _ => copiesClients_step hj hstep) fun hj _ => hj).1
  obtain ⟨s, r, hmem⟩ := hcopy
  obtain ⟨post, pre, hlog⟩ := List.append_of_mem hmem
  rw [hlog] at hlogged
  exact hlogged.of_append

/-! ## Discreet runs -/

/-- A client's message is none of the driver's. -/
theorem Routed.not_driverBuilt (h : Routed log msg) : ¬ DriverBuilt msg := by
  obtain ⟨c, m, s, -, -, rfl⟩ := h
  exact fun hdriver => hdriver.ne_setSender rfl

/-- A connection that may be left a copy of a message. -/
def MayOverhear (bus : Bus) (conn : ConnectionEntry) (msg : Message) : Prop :=
  msg.destination ≠ none → msg.toBytes.isOk = true →
    bus.policy.canReceive (bus.identity conn) msg msg.sender = true

/-- Copies are left only for those who may have them. -/
def CopiesDiscreetly (bus : Bus) (_ : List BusEvent) (e : BusEvent) : Prop :=
  match e.op with
  | .spawnWrite conn msg => MayOverhear bus conn msg
  | _ => True

/-- The operations of a dispatch that leaves no copies. -/
abbrev LeavesNone : BusOp → Prop := Routine (fun _ _ => True) fun _ _ => False

/-- **How a dispatch makes its copies**: it reads the table, looks at one connection after
the other, leaves those a copy that are monitors, and leaves no copies afterwards. -/
inductive CopiesInTurn (bus : Bus) : BusProg Unit → Prop where
  | table {msg : Message} {k : Unit → BusProg Unit} (hk : (k ()).Only LeavesNone) :
    CopiesInTurn bus (Dispatch.deliverToMonitors msg >>= k)
  | look {msg : Message} {conns : List ConnectionEntry} {k : Unit → BusProg Unit}
    (hk : (k ()).Only LeavesNone) :
    CopiesInTurn bus (Prog.forEach (Dispatch.copyToMonitor msg) conns >>= k)
  | leave {conn : ConnectionEntry} {msg : Message} {conns : List ConnectionEntry}
    {k : Unit → BusProg Unit} (h : MayOverhear bus conn msg) (hk : (k ()).Only LeavesNone) :
    CopiesInTurn bus (.call (.spawnWrite conn msg) fun _ =>
      Prog.forEach (Dispatch.copyToMonitor msg) conns >>= k)
  | after {p : BusProg Unit} (h : p.Only LeavesNone) : CopiesInTurn bus p

/-- A program that leaves no copies leaves none now. -/
theorem copiesDiscreetly_of_leavesNone (ho : LeavesNone o) :
    CopiesDiscreetly bus w.log ⟨w.state, o, r⟩ := by
  cases o with
  | spawnWrite => exact ho.elim
  | _ => trivial

/-- **One operation of a dispatch**: if none that overhears is looked at, no copy is left
for one. -/
theorem CopiesInTurn.call {p : BusProg Unit} {k : o.Res → BusProg Unit} (h : CopiesInTurn bus p)
    (hp : p = .call o k) {c : ConnectionEntry}
    (hdiscreet : ∀ conn msg, (Job.serving c p).AboutToCopy conn msg →
      w.state.isMonitor conn = true → MayOverhear bus conn msg)
    (hexec : World.Exec o w r w') :
    CopiesDiscreetly bus w.log ⟨w.state, o, r⟩ ∧ CopiesInTurn bus (k r) := by
  cases h with
  | @table msg k' hk =>
    change Prog.call .allConnections (fun conns =>
      Prog.forEach (Dispatch.copyToMonitor msg) conns >>= k') = .call o k at hp
    cases hp
    exact ⟨trivial, .look hk⟩
  | @look msg conns k' hk =>
    cases conns with
    | nil =>
      rw [show k' () = .call o k from hp] at hk
      exact ⟨copiesDiscreetly_of_leavesNone hk.1, .after (hk.2 r)⟩
    | cons conn conns =>
      have hmay := hdiscreet conn msg (.intro List.mem_cons_self)
      change Prog.call (.isMonitor conn) (fun isMonitor =>
        ((if isMonitor then BusProg.op (.spawnWrite conn msg) else return ()) >>= fun _ =>
          Prog.forEach (Dispatch.copyToMonitor msg) conns) >>= k') = .call o k at hp
      cases hp
      refine ⟨trivial, ?_⟩
      obtain rfl : r = w.state.isMonitor conn := hexec.1.1
      cases hmonitor : w.state.isMonitor conn with
      | false => exact .look hk
      | true => exact .leave (hmay hmonitor) hk
  | leave hmay hk =>
    cases hp
    exact ⟨hmay, .look hk⟩
  | after h =>
    rw [hp] at h
    exact ⟨copiesDiscreetly_of_leavesNone h.1, .after (h.2 r)⟩

/-- What a job still copies, it copies in turn. -/
def Job.CopiesInTurn (bus : Bus) : Job → Prop
  | serving _ p => Oxibus.CopiesInTurn bus p
  | announcing p => p.Only LeavesNone
  | _ => True

theorem copiesInTurn_dispatchIncoming (c : ConnectionEntry) (m : Message) :
    CopiesInTurn bus (Dispatch.dispatchIncoming bus c m) := by
  have hdriver : ∀ conn msg, Dispatch.DriverFor c conn msg → True := fun _ _ _ => trivial
  have hgate : (Prog.call (.isRegistered c) fun isRegistered =>
      if !isRegistered && !Dispatch.isHelloCall (m.setSender c.uniqueName) then
        Dispatch.replyError c (m.setSender c.uniqueName) Errors.accessDenied
          "Client tried to send a message other than Hello without being registered"
      else Dispatch.dispatchByType bus c (m.setSender c.uniqueName)).Only
      (Errand c (fun _ _ => True) (fun _ _ => True) fun _ _ => False) :=
    ⟨trivial, fun _ => Prog.only_ite (Dispatch.only_replyError hdriver _ _ _)
      (Dispatch.only_dispatchByType (fun _ _ _ => trivial) hdriver fun _ => trivial)⟩
  exact .table (k := fun _ => _) (hgate.mono fun _ => Errand.routine)

theorem copiesInTurn_step (hdiscreet : S.Discreet bus) (hj : j ∈ S.jobs) (h : j.CopiesInTurn bus)
    (hstep : JobStep bus j o r j') (hexec : World.Exec o S.world r w') :
    CopiesDiscreetly bus S.world.log ⟨S.world.state, o, r⟩ ∧ j'.CopiesInTurn bus ∧
      ∀ j ∈ o.spawned, j.CopiesInTurn bus := by
  have hspawned : ∀ j ∈ o.spawned, j.CopiesInTurn bus := BusOp.forall_mem_spawned fun _ _ => trivial
  cases hstep with
  | @dispatch c _ k =>
    have hmay : ∀ conn msg, Job.AboutToCopy conn msg (.serving c (.call o k)) →
        S.world.state.isMonitor conn = true → MayOverhear bus conn msg := by
      intro conn msg hcopied hmonitor hdest hencodable
      cases hreceive : bus.policy.canReceive (bus.identity conn) msg msg.sender with
      | true => rfl
      | false =>
        exact absurd ⟨⟨_, hj, hcopied⟩, hdest, hencodable, hmonitor, hreceive⟩ (hdiscreet conn msg)
    obtain ⟨hevent, hnext⟩ := CopiesInTurn.call h rfl hmay hexec
    exact ⟨hevent, hnext, hspawned⟩
  | announce => exact ⟨copiesDiscreetly_of_leavesNone h.1, h.2 r, hspawned⟩
  | @read c m => exact ⟨trivial, copiesInTurn_dispatchIncoming c m, hspawned⟩
  | @remove c events =>
    have htelling : (Dispatch.broadcastNameOwnerChanges bus events).Only
        (Dispatch.Telling fun _ _ => True) :=
      Dispatch.telling_broadcastNameOwnerChanges (fun _ _ _ _ => trivial) events
    refine ⟨trivial, htelling.mono fun _ ho => ?_, hspawned⟩
    exact (ho.errand : Errand c (fun _ _ => True) _ _ _).routine
  | add => exact ⟨trivial, .after trivial, hspawned⟩
  | _ => exact ⟨trivial, trivial, hspawned⟩

/-- The runs of the daemon in which no monitor overhears anything. -/
abbrev Daemon.DiscreetRun (bus : Bus) (S : Daemon) : Prop :=
  ReflTransGen (StepWhere bus (Discreet bus)) new S

theorem Daemon.DiscreetRun.reachable (h : DiscreetRun bus S) : Reachable bus S :=
  ReflTransGen.mono (fun _ _ hs => StepWhere.step hs) _ _ h

/-- **In a discreet run, copies are left only for those who may have them.** -/
theorem Daemon.DiscreetRun.mayOverhear (h : DiscreetRun bus S) {post pre : List BusEvent}
    {e : BusEvent} (hlog : S.world.log = post ++ e :: pre) (hcopy : CopyLeft pre conn msg) :
    MayOverhear bus conn msg := by
  have hlogged := (guarantee_where (J := fun j _ => j.CopiesInTurn bus) (P := CopiesDiscreetly bus)
    (fun _ _ => trivial) copiesInTurn_step (fun hj _ => hj) h).1
  obtain ⟨s, r, hmem⟩ := hcopy
  obtain ⟨post', pre', hpre⟩ := List.append_of_mem hmem
  have hsplit : S.world.log = (post ++ e :: post') ++ ⟨s, .spawnWrite conn msg, r⟩ :: pre' := by
    rw [hlog, hpre, List.append_assoc, List.cons_append]
  rw [hsplit] at hlogged
  exact hlogged.of_append

/-! ## What an indiscreet run may lead to -/

/-- A dispatch performs its next operation. -/
theorem exists_served (bus : Bus) {i : ℕ} {c : ConnectionEntry} {k : o.Res → BusProg Unit}
    (hj : S.jobs[i]? = some (.serving c (.call o k))) (hexec : o.Exec S.world.state r s) :
    ∃ S', Step bus S S' ∧ S'.world = ⟨s, ⟨S.world.state, o, r⟩ :: S.world.log⟩ ∧
      S'.jobs[i]? = some (.serving c (k r)) ∧ ∀ j ∈ o.spawned, j ∈ S'.jobs :=
  ⟨⟨_, S.jobs.set i (.serving c (k r)) ++ o.spawned⟩, .job hj .dispatch ⟨hexec, rfl⟩, rfl,
    Slots.getElem?_set_append_self hj, fun _ hj => List.mem_append_right _ hj⟩

/-- Only what is read is routed. -/
theorem Routed.of_cons {e : BusEvent} (h : Routed (e :: log) msg)
    (hop : ∀ c, e.op ≠ .readMessage c) : Routed log msg := by
  obtain ⟨c, m, s, hread, hframe, heq⟩ := h
  rcases List.mem_cons.mp hread with rfl | hread
  · exact absurd rfl (hop c)
  · exact ⟨c, m, s, hread, hframe, heq⟩

/-- What was read in a run stays read. -/
theorem Routed.step (h : Routed S.world.log msg) (hstep : Step bus S S') :
    Routed S'.world.log msg := by
  cases hstep with
  | accept => exact h
  | job hj hstep hexec =>
    obtain ⟨c, m, s, hread, hsent⟩ := h
    refine ⟨c, m, s, ?_, hsent⟩
    rw [hexec.2]
    exact List.mem_cons_of_mem _ hread

/-- **A dispatch that comes to a monitor leaves it a copy**, which is a job of its own. Nothing
is read for that. -/
theorem exists_copying (bus : Bus) {i : ℕ} {c : ConnectionEntry} {conns : List ConnectionEntry}
    {k : Unit → BusProg Unit} (hconn : conn ∈ conns)
    (hmonitor : S.world.state.isMonitor conn = true)
    (hj : S.jobs[i]? = some (.serving c (Prog.forEach (Dispatch.copyToMonitor msg) conns >>= k))) :
    ∃ S', ReflTransGen (Step bus) S S' ∧ CopyLeft S'.world.log conn msg ∧
      .copying conn msg ∈ S'.jobs ∧ (Routed S'.world.log msg → Routed S.world.log msg) := by
  induction conns generalizing S with
  | nil => exact absurd hconn List.not_mem_nil
  | cons c' conns ih =>
    obtain ⟨S₁, hstep₁, hworld₁, hj₁, -⟩ := exists_served bus hj ⟨rfl, rfl⟩
    have hmonitor₁ : S₁.world.state.isMonitor conn = true := by rwa [hworld₁]
    have hread₁ : Routed S₁.world.log msg → Routed S.world.log msg := by
      rw [hworld₁]
      exact fun h => h.of_cons nofun
    cases hmonitor' : S.world.state.isMonitor c' with
    | false =>
      have hne : conn ≠ c' := fun heq => by
        rw [heq, hmonitor'] at hmonitor
        cases hmonitor
      rw [hmonitor'] at hj₁
      obtain ⟨S', hsteps, hcopy, hcopying, hread⟩ :=
        ih ((List.mem_cons.mp hconn).resolve_left hne) hmonitor₁ hj₁
      exact ⟨S', hsteps.head hstep₁, hcopy, hcopying, hread₁ ∘ hread⟩
    | true =>
      rw [hmonitor'] at hj₁
      obtain ⟨S₂, hstep₂, hworld₂, hj₂, hspawned⟩ := exists_served bus hj₁ rfl
      have hread₂ : Routed S₂.world.log msg → Routed S.world.log msg := by
        rw [hworld₂]
        exact fun h => hread₁ (h.of_cons nofun)
      by_cases heq : conn = c'
      · subst heq
        refine ⟨S₂, .tail (.single hstep₁) hstep₂, ⟨S₁.world.state, (), ?_⟩,
          hspawned _ List.mem_cons_self, hread₂⟩
        rw [hworld₂]
        exact List.mem_cons_self
      · have hmonitor₂ : S₂.world.state.isMonitor conn = true := by rwa [hworld₂]
        obtain ⟨S', hsteps, hcopy, hcopying, hread⟩ :=
          ih ((List.mem_cons.mp hconn).resolve_left heq) hmonitor₂ hj₂
        exact ⟨S', (hsteps.head hstep₂).head hstep₁, hcopy, hcopying, hread₂ ∘ hread⟩

/-- A copy that has been left may be written next. -/
theorem exists_written (bus : Bus) (h : .copying conn msg ∈ S.jobs) :
    ∃ S' written, Step bus S S' ∧
      S'.world.log = ⟨S.world.state, .write conn msg, written⟩ :: S.world.log := by
  obtain ⟨n, hn⟩ := List.mem_iff_getElem?.mp h
  have hexec : BusOp.Exec (.write conn msg) S.world.state msg.toBytes.isOk S.world.state :=
    ⟨id, rfl⟩
  let event : BusEvent := ⟨S.world.state, .write conn msg, msg.toBytes.isOk⟩
  exact ⟨⟨⟨S.world.state, event :: S.world.log⟩, S.jobs.set n .finished ++ []⟩, _,
    .job hn .copy ⟨hexec, rfl⟩, rfl⟩

/-- A copy that has been left is of a client's message. -/
theorem routed_of_copying (h : Reachable bus S) (hcopy : CopyLeft S.world.log conn msg)
    (hcopying : .copying conn msg ∈ S.jobs) : Routed S.world.log msg := by
  obtain ⟨S', written, hstep, hlog⟩ := exists_written bus hcopying
  have hgenuine := (h.step hstep).conducts.1
  rw [hlog] at hgenuine
  exact hgenuine.1.resolve_right (h.not_driverBuilt hcopy)

/-- **What a monitor overhears was read from a client.** -/
theorem Daemon.Overhears.routed (hoverhears : S.Overhears bus conn msg) (h : Reachable bus S) :
    Routed S.world.log msg := by
  obtain ⟨⟨j, hj, hcopied⟩, -, -, hmonitor, -⟩ := hoverhears
  cases hcopied with
  | @intro c conns k hconn =>
    obtain ⟨i, hi⟩ := List.mem_iff_getElem?.mp hj
    obtain ⟨S₁, hsteps, hcopy, hcopying, hread⟩ := exists_copying bus hconn hmonitor hi
    exact hread (routed_of_copying (h.trans hsteps) hcopy hcopying)

/-- **A monitor that overhears a message may be written it**, and then somebody has
eavesdropped. -/
theorem exists_eavesdropping (h : Reachable bus S) (hoverhears : S.Overhears bus conn msg) :
    ∃ S', ReflTransGen (Step bus) S S' ∧ ¬ NoEavesdropping bus S'.world.log := by
  obtain ⟨⟨j, hj, hcopied⟩, hdest, hencodable, hmonitor, hforbidden⟩ := hoverhears
  cases hcopied with
  | @intro c conns k hconn =>
    obtain ⟨i, hi⟩ := List.mem_iff_getElem?.mp hj
    obtain ⟨S₁, hsteps, hcopy, hcopying, -⟩ := exists_copying bus hconn hmonitor hi
    obtain ⟨S₂, written, hstep, hlog⟩ := exists_written bus hcopying
    refine ⟨S₂, hsteps.tail hstep, fun hno => ?_⟩
    have hrouted : Routed S₁.world.log msg := routed_of_copying (h.trans hsteps) hcopy hcopying
    unfold NoEavesdropping at hno
    rw [hlog] at hno
    cases hno.1 hrouted hdest hencodable with
    | permitted hpermitted => cases hpermitted.symm.trans hforbidden
    | addressed _ hnone => exact hnone hcopy

/-- **Nobody eavesdrops if no monitor overhears**: in every run in which no message is about to
be copied for a monitor that may not receive it, messages for one connection
are written only to those who are entitled to them. And a run that comes to
such a monitor may go on so that somebody has eavesdropped. -/
theorem noEavesdropping_of_discreet (bus : Bus) :
    (∀ S, DiscreetRun bus S → NoEavesdropping bus S.world.log) ∧
    ∀ S, Reachable bus S → ¬ S.Discreet bus →
      ∃ S', ReflTransGen (Step bus) S S' ∧ ¬ NoEavesdropping bus S'.world.log := by
  refine ⟨fun S h => Logged.exists_split fun post e pre hlog => ?_, fun S h hindiscreet => ?_⟩
  · obtain ⟨s, o, r⟩ := e
    have hevent : ForwardedRightly pre ⟨s, o, r⟩ := by
      have hlogged := h.reachable.forwardedRightly
      rw [hlog] at hlogged
      exact hlogged.of_append
    cases o with
    | write conn msg =>
      intro hrouted hdest hencodable
      by_cases hcopy : CopyLeft pre conn msg
      · exact .permitted (h.mayOverhear hlog hcopy hdest hencodable)
      · rcases hevent with hdriver | hopen | haddressed | hcopy'
        · exact absurd hdriver hrouted.not_driverBuilt
        · exact absurd hopen.2 hdest
        · exact .addressed haddressed hcopy
        · exact absurd hcopy' hcopy
    | _ => trivial
  · simp only [Discreet, not_forall, not_not] at hindiscreet
    obtain ⟨conn, msg, hoverhears⟩ := hindiscreet
    exact exists_eavesdropping h hoverhears

/-! ## A monitor on a bus on which nobody may receive anything -/

/-- A client becomes a monitor. Another one makes a call to a name nobody owns, and the
copy is written. -/
def overhearingScript : List Instruction :=
  monitorScript [] ++ [.accept ⟨1000, 1000, 4712⟩, .run 1 8,
    .receive 1 (frameOf (driverCall "Hello" [] 1)), .run 1 80,
    .receive 1 (frameOf (Dispatch.callTo "a.Service")), .run 1 80, .run 3 1]

/-- Whether the last thing that happened is that a client's message for a name nobody
has owned was written to a connection that may not receive it. -/
def overheardLast (bus : Bus) (name : String) : List BusEvent → Bool
  | ⟨_, .write conn msg, _⟩ :: pre =>
    msg.destination == some name && msg.sender != some WellKnown.busName && msg.toBytes.isOk &&
      !bus.policy.canReceive (bus.identity conn) msg msg.sender &&
      pre.all fun e => e.before.registry.getNameOwner name == none
  | _ => false

/-- Then somebody has eavesdropped. -/
theorem not_noEavesdropping_of_overheardLast (name : String) (h : Reachable bus S)
    (hlast : overheardLast bus name S.world.log = true) : ¬ NoEavesdropping bus S.world.log := by
  intro hno
  have hgenuine := h.conducts.1
  have hexecuted := h.executed.2
  unfold NoEavesdropping at hno
  unfold overheardLast at hlast
  split at hlast
  · next s conn msg r pre hlog =>
    rw [hlog] at hno hgenuine hexecuted
    simp only [Bool.and_eq_true, beq_iff_eq, bne_iff_ne, Bool.not_eq_true', List.all_eq_true]
      at hlast
    obtain ⟨⟨⟨⟨hdest, hsender⟩, hencodable⟩, hforbidden⟩, hunowned⟩ := hlast
    have hrouted : Routed pre msg := by
      rcases hgenuine.1 with hrouted | hdriver
      · exact hrouted
      · exact absurd hdriver.sender hsender
    have hentitled : Entitled bus pre conn msg := hno.1 hrouted (by simp [hdest]) hencodable
    cases hentitled with
    | permitted hpermitted => cases hpermitted.symm.trans hforbidden
    | addressed haddressed =>
      obtain ⟨source, m, dest, owner, s₁, s₂, s₃, s₄, hsub, -, hdest'⟩ := haddressed
      have hmem : (⟨s₃, .getNameOwner dest, some owner⟩ : BusEvent) ∈ pre :=
        hsub.subset (List.mem_cons_of_mem _ List.mem_cons_self)
      obtain ⟨-, s', hexec⟩ := hexecuted _ (List.mem_cons_of_mem _ hmem)
      have hnone : s₃.registry.getNameOwner name = none := hunowned _ hmem
      obtain rfl : dest = name := Option.some.inj (hdest'.symm.trans hdest)
      rw [← hexec.1] at hnone
      cases hnone
  · cases hlast

/-- **The monitor overhears the call**, although the policy lets nobody receive
anything. -/
theorem monitor_eavesdrops : ¬ ∀ (bus : Bus) (S : Daemon), Reachable bus S →
    NoEavesdropping bus S.world.log := by
  intro h
  have hreachable : Reachable mute (Daemon.new.replay mute overhearingScript) :=
    reachable_replay reachable_new _
  obtain ⟨S, hreachable, hlast⟩ : ∃ S, Reachable mute S ∧
      overheardLast mute "a.Service" S.world.log = true :=
    ⟨_, hreachable, by decide +kernel⟩
  exact not_noEavesdropping_of_overheardLast "a.Service" hreachable hlast (h mute S hreachable)

/-! ## A monitor on a bus on which nobody may receive what is secret -/

/-- **A run is discreet in which everybody may receive what was read.** -/
theorem discreetRun_of_permitted (h : Reachable bus S) (hpermitted : ∀ msg, Routed S.world.log msg →
    ∀ conn, bus.policy.canReceive (bus.identity conn) msg msg.sender = true) :
    DiscreetRun bus S := by
  have hrun : Reachable bus S := h
  clear h
  induction hrun with
  | refl => exact .refl
  | @tail S S' hbefore hstep ih =>
    have hpermitted' : ∀ msg, Routed S.world.log msg →
        ∀ conn, bus.policy.canReceive (bus.identity conn) msg msg.sender = true :=
      fun msg hrouted => hpermitted msg (hrouted.step hstep)
    refine (ih hpermitted').tail ⟨hstep, fun conn msg hoverhears => ?_⟩
    cases hoverhears.forbidden.symm.trans (hpermitted' msg (hoverhears.routed hbefore) conn)

/-- A bus on which nobody may receive a message of one interface. -/
def secretBus : Bus :=
  { plainBus with policy := ⟨[⟨.default, none, none, [], [], [.destination "*"], [],
    [.destination "*"], [.full none (some "a.Secret") none none none]⟩]⟩ }

theorem canReceive_secretBus (identity : Identity) (sender : Option String) :
    secretBus.policy.canReceive identity msg sender = (msg.interface != some "a.Secret") := by
  have hallows : globMatch "*" (sender.getD "") = true := rfl
  show (if _ then false else if _ then true else false) = _
  simp only [List.any_cons, List.any_nil, Bool.or_false, SendReceivePattern.matches,
    SendReceivePattern.mentions, Bool.true_and, Bool.and_true, hallows]
  cases hsecret : msg.interface == some "a.Secret" with
  | true => simp [bne, hsecret]
  | false => simp [bne, hsecret]

/-- Whether nothing of that interface was read. -/
def readsNoSecret (log : List BusEvent) : Bool :=
  log.all fun
    | ⟨_, .readMessage _, some m⟩ => m.interface != some "a.Secret"
    | _ => true

/-- Whether the last thing that happened is that a monitor was written a call of the
service. -/
def heardLast : List BusEvent → Bool
  | ⟨s, .write conn msg, written⟩ :: _ =>
    s.isMonitor conn && msg.destination == some "a.Service" && written
  | _ => false

/-- There the monitor is written the call, which everybody may receive, and nobody has
eavesdropped. -/
theorem noEavesdropping_of_discreet_secret :
    heardLast (Daemon.new.replay secretBus overhearingScript).world.log = true ∧
      NoEavesdropping secretBus (Daemon.new.replay secretBus overhearingScript).world.log := by
  have hreachable : Reachable secretBus (Daemon.new.replay secretBus overhearingScript) :=
    reachable_replay reachable_new _
  have hclear : readsNoSecret (Daemon.new.replay secretBus overhearingScript).world.log = true := by
    decide +kernel
  refine ⟨by decide +kernel, ?_⟩
  -- the log stays a name, so that the run is not computed again
  generalize Daemon.new.replay secretBus overhearingScript = S at hreachable hclear ⊢
  refine (noEavesdropping_of_discreet secretBus).1 S (discreetRun_of_permitted hreachable ?_)
  rintro msg ⟨c, m, s, hread, -, rfl⟩ conn
  rw [canReceive_secretBus, Message.interface_setSender]
  exact List.all_eq_true.mp hclear _ hread

end Oxibus
