import Oxibus.Daemon.Conduct
import Oxibus.Daemon.Replay
import Oxibus.Daemon.ServiceRegistry

/-!
# The environment of services

The daemon of a session bus keeps a table of variables for the services it starts,
and its clients add to it. What is in it at any time is what they have added: the
latest value of each name, in the order in which the calls were carried out
(`Reachable.environment`). Nothing else adds to it, and on a system bus nothing
does (`Reachable.asked`).

A service that the daemon starts itself sees of each variable the value in its own
service file, or else the latest one that a client has added, or else the one that
the daemon has.
-/

namespace Oxibus

open BusProg

/-- **A call that adds variables.** -/
structure Message.Adds (msg : Message) (pairs : List (String × String)) : Prop where
  messageType : msg.messageType = .methodCall
  destination : msg.destination = some WellKnown.busName
  member : msg.member = some "UpdateActivationEnvironment"
  body : ∃ element elements,
    msg.body.head?.map Value.unwrapVariant = some (.array element elements) ∧
    pairs = Driver.environmentPairs elements

/-- What an operation adds, the latest first. -/
def BusEvent.added (e : BusEvent) : List (String × String) :=
  match e.op with
  | .extendEnvironment pairs => pairs.reverse
  | _ => []

/-- **Everything that was added in a run**, the latest first. -/
def addedVars (log : List BusEvent) : List (String × String) := log.flatMap BusEvent.added

/-- Some variables were asked for, on a session bus and by a message that was read. -/
def AskedFor (bus : Bus) (log : List BusEvent) (pairs : List (String × String)) : Prop :=
  bus.kind = .session ∧ ∃ (s : BusState) (c : ConnectionEntry) (msg : Message),
    (⟨s, .readMessage c, some msg⟩ : BusEvent) ∈ log ∧ msg.Adds pairs

/-- An operation that adds nothing but variables of a kind. -/
def AddsOnly (P : List (String × String) → Prop) : BusOp → Prop
  | .extendEnvironment pairs => P pairs
  | _ => True

variable {bus : Bus} {sender : ConnectionEntry} {msg : Message} {log : List BusEvent}
  {pairs : List (String × String)} {P : List (String × String) → Prop}
  {Q : ConnectionEntry → Message → Prop} {o : BusOp}

theorem Routing.addsOnly (ho : Routing Q o) : AddsOnly P o := by
  cases o with
  | extendEnvironment => exact ho.elim
  | _ => trivial

theorem Looking.addsOnly (ho : Looking o) : AddsOnly P o := by
  cases o with
  | extendEnvironment => exact ho.elim
  | _ => trivial

theorem Dispatch.Copying.addsOnly (ho : Dispatch.Copying o) : AddsOnly P o := by
  cases o with
  | extendEnvironment => exact ho.elim
  | _ => trivial

theorem AskedFor.cons (h : AskedFor bus log pairs) (e : BusEvent) :
    AskedFor bus (e :: log) pairs := by
  obtain ⟨hkind, s, c, msg, hread, hadds⟩ := h
  exact ⟨hkind, s, c, msg, List.mem_cons_of_mem e hread, hadds⟩

/-! ## One dispatch -/

namespace Driver

variable {args : List Value}

/-- **What the call for variables adds** is what its argument says, on a session bus. -/
theorem adds_handleUpdateActivationEnv (h : bus.kind = .session → ∀ element elements,
      args.head?.map Value.unwrapVariant = some (.array element elements) →
      P (environmentPairs elements)) :
    (handleUpdateActivationEnv bus args).Only (AddsOnly P) := by
  refine Prog.only_split (fun _ => trivial) fun hkind => ?_
  have hsession : bus.kind = .session := by
    cases hbus : bus.kind with
    | session => rfl
    | system => exact absurd hbus hkind
  split
  · next element elements hargs => exact ⟨h hsession element elements hargs, fun _ => trivial⟩
  · trivial

/-- Only one method adds variables. -/
theorem adds_handle (member : String) (h : member = "UpdateActivationEnvironment" →
      bus.kind = .session → ∀ element elements,
        args.head?.map Value.unwrapVariant = some (.array element elements) →
        P (environmentPairs elements)) :
    (handle bus sender member args).Only (AddsOnly P) := by
  by_cases hmember : member = "UpdateActivationEnvironment"
  · subst hmember
    exact adds_handleUpdateActivationEnv (h rfl)
  · exact only_handle_of member (fun _ => Looking.addsOnly) (fun _ => trivial)
      (fun _ _ _ _ _ _ _ _ => trivial) (fun _ _ => trivial) (fun _ _ => trivial)
      (fun _ _ => trivial) fun hadds => absurd hadds hmember

end Driver

namespace Dispatch

theorem adds_handleDriverCall (h : bus.kind = .session → ∀ pairs, msg.Adds pairs → P pairs)
    (htype : msg.messageType = .methodCall) (hdest : msg.destination = some WellKnown.busName) :
    (handleDriverCall bus sender msg).Only (AddsOnly P) := by
  refine Prog.only_bind ?_ fun outcome => ?_
  · unfold driverOutcome
    dsimp only
    split
    · next outcome hside =>
      exact only_handleSideInterface_of (fun _ => Looking.addsOnly) (fun _ _ => ⟨trivial, trivial⟩)
        hside
    · refine Driver.adds_handle _ fun hmember hkind element elements hargs => ?_
      refine h hkind _ ⟨htype, hdest, ?_, element, elements, hargs, rfl⟩
      cases hname : msg.member with
      | none =>
        rw [hname] at hmember
        exact absurd hmember (by decide)
      | some member =>
        rw [hname] at hmember
        exact congrArg some hmember
  · refine Prog.only_bind ((telling_broadcastNameOwnerChanges (Q := fun _ _ => True)
      (fun _ _ _ _ => trivial) _).mono fun _ ho => ho.routing.addsOnly) fun _ => ?_
    refine Prog.only_ite trivial ((telling_sendFromDriver (Q := fun _ _ => True) fun _ =>
      trivial).mono fun _ ho => ho.routing.addsOnly)

/-- **A dispatch adds the variables that its message asks for**, and no others. -/
theorem adds_dispatchIncoming (h : bus.kind = .session → ∀ pairs, msg.Adds pairs → P pairs) :
    (dispatchIncoming bus sender msg).Only (AddsOnly P) := by
  have h' : bus.kind = .session → ∀ pairs, (msg.setSender sender.uniqueName).Adds pairs →
      P pairs := by
    refine fun hkind pairs hadds => h hkind pairs ⟨hadds.messageType, ?_, ?_, hadds.body⟩
    · rw [← msg.destination_setSender sender.uniqueName]
      exact hadds.destination
    · rw [← msg.member_setSender sender.uniqueName]
      exact hadds.member
  have hrouting {p : BusProg Unit} (hp : p.Only (Routing fun _ _ => True)) : p.Only (AddsOnly P) :=
    hp.mono fun _ ho => ho.addsOnly
  refine Prog.only_bind (copying_deliverToMonitors.mono fun _ ho => ho.addsOnly) fun _ =>
    ⟨trivial, fun isRegistered => Prog.only_ite ?_ ?_⟩
  · exact hrouting (routing_replyError (fun _ _ _ => trivial) _ _ _)
  · unfold dispatchByType
    split
    · exact hrouting (routing_dispatchSignal fun _ _ _ => trivial)
    · next htype =>
      by_cases hdest : (msg.setSender sender.uniqueName).destination = some WellKnown.busName
      · rw [dispatchMethodCall_driver hdest]
        exact adds_handleDriverCall h' htype hdest
      · exact hrouting (routing_dispatchMethodCall hdest (fun _ _ _ => trivial)
          fun _ _ _ => trivial)
    · exact hrouting (routing_dispatchReply fun _ => trivial)
    · exact hrouting (routing_dispatchReply fun _ => trivial)

end Dispatch

/-! ## Whole runs -/

/-- A job adds what was asked for. -/
def Job.AddsAsked (bus : Bus) (log : List BusEvent) : Job → Prop
  | serving _ p => p.Only (AddsOnly (AskedFor bus log))
  | announcing p => p.Only (AddsOnly fun _ => False)
  | _ => True

/-- What is added was asked for. -/
def AddedAsked (bus : Bus) (log : List BusEvent) (e : BusEvent) : Prop :=
  AddsOnly (AskedFor bus log) e.op

theorem AddsOnly.mono {P' : List (String × String) → Prop} (hP : ∀ pairs, P pairs → P' pairs)
    (ho : AddsOnly P o) : AddsOnly P' o := by
  cases o with
  | extendEnvironment pairs => exact hP pairs ho
  | _ => trivial

theorem Job.AddsAsked.stable {j : Job} {r : o.Res} {w w' : World}
    (h : j.AddsAsked bus w.log) (hexec : World.Exec o w r w') : j.AddsAsked bus w'.log := by
  rw [hexec.2]
  cases j with
  | serving c p => exact Prog.Only.mono h fun _ => AddsOnly.mono fun _ hp => hp.cons _
  | _ => exact h

theorem addsAsked_step {j j' : Job} {r : o.Res} {w w' : World} (h : j.AddsAsked bus w.log)
    (hstep : JobStep bus j o r j') (hexec : World.Exec o w r w') :
    AddedAsked bus w.log ⟨w.state, o, r⟩ ∧ j'.AddsAsked bus w'.log ∧
      ∀ j ∈ o.spawned, j.AddsAsked bus w'.log := by
  have hspawned : ∀ j ∈ o.spawned, j.AddsAsked bus w'.log := by
    intro j hj
    cases o with
    | spawnWrite c msg =>
      rw [List.mem_singleton.mp hj]
      trivial
    | _ => exact absurd hj List.not_mem_nil
  cases hstep with
  | @dispatch c o k r =>
    have hnext : Job.AddsAsked bus w.log (.serving c (k r)) := h.2 r
    exact ⟨h.1, hnext.stable hexec, hspawned⟩
  | announce => exact ⟨AddsOnly.mono (fun _ => False.elim) h.1, h.2 _, hspawned⟩
  | @read c msg =>
    refine ⟨trivial, ?_, hspawned⟩
    refine Dispatch.adds_dispatchIncoming fun hkind pairs hadds =>
      ⟨hkind, w.state, c, msg, ?_, hadds⟩
    rw [hexec.2]
    exact List.mem_cons_self
  | @remove c events =>
    refine ⟨trivial, ?_, hspawned⟩
    exact (Dispatch.telling_broadcastNameOwnerChanges (Q := fun _ _ => True)
      (fun _ _ _ _ => trivial) events).mono fun _ ho => ho.routing.addsOnly
  | _ => exact ⟨trivial, trivial, hspawned⟩

namespace Daemon

variable {S : Daemon}

/-- **Everything that is added was asked for**: on a session bus, by a call that was read
before. -/
theorem Reachable.asked (h : Reachable bus S) : Logged (AddedAsked bus) S.world.log :=
  (h.guarantee (J := fun j w => j.AddsAsked bus w.log) (fun _ _ => trivial) addsAsked_step
    Job.AddsAsked.stable).1

end Daemon

/-- One operation changes the table, and it adds to it. -/
theorem World.Exec.environment {r : o.Res} {w w' : World} (h : World.Exec o w r w') :
    w'.state.activationEnvironment
      = BusEvent.added ⟨w.state, o, r⟩ ++ w.state.activationEnvironment := by
  obtain ⟨h, -⟩ := h
  cases o with
  | extendEnvironment pairs =>
    rw [h]
    rfl
  | removeConnection name =>
    obtain ⟨order, -, -, hs⟩ := h
    rw [hs]
    rfl
  | tryBeginIncomplete =>
    rw [h.2]
    rfl
  | allocateUniqueName =>
    rw [h.2]
    rfl
  | requestName =>
    rw [h.2]
    rfl
  | releaseName =>
    rw [h.2]
    rfl
  | swapRegistered =>
    rw [h.2]
    rfl
  | removeMatchRules =>
    rw [h.2]
    rfl
  | driverSerial =>
    rw [h.2]
    rfl
  | endIncomplete =>
    rw [h]
    rfl
  | addConnection =>
    rw [h]
    rfl
  | storeMonitor =>
    rw [h]
    rfl
  | setMatchRules =>
    rw [h]
    rfl
  | pushMatchRule =>
    rw [h]
    rfl
  | record =>
    rw [h]
    rfl
  | _ =>
    rw [h.eq_of_not_isUpdate rfl]
    rfl

namespace Daemon

variable {S : Daemon}

/-- **The table is what was added.** -/
theorem Reachable.environment (h : Reachable bus S) :
    S.world.state.activationEnvironment = addedVars S.world.log := by
  induction h with
  | refl => rfl
  | tail _ hs ih =>
    cases hs with
    | accept => exact ih
    | job _ _ hexec =>
      unfold addedVars
      rw [hexec.2, hexec.environment, ih, List.flatMap_cons]
      rfl

end Daemon

/-- What is added is added by an event. -/
theorem mem_addedVars {key value : String} (h : (key, value) ∈ addedVars log) :
    ∃ e ∈ log, ∃ pairs, e.op = .extendEnvironment pairs ∧ (key, value) ∈ pairs := by
  obtain ⟨e, he, hmem⟩ := List.mem_flatMap.mp h
  unfold BusEvent.added at hmem
  split at hmem
  · next pairs hop => exact ⟨e, he, pairs, hop, List.mem_reverse.mp hmem⟩
  · exact absurd hmem List.not_mem_nil

theorem mem_of_valueIn {pairs : List (String × String)} {key value : String}
    (h : ActivationRegistry.valueIn pairs key = some value) : (key, value) ∈ pairs := by
  obtain ⟨pair, hfind, rfl⟩ := Option.map_eq_some_iff.mp h
  have hkey : (pair.1 == key) = true :=
    List.find?_some (p := fun pair : String × String => pair.1 == key) hfind
  rw [← beq_iff_eq.mp hkey]
  exact List.mem_of_find?_eq_some hfind

open ActivationRegistry in
/-- **What a service sees of its environment.** In every run of the daemon, a service that
the daemon starts itself finds for each variable the value in its own service file,
or else the latest one that was added, or else the one of the daemon; and what was
added was asked for, on a session bus, by a call to the driver that had been read
and named the variable with this value. -/
theorem environment_of_service (bus : Bus) (S : Daemon) (h : Daemon.Reachable bus S)
    (registry : ActivationRegistry) (getpwnam : String → Option UInt32) (currentUid : UInt32)
    (name : String) (command : Command) (hspawn : registry.spawn getpwnam currentUid name
      S.world.state.activationEnvironment .direct = .ok command) :
    (∃ service, registry.lookup name = some service ∧ ∀ inherited key,
      command.value inherited key = ((valueIn service.environment key).or
        (valueIn (addedVars S.world.log) key)).or (inherited key)) ∧
    ∀ key value, valueIn (addedVars S.world.log) key = some value → bus.kind = .session ∧
      ∃ (s : BusState) (c : ConnectionEntry) (msg : Message) (pairs : List (String × String)),
        (⟨s, .readMessage c, some msg⟩ : BusEvent) ∈ S.world.log ∧ msg.Adds pairs ∧
          (key, value) ∈ pairs := by
  refine ⟨?_, fun key value hvalue => ?_⟩
  · obtain ⟨service, hservice, rfl, -⟩ := spawn_direct hspawn
    refine ⟨service, hservice, fun inherited key => ?_⟩
    rw [Command.value, h.environment]
  · obtain ⟨e, he, pairs, hop, hpair⟩ := mem_addedVars (mem_of_valueIn hvalue)
    obtain ⟨post, pre, hlog⟩ := List.append_of_mem he
    have hasked := h.asked
    rw [hlog] at hasked
    have hadded : AddedAsked bus pre e := hasked.of_append
    unfold AddedAsked at hadded
    rw [hop] at hadded
    obtain ⟨hkind, s, c, msg, hread, hadds⟩ := hadded
    refine ⟨hkind, s, c, msg, pairs, ?_, hadds, hpair⟩
    rw [hlog]
    exact List.mem_append_right _ (List.mem_cons_of_mem _ hread)

/-- A table of variables, as a value. -/
def varsValue (pairs : List (String × String)) : Value :=
  .array (.dictEntry .string .string) (pairs.map fun pair =>
    .dictEntry (.string pair.1) (.string pair.2))

/-- A client adds a variable, and gives it another value. -/
def environmentScript : List Instruction :=
  [.accept ⟨1000, 1000, 4711⟩, .run 0 8, .receive 0 (frameOf (driverCall "Hello" [] 1)), .run 0 50,
    .receive 0 (frameOf (driverCall "UpdateActivationEnvironment" [varsValue [("LANG", "C")]] 2)),
    .run 0 50,
    .receive 0 (frameOf (driverCall "UpdateActivationEnvironment"
      [varsValue [("DISPLAY", ":0"), ("LANG", "de")]] 3)), .run 0 50]

/-- A service with a variable of its own. -/
def plainRegistry : ActivationRegistry :=
  ActivationRegistry.empty.insert
    ⟨"org.example.Bar", "/bin/bar", ["--arg1"], none, [("DISPLAY", ":1")]⟩

open ActivationRegistry in
/-- **The service sees the latest value of the one variable and its own value of the
other.** -/
theorem environment_of_service_script : ∃ command : Command,
    command.value (fun _ => none) "LANG" = some "de" ∧
    command.value (fun _ => none) "DISPLAY" = some ":1" ∧
    (∃ service, plainRegistry.lookup "org.example.Bar" = some service ∧ ∀ inherited key,
      command.value inherited key = ((valueIn service.environment key).or (valueIn
        (addedVars (Daemon.new.replay plainBus environmentScript).world.log) key)).or
          (inherited key)) := by
  have hcommand : ∃ command, plainRegistry.spawn (fun _ => none) 1000 "org.example.Bar"
      (Daemon.new.replay plainBus environmentScript).world.state.activationEnvironment .direct
      = .ok command ∧ command.value (fun _ => none) "LANG" = some "de" ∧
        command.value (fun _ => none) "DISPLAY" = some ":1" :=
    ⟨_, rfl, by decide +kernel, by decide +kernel⟩
  obtain ⟨command, hspawn, hlang, hdisplay⟩ := hcommand
  exact ⟨command, hlang, hdisplay, (environment_of_service plainBus _
    (Daemon.reachable_replay Daemon.reachable_new environmentScript) plainRegistry _ 1000 _ command
    hspawn).1⟩

end Oxibus
