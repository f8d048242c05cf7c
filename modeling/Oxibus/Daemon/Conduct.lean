import Oxibus.Daemon.System

/-!
# What a dispatch does

The programs that route a message perform only some of the operations of a
job, and they write only two kinds of messages: the stamped message itself,
and messages the driver builds. This is gone through once here, function by
function; what the daemon does to whole runs then follows from the one
statement about `dispatchIncoming`.
-/

namespace Oxibus

open BusProg

/-- **A message the driver builds.** -/
inductive DriverBuilt : Message → Prop where
  /-- The reply to a call: values or an error. -/
  | reply (call : Message) (result : DriverResult) (serial : UInt32) :
    DriverBuilt ((Dispatch.outcomeReply call result).build serial)
  /-- The signal that a name changed its owner. -/
  | changed (change : NameOwnerChange) (serial : UInt32) :
    DriverBuilt (((((Dispatch.driverSignal WellKnown.nameOwnerChanged).arg
      (.string change.name)).arg (.string (change.oldOwner.getD ""))).arg
        (.string (change.newOwner.getD ""))).build serial)
  /-- The signal to the connection that got or lost a name. -/
  | unicast (toUniqueName member name : String) (serial : UInt32) :
    DriverBuilt ((((Dispatch.driverSignal member).destination toUniqueName).arg
      (.string name)).build serial)

/-- **The operations of a dispatch**: those of a connection's life are not
among them, what it writes is as `Q` says, and what it has copied to monitors
as `C` says. -/
def Routine (Q C : ConnectionEntry → Message → Prop) : BusOp → Prop
  | .write c msg => Q c msg
  | .spawnWrite c msg => C c msg
  | .tryBeginIncomplete _ => False
  | .endIncomplete => False
  | .allocateUniqueName => False
  | .addConnection _ => False
  | .removeConnection _ => False
  | .wrapSocket => False
  | .handshake => False
  | .readLabel => False
  | .readMessage _ => False
  | _ => True

variable {bus : Bus} {sender : ConnectionEntry} {msg : Message}

theorem Routine.mono {Q Q' C C' : ConnectionEntry → Message → Prop} (hQ : ∀ c m, Q c m → Q' c m)
    (hC : ∀ c m, C c m → C' c m) {o : BusOp} (ho : Routine Q C o) : Routine Q' C' o := by
  cases o with
  | write c m => exact hQ c m ho
  | spawnWrite c m => exact hC c m ho
  | _ => exact ho

/-- **A request for a name that reaches the registry**: a call of the driver
with arguments for one, which the policy and the kernel permit. -/
structure Requests (bus : Bus) (caller : ConnectionEntry) (msg : Message) (name : String)
    (flags : UInt32) : Prop where
  messageType : msg.messageType = .methodCall
  destination : msg.destination = some WellKnown.busName
  interface : Dispatch.handleSideInterface bus caller msg.interface "RequestName" msg.body = none
  member : msg.member = some "RequestName"
  argName : Driver.argStr msg.body 0 = .ok name
  valid : Driver.validateBusName name false = .ok ()
  argFlags : Driver.argU32 msg.body 1 = .ok flags
  canOwn : bus.policy.canOwn (bus.identity caller) name = true
  mayBind : Driver.mayBind bus caller name = true

/-- **The operations of a dispatch on behalf of a connection**: it touches the
flags and the rules of no other connection, and asks for names and releases
them for nobody else; the names it asks for are as `N` says. -/
def Errand (caller : ConnectionEntry) (N : String → UInt32 → Prop)
    (Q C : ConnectionEntry → Message → Prop) : BusOp → Prop
  | .requestName u name flags => u = caller.uniqueName ∧ N name flags
  | .releaseName u _ => u = caller.uniqueName
  | .storeMonitor c => c = caller
  | .swapRegistered c => c = caller
  | .setMatchRules c _ => c = caller
  | .pushMatchRule c _ => c = caller
  | .removeMatchRules c _ => c = caller
  | o => Routine Q C o

theorem Errand.routine {N : String → UInt32 → Prop} {Q C : ConnectionEntry → Message → Prop}
    {o : BusOp} (ho : Errand sender N Q C o) : Routine Q C o := by
  cases o with
  | requestName => trivial
  | releaseName => trivial
  | storeMonitor => trivial
  | swapRegistered => trivial
  | setMatchRules => trivial
  | pushMatchRule => trivial
  | removeMatchRules => trivial
  | _ => exact ho

theorem Errand.mono {N N' : String → UInt32 → Prop} {Q Q' C C' : ConnectionEntry → Message → Prop}
    (hN : ∀ name flags, N name flags → N' name flags) (hQ : ∀ c m, Q c m → Q' c m)
    (hC : ∀ c m, C c m → C' c m) {o : BusOp} (ho : Errand sender N Q C o) :
    Errand sender N' Q' C' o := by
  cases o with
  | requestName u name flags => exact ⟨ho.1, hN _ _ ho.2⟩
  | write c m => exact hQ c m ho
  | spawnWrite c m => exact hC c m ho
  | _ => exact ho

/-- **The operations of routing**: they look who is there, who owns a name and what
is asked for, have services started, write messages and count them. Nothing
of a connection or of the registry changes. -/
def Routing (Q : ConnectionEntry → Message → Prop) : BusOp → Prop
  | .allConnections => True
  | .get _ => True
  | .getNameOwner _ => True
  | .ownerLookup => True
  | .isMonitor _ => True
  | .matchRules _ => True
  | .driverSerial => True
  | .record _ => True
  | .spawnService _ => True
  | .pollCount => True
  | .write c m => Q c m
  | _ => False

theorem Routing.errand {N : String → UInt32 → Prop} {Q C : ConnectionEntry → Message → Prop}
    {o : BusOp} (ho : Routing Q o) : Errand sender N Q C o := by
  cases o with
  | write c m => exact ho
  | allConnections => trivial
  | get => trivial
  | getNameOwner => trivial
  | ownerLookup => trivial
  | isMonitor => trivial
  | matchRules => trivial
  | driverSerial => trivial
  | record => trivial
  | spawnService => trivial
  | pollCount => trivial
  | _ => exact ho.elim

/-- The operations by which the owner of a name is found, or its service started. -/
def Seeking : BusOp → Prop
  | .get _ => True
  | .getNameOwner _ => True
  | .record _ => True
  | .spawnService _ => True
  | .pollCount => True
  | _ => False

theorem Seeking.routing {Q : ConnectionEntry → Message → Prop} {o : BusOp} (ho : Seeking o) :
    Routing Q o := by
  cases o with
  | get => trivial
  | getNameOwner => trivial
  | record => trivial
  | spawnService => trivial
  | pollCount => trivial
  | _ => exact ho.elim

/-- **The operations by which the driver looks things up**, has services started
and counts. -/
def Looking : BusOp → Prop
  | .get _ => True
  | .getNameOwner _ => True
  | .listNames => True
  | .listQueuedOwners _ => True
  | .namesHeldBy _ => True
  | .connectionCount => True
  | .matchRules _ => True
  | .stats => True
  | .uptimeSecs => True
  | .record _ => True
  | .spawnService _ => True
  | .pollCount => True
  | _ => False

theorem Seeking.looking {o : BusOp} (ho : Seeking o) : Looking o := by
  cases o with
  | get => trivial
  | getNameOwner => trivial
  | record => trivial
  | spawnService => trivial
  | pollCount => trivial
  | _ => exact ho.elim

theorem Looking.errand {N : String → UInt32 → Prop} {Q C : ConnectionEntry → Message → Prop}
    {o : BusOp} (ho : Looking o) : Errand sender N Q C o := by
  cases o with
  | get => trivial
  | getNameOwner => trivial
  | listNames => trivial
  | listQueuedOwners => trivial
  | namesHeldBy => trivial
  | connectionCount => trivial
  | matchRules => trivial
  | stats => trivial
  | uptimeSecs => trivial
  | record => trivial
  | spawnService => trivial
  | pollCount => trivial
  | _ => exact ho.elim

/-! ## The methods of the driver -/

namespace Driver

variable {N : String → UInt32 → Prop} {Q C : ConnectionEntry → Message → Prop} {P : BusOp → Prop}
variable {args : List Value} {name : String}

theorem only_withArgStr {f : String → BusProg DriverOutcome}
    (h : ∀ s, argStr args 0 = .ok s → (f s).Only P) : (withArgStr args f).Only P := by
  unfold withArgStr
  split
  · next s hs => exact h s hs
  · trivial

theorem seeking_waitForOwner (name : String) (polls : ℕ) :
    (waitForOwner name polls).Only Seeking := by
  induction polls with
  | zero => trivial
  | succ polls ih =>
    exact ⟨trivial, fun owner => Prog.only_ite trivial ih⟩

theorem seeking_activateAndWait : (activateAndWait name).Only Seeking := by
  refine ⟨trivial, fun started => ?_⟩
  cases started with
  | some e => trivial
  | none => exact ⟨trivial, fun _ => ⟨trivial, fun polls => seeking_waitForOwner name polls⟩⟩

theorem seeking_resolveConnection : (resolveConnection name).Only Seeking := by
  refine ⟨trivial, fun owner => ?_⟩
  cases owner with
  | some owner => exact ⟨trivial, fun _ => trivial⟩
  | none => trivial

theorem looking_withConnection {f : ConnectionEntry → List Value} :
    (withConnection args f).Only Looking := by
  refine only_withArgStr fun name _ => Prog.only_bind
    (seeking_resolveConnection.mono fun _ => Seeking.looking) fun conn => ?_
  cases conn <;> trivial

theorem looking_handleStartService : (handleStartService bus args).Only Looking := by
  refine only_withArgStr fun name _ => ⟨trivial, fun owner => ?_⟩
  refine Prog.only_ite trivial (Prog.only_ite trivial ?_)
  refine Prog.only_bind
    (seeking_activateAndWait.mono fun _ => Seeking.looking) fun failure => ?_
  cases failure <;> trivial

/-- What a request for a name asks the registry has passed every check. -/
theorem only_handleRequestName (hlook : ∀ o, Looking o → P o)
    (hrequest : ∀ name flags, argStr args 0 = .ok name →
      validateBusName name false = .ok () → argU32 args 1 = .ok flags →
      bus.policy.canOwn (bus.identity sender) name = true → mayBind bus sender name = true →
      P (.requestName sender.uniqueName name flags)) :
    (handleRequestName bus sender args).Only P := by
  have hdenied :
      ∀ outcome, (do op (.record .denial); return outcome : BusProg DriverOutcome).Only P :=
    fun outcome => ⟨hlook _ trivial, fun _ => trivial⟩
  refine only_withArgStr fun name hname => ?_
  split
  · trivial
  · trivial
  · next flags hvalid hflags =>
    refine Prog.only_split (fun _ => hdenied _) fun hown => ?_
    refine Prog.only_split (fun _ => hdenied _) fun hbind => ?_
    have hpassed := hrequest name flags hname hvalid hflags (by simpa using hown)
      (by simpa using hbind)
    exact ⟨hlook _ trivial, fun held => Prog.only_ite trivial ⟨hpassed, fun _ => trivial⟩⟩

theorem only_handleAddMatch (hlook : ∀ o, Looking o → P o)
    (hadd : ∀ rule, P (.pushMatchRule sender rule)) :
    (handleAddMatch bus sender args).Only P := by
  refine only_withArgStr fun text _ => ⟨hlook _ trivial, fun rules => ?_⟩
  refine Prog.only_ite trivial ?_
  split
  · next rule _ => exact ⟨hadd rule, fun _ => trivial⟩
  · trivial
  · trivial

theorem only_handleUpdateActivationEnv (henv : ∀ pairs, P (.extendEnvironment pairs)) :
    (handleUpdateActivationEnv bus args).Only P := by
  refine Prog.only_ite trivial ?_
  split
  · exact ⟨henv _, fun _ => trivial⟩
  · trivial

/-- **What the driver's methods do beside looking**, method by method. -/
theorem only_handle_of (member : String) (hlook : ∀ o, Looking o → P o)
    (hregister : member = "Hello" → P (.swapRegistered sender))
    (hrequest : member = "RequestName" → ∀ name flags,
      argStr args 0 = .ok name → validateBusName name false = .ok () →
      argU32 args 1 = .ok flags → bus.policy.canOwn (bus.identity sender) name = true →
      mayBind bus sender name = true → P (.requestName sender.uniqueName name flags))
    (hrelease : member = "ReleaseName" → ∀ name, P (.releaseName sender.uniqueName name))
    (hadd : member = "AddMatch" → ∀ rule, P (.pushMatchRule sender rule))
    (hremove : member = "RemoveMatch" → ∀ raw, P (.removeMatchRules sender raw))
    (henv : member = "UpdateActivationEnvironment" → ∀ pairs, P (.extendEnvironment pairs)) :
    (handle bus sender member args).Only P := by
  have hlooking : ∀ {p : BusProg DriverOutcome}, p.Only Looking → p.Only P := fun h => h.mono hlook
  have hhas : (handleNameHasOwner args).Only Looking := by
    unfold handleNameHasOwner
    split
    · exact ⟨trivial, fun _ => trivial⟩
    · trivial
  have hget : (handleGetNameOwner args).Only Looking := by
    refine only_withArgStr fun name _ => ⟨trivial, fun owner => ?_⟩
    cases owner <;> trivial
  have hlist : (handleListQueuedOwners args).Only Looking :=
    only_withArgStr fun name _ => ⟨trivial, fun _ => trivial⟩
  have hnames : (do
      let names ← op .listNames
      return ok [stringArray names] [] : BusProg DriverOutcome).Only Looking :=
    ⟨trivial, fun _ => trivial⟩
  refine Prog.only_split (fun hmember => ⟨hregister hmember, fun wasRegistered => ?_⟩) fun _ => ?_
  · cases wasRegistered <;> trivial
  refine Prog.only_split
    (fun hmember => only_handleRequestName hlook (hrequest hmember)) fun _ => ?_
  refine Prog.only_split (fun hmember =>
    only_withArgStr fun name _ => ⟨hrelease hmember name, fun _ => trivial⟩) fun _ => ?_
  refine Prog.only_ite (hlooking hnames) ?_
  refine Prog.only_ite trivial ?_
  refine Prog.only_ite (hlooking hhas) ?_
  refine Prog.only_ite (hlooking hget) ?_
  refine Prog.only_ite (hlooking hlist) ?_
  refine Prog.only_ite (hlooking looking_handleStartService) ?_
  refine Prog.only_split (fun hmember => only_handleAddMatch hlook (hadd hmember)) fun _ => ?_
  refine Prog.only_split (fun hmember =>
    only_withArgStr fun raw _ => ⟨hremove hmember raw, fun removed => ?_⟩) fun _ => ?_
  · cases removed <;> trivial
  refine Prog.only_ite (hlooking looking_withConnection) ?_
  refine Prog.only_ite (hlooking looking_withConnection) ?_
  refine Prog.only_ite (hlooking looking_withConnection) ?_
  refine Prog.only_ite trivial ?_
  refine Prog.only_split (fun hmember => only_handleUpdateActivationEnv (henv hmember)) fun _ => ?_
  exact Prog.only_ite trivial trivial

/-- **The driver's methods write nothing themselves.** -/
theorem only_handle (member : String) (hN : member = "RequestName" → ∀ name flags,
      argStr args 0 = .ok name → validateBusName name false = .ok () →
      argU32 args 1 = .ok flags → bus.policy.canOwn (bus.identity sender) name = true →
      mayBind bus sender name = true → N name flags) :
    (handle bus sender member args).Only (Errand sender N Q C) := by
  refine only_handle_of member (fun _ => Looking.errand) (fun _ => rfl) ?_ (fun _ _ => rfl)
    (fun _ _ => rfl) (fun _ _ => rfl) fun _ _ => trivial
  exact fun hmember name flags hname hvalid hflags hown hbind =>
    ⟨rfl, hN hmember name flags hname hvalid hflags hown hbind⟩

theorem routing_activateAndWait : (activateAndWait name).Only (Routing Q) :=
  seeking_activateAndWait.mono fun _ => Seeking.routing

theorem only_activateAndWait : (activateAndWait name).Only (Errand sender N Q C) :=
  routing_activateAndWait.mono fun _ => Routing.errand

theorem routing_resolveConnection : (resolveConnection name).Only (Routing Q) :=
  seeking_resolveConnection.mono fun _ => Seeking.routing

theorem only_resolveConnection : (resolveConnection name).Only (Errand sender N Q C) :=
  routing_resolveConnection.mono fun _ => Routing.errand

end Driver

/-! ## Routing -/

namespace Dispatch

variable {N : String → UInt32 → Prop} {Q C : ConnectionEntry → Message → Prop}
variable {conn : ConnectionEntry} {args : List Value} {dest : String}

/-- **The operations of telling**: they look who is there and what is asked for,
write messages and count them. -/
def Telling (Q : ConnectionEntry → Message → Prop) : BusOp → Prop
  | .allConnections => True
  | .get _ => True
  | .ownerLookup => True
  | .isMonitor _ => True
  | .matchRules _ => True
  | .driverSerial => True
  | .record _ => True
  | .write c m => Q c m
  | _ => False

theorem Telling.routing {o : BusOp} (ho : Telling Q o) : Routing Q o := by
  cases o with
  | write c m => exact ho
  | allConnections => trivial
  | get => trivial
  | ownerLookup => trivial
  | isMonitor => trivial
  | matchRules => trivial
  | driverSerial => trivial
  | record => trivial
  | _ => exact ho.elim

theorem Telling.errand {o : BusOp} (ho : Telling Q o) : Errand sender N Q C o := ho.routing.errand

/-- **What the driver may write while it serves a connection**: signals to
anybody, and replies to the connection. -/
def DriverFor (caller c : ConnectionEntry) (m : Message) : Prop :=
  DriverBuilt m ∧ (m.messageType = .signal ∨ c = caller)

theorem telling_sendFromDriver {b : Message.Builder} (h : ∀ serial, Q conn (b.build serial)) :
    (sendFromDriver conn b).Only (Telling Q) :=
  ⟨trivial, fun serial => ⟨h serial, fun _ => trivial⟩⟩

theorem telling_replyError (hdriver : ∀ m, DriverBuilt m → m.messageType = .error → Q sender m)
    (call : Message) (errorName message : String) :
    (replyError sender call errorName message).Only (Telling Q) := by
  refine Prog.only_ite trivial (telling_sendFromDriver fun serial => hdriver _ ?_ ?_)
  · exact .reply call (.error ⟨errorName, message⟩) serial
  · show (Message.replyTo call (some errorName)).messageType = .error
    unfold Message.replyTo
    cases call.sender <;> rfl

theorem routing_replyError (herror : ∀ m, DriverBuilt m → m.messageType = .error → Q sender m)
    (call : Message) (errorName message : String) :
    (replyError sender call errorName message).Only (Routing Q) :=
  (telling_replyError herror call errorName message).mono fun _ => Telling.routing

theorem only_replyError (hdriver : ∀ c m, DriverFor sender c m → Q c m) (call : Message)
    (errorName message : String) :
    (replyError sender call errorName message).Only (Errand sender N Q C) :=
  (routing_replyError (fun m hm _ => hdriver sender m ⟨hm, .inr rfl⟩) call errorName
    message).mono fun _ => Routing.errand

/-- The operations of copying: they look, and leave the copies to other
tasks. -/
def Copying : BusOp → Prop
  | .allConnections => True
  | .isMonitor _ => True
  | .spawnWrite _ _ => True
  | _ => False

theorem copying_deliverToMonitors : (deliverToMonitors msg).Only Copying := by
  refine ⟨trivial, fun conns => Prog.only_forEach fun conn _ => ?_⟩
  exact ⟨trivial, fun isMonitor => Prog.only_ite ⟨trivial, fun _ => trivial⟩ trivial⟩

theorem only_deliverToMonitors (hcopy : ∀ c, C c msg) :
    (deliverToMonitors msg).Only (Errand sender N Q C) := by
  refine ⟨trivial, fun conns => Prog.only_forEach fun conn _ => ?_⟩
  refine ⟨trivial, fun isMonitor => Prog.only_ite ⟨hcopy conn, fun _ => trivial⟩ trivial⟩

theorem telling_anyMatches (rules : List MatchRule) : (anyMatches msg rules).Only (Telling Q) := by
  induction rules with
  | nil => trivial
  | cons rule rules ih => exact ⟨trivial, fun owner => Prog.only_ite trivial ih⟩

theorem telling_broadcastWrite (hmsg : Q conn msg) : (broadcastWrite msg conn).Only (Telling Q) :=
  ⟨hmsg, fun _ => ⟨trivial, fun _ => trivial⟩⟩

theorem telling_senderLabel : (senderLabel msg).Only (Telling Q) := by
  unfold senderLabel
  split
  · exact ⟨trivial, fun _ => trivial⟩
  · trivial

/-- A broadcast is written to a connection if it may receive it, or the policy is
not enforced. -/
theorem telling_broadcastTo (enforcePolicy : Bool)
    (hmsg : (enforcePolicy = true → canReceive bus conn msg = true) → Q conn msg) :
    (broadcastTo bus msg enforcePolicy conn).Only (Telling Q) := by
  refine Prog.only_perform_bind trivial fun isMonitor => Prog.only_ite trivial ?_
  refine Prog.only_perform_bind trivial fun rules => ?_
  refine Prog.only_bind (telling_anyMatches rules) fun matched => Prog.only_ite trivial ?_
  refine Prog.only_split (fun henforce => telling_broadcastWrite (hmsg ?_)) fun _ => ?_
  · intro h
    simp [h] at henforce
  refine Prog.only_split (fun _ => trivial) fun hreceive => ?_
  have hreceive : canReceive bus conn msg = true := by simpa using hreceive
  refine Prog.only_bind telling_senderLabel fun label => Prog.only_ite trivial ?_
  exact telling_broadcastWrite (hmsg fun _ => hreceive)

theorem telling_broadcastSignal (enforcePolicy : Bool)
    (hmsg : ∀ c, (enforcePolicy = true → canReceive bus c msg = true) → Q c msg) :
    (broadcastSignal bus msg enforcePolicy).Only (Telling Q) :=
  ⟨trivial, fun _ => Prog.only_forEach fun conn _ => telling_broadcastTo enforcePolicy (hmsg conn)⟩

/-! ### Changes of ownership -/

theorem telling_tellOwner {name : String}
    (hunicast : ∀ c u member serial, Q c ((((driverSignal member).destination u).arg
      (.string name)).build serial)) (owner : Option String) (member : String) :
    (tellOwner owner member name).Only (Telling Q) := by
  cases owner with
  | none => trivial
  | some uniqueName =>
    refine ⟨trivial, fun conn => ?_⟩
    cases conn with
    | none => trivial
    | some conn => exact telling_sendFromDriver fun serial => hunicast _ _ _ serial

/-- One change of ownership is told by the signal about it, and by signals to the
owners. -/
theorem telling_broadcastNameOwnerChange {change : NameOwnerChange}
    (hchanged : ∀ c serial, Q c (((((driverSignal WellKnown.nameOwnerChanged).arg
      (.string change.name)).arg (.string (change.oldOwner.getD ""))).arg
        (.string (change.newOwner.getD ""))).build serial))
    (hunicast : ∀ c u member serial, Q c ((((driverSignal member).destination u).arg
      (.string change.name)).build serial)) :
    (broadcastNameOwnerChange bus change).Only (Telling Q) := by
  refine Prog.only_perform_bind trivial fun serial => ?_
  refine Prog.only_bind (telling_broadcastSignal _ fun c _ => hchanged c serial) fun _ => ?_
  exact Prog.only_bind (telling_tellOwner hunicast _ _) fun _ => telling_tellOwner hunicast _ _

/-- **A change of ownership is told by signals.** -/
theorem telling_broadcastNameOwnerChanges
    (hdriver : ∀ c m, DriverBuilt m → m.messageType = .signal → Q c m)
    (changes : List NameOwnerChange) :
    (broadcastNameOwnerChanges bus changes).Only (Telling Q) :=
  Prog.only_forEach fun change _ => telling_broadcastNameOwnerChange
    (fun c serial => hdriver c _ (.changed change serial) rfl)
    fun c _ _ serial => hdriver c _ (.unicast _ _ _ serial) rfl

theorem only_finishDriverReply (hdriver : ∀ c m, DriverFor sender c m → Q c m)
    (outcome : DriverOutcome) :
    (finishDriverReply bus sender msg outcome).Only (Errand sender N Q C) := by
  refine Prog.only_bind ((telling_broadcastNameOwnerChanges
    (fun c m hm hsignal => hdriver c m ⟨hm, .inl hsignal⟩) _).mono fun _ => Telling.errand)
      fun _ => Prog.only_ite trivial ?_
  refine (telling_sendFromDriver fun serial => hdriver _ _ ⟨?_, .inr rfl⟩).mono
    fun _ => Telling.errand
  exact .reply msg outcome.result serial

/-! ### Calls to the driver -/

theorem looking_getConnectionStats : (getConnectionStats args).Only Looking := by
  unfold getConnectionStats
  split
  · refine Prog.only_bind
      (Driver.seeking_resolveConnection.mono fun _ => Seeking.looking) fun conn => ?_
    cases conn with
    | some conn => exact ⟨trivial, fun _ => trivial⟩
    | none => trivial
  · trivial

/-- **What the interfaces beside the driver's own do beside looking**: one method
makes the sender a monitor. -/
theorem only_handleSideInterface_of {P : BusOp → Prop} {interface : Option String}
    {member : String} {outcome : BusProg DriverOutcome} (hlook : ∀ o, Looking o → P o)
    (hmonitor : interface = some WellKnown.monitoringInterface → member = "BecomeMonitor" →
      P (.setMatchRules sender (monitorRules args)) ∧ P (.storeMonitor sender))
    (h : handleSideInterface bus sender interface member args = some outcome) :
    outcome.Only P := by
  unfold handleSideInterface at h
  split at h
  · rw [← Option.some.inj h]
    trivial
  split at h
  · rw [← Option.some.inj h]
    trivial
  split at h
  · rw [← Option.some.inj h]
    have hstats : getStats.Only Looking :=
      ⟨trivial, fun _ => ⟨trivial, fun _ => ⟨trivial, fun _ => ⟨trivial, fun _ => trivial⟩⟩⟩⟩
    exact Prog.only_ite (hstats.mono hlook)
      (Prog.only_ite (looking_getConnectionStats.mono hlook) trivial)
  split at h
  · next hinterface =>
    rw [← Option.some.inj h]
    refine Prog.only_split (fun hmember => ?_) fun _ => trivial
    obtain ⟨hrules, hflag⟩ := hmonitor hinterface hmember
    exact ⟨hrules, fun _ => ⟨hflag, fun _ => trivial⟩⟩
  · cases h

theorem only_handleSideInterface {interface : Option String} {member : String}
    {outcome : BusProg DriverOutcome}
    (h : handleSideInterface bus sender interface member args = some outcome) :
    outcome.Only (Errand sender N Q C) :=
  only_handleSideInterface_of (fun _ => Looking.errand) (fun _ _ => ⟨rfl, rfl⟩) h

theorem only_handleDriverCall (htype : msg.messageType = .methodCall)
    (hdest : msg.destination = some WellKnown.busName)
    (hdriver : ∀ c m, DriverFor sender c m → Q c m)
    (hN : ∀ name flags, Requests bus sender msg name flags → N name flags) :
    (handleDriverCall bus sender msg).Only (Errand sender N Q C) := by
  refine Prog.only_bind ?_ fun outcome => only_finishDriverReply hdriver outcome
  unfold driverOutcome
  dsimp only
  split
  · next outcome h => exact only_handleSideInterface h
  · next hside =>
    refine Driver.only_handle _ fun hmember name flags hname hvalid hflags hown hbind => ?_
    have hsome : msg.member = some "RequestName" := by
      cases h : msg.member with
      | none =>
        rw [h] at hmember
        exact absurd hmember (by decide)
      | some member =>
        rw [h] at hmember
        exact congrArg some hmember
    rw [hmember] at hside
    exact hN name flags ⟨htype, hdest, hside, hsome, hname, hvalid, hflags, hown, hbind⟩

/-! ### Signals, replies and calls -/

/-- A signal is written when its sender may send it; without a destination, it
is written to those who may receive it. -/
theorem routing_dispatchSignal (hmsg : ∀ c, canSend bus sender msg = true →
    (msg.destination = none → canReceive bus c msg = true) → Q c msg) :
    (dispatchSignal bus sender msg).Only (Routing Q) := by
  refine Prog.only_split (fun _ => ⟨trivial, fun _ => trivial⟩) fun hsend => ?_
  have hsend : canSend bus sender msg = true := by simpa using hsend
  refine Prog.only_ite ⟨trivial, fun _ => trivial⟩ ?_
  split
  · next dest hdest =>
    refine Prog.only_bind Driver.routing_resolveConnection fun conn => ?_
    cases conn with
    | some conn =>
      exact (telling_broadcastWrite (hmsg conn hsend (by simp [hdest]))).mono
        fun _ => Telling.routing
    | none => trivial
  · exact (telling_broadcastSignal true fun c hreceive => hmsg c hsend fun _ =>
      hreceive rfl).mono fun _ => Telling.routing

theorem only_dispatchSignal (hmsg : ∀ c, canSend bus sender msg = true →
    (msg.destination = none → canReceive bus c msg = true) → Q c msg) :
    (dispatchSignal bus sender msg).Only (Errand sender N Q C) :=
  (routing_dispatchSignal hmsg).mono fun _ => Routing.errand

theorem routing_dispatchReply (hmsg : ∀ c, Q c msg) : (dispatchReply msg).Only (Routing Q) := by
  unfold dispatchReply
  split
  · refine Prog.only_bind Driver.routing_resolveConnection fun conn => ?_
    cases conn with
    | some conn => exact ⟨hmsg conn, fun _ => ⟨trivial, fun _ => trivial⟩⟩
    | none => trivial
  · trivial

theorem only_dispatchReply (hmsg : ∀ c, Q c msg) :
    (dispatchReply msg).Only (Errand sender N Q C) :=
  (routing_dispatchReply hmsg).mono fun _ => Routing.errand

/-- A call is delivered to an owner who may receive it. -/
theorem telling_deliverToOwner (herror : ∀ m, DriverBuilt m → m.messageType = .error → Q sender m)
    (hmsg : ∀ c, canReceive bus c msg = true → Q c msg) (owner : String) :
    (deliverToOwner bus sender msg owner).Only (Telling Q) := by
  refine ⟨trivial, fun conn => ?_⟩
  cases conn with
  | none => exact telling_replyError herror _ _ _
  | some conn =>
    refine Prog.only_split (fun _ => ⟨trivial, fun _ => telling_replyError herror _ _ _⟩)
      fun hreceive => ?_
    have hreceive : canReceive bus conn msg = true := by simpa using hreceive
    refine Prog.only_ite ⟨trivial, fun _ => telling_replyError herror _ _ _⟩ ?_
    refine ⟨hmsg conn hreceive, fun written => Prog.only_ite ⟨trivial, fun _ => trivial⟩ ?_⟩
    exact telling_replyError herror _ _ _

theorem routing_deliverToOwner (herror : ∀ m, DriverBuilt m → m.messageType = .error → Q sender m)
    (hmsg : ∀ c, canReceive bus c msg = true → Q c msg) (owner : String) :
    (deliverToOwner bus sender msg owner).Only (Routing Q) :=
  (telling_deliverToOwner herror hmsg owner).mono fun _ => Telling.routing

theorem routing_activateAndDeliver
    (herror : ∀ m, DriverBuilt m → m.messageType = .error → Q sender m)
    (hmsg : ∀ c, canReceive bus c msg = true → Q c msg) :
    (activateAndDeliver bus sender msg dest).Only (Routing Q) := by
  refine Prog.only_ite (routing_replyError herror _ _ _) ?_
  refine Prog.only_bind Driver.routing_activateAndWait fun failure => ?_
  cases failure with
  | some e => exact routing_replyError herror _ _ _
  | none =>
    refine ⟨trivial, fun owner => ?_⟩
    cases owner with
    | some owner => exact routing_deliverToOwner herror hmsg owner
    | none => exact routing_replyError herror _ _ _

/-- A call that is none of the driver's is delivered when its sender may send it,
to an owner who may receive it. -/
theorem routing_dispatchMethodCall (hdest : msg.destination ≠ some WellKnown.busName)
    (herror : ∀ m, DriverBuilt m → m.messageType = .error → Q sender m)
    (hmsg : ∀ c, canSend bus sender msg = true → canReceive bus c msg = true → Q c msg) :
    (dispatchMethodCall bus sender msg).Only (Routing Q) := by
  unfold dispatchMethodCall
  split
  · exact routing_replyError herror _ _ _
  · next dest hsome =>
    refine Prog.only_split (fun hbus => absurd (hbus ▸ hsome) hdest) fun _ => ?_
    refine Prog.only_split (fun _ => ⟨trivial, fun _ => routing_replyError herror _ _ _⟩)
      fun hsend => ?_
    have hmsg := fun c => hmsg c (by simpa using hsend)
    refine Prog.only_bind Driver.routing_resolveConnection fun dstConn => ?_
    refine Prog.only_ite ⟨trivial, fun _ => routing_replyError herror _ _ _⟩ ?_
    refine ⟨trivial, fun owner => ?_⟩
    cases owner with
    | some owner => exact routing_deliverToOwner herror hmsg owner
    | none => exact routing_activateAndDeliver herror hmsg

theorem dispatchMethodCall_driver (hdest : msg.destination = some WellKnown.busName) :
    dispatchMethodCall bus sender msg = handleDriverCall bus sender msg := by
  unfold dispatchMethodCall
  rw [hdest]
  exact if_pos rfl

/-- A call is for the driver, or it is delivered. -/
theorem only_dispatchMethodCall (htype : msg.messageType = .methodCall)
    (hN : ∀ name flags, Requests bus sender msg name flags → N name flags)
    (hdriver : ∀ c m, DriverFor sender c m → Q c m)
    (hmsg : ∀ c, canSend bus sender msg = true → canReceive bus c msg = true → Q c msg) :
    (dispatchMethodCall bus sender msg).Only (Errand sender N Q C) := by
  by_cases hdest : msg.destination = some WellKnown.busName
  · rw [dispatchMethodCall_driver hdest]
    exact only_handleDriverCall htype hdest hdriver hN
  · refine (routing_dispatchMethodCall hdest (fun m hm _ => ?_) hmsg).mono fun _ => Routing.errand
    exact hdriver sender m ⟨hm, .inr rfl⟩

theorem messageType_of_isHelloCall (h : isHelloCall msg = true) :
    msg.messageType = .methodCall := by
  unfold isHelloCall at h
  simp only [Bool.and_eq_true, beq_iff_eq] at h
  exact h.1.1.1

theorem destination_of_isHelloCall (h : isHelloCall msg = true) :
    msg.destination = some WellKnown.busName := by
  unfold isHelloCall at h
  simp only [Bool.and_eq_true, beq_iff_eq] at h
  exact h.1.1.2

theorem member_of_isHelloCall (h : isHelloCall msg = true) : msg.member = some "Hello" := by
  unfold isHelloCall at h
  simp only [Bool.and_eq_true, beq_iff_eq] at h
  exact h.2

theorem isHelloCall_setSender (m : Message) (u : String) :
    isHelloCall (m.setSender u) = isHelloCall m := by
  unfold isHelloCall
  rw [m.destination_setSender, m.interface_setSender, m.member_setSender]
  rfl

/-- A stamped message past the gate, whatever its kind. -/
theorem only_dispatchByType
    (hN : ∀ name flags, Requests bus sender msg name flags → N name flags)
    (hdriver : ∀ c m, DriverFor sender c m → Q c m) (hmsg : ∀ c, Q c msg) :
    (dispatchByType bus sender msg).Only (Errand sender N Q C) := by
  unfold dispatchByType
  split
  · exact only_dispatchSignal fun c _ _ => hmsg c
  · next htype => exact only_dispatchMethodCall htype hN hdriver fun c _ _ => hmsg c
  · exact only_dispatchReply hmsg
  · exact only_dispatchReply hmsg

/-- **A dispatch writes the stamped message and messages of the driver, and
nothing else.** -/
theorem only_dispatchIncoming
    (hN : ∀ name flags, Requests bus sender (msg.setSender sender.uniqueName) name flags →
      N name flags)
    (hdriver : ∀ c m, DriverFor sender c m → Q c m)
    (hmsg : ∀ c, Q c (msg.setSender sender.uniqueName))
    (hcopy : ∀ c, C c (msg.setSender sender.uniqueName)) :
    (dispatchIncoming bus sender msg).Only (Errand sender N Q C) := by
  exact Prog.only_bind (only_deliverToMonitors hcopy) fun _ => ⟨trivial, fun isRegistered =>
    Prog.only_ite (only_replyError hdriver _ _ _) (only_dispatchByType hN hdriver hmsg)⟩

theorem routine_dispatchIncoming (hdriver : ∀ c m, DriverBuilt m → Q c m)
    (hmsg : ∀ c, Q c (msg.setSender sender.uniqueName))
    (hcopy : ∀ c, C c (msg.setSender sender.uniqueName)) :
    (dispatchIncoming bus sender msg).Only (Routine Q C) := by
  have herrand : (dispatchIncoming bus sender msg).Only (Errand sender (fun _ _ => True) Q C) :=
    only_dispatchIncoming (fun _ _ _ => trivial) (fun c m hm => hdriver c m hm.1) hmsg hcopy
  exact herrand.mono fun _ => Errand.routine

end Dispatch

/-! ## Whole runs -/

/-- **A message that a connection has sent**, as it is routed: read from a
frame of the connection, and stamped with its name. -/
def Routed (log : List BusEvent) (msg : Message) : Prop :=
  ∃ (c : ConnectionEntry) (m : Message) (s : BusState),
    (⟨s, .readMessage c, some m⟩ : BusEvent) ∈ log ∧
    (∃ buf fds, Message.fromBytes buf fds = .ok m) ∧ msg = m.setSender c.uniqueName

/-- **A message the daemon may write**: one that a connection has sent, or one
of its own. -/
def Genuine (log : List BusEvent) (msg : Message) : Prop := Routed log msg ∨ DriverBuilt msg

theorem Genuine.cons {log : List BusEvent} {msg : Message} (h : Genuine log msg) (e : BusEvent) :
    Genuine (e :: log) msg := by
  rcases h with ⟨c, m, s, hread, hbuf, rfl⟩ | h
  · exact Or.inl ⟨c, m, s, List.mem_cons_of_mem _ hread, hbuf, rfl⟩
  · exact Or.inr h

/-- The operations of a dispatch that writes what is genuine. -/
def GenuineRoutine (log : List BusEvent) : BusOp → Prop :=
  Routine (fun _ => Genuine log) fun _ => Genuine log

/-- What a job still writes is genuine, and it keeps to the operations of a
dispatch while it dispatches. -/
def Job.Conducts (w : World) : Job → Prop
  | serving _ p => p.Only (GenuineRoutine w.log)
  | announcing p => p.Only (GenuineRoutine w.log)
  | copying _ msg => Genuine w.log msg
  | _ => True

/-- What is written is genuine. -/
def WritesGenuine (log : List BusEvent) (e : BusEvent) : Prop :=
  match e.op with
  | .write _ msg => Genuine log msg
  | _ => True

/-- What is genuine stays so. -/
theorem World.Exec.genuine {o : BusOp} {r : o.Res} {w w' : World} (hexec : World.Exec o w r w')
    {msg : Message} (h : Genuine w.log msg) : Genuine w'.log msg := by
  rw [hexec.2]
  exact h.cons _

theorem World.Exec.genuineRoutine {o o' : BusOp} {r : o.Res} {w w' : World}
    (hexec : World.Exec o w r w') (h : GenuineRoutine w.log o') : GenuineRoutine w'.log o' :=
  h.mono (fun _ _ => hexec.genuine) fun _ _ => hexec.genuine

theorem Job.Conducts.stable {j : Job} {o : BusOp} {r : o.Res} {w w' : World}
    (h : j.Conducts w) (hexec : World.Exec o w r w') : j.Conducts w' := by
  cases j with
  | serving c p => exact Prog.Only.mono h fun _ => hexec.genuineRoutine
  | announcing p => exact Prog.Only.mono h fun _ => hexec.genuineRoutine
  | copying c msg => exact hexec.genuine h
  | _ => trivial

/-- A dispatch performs its next operation. -/
theorem conducts_call {o : BusOp} {k : o.Res → BusProg Unit} {r : o.Res} {w w' : World}
    (h : (Prog.call o k).Only (GenuineRoutine w.log)) (hexec : World.Exec o w r w') :
    WritesGenuine w.log ⟨w.state, o, r⟩ ∧ (k r).Only (GenuineRoutine w'.log) ∧
      ∀ j ∈ o.spawned, j.Conducts w' := by
  refine ⟨?_, (h.2 r).mono fun _ => hexec.genuineRoutine, ?_⟩
  · cases o with
    | write c msg => exact h.1
    | _ => trivial
  · intro j hj
    cases o with
    | spawnWrite c msg =>
      rw [List.mem_singleton.mp hj]
      exact hexec.genuine h.1
    | _ => exact absurd hj List.not_mem_nil

theorem conducts_step {j j' : Job} {o : BusOp} {r : o.Res} {w w' : World} (h : j.Conducts w)
    (hstep : JobStep bus j o r j') (hexec : World.Exec o w r w') :
    WritesGenuine w.log ⟨w.state, o, r⟩ ∧ j'.Conducts w' ∧ ∀ j ∈ o.spawned, j.Conducts w' := by
  have hnone : ∀ j ∈ ([] : List Job), j.Conducts w' := fun _ hj => absurd hj List.not_mem_nil
  cases hstep with
  | dispatch => exact conducts_call h hexec
  | announce => exact conducts_call h hexec
  | copy => exact ⟨h, trivial, hnone⟩
  | @read c msg =>
    refine ⟨trivial, ?_, hnone⟩
    have hrouted : Genuine w'.log (msg.setSender c.uniqueName) := by
      refine Or.inl ⟨c, msg, w.state, ?_, hexec.1.1 msg rfl, rfl⟩
      rw [hexec.2]
      exact List.mem_cons_self
    exact Dispatch.routine_dispatchIncoming (fun _ _ => Or.inr) (fun _ => hrouted)
      fun _ => hrouted
  | @remove c events =>
    refine ⟨trivial, ?_, hnone⟩
    have htelling : (Dispatch.broadcastNameOwnerChanges bus events).Only
        (Dispatch.Telling fun _ => Genuine w'.log) :=
      Dispatch.telling_broadcastNameOwnerChanges (fun _ _ hm _ => Or.inr hm) events
    exact htelling.mono fun _ ho => (ho.errand : Errand c (fun _ _ => True) _ _ _).routine
  | _ => exact ⟨trivial, trivial, hnone⟩

/-- **In every run, everything the daemon writes is genuine.** -/
theorem Daemon.Reachable.conducts {S : Daemon} (h : Daemon.Reachable bus S) :
    Daemon.Logged WritesGenuine S.world.log ∧ ∀ j ∈ S.jobs, j.Conducts S.world :=
  h.guarantee (fun _ _ => trivial) conducts_step Job.Conducts.stable

end Oxibus
