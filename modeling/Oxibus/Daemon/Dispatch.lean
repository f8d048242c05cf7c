import Oxibus.Daemon.Driver

/-!
# Routing of messages

`dispatchIncoming` is what happens to a message a connection has sent: it is
stamped with its sender, copied to the monitors, and then sent where its
kind and its destination say – to the owner of a name, to everyone whose
match rules ask for it, or to the driver, which answers it.

A write that waits for the socket is one operation here: it happens or it
fails. Copies for monitors are written by tasks of their own, so that
nobody waits for a monitor.
-/

namespace Oxibus

open BusProg

namespace Dispatch

/-! ## Replies of the driver -/

/-- Send a message of the driver, with the next serial number. Nobody asks
whether it arrived. -/
def sendFromDriver (conn : ConnectionEntry) (b : Message.Builder) : BusProg Unit := do
  let serial ← op .driverSerial
  let _ ← op (.write conn (b.build serial))
  return ()

/-- The error the driver replies with. -/
def errorReply (call : Message) (errorName message : String) : Message.Builder :=
  ((Message.replyTo call (some errorName)).sender WellKnown.busName).arg (.string message)

/-- **Reply to a call with an error of the driver**, if it wants a reply. -/
def replyError (sender : ConnectionEntry) (call : Message) (errorName message : String) :
    BusProg Unit :=
  if call.noReplyExpected then return ()
  else sendFromDriver sender (errorReply call errorName message)

/-- The driver's reply to a call. -/
def outcomeReply (msg : Message) (result : DriverResult) : Message.Builder :=
  match result with
  | .ok values => ((Message.replyTo msg none).sender WellKnown.busName).args values
  | .error e => errorReply msg e.name e.message

/-- A signal of the driver. -/
def driverSignal (member : String) : Message.Builder :=
  (Message.Builder.signal WellKnown.busPath WellKnown.busInterface member).sender WellKnown.busName

/-! ## Monitors and broadcasts -/

/-- The copy for one connection, if it is a monitor. -/
def copyToMonitor (msg : Message) (conn : ConnectionEntry) : BusProg Unit := do
  let isMonitor ← op (.isMonitor conn)
  if isMonitor then op (.spawnWrite conn msg) else return ()

/-- **Copy a message to every monitor.** -/
def deliverToMonitors (msg : Message) : BusProg Unit := do
  let conns ← op .allConnections
  Prog.forEach (copyToMonitor msg) conns

/-- Whether one of the rules matches. The owner table is read anew for each
rule. -/
def anyMatches (msg : Message) : List MatchRule → BusProg Bool
  | [] => return false
  | rule :: rules => do
    let owner ← op .ownerLookup
    if rule.matches msg owner then return true else anyMatches msg rules

/-- Whether the policy lets a connection receive a message. -/
def canReceive (bus : Bus) (conn : ConnectionEntry) (msg : Message) : Bool :=
  bus.policy.canReceive (bus.identity conn) msg msg.sender

/-- Whether the policy lets a connection send a message to its
destination. -/
def canSend (bus : Bus) (sender : ConnectionEntry) (msg : Message) : Bool :=
  bus.policy.canSend (bus.identity sender) msg msg.destination

/-- The kernel's answer about a message. -/
def mediates (bus : Bus) (mask : UInt32) (con dstCon : Option String) (msg : Message) : Bool :=
  bus.apparmor.checkPermission mask con dstCon bus.bustype msg.destination
    (msg.path.map ObjectPath.text) msg.interface msg.member

/-- Write a broadcast to a connection and count it. -/
def broadcastWrite (msg : Message) (conn : ConnectionEntry) : BusProg Unit := do
  let _ ← op (.write conn msg)
  op (.record .signal)

/-- The security label of the sender of a message, if it is still there. -/
def senderLabel (msg : Message) : BusProg (Option String) :=
  match msg.sender with
  | some name => do
    let conn ← op (.get name)
    return conn.bind ConnectionEntry.securityLabel
  | none => return none

/-- **The broadcast for one connection**: it is no monitor, a rule of its
asks for the message, and it may receive it. -/
def broadcastTo (bus : Bus) (msg : Message) (enforcePolicy : Bool) (conn : ConnectionEntry) :
    BusProg Unit := do
  let isMonitor ← op (.isMonitor conn)
  if isMonitor then return ()
  else
    let rules ← op (.matchRules conn)
    let matched ← anyMatches msg rules
    if !matched then return ()
    else if !enforcePolicy then broadcastWrite msg conn
    else if !canReceive bus conn msg then return ()
    else
      let label ← senderLabel msg
      if !mediates bus aaDbusReceive conn.securityLabel label msg then return ()
      else broadcastWrite msg conn

/-- **Send a signal to everyone who asks for it.** -/
def broadcastSignal (bus : Bus) (msg : Message) (enforcePolicy : Bool) : BusProg Unit := do
  let conns ← op .allConnections
  Prog.forEach (broadcastTo bus msg enforcePolicy) conns

/-! ## Changes of ownership -/

/-- Tell a connection that it got or lost a name. -/
def sendUnicastDriverSignal (toUniqueName member name : String) : BusProg Unit := do
  match ← op (.get toUniqueName) with
  | some conn =>
    sendFromDriver conn (((driverSignal member).destination toUniqueName).arg (.string name))
  | none => return ()

/-- Tell the connection an owner's name names, if there is an owner. -/
def tellOwner (owner : Option String) (member name : String) : BusProg Unit :=
  match owner with
  | some uniqueName => sendUnicastDriverSignal uniqueName member name
  | none => return ()

/-- **Tell everyone of one change of ownership**, and the old and the new
owner in particular. -/
def broadcastNameOwnerChange (bus : Bus) (change : NameOwnerChange) : BusProg Unit := do
  let serial ← op .driverSerial
  let signal := ((((driverSignal WellKnown.nameOwnerChanged).arg (.string change.name)).arg
    (.string (change.oldOwner.getD ""))).arg (.string (change.newOwner.getD ""))).build serial
  broadcastSignal bus signal false
  tellOwner change.newOwner WellKnown.nameAcquired change.name
  tellOwner change.oldOwner WellKnown.nameLost change.name

def broadcastNameOwnerChanges (bus : Bus) (changes : List NameOwnerChange) : BusProg Unit :=
  Prog.forEach (broadcastNameOwnerChange bus) changes

/-- **Finish a call to the driver**: the changes first, then the reply. -/
def finishDriverReply (bus : Bus) (sender : ConnectionEntry) (msg : Message)
    (outcome : DriverOutcome) : BusProg Unit := do
  broadcastNameOwnerChanges bus outcome.nameOwnerChanges
  if msg.noReplyExpected then return ()
  else sendFromDriver sender (outcomeReply msg outcome.result)

/-! ## Calls to the driver -/

/-- The text of the driver's introspection, element by element. -/
def xmlArg (attributes type : String) : String :=
  "<arg " ++ attributes ++ "type=\"" ++ type ++ "\"/>"

def xmlMethod (name : String) (ins outs : List String) : String :=
  "    <method name=\"" ++ name ++ "\"" ++
    (if ins.isEmpty && outs.isEmpty then "/>\n"
    else ">" ++ String.join (ins.map (xmlArg "direction=\"in\" ")) ++
      String.join (outs.map (xmlArg "direction=\"out\" ")) ++ "</method>\n")

def xmlSignal (name : String) (types : List String) : String :=
  "    <signal name=\"" ++ name ++ "\">" ++ String.join (types.map (xmlArg "")) ++ "</signal>\n"

def xmlInterface (name : String) (members : List String) : String :=
  "  <interface name=\"" ++ name ++ "\">\n" ++ String.join members ++ "  </interface>\n"

def driverIntrospectionXml : String :=
  "<!DOCTYPE node PUBLIC \"-//freedesktop//DTD D-BUS Object Introspection 1.0//EN\"\n" ++
  " \"http://www.freedesktop.org/standards/dbus/1.0/introspect.dtd\">\n" ++ "<node>\n" ++
  xmlInterface WellKnown.busInterface
    [xmlMethod "Hello" [] ["s"],
      xmlMethod "RequestName" ["s", "u"] ["u"],
      xmlMethod "ReleaseName" ["s"] ["u"],
      xmlMethod "ListNames" [] ["as"],
      xmlMethod "ListActivatableNames" [] ["as"],
      xmlMethod "NameHasOwner" ["s"] ["b"],
      xmlMethod "GetNameOwner" ["s"] ["s"],
      xmlMethod "ListQueuedOwners" ["s"] ["as"],
      xmlMethod "StartServiceByName" ["s", "u"] ["u"],
      xmlMethod "AddMatch" ["s"] [],
      xmlMethod "RemoveMatch" ["s"] [],
      xmlMethod "GetConnectionUnixUser" ["s"] ["u"],
      xmlMethod "GetConnectionUnixProcessID" ["s"] ["u"],
      xmlMethod "GetConnectionCredentials" ["s"] ["a\x7bsv\x7d"],
      xmlMethod "GetId" [] ["s"],
      xmlMethod "UpdateActivationEnvironment" ["a\x7bss\x7d"] [],
      xmlSignal WellKnown.nameOwnerChanged ["s", "s", "s"],
      xmlSignal WellKnown.nameLost ["s"],
      xmlSignal WellKnown.nameAcquired ["s"]] ++
  xmlInterface WellKnown.peerInterface
  [xmlMethod "Ping" [] [], xmlMethod "GetMachineId" [] ["s"]] ++
  xmlInterface WellKnown.introspectableInterface [xmlMethod "Introspect" [] ["s"]] ++
  xmlInterface WellKnown.monitoringInterface [xmlMethod "BecomeMonitor" ["as", "u"] []] ++
  xmlInterface WellKnown.statsInterface
    [xmlMethod "GetStats" [] ["a\x7bsv\x7d"],
     xmlMethod "GetConnectionStats" ["s"] ["a\x7bsv\x7d"]] ++
  "</node>\n"

def driverOk (values : List Value) : DriverOutcome := ⟨.ok values, []⟩

def driverErr (name message : String) : DriverOutcome := ⟨.error ⟨name, message⟩, []⟩

/-- A call of a method an interface does not have. -/
def noMethod (interface other : String) : DriverOutcome :=
  driverErr Errors.unknownMethod (interface ++ " has no method \"" ++ other ++ "\"")

/-- The bus in numbers. -/
def getStats : BusProg DriverOutcome := do
  let names ← op .listNames
  let connections ← op .connectionCount
  let stats ← op .stats
  let uptime ← op .uptimeSecs
  return driverOk [Driver.dictOfU32
    [("BusNames", UInt32.ofNat names.length),
      ("ActiveConnections", UInt32.ofNat connections),
      ("MessagesRouted", stats.messagesRouted.toUInt32),
      ("BytesRouted", stats.bytesRouted.toUInt32),
      ("SignalsDelivered", stats.signalsDelivered.toUInt32),
      ("ActivationsStarted", stats.activationsStarted.toUInt32),
      ("PolicyDenials", stats.policyDenials.toUInt32),
      ("UptimeSeconds", uptime.toUInt32)]]

/-- A connection in numbers. -/
def getConnectionStats (args : List Value) : BusProg DriverOutcome :=
  match args.head?.bind Value.asStr with
  | some name => do
    match ← Driver.resolveConnection name with
    | some conn =>
      let rules ← op (.matchRules conn)
      return driverOk [Driver.dictOfU32 [("UnixUserID", conn.credentials.uid),
        ("ProcessID", Driver.pidU32 conn), ("MatchRules", UInt32.ofNat rules.length)]]
    | none =>
      return driverErr Errors.nameHasNoOwner ("Could not get stats for '" ++ name ++
        "': no such name")
  | none => return driverErr Errors.invalidArgs "GetConnectionStats needs a connection name"

/-- The rules a monitor asks for: those of its texts that are rules, or the
rule that matches everything. -/
def monitorRules (args : List Value) : List MatchRule :=
  let texts := match args.head?.map Value.unwrapVariant with
    | some (.array _ elements) => elements.filterMap Value.asStr
    | _ => []
  let parsed := texts.filterMap fun text =>
    match parseMatchRule text with
    | .ok rule => some rule
    | _ => none
  if parsed.isEmpty then [MatchRule.empty ""] else parsed

/-- **A connection becomes a monitor.** -/
def becomeMonitor (sender : ConnectionEntry) (args : List Value) : BusProg DriverOutcome := do
  op (.setMatchRules sender (monitorRules args))
  op (.storeMonitor sender)
  return driverOk []

/-- The interfaces of the driver beside its own. -/
def handleSideInterface (bus : Bus) (sender : ConnectionEntry) (interface : Option String)
    (member : String) (args : List Value) : Option (BusProg DriverOutcome) :=
  if interface = some WellKnown.peerInterface then
    some (pure (if member = "Ping" then driverOk []
      else if member = "GetMachineId" then driverOk [.string bus.guid]
      else noMethod "Peer" member))
  else if interface = some WellKnown.introspectableInterface then
    some (pure (if member = "Introspect" then driverOk [.string driverIntrospectionXml]
      else noMethod "Introspectable" member))
  else if interface = some WellKnown.statsInterface then
    some (if member = "GetStats" then getStats
      else if member = "GetConnectionStats" then getConnectionStats args
      else pure (noMethod "Debug.Stats" member))
  else if interface = some WellKnown.monitoringInterface then
    some (if member = "BecomeMonitor" then becomeMonitor sender args
      else pure (noMethod "Monitoring" member))
  else none

/-- The outcome of a call, by its interface. -/
def driverOutcome (bus : Bus) (sender : ConnectionEntry) (msg : Message) :
    BusProg DriverOutcome :=
  let member := msg.member.getD ""
  match handleSideInterface bus sender msg.interface member msg.body with
  | some outcome => outcome
  | none => Driver.handle bus sender member msg.body

/-- **A call to the driver.** -/
def handleDriverCall (bus : Bus) (sender : ConnectionEntry) (msg : Message) : BusProg Unit := do
  let outcome ← driverOutcome bus sender msg
  finishDriverReply bus sender msg outcome

/-! ## Signals, replies and calls -/

/-- The length of a message's bytes; none if it cannot be encoded. -/
def routedBytes (msg : Message) : ℕ :=
  match msg.toBytes with
  | .ok bytes => bytes.length
  | _ => 0

/-- **A signal.** With a destination it goes to its owner, without one to
everyone who asks for it. -/
def dispatchSignal (bus : Bus) (sender : ConnectionEntry) (msg : Message) : BusProg Unit :=
  if !canSend bus sender msg then op (.record .denial)
  else if !mediates bus aaDbusSend sender.securityLabel none msg then op (.record .denial)
  else
    match msg.destination with
    | some dest => do
      match ← Driver.resolveConnection dest with
      | some conn => broadcastWrite msg conn
      | none => return ()
    | none => broadcastSignal bus msg true

/-- **A reply** goes to whoever it is addressed to. -/
def dispatchReply (msg : Message) : BusProg Unit :=
  match msg.destination with
  | some dest => do
    match ← Driver.resolveConnection dest with
    | some conn =>
      let _ ← op (.write conn msg)
      op (.record (.routed (routedBytes msg)))
    | none => return ()
  | none => return ()

/-- **Deliver a call to the owner of its destination.** -/
def deliverToOwner (bus : Bus) (sender : ConnectionEntry) (msg : Message) (owner : String) :
    BusProg Unit := do
  match ← op (.get owner) with
  | none => replyError sender msg Errors.serviceUnknown "owner vanished"
  | some conn =>
    if !canReceive bus conn msg then
      op (.record .denial)
      replyError sender msg Errors.accessDenied
        "Destination is not allowed to receive this message"
    else if !mediates bus aaDbusReceive conn.securityLabel sender.securityLabel msg then
      op (.record .denial)
      replyError sender msg Errors.accessDenied
        "AppArmor mediation denied recipient from receiving this message"
    else
      let written ← op (.write conn msg)
      if written then op (.record (.routed (routedBytes msg)))
      else replyError sender msg Errors.noReply "destination connection is gone"

/-- A call to a name without an owner: its service is started, if it may
be. -/
def activateAndDeliver (bus : Bus) (sender : ConnectionEntry) (msg : Message) (dest : String) :
    BusProg Unit :=
  if msg.noAutoStart || !bus.activatable.contains dest then
    replyError sender msg Errors.serviceUnknown ("The name " ++ dest ++
      " was not provided by any .service files or activatable connections")
  else do
    match ← Driver.activateAndWait dest with
    | none =>
      match ← op (.getNameOwner dest) with
      | some owner => deliverToOwner bus sender msg owner
      | none => replyError sender msg Errors.serviceUnknown "activation raced with removal"
    | some e => replyError sender msg Errors.spawnExecFailed e.toString

/-- **A method call.** -/
def dispatchMethodCall (bus : Bus) (sender : ConnectionEntry) (msg : Message) : BusProg Unit :=
  match msg.destination with
  | none => replyError sender msg Errors.badAddress "Method call missing DESTINATION"
  | some dest =>
    if dest = WellKnown.busName then handleDriverCall bus sender msg
    else if !canSend bus sender msg then do
      op (.record .denial)
      replyError sender msg Errors.accessDenied
        ("Connection is not allowed to send to \"" ++ dest ++ "\"")
    else do
      let dstConn ← Driver.resolveConnection dest
      if !mediates bus aaDbusSend sender.securityLabel
          (dstConn.bind ConnectionEntry.securityLabel) msg then
        op (.record .denial)
        replyError sender msg Errors.accessDenied
          ("AppArmor mediation denied sending to \"" ++ dest ++ "\"")
      else
        match ← op (.getNameOwner dest) with
        | some owner => deliverToOwner bus sender msg owner
        | none => activateAndDeliver bus sender msg dest

/-! ## Any message -/

/-- The call by which a connection registers. -/
def isHelloCall (msg : Message) : Bool :=
  msg.messageType == .methodCall && msg.destination == some WellKnown.busName &&
    (msg.interface == none || msg.interface == some WellKnown.busInterface) &&
    msg.member == some "Hello"

/-- The message by its kind. -/
def dispatchByType (bus : Bus) (sender : ConnectionEntry) (msg : Message) : BusProg Unit :=
  match msg.messageType with
  | .signal => dispatchSignal bus sender msg
  | .methodCall => dispatchMethodCall bus sender msg
  | .methodReturn => dispatchReply msg
  | .error => dispatchReply msg

/-- A stamped message: a copy for the monitors, then on to where it goes, if
its sender is registered. -/
def dispatchStamped (bus : Bus) (sender : ConnectionEntry) (msg : Message) : BusProg Unit := do
  deliverToMonitors msg
  let isRegistered ← op (.isRegistered sender)
  if !isRegistered && !isHelloCall msg then
    replyError sender msg Errors.accessDenied
      "Client tried to send a message other than Hello without being registered"
  else dispatchByType bus sender msg

/-- **What happens to a message a connection has sent.** -/
def dispatchIncoming (bus : Bus) (sender : ConnectionEntry) (msg : Message) : BusProg Unit :=
  dispatchStamped bus sender (msg.setSender sender.uniqueName)

end Dispatch

end Oxibus
