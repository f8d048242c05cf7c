import Oxibus.Daemon.Bus

/-!
# The methods of the bus driver

`org.freedesktop.DBus` answers method calls itself. A method is a program
that returns an outcome: values or an error for the caller, and the changes
of ownership that everybody is to hear of.
-/

namespace Oxibus

open BusProg

/-- An error the driver replies with. -/
structure DriverError where
  name : String
  message : String
  deriving DecidableEq, Repr

/-- An error, or values for the reply. -/
abbrev DriverResult : Type := Except DriverError (List Value)

/-- **The outcome of a call to the driver.** -/
structure DriverOutcome where
  result : DriverResult
  nameOwnerChanges : List NameOwnerChange

namespace Driver

def ok (values : List Value) (changes : List NameOwnerChange) : DriverOutcome :=
  ⟨.ok values, changes⟩

def err (e : DriverError) : DriverOutcome := ⟨.error e, []⟩

def invalidArgs (msg : String) : DriverError := ⟨Errors.invalidArgs, msg⟩

/-! ## Arguments -/

def argStr (args : List Value) (idx : ℕ) : Except DriverError String :=
  match args[idx]?.bind fun v => v.unwrapVariant.asStr with
  | some s => .ok s
  | none => .error (invalidArgs ("expected string argument " ++ toString idx))

def argU32 (args : List Value) (idx : ℕ) : Except DriverError UInt32 :=
  match args[idx]?.map Value.unwrapVariant with
  | some (.uint32 v) => .ok v
  | _ => .error (invalidArgs ("expected uint32 argument " ++ toString idx))

def validateBusName (name : String) (allowUnique : Bool) : Except DriverError Unit :=
  let valid := if startsWithColon name then allowUnique && isValidBusName name
    else isValidBusName name
  if valid then .ok () else .error (invalidArgs ("invalid bus name '" ++ name ++ "'"))

def stringArray (items : List String) : Value := .array .string (items.map .string)

/-- A method with a string argument, which must be there. -/
def withArgStr (args : List Value) (f : String → BusProg DriverOutcome) : BusProg DriverOutcome :=
  match argStr args 0 with
  | .ok s => f s
  | .error e => pure (err e)

/-! ## Names -/

def handleHello (caller : ConnectionEntry) : BusProg DriverOutcome := do
  let wasRegistered ← op (.swapRegistered caller)
  if wasRegistered then
    return err ⟨Errors.failed, "Already handled an Hello message"⟩
  else
    return ok [.string caller.uniqueName]
      [⟨caller.uniqueName, none, some caller.uniqueName⟩]

/-- Whether the kernel lets a connection own a name. -/
def mayBind (bus : Bus) (caller : ConnectionEntry) (name : String) : Bool :=
  bus.apparmor.checkPermission aaDbusBind caller.securityLabel none bus.bustype (some name) none
    none none

/-- A request for a name, past the checks of its arguments. -/
def requestChecked (bus : Bus) (caller : ConnectionEntry) (name : String) (flags : UInt32) :
    BusProg DriverOutcome := do
  if !bus.policy.canOwn (bus.identity caller) name then
    op (.record .denial)
    return err ⟨Errors.accessDenied,
      "Connection is not allowed to own the name \"" ++ name ++ "\""⟩
  else if !mayBind bus caller name then
    op (.record .denial)
    return err ⟨Errors.accessDenied,
      "AppArmor mediation denied owning the name \"" ++ name ++ "\""⟩
  else
    let held ← op (.namesHeldBy caller.uniqueName)
    if bus.limits.maxNamesPerConnection ≤ held then
      return err ⟨Errors.limitsExceeded, "Connection has reached the maximum of " ++
        toString bus.limits.maxNamesPerConnection ++ " owned/queued names"⟩
    else
      let (code, changes) ← op (.requestName caller.uniqueName name flags)
      return ok [.uint32 code] changes

def handleRequestName (bus : Bus) (caller : ConnectionEntry) (args : List Value) :
    BusProg DriverOutcome :=
  withArgStr args fun name =>
    match validateBusName name false, argU32 args 1 with
    | .error e, _ => pure (err e)
    | .ok (), .error e => pure (err e)
    | .ok (), .ok flags => requestChecked bus caller name flags

def handleReleaseName (caller : ConnectionEntry) (args : List Value) : BusProg DriverOutcome :=
  withArgStr args fun name => do
    let (code, changes) ← op (.releaseName caller.uniqueName name)
    return ok [.uint32 code] changes

def handleNameHasOwner (args : List Value) : BusProg DriverOutcome :=
  match args.head?.bind Value.asStr with
  | some name => do
    let owner ← op (.getNameOwner name)
    return ok [.boolean owner.isSome] []
  | none => pure (err (invalidArgs "NameHasOwner needs a name"))

def handleGetNameOwner (args : List Value) : BusProg DriverOutcome :=
  withArgStr args fun name => do
    match ← op (.getNameOwner name) with
    | some owner => return ok [.string owner] []
    | none => return err ⟨Errors.nameHasNoOwner,
        "Could not get owner of name '" ++ name ++ "': no such name"⟩

def handleListQueuedOwners (args : List Value) : BusProg DriverOutcome :=
  withArgStr args fun name => do
    let owners ← op (.listQueuedOwners name)
    return ok [stringArray owners] []

/-! ## Activation -/

/-- Look for an owner of a name again and again; the fuel is the number of
looks before the deadline. -/
def waitForOwner (name : String) : ℕ → BusProg (Option ActivationError)
  | 0 => return some (.timedOut name)
  | polls + 1 => do
    let owner ← op (.getNameOwner name)
    if owner.isSome then return none else waitForOwner name polls

/-- **Start the service of a name and wait for it to own the name.** -/
def activateAndWait (name : String) : BusProg (Option ActivationError) := do
  match ← op (.spawnService name) with
  | some e => return some e
  | none =>
    op (.record .activation)
    let polls ← op .pollCount
    waitForOwner name polls

def startReplySuccess : UInt32 := 1

def startReplyAlreadyRunning : UInt32 := 2

def handleStartService (bus : Bus) (args : List Value) : BusProg DriverOutcome :=
  withArgStr args fun name => do
    let owner ← op (.getNameOwner name)
    if owner.isSome then return ok [.uint32 startReplyAlreadyRunning] []
    else if !bus.activatable.contains name then
      return err ⟨Errors.serviceUnknown,
        "The name " ++ name ++ " was not provided by any .service files"⟩
    else
      match ← activateAndWait name with
      | none => return ok [.uint32 startReplySuccess] []
      | some e => return err ⟨Errors.spawnExecFailed, e.toString⟩

/-! ## Match rules -/

def handleAddMatch (bus : Bus) (caller : ConnectionEntry) (args : List Value) :
    BusProg DriverOutcome :=
  withArgStr args fun rule => do
    let rules ← op (.matchRules caller)
    if bus.limits.maxMatchRulesPerConnection ≤ rules.length then
      return err ⟨Errors.limitsExceeded, "Connection has reached the maximum of " ++
        toString bus.limits.maxMatchRulesPerConnection ++ " match rules"⟩
    else
      match parseMatchRule rule with
      | .ok rule =>
        op (.pushMatchRule caller rule)
        return ok [] []
      | .err msg => return err ⟨Errors.matchRuleInvalid, msg⟩
      | _ => return err ⟨Errors.matchRuleInvalid, ""⟩

def handleRemoveMatch (caller : ConnectionEntry) (args : List Value) : BusProg DriverOutcome :=
  withArgStr args fun rule => do
    let removed ← op (.removeMatchRules caller rule)
    if removed then return ok [] []
    else return err ⟨Errors.matchRuleNotFound,
      "The given match rule wasn't found and can't be removed"⟩

/-! ## Credentials -/

/-- A connection by one of its names. -/
def resolveConnection (name : String) : BusProg (Option ConnectionEntry) := do
  match ← op (.getNameOwner name) with
  | some owner => op (.get owner)
  | none => return none

def nameHasNoOwner (name : String) : DriverOutcome :=
  err ⟨Errors.nameHasNoOwner, "Could not get UID of name '" ++ name ++ "': no such name"⟩

/-- A dictionary of numbers. -/
def dictOfU32 (entries : List (String × UInt32)) : Value :=
  .array (.dictEntry .string .variant)
    (entries.map fun e => .dictEntry (.string e.1) (.variant (.uint32 e.2)))

/-- A process id, zero if it is not one. -/
def pidU32 (c : ConnectionEntry) : UInt32 := UInt32.ofNat c.credentials.pid.toInt.toNat

/-- A method about a connection. -/
def withConnection (args : List Value) (f : ConnectionEntry → List Value) :
    BusProg DriverOutcome :=
  withArgStr args fun name => do
    match ← resolveConnection name with
    | some c => return ok (f c) []
    | none => return nameHasNoOwner name

def handleGetConnUid (args : List Value) : BusProg DriverOutcome :=
  withConnection args fun c => [.uint32 c.credentials.uid]

def handleGetConnPid (args : List Value) : BusProg DriverOutcome :=
  withConnection args fun c => [.uint32 (pidU32 c)]

def handleGetConnCredentials (args : List Value) : BusProg DriverOutcome :=
  withConnection args fun c =>
    [dictOfU32 [("UnixUserID", c.credentials.uid), ("ProcessID", pidU32 c)]]

/-- The pairs of strings of an environment; what is not one is left out. -/
def environmentPairs (elements : List Value) : List (String × String) :=
  elements.filterMap fun el =>
    match el with
    | .dictEntry k v => do
      let key ← k.asStr
      let val ← v.asStr
      return (key, val)
    | _ => none

def handleUpdateActivationEnv (bus : Bus) (args : List Value) : BusProg DriverOutcome :=
  if bus.kind = .system then
    pure (err ⟨Errors.accessDenied, "Cannot change activation environment on a system bus."⟩)
  else
    match args.head?.map Value.unwrapVariant with
    | some (.array _ elements) => do
      op (.extendEnvironment (environmentPairs elements))
      return ok [] []
    | _ => pure (err (invalidArgs "expected a\x7bss\x7d environment map"))

/-! ## All methods -/

/-- **A call to the driver.** -/
def handle (bus : Bus) (caller : ConnectionEntry) (member : String) (args : List Value) :
    BusProg DriverOutcome :=
  if member = "Hello" then handleHello caller
  else if member = "RequestName" then handleRequestName bus caller args
  else if member = "ReleaseName" then handleReleaseName caller args
  else if member = "ListNames" then do
    let names ← op .listNames
    return ok [stringArray names] []
  else if member = "ListActivatableNames" then pure (ok [stringArray bus.activatable] [])
  else if member = "NameHasOwner" then handleNameHasOwner args
  else if member = "GetNameOwner" then handleGetNameOwner args
  else if member = "ListQueuedOwners" then handleListQueuedOwners args
  else if member = "StartServiceByName" then handleStartService bus args
  else if member = "AddMatch" then handleAddMatch bus caller args
  else if member = "RemoveMatch" then handleRemoveMatch caller args
  else if member = "GetConnectionUnixUser" then handleGetConnUid args
  else if member = "GetConnectionUnixProcessID" then handleGetConnPid args
  else if member = "GetConnectionCredentials" then handleGetConnCredentials args
  else if member = "GetId" then pure (ok [.string bus.guid] [])
  else if member = "UpdateActivationEnvironment" then handleUpdateActivationEnv bus args
  else if member = "ReloadConfig" then pure (ok [] [])
  else pure (err ⟨Errors.unknownMethod,
    "org.freedesktop.DBus has no method \"" ++ member ++ "\""⟩)

end Driver

end Oxibus
