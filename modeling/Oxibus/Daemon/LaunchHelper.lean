import Oxibus.Lib.Attempt
import Oxibus.Daemon.ServiceRegistry

/-!
# The launch helper

On a system bus a service runs as a user of its own, which the daemon cannot
become. It starts a helper that is owned by root and given the name of the
service, and nothing else. The helper trusts neither the daemon nor the one who
calls it: it empties its environment, reads the configuration and the service
files itself, checks that it was called by the user of the bus, and becomes the
user of the service before it executes anything.

The helper is a program of system calls. What a call does to the process, who it
runs as and what its environment is, is `HelperOp.Exec`. What the file system
and the user database answer is up to them, and may change from one call to the
next; the log keeps what they have answered.

The parsers of the configuration and of `.toml` files are the outside as well.
-/

namespace Oxibus

namespace LaunchHelper

/-! ## Errors -/

/-- Why the helper gives up. -/
inductive HelperError where
  | invalidArgs
  | invalidBusName (name : String)
  | configInvalid (path message : String)
  | permissionsInvalid (message : String)
  | serviceNotFound (name : String)
  | noUserConfigured (name : String)
  | unknownUser (user : String)
  | setupFailed (message : String)
  | execFailed (message : String)
  deriving DecidableEq, Repr

namespace HelperError

/-- What the helper prints. -/
def toString : HelperError → String
  | invalidArgs => "usage: dbus-daemon-launch-helper SERVICE.NAME.TO.ACTIVATE"
  | invalidBusName name => "bus name '" ++ name ++ "' is not a valid bus name"
  | configInvalid path message =>
    "could not load trusted config at " ++ path ++ ": " ++ message
  | permissionsInvalid message => message
  | serviceNotFound name => "the name " ++ name ++ " was not provided by any service files"
  | noUserConfigured name =>
    "service '" ++ name ++ "' has no `user =` set — required for system-bus activation"
  | unknownUser user => "cannot find user '" ++ user ++ "'"
  | setupFailed message => message
  | execFailed message => message

/-- The exit code of the helper. -/
def exitCode : HelperError → ℕ
  | invalidArgs => 2
  | invalidBusName _ => 3
  | configInvalid _ _ => 4
  | permissionsInvalid _ => 5
  | serviceNotFound _ => 6
  | noUserConfigured _ => 7
  | unknownUser _ => 8
  | setupFailed _ => 9
  | execFailed _ => 10

end HelperError

/-- How the helper stops before it has executed a service. -/
inductive Stop where
  /-- An error is printed. -/
  | failed (e : HelperError)
  /-- A variable of the environment cannot be read or removed. -/
  | panicked
  deriving DecidableEq, Repr

/-! ## Configuration -/

/-- What the helper uses of the configuration. -/
structure HelperConfig where
  /-- `bus.system.user` -/
  user : String
  prefixDir : String
  servicesDir : String
  vendorServicesDir : String
  /-- `paths.launch_helper` -/
  launchHelper : String
  deriving DecidableEq, Repr

/-- `Path::join`: an absolute path takes the place of the first one. -/
def joinPath (dir sub : String) : String :=
  if sub.toList.head? = some '/' then sub
  else if dir = "" ∨ dir.toList.getLast? = some '/' then dir ++ sub
  else dir ++ "/" ++ sub

/-- **Where the service files of a system bus are.** -/
def serviceDirs (servicesDir vendorServicesDir prefixDir : String) : List String :=
  [servicesDir, vendorServicesDir, joinPath prefixDir "share/dbus-1/system-services",
    joinPath prefixDir "etc/dbus-1/system-services",
    joinPath prefixDir "lib/dbus-1/system-services", "/etc/dbus-1/system-services",
    "/usr/share/dbus-1/system-services", "/usr/lib/dbus-1/system-services"]

/-- The directories of a configuration. -/
def HelperConfig.dirs (config : HelperConfig) : List String :=
  serviceDirs config.servicesDir config.vendorServicesDir config.prefixDir

def trustedConfigPath : String := "/etc/oxibus/oxibus.toml"

/-- Where the helper looks for its configuration. -/
def pathsToTry : List String := ["/overlayer/syshub/etc/oxibus/oxibus.toml", trustedConfigPath]

/-! ## The process -/

/-- **An entry of the environment.** One without a value is a line with no equals sign
behind its first byte, which is no variable. -/
structure EnvEntry where
  key : List UInt8
  value : Option (List UInt8)
  deriving DecidableEq, Repr

/-- The supplementary groups of a process. -/
inductive Groups where
  /-- Those it was started with. -/
  | inherited
  /-- Those of a user, and a group. -/
  | ofUser (user : String) (gid : UInt32)
  deriving DecidableEq, Repr

/-- **Who a process runs as, and its environment.** -/
structure Process where
  realUid : UInt32
  effectiveUid : UInt32
  savedUid : UInt32
  realGid : UInt32
  effectiveGid : UInt32
  savedGid : UInt32
  groups : Groups
  environment : List EnvEntry
  deriving DecidableEq, Repr

/-- An entry of the user database. -/
structure Passwd where
  uid : UInt32
  gid : UInt32
  deriving DecidableEq, Repr

/-- **The calls of the helper.** -/
inductive HelperOp where
  -- the environment
  | vars
  | removeVar (key : String)
  | setVar (key value : String)
  -- files and users
  | pathExists (path : String)
  | loadConfig (path : String)
  | getuid
  | geteuid
  | getpwnam (user : String)
  | readServices (dirs : List String)
  -- becoming somebody
  | initgroups (user : String) (gid : UInt32)
  | setgid (gid : UInt32)
  | setuid (uid : UInt32)
  /-- The process is replaced by a program. -/
  | exec (program : String) (args : List String)
  deriving DecidableEq, Repr

/-- The answer of each call. A call of `exec` that succeeds has none: the helper is no
more. -/
@[reducible] def HelperOp.Res : HelperOp → Type
  | vars => Option (List String)
  | removeVar _ => Bool
  | setVar _ _ => Unit
  | pathExists _ => Bool
  | loadConfig _ => Except String HelperConfig
  | getuid => UInt32
  | geteuid => UInt32
  | getpwnam _ => Option Passwd
  | readServices _ => List ServiceDir
  | initgroups _ _ => Bool
  | setgid _ => Bool
  | setuid _ => Bool
  | exec _ _ => Option String

/-- The names of the variables, if all variables are text. -/
def varKeys (environment : List EnvEntry) : Option (List String) :=
  environment.foldr (fun entry keys => match entry.value with
    | none => keys
    | some value => do
      let key ← fromUtf8 entry.key
      let _ ← fromUtf8 value
      let keys ← keys
      some (key :: keys)) (some [])

/-- Whether a text can be the name of a variable. -/
def isVarName (key : String) : Bool :=
  key != "" && !key.toList.contains '=' && !key.toList.contains '\x00'

/-- The environment without a variable. -/
def without (key : String) (environment : List EnvEntry) : List EnvEntry :=
  environment.filter fun entry => entry.value.isNone || entry.key != asBytes key

/-- **What a call does to the process**, with an answer. -/
def HelperOp.Does : (o : HelperOp) → Process → o.Res → Process → Prop
  | vars, p, r, p' => r = varKeys p.environment ∧ p' = p
  | removeVar key, p, r, p' =>
    r = isVarName key ∧
      p' = if isVarName key then { p with environment := without key p.environment } else p
  | setVar key value, p, _, p' =>
    p' = { p with
      environment := without key p.environment ++ [⟨asBytes key, some (asBytes value)⟩] }
  | pathExists _, p, _, p' => p' = p
  | loadConfig _, p, _, p' => p' = p
  | getuid, p, r, p' => r = p.realUid ∧ p' = p
  | geteuid, p, r, p' => r = p.effectiveUid ∧ p' = p
  | getpwnam _, p, _, p' => p' = p
  | readServices _, p, _, p' => p' = p
  | initgroups user gid, p, r, p' =>
    (r = true → p.effectiveUid = 0) ∧ p' = if r then { p with groups := .ofUser user gid } else p
  | setgid gid, p, r, p' =>
    if r = false then p' = p
    else if p.effectiveUid = 0 then
      p' = { p with realGid := gid, effectiveGid := gid, savedGid := gid }
    else (gid = p.realGid ∨ gid = p.savedGid) ∧ p' = { p with effectiveGid := gid }
  | setuid uid, p, r, p' =>
    if r = false then p' = p
    else if p.effectiveUid = 0 then
      p' = { p with realUid := uid, effectiveUid := uid, savedUid := uid }
    else (uid = p.realUid ∨ uid = p.savedUid) ∧ p' = { p with effectiveUid := uid }
  | exec _ _, p, _, p' => p' = p

/-- **A call that was answered.** -/
structure Answered where
  op : HelperOp
  res : op.Res

/-- The process, and what has been answered, the latest first. -/
structure HelperState where
  process : Process
  log : List Answered

/-- A call is made and logged. -/
def HelperOp.Exec (o : HelperOp) (s : HelperState) (r : o.Res) (s' : HelperState) : Prop :=
  o.Does s.process r s'.process ∧ s'.log = ⟨o, r⟩ :: s.log

/-! ## The program -/

/-- **The programs of the helper.** -/
abbrev Helper (α : Type) : Type := ExceptT Stop (Prog HelperOp HelperOp.Res) α

/-- Make one call. -/
abbrev sys (o : HelperOp) : Helper o.Res := Prog.attempt o

/-- Give up. -/
def fail {α : Type} (e : HelperError) : Helper α := throw (.failed e)

/-- Whether an argument asks for help. -/
def isHelp (arg : String) : Bool := arg == "--help" || arg == "-h" || arg == "-?"

/-- The one argument of the helper. -/
def parseArgs : List String → Except HelperError String
  | [name] =>
    if name ≠ "--help" ∧ name ≠ "-h" ∧ name ≠ "-?" then .ok name else .error .invalidArgs
  | _ => .error .invalidArgs

/-- The variables are removed one by one. -/
def removeVars : List String → Helper Unit
  | [] => pure ()
  | key :: keys => do
    let removed ← sys (.removeVar key)
    if removed then removeVars keys else throw .panicked

/-- The variables of a service. -/
def starterVars : List (String × String) :=
  [("DBUS_STARTER_BUS_TYPE", "system"), ("OXIBUS_STARTER_BUS_TYPE", "system"),
    ("PATH", "/overlayer/syshub/bin:/overlayer/syshub/sbin:/usr/bin:/usr/sbin:/bin:/sbin"),
    ("LD_LIBRARY_PATH", "/overlayer/syshub/lib:/usr/lib:/lib")]

def setVars : List (String × String) → Helper Unit
  | [] => pure ()
  | (key, value) :: pairs => do
    sys (.setVar key value)
    setVars pairs

/-- **Nothing of the environment is kept.** -/
def clearEnvironment : Helper Unit := do
  let keys ← sys .vars
  match keys with
  | none => throw .panicked
  | some keys => do
    removeVars keys
    setVars starterVars

/-- The configuration is the first one that loads; the last error is kept. -/
def tryPaths : List String → Option HelperError → Helper HelperConfig
  | [], lastErr =>
    fail (lastErr.getD (.configInvalid trustedConfigPath "Config file not found"))
  | path :: paths, lastErr => do
    let found ← sys (.pathExists path)
    if found then do
      let config ← sys (.loadConfig path)
      match config with
      | .ok config => pure config
      | .error message => tryPaths paths (some (.configInvalid path message))
    else tryPaths paths lastErr

/-- The number of a user. A name with a zero byte is none. -/
def resolveUid (user : String) : Helper (Option UInt32) :=
  if user.toList.contains '\x00' then pure none
  else do
    let passwd ← sys (.getpwnam user)
    pure (passwd.map Passwd.uid)

/-- **Whether the helper was called by the user of the bus, and runs as root.** -/
def checkPermissions (dbusUser : String) (realUid effectiveUid : UInt32) : Helper Unit := do
  let expected ← resolveUid dbusUser
  match expected with
  | none => fail (.permissionsInvalid ("cannot find user '" ++ dbusUser ++ "'"))
  | some expectedUid =>
    if realUid ≠ expectedUid then
      fail (.permissionsInvalid ("not invoked from user '" ++ dbusUser ++ "'"))
    else if effectiveUid ≠ 0 then fail (.permissionsInvalid "not setuid root")
    else pure ()

/-- The service of a name, if it has a user. -/
def findService (registry : ActivationRegistry) (busName : String) :
    Except HelperError ServiceDef :=
  match registry.lookup busName with
  | none => .error (.serviceNotFound busName)
  | some service =>
    if service.name ≠ busName then .error (.serviceNotFound busName)
    else if service.user.isNone then .error (.noUserConfigured busName)
    else .ok service

/-- **The process becomes a user**: its groups first, itself last. -/
def switchUser (user : String) : Helper Unit :=
  if user.toList.contains '\x00' then fail (.unknownUser user)
  else do
    let passwd ← sys (.getpwnam user)
    match passwd with
    | none => fail (.unknownUser user)
    | some pw => do
      let grouped ← sys (.initgroups user pw.gid)
      if grouped = false then fail (.setupFailed "could not initialize groups")
      else do
        let gidSet ← sys (.setgid pw.gid)
        if gidSet = false then fail (.setupFailed ("cannot setgid to " ++ decimal pw.gid.toNat))
        else do
          let uidSet ← sys (.setuid pw.uid)
          if uidSet = false then fail (.setupFailed ("cannot setuid to " ++ decimal pw.uid.toNat))
          else pure ()

/-- The service is executed as its user. -/
def launch (service : ServiceDef) (user : String) : Helper Unit := do
  switchUser user
  let err ← sys (.exec service.exec service.args)
  match err with
  | none => pure ()
  | some err => fail (.execFailed ("failed to exec '" ++ service.exec ++ "': " ++ err))

section

variable (parseToml : String → Option ServiceDef)

/-- The service of a name is found and executed. -/
def activate (config : HelperConfig) (busName : String) : Helper Unit := do
  let dirs ← sys (.readServices config.dirs)
  match findService (.load parseToml dirs) busName with
  | .error e => fail e
  | .ok service =>
    match service.user with
    | none => throw .panicked
    | some user => launch service user

/-- **The helper**, for the name of a service. -/
def run (busName : String) : Helper Unit := do
  clearEnvironment
  if isValidBusName busName = false then fail (.invalidBusName busName)
  else do
    let config ← tryPaths pathsToTry none
    let realUid ← sys .getuid
    let effectiveUid ← sys .geteuid
    checkPermissions config.user realUid effectiveUid
    activate parseToml config busName

/-- How the helper ends. -/
inductive Ended where
  /-- It prints a line and exits. -/
  | exited (code : ℕ) (line : String)
  /-- It is replaced by the service. -/
  | replaced
  | panicked
  deriving DecidableEq, Repr

/-- **The helper**, for its arguments. -/
def main (args : List String) : Prog HelperOp HelperOp.Res Ended :=
  match parseArgs args with
  | .error e => .ret (.exited
      (if args.any isHelp then 0 else e.exitCode)
      ("dbus-daemon-launch-helper: " ++ HelperError.invalidArgs.toString))
  | .ok name => do
    match ← (run parseToml name).run with
    | .ok () => .ret .replaced
    | .error (.failed e) => .ret (.exited e.exitCode ("dbus-daemon-launch-helper: " ++ e.toString))
    | .error .panicked => .ret .panicked

end

end LaunchHelper

end Oxibus
