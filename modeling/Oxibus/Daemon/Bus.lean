import Oxibus.Lib.Prog
import Oxibus.Core.Message
import Oxibus.Daemon.MatchRules
import Oxibus.Daemon.Policy
import Oxibus.Daemon.Registry

/-!
# The bus and its atomic operations

What the tasks of the daemon share is a `BusState`: the registry, the flags
and match rules of every connection, the counters. What never changes while
the daemon runs – its kind, limits, policy, service files – is a `Bus`.

A task touches the shared state only through the operations of `BusOp`: one
call of the registry, one access to a flag or a list of rules under its
lock, one counter, one call of `write_message`. `BusOp.Exec` says what each
does and which answers it can give. Where the answer is up to the outside –
the order of a hash table, a socket, a peer, the clock – it is any.
-/

namespace Oxibus

/-- Which bus the daemon serves. -/
inductive BusKind where
  | system
  | session
  deriving DecidableEq, Repr

/-- The limits that the daemon enforces. -/
structure Limits where
  maxIncompleteConnections : ℕ
  maxConnectionsPerUser : ℕ
  maxNamesPerConnection : ℕ
  maxMatchRulesPerConnection : ℕ

/-- **What does not change while the daemon runs.** -/
structure Bus where
  kind : BusKind
  limits : Limits
  policy : Policy
  /-- The names with a service file. -/
  activatable : List String
  guid : String
  /-- The user database: `identity::resolve`. -/
  resolve : UInt32 → Identity
  apparmor : AppArmor

/-- The bus in a query to the kernel. -/
def Bus.bustype (bus : Bus) : String :=
  match bus.kind with
  | .system => "system"
  | .session => "session"

/-- What a connection is allowed by its user. -/
def Bus.identity (bus : Bus) (c : ConnectionEntry) : Identity := bus.resolve c.credentials.uid

/-- Counters of the daemon, of 64 bits each. -/
structure Stats where
  messagesRouted : UInt64
  bytesRouted : UInt64
  signalsDelivered : UInt64
  activationsStarted : UInt64
  policyDenials : UInt64
  deriving DecidableEq, Repr

/-- What can be counted. -/
inductive Count where
  | routed (bytes : ℕ)
  | signal
  | activation
  | denial
  deriving DecidableEq, Repr

namespace Stats

def new : Stats := ⟨0, 0, 0, 0, 0⟩

/-- Count something. -/
def record (stats : Stats) : Count → Stats
  | .routed bytes => { stats with
      messagesRouted := stats.messagesRouted + 1
      bytesRouted := stats.bytesRouted + UInt64.ofNat bytes }
  | .signal => { stats with signalsDelivered := stats.signalsDelivered + 1 }
  | .activation => { stats with activationsStarted := stats.activationsStarted + 1 }
  | .denial => { stats with policyDenials := stats.policyDenials + 1 }

end Stats

/-- **The changing part of a connection.** -/
structure Cells where
  isMonitor : Bool
  isRegistered : Bool
  matchRules : List MatchRule
  deriving DecidableEq, Repr

/-- The cells of a connection that is new. -/
def Cells.new : Cells := ⟨false, false, []⟩

/-- **What the tasks share.** -/
structure BusState where
  registry : Registry
  /-- The cells of the connection with a number. They outlive its entry in
  the registry. -/
  cells : ℕ → Cells
  stats : Stats
  /-- The serial number the driver counted last; zero is never given out. -/
  driverSerial : UInt32
  activationEnvironment : List (String × String)

namespace BusState

/-- The state the daemon starts in. -/
def new : BusState := ⟨Registry.new, fun _ => Cells.new, Stats.new, 1, []⟩

def isMonitor (s : BusState) (c : ConnectionEntry) : Bool := (s.cells c.id).isMonitor

def isRegistered (s : BusState) (c : ConnectionEntry) : Bool := (s.cells c.id).isRegistered

def matchRules (s : BusState) (c : ConnectionEntry) : List MatchRule := (s.cells c.id).matchRules

/-- A call of the registry: its answer, and the state with the registry it
leaves. -/
def Calls {α : Type} (s : BusState) (f : Registry → α × Registry) (r : α) (s' : BusState) :
    Prop :=
  r = (f s.registry).1 ∧ s' = { s with registry := (f s.registry).2 }

/-- Change the cells of one connection. -/
def setCells (s : BusState) (c : ConnectionEntry) (cells : Cells) : BusState :=
  { s with cells := Function.update s.cells c.id cells }

end BusState

/-- Why a service could not be started. -/
inductive ActivationError where
  | serviceUnknown (name : String)
  | execFailed (reason : String)
  | timedOut (name : String)
  deriving DecidableEq, Repr

/-- The text of an activation error. -/
def ActivationError.toString : ActivationError → String
  | serviceUnknown name => "service unknown: " ++ name
  | execFailed reason => "exec failed: " ++ reason
  | timedOut name =>
    "activation timed out waiting for '" ++ name ++ "' to appear on the bus"

/-- **The atomic operations of the daemon's tasks.** -/
inductive BusOp where
  -- the registry is read
  | allConnections
  | get (name : String)
  | getNameOwner (name : String)
  | ownerLookup
  | listNames
  | listQueuedOwners (name : String)
  | namesHeldBy (name : String)
  | connectionCount
  | connectionCountForUid (uid : UInt32)
  -- the registry is changed
  | tryBeginIncomplete (max : ℕ)
  | endIncomplete
  | allocateUniqueName
  | addConnection (c : ConnectionEntry)
  | removeConnection (name : String)
  | requestName (uniqueName name : String) (flags : UInt32)
  | releaseName (uniqueName name : String)
  -- a connection's cells
  | isMonitor (c : ConnectionEntry)
  | isRegistered (c : ConnectionEntry)
  | matchRules (c : ConnectionEntry)
  | storeMonitor (c : ConnectionEntry)
  | swapRegistered (c : ConnectionEntry)
  | setMatchRules (c : ConnectionEntry) (rules : List MatchRule)
  | pushMatchRule (c : ConnectionEntry) (rule : MatchRule)
  | removeMatchRules (c : ConnectionEntry) (raw : String)
  -- counters and settings
  | record (what : Count)
  | stats
  | uptimeSecs
  | driverSerial
  | extendEnvironment (pairs : List (String × String))
  -- the outside
  | write (c : ConnectionEntry) (msg : Message)
  | spawnWrite (c : ConnectionEntry) (msg : Message)
  | spawnService (name : String)
  | pollCount
  | wrapSocket
  | handshake
  | readLabel
  | readMessage (c : ConnectionEntry)

/-- The answer of each operation. -/
@[reducible] def BusOp.Res : BusOp → Type
  | allConnections => List ConnectionEntry
  | get _ => Option ConnectionEntry
  | getNameOwner _ => Option String
  | ownerLookup => String → Option String
  | listNames => List String
  | listQueuedOwners _ => List String
  | namesHeldBy _ => ℕ
  | connectionCount => ℕ
  | connectionCountForUid _ => ℕ
  | tryBeginIncomplete _ => Bool
  | endIncomplete => Unit
  | allocateUniqueName => ℕ
  | addConnection _ => Unit
  | removeConnection _ => List NameOwnerChange
  | requestName _ _ _ => UInt32 × List NameOwnerChange
  | releaseName _ _ => UInt32 × List NameOwnerChange
  | isMonitor _ => Bool
  | isRegistered _ => Bool
  | matchRules _ => List MatchRule
  | storeMonitor _ => Unit
  | swapRegistered _ => Bool
  | setMatchRules _ _ => Unit
  | pushMatchRule _ _ => Unit
  | removeMatchRules _ _ => Bool
  | record _ => Unit
  | stats => Stats
  | uptimeSecs => UInt64
  | driverSerial => UInt32
  | extendEnvironment _ => Unit
  | write _ _ => Bool
  | spawnWrite _ _ => Unit
  | spawnService _ => Option ActivationError
  | pollCount => ℕ
  | wrapSocket => Bool
  | handshake => Bool
  | readLabel => Option String
  | readMessage _ => Option Message

/-- **The programs of the daemon's tasks.** -/
abbrev BusProg (α : Type) : Type := Prog BusOp BusOp.Res α

/-- **What an operation does**: in a state, with an answer, to a state. -/
def BusOp.Exec : (o : BusOp) → BusState → o.Res → BusState → Prop
  | allConnections, s, r, s' => r.Perm s.registry.allConnections ∧ s' = s
  | get name, s, r, s' => r = s.registry.get name ∧ s' = s
  | getNameOwner name, s, r, s' => r = s.registry.getNameOwner name ∧ s' = s
  | ownerLookup, s, r, s' => r = s.registry.getNameOwner ∧ s' = s
  | listNames, s, r, s' => r.Perm s.registry.listNames ∧ s' = s
  | listQueuedOwners name, s, r, s' => r = s.registry.listQueuedOwners name ∧ s' = s
  | namesHeldBy name, s, r, s' => r = s.registry.namesHeldBy name ∧ s' = s
  | connectionCount, s, r, s' => r = s.registry.connectionCount ∧ s' = s
  | connectionCountForUid uid, s, r, s' => r = s.registry.connectionCountForUid uid ∧ s' = s
  | tryBeginIncomplete max, s, r, s' => s.Calls (fun reg => reg.tryBeginIncomplete max) r s'
  | endIncomplete, s, _, s' => s' = { s with registry := s.registry.endIncomplete }
  | allocateUniqueName, s, r, s' => s.Calls Registry.allocateUniqueName r s'
  | addConnection c, s, _, s' => s' = { s with registry := s.registry.addConnection c }
  | removeConnection name, s, r, s' =>
    ∃ order : List String, order.Perm s.registry.names.keys ∧
      s.Calls (fun reg => reg.removeConnection name order) r s'
  | requestName uniqueName name flags, s, r, s' =>
    s.Calls (fun reg => reg.requestName uniqueName name flags) r s'
  | releaseName uniqueName name, s, r, s' =>
    s.Calls (fun reg => reg.releaseName uniqueName name) r s'
  | isMonitor c, s, r, s' => r = s.isMonitor c ∧ s' = s
  | isRegistered c, s, r, s' => r = s.isRegistered c ∧ s' = s
  | matchRules c, s, r, s' => r = s.matchRules c ∧ s' = s
  | storeMonitor c, s, _, s' => s' = s.setCells c { s.cells c.id with isMonitor := true }
  | swapRegistered c, s, r, s' =>
    r = s.isRegistered c ∧ s' = s.setCells c { s.cells c.id with isRegistered := true }
  | setMatchRules c rules, s, _, s' => s' = s.setCells c { s.cells c.id with matchRules := rules }
  | pushMatchRule c rule, s, _, s' =>
    s' = s.setCells c { s.cells c.id with matchRules := s.matchRules c ++ [rule] }
  | removeMatchRules c raw, s, r, s' =>
    let left := (s.matchRules c).filter fun rule => rule.raw != raw
    r = (left.length != (s.matchRules c).length) ∧
      s' = s.setCells c { s.cells c.id with matchRules := left }
  | record what, s, _, s' => s' = { s with stats := s.stats.record what }
  | stats, s, r, s' => r = s.stats ∧ s' = s
  | uptimeSecs, s, _, s' => s' = s
  | driverSerial, s, r, s' =>
    r = (nextSerial s.driverSerial).1 ∧
    s' = { s with driverSerial := (nextSerial s.driverSerial).2 }
  | extendEnvironment pairs, s, _, s' =>
    s' = { s with activationEnvironment := pairs.reverse ++ s.activationEnvironment }
  | write _ msg, s, r, s' => (r = true → msg.toBytes.isOk = true) ∧ s' = s
  | spawnWrite _ _, s, _, s' => s' = s
  | spawnService _, s, _, s' => s' = s
  | pollCount, s, _, s' => s' = s
  | wrapSocket, s, _, s' => s' = s
  | handshake, s, _, s' => s' = s
  | readLabel, s, _, s' => s' = s
  | readMessage _, s, r, s' =>
    (∀ m, r = some m → ∃ buf fds, Message.fromBytes buf fds = .ok m) ∧ s' = s

/-- Whether an operation changes what the tasks share. -/
def BusOp.isUpdate : BusOp → Bool
  | tryBeginIncomplete _ => true
  | endIncomplete => true
  | allocateUniqueName => true
  | addConnection _ => true
  | removeConnection _ => true
  | requestName _ _ _ => true
  | releaseName _ _ => true
  | storeMonitor _ => true
  | swapRegistered _ => true
  | setMatchRules _ _ => true
  | pushMatchRule _ _ => true
  | removeMatchRules _ _ => true
  | record _ => true
  | driverSerial => true
  | extendEnvironment _ => true
  | _ => false

/-- **The other operations leave everything as it was.** -/
theorem BusOp.Exec.eq_of_not_isUpdate {o : BusOp} {s s' : BusState} {r : o.Res}
    (h : o.Exec s r s') (ho : o.isUpdate = false) : s' = s := by
  cases o with
  | uptimeSecs => exact h
  | spawnWrite => exact h
  | spawnService => exact h
  | pollCount => exact h
  | wrapSocket => exact h
  | handshake => exact h
  | readLabel => exact h
  | _ => first | exact h.2 | cases ho

/-- Perform one operation. -/
abbrev BusProg.op (o : BusOp) : BusProg o.Res := Prog.perform o

end Oxibus
