import Mathlib.Data.List.AList
import Oxibus.Core.Names

/-!
# The registry of connections and names

The registry knows the connections by their unique names, and for every
well-known name the queue of those who own it or wait for it. Every call of
the registry is one function on it here: it takes the locks it needs for as
long as it runs, and other tasks see the registry before it or after it.
-/

namespace Oxibus

/-- The flags of a request for a name. -/
def flagAllowReplacement : UInt32 := 1

def flagReplaceExisting : UInt32 := 2

def flagDoNotQueue : UInt32 := 4

/-- The replies to a request for a name. -/
def requestReplyPrimaryOwner : UInt32 := 1

def requestReplyInQueue : UInt32 := 2

def requestReplyExists : UInt32 := 3

def requestReplyAlreadyOwner : UInt32 := 4

/-- The replies to the release of a name. -/
def releaseReplyReleased : UInt32 := 1

def releaseReplyNonExistent : UInt32 := 2

def releaseReplyNotOwner : UInt32 := 3

/-- What the kernel says of a peer. -/
structure PeerCredentials where
  uid : UInt32
  gid : UInt32
  pid : Int32
  deriving DecidableEq, Repr

/-- **A connection**: what is known of it for as long as it is there. Its
unique name is the one of the number it was allocated. -/
structure ConnectionEntry where
  /-- The number `allocate_unique_name` counted. -/
  id : ℕ
  credentials : PeerCredentials
  securityLabel : Option String
  deriving DecidableEq, Repr

/-- The unique name of a connection. -/
def ConnectionEntry.uniqueName (c : ConnectionEntry) : String := Oxibus.uniqueName c.id

/-- A place in the queue for a name. -/
structure QueueEntry where
  uniqueName : String
  allowReplacement : Bool
  doNotQueue : Bool
  deriving DecidableEq, Repr

/-- A name changed its owner. -/
structure NameOwnerChange where
  name : String
  oldOwner : Option String
  newOwner : Option String
  deriving DecidableEq, Repr

/-- **The registry.** -/
structure Registry where
  /-- The connections, by their unique names. -/
  connections : AList fun _ : String => ConnectionEntry
  /-- The queues, by well-known names; the owner is the first. -/
  names : AList fun _ : String => List QueueEntry
  /-- The number of the next connection. -/
  nextId : ℕ
  /-- The connections that are not through their handshake. -/
  incomplete : ℕ

namespace Registry

def new : Registry := ⟨∅, ∅, 1, 0⟩

/-! ## Connections -/

/-- Count one more incomplete connection, unless there are too many. -/
def tryBeginIncomplete (reg : Registry) (max : ℕ) : Bool × Registry :=
  if max ≤ reg.incomplete then (false, reg)
  else (true, { reg with incomplete := reg.incomplete + 1 })

/-- Count one incomplete connection less. -/
def endIncomplete (reg : Registry) : Registry := { reg with incomplete := reg.incomplete - 1 }

/-- Take the next number. -/
def allocateUniqueName (reg : Registry) : ℕ × Registry :=
  (reg.nextId, { reg with nextId := reg.nextId + 1 })

def addConnection (reg : Registry) (entry : ConnectionEntry) : Registry :=
  { reg with connections := reg.connections.insert entry.uniqueName entry }

def get (reg : Registry) (uniqueName : String) : Option ConnectionEntry :=
  reg.connections.lookup uniqueName

/-- The connections, in no particular order. -/
def allConnections (reg : Registry) : List ConnectionEntry :=
  reg.connections.entries.map Sigma.snd

def connectionCount (reg : Registry) : ℕ := reg.connections.entries.length

def connectionCountForUid (reg : Registry) (uid : UInt32) : ℕ :=
  (reg.allConnections.filter fun c => c.credentials.uid == uid).length

/-! ## Names -/

/-- The queue for a name; none if the name is not in the table. -/
def queue (reg : Registry) (name : String) : Option (List QueueEntry) := reg.names.lookup name

/-- **The owner of a name**: of a unique name the connection itself, of a
well-known name the first in its queue. -/
def getNameOwner (reg : Registry) (name : String) : Option String :=
  if startsWithColon name then (reg.get name).map fun _ => name
  else ((reg.queue name).bind List.head?).map QueueEntry.uniqueName

def nameHasOwner (reg : Registry) (name : String) : Bool := (reg.getNameOwner name).isSome

/-- The names on the bus, in no particular order: the unique ones and the
well-known ones with an owner. -/
def listNames (reg : Registry) : List String :=
  reg.connections.keys ++
    (reg.names.entries.filter fun e => !e.2.isEmpty).map Sigma.fst

/-- Whether a connection is in a queue. -/
def inQueue (uniqueName : String) (queue : List QueueEntry) : Bool :=
  queue.any fun e => e.uniqueName == uniqueName

/-- The number of names a connection owns or waits for. -/
def namesHeldBy (reg : Registry) (uniqueName : String) : ℕ :=
  (reg.names.entries.filter fun e => inQueue uniqueName e.2).length

def listQueuedOwners (reg : Registry) (name : String) : List String :=
  ((reg.queue name).getD []).map QueueEntry.uniqueName

/-- The queue without a connection. -/
def leaveQueue (uniqueName : String) (queue : List QueueEntry) : List QueueEntry :=
  queue.filter fun e => e.uniqueName != uniqueName

/-- The place a request asks for. -/
def requestEntry (uniqueName : String) (flags : UInt32) : QueueEntry :=
  ⟨uniqueName, flags &&& flagAllowReplacement != 0, flags &&& flagDoNotQueue != 0⟩

/-- The registry with another queue for a name. -/
def setQueue (reg : Registry) (name : String) (queue : List QueueEntry) : Registry :=
  { reg with names := reg.names.insert name queue }

/-- **A request for a name**: the reply, the changes of owner, and the
registry afterwards. -/
def requestName (reg : Registry) (uniqueName name : String) (flags : UInt32) :
    (UInt32 × List NameOwnerChange) × Registry :=
  match (reg.queue name).getD [] with
  | primary :: rest =>
    -- the table has an entry for the name, and the request looks at its owner
    if primary.uniqueName = uniqueName then ((requestReplyAlreadyOwner, []), reg)
    else if (flags &&& flagReplaceExisting != 0) && primary.allowReplacement then
      let others := leaveQueue uniqueName rest
      let back := if primary.doNotQueue then [] else [primary]
      ((requestReplyPrimaryOwner, [⟨name, some primary.uniqueName, some uniqueName⟩]),
        reg.setQueue name (requestEntry uniqueName flags :: (others ++ back)))
    else if flags &&& flagDoNotQueue != 0 then ((requestReplyExists, []), reg)
    else if inQueue uniqueName (primary :: rest) then ((requestReplyInQueue, []), reg)
    else ((requestReplyInQueue, []), reg.setQueue name
      (primary :: rest ++ [{ requestEntry uniqueName flags with doNotQueue := false }]))
  | [] =>
    ((requestReplyPrimaryOwner, [⟨name, none, some uniqueName⟩]),
      reg.setQueue name [requestEntry uniqueName flags])

/-- The registry with a name's queue replaced, or the name forgotten when
nobody is left in it. -/
def putQueue (reg : Registry) (name : String) (queue : List QueueEntry) : Registry :=
  if queue.isEmpty then { reg with names := reg.names.erase name } else reg.setQueue name queue

/-- **A connection leaves the queue for a name**; if it owned the name, the
name has a new owner or none. -/
def releaseNameInternal (reg : Registry) (uniqueName name : String) :
    Option NameOwnerChange × Registry :=
  match reg.queue name with
  | none => (none, reg)
  | some queue =>
    if inQueue uniqueName queue then
      let left := leaveQueue uniqueName queue
      let wasPrimary := queue.head?.map QueueEntry.uniqueName == some uniqueName
      (if wasPrimary then some ⟨name, some uniqueName, left.head?.map QueueEntry.uniqueName⟩
        else none, reg.putQueue name left)
    else (none, reg)

/-- A release of a name on request. -/
def releaseName (reg : Registry) (uniqueName name : String) :
    (UInt32 × List NameOwnerChange) × Registry :=
  match reg.queue name with
  | none => ((releaseReplyNonExistent, []), reg)
  | some queue =>
    if inQueue uniqueName queue then
      let (event, reg) := reg.releaseNameInternal uniqueName name
      ((releaseReplyReleased, event.toList), reg)
    else ((releaseReplyNotOwner, []), reg)

/-- A connection leaves the queues for a list of names. -/
def releaseNames (uniqueName : String) : List String → Registry → List NameOwnerChange × Registry
  | [], reg => ([], reg)
  | name :: names, reg =>
    let (event, reg) := reg.releaseNameInternal uniqueName name
    let (events, reg) := releaseNames uniqueName names reg
    (event.toList ++ events, reg)

/-- **A connection is removed**: it leaves the table and every queue. The
queues are gone through in the order of the table, which is no particular
one. -/
def removeConnection (reg : Registry) (uniqueName : String) (order : List String) :
    List NameOwnerChange × Registry :=
  let reg := { reg with connections := reg.connections.erase uniqueName }
  let (events, reg) := releaseNames uniqueName order reg
  (events ++ [⟨uniqueName, some uniqueName, none⟩], reg)

/-! ## What a request leaves alone -/

/-- **Only names have changed.** -/
structure NamesOnly (reg reg' : Registry) : Prop where
  connections : reg'.connections = reg.connections
  nextId : reg'.nextId = reg.nextId
  incomplete : reg'.incomplete = reg.incomplete

theorem NamesOnly.refl (reg : Registry) : reg.NamesOnly reg := ⟨rfl, rfl, rfl⟩

theorem NamesOnly.trans {reg reg' reg'' : Registry} (h : reg.NamesOnly reg')
    (h' : reg'.NamesOnly reg'') : reg.NamesOnly reg'' :=
  ⟨h'.connections.trans h.connections, h'.nextId.trans h.nextId, h'.incomplete.trans h.incomplete⟩

variable (reg : Registry) (uniqueName name : String)

theorem namesOnly_setQueue (queue : List QueueEntry) : reg.NamesOnly (reg.setQueue name queue) :=
  ⟨rfl, rfl, rfl⟩

theorem namesOnly_requestName (flags : UInt32) :
    reg.NamesOnly (reg.requestName uniqueName name flags).2 := by
  unfold requestName
  split
  · split
    · exact .refl reg
    split
    · exact reg.namesOnly_setQueue name _
    split
    · exact .refl reg
    split
    · exact .refl reg
    · exact reg.namesOnly_setQueue name _
  · exact reg.namesOnly_setQueue name _

theorem namesOnly_releaseNameInternal :
    reg.NamesOnly (reg.releaseNameInternal uniqueName name).2 := by
  unfold releaseNameInternal
  split
  · exact .refl reg
  · split
    · show reg.NamesOnly (reg.putQueue name _)
      unfold putQueue
      split
      · exact ⟨rfl, rfl, rfl⟩
      · exact reg.namesOnly_setQueue name _
    · exact .refl reg

theorem namesOnly_releaseName : reg.NamesOnly (reg.releaseName uniqueName name).2 := by
  unfold releaseName
  split
  · exact .refl reg
  · split
    · exact reg.namesOnly_releaseNameInternal uniqueName name
    · exact .refl reg

theorem namesOnly_releaseNames (names : List String) :
    reg.NamesOnly (releaseNames uniqueName names reg).2 := by
  induction names generalizing reg with
  | nil => exact .refl reg
  | cons name names ih => exact (reg.namesOnly_releaseNameInternal uniqueName name).trans (ih _)

theorem connections_removeConnection (order : List String) :
    (reg.removeConnection uniqueName order).2.connections = reg.connections.erase uniqueName :=
  (namesOnly_releaseNames { reg with connections := reg.connections.erase uniqueName } uniqueName
    order).connections

end Registry

end Oxibus
