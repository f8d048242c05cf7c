import Oxibus.Core.Message

/-!
# Messages of the C interface

A program that uses the C interface holds a message by a pointer: one that it
builds and hands to a connection, or one that it has received. A pointer is
modelled by what it points to, and one that is null by `none`; text that a
program passes is what `cstr` makes of it.
-/

namespace Oxibus

namespace Libdbus

inductive Kind where
  | methodCall
  | methodReturn
  | signal
  | error
  deriving DecidableEq, Repr

/-- **A message under construction.** -/
structure Outgoing where
  kind : Kind
  path : Option ObjectPath
  interface : Option String
  /-- The name of a method or signal, or of an error. -/
  member : Option String
  destination : Option String
  replySerial : Option UInt32
  args : List Value

/-- **A message of the C interface.** -/
inductive DBusMessage where
  /-- One under construction. -/
  | out (o : Outgoing)
  /-- One that was received. -/
  | incoming (m : Message)

def wrapIncoming (m : Message) : DBusMessage := .incoming m

def newOutgoing (kind : Kind) : Outgoing := ⟨kind, none, none, none, none, none, []⟩

/-- The path that a text is. -/
def checkedPath (path : Option String) : Option ObjectPath :=
  path.bind fun p =>
    match ObjectPath.new p with
    | .ok path => some path
    | _ => none

def dbusMessageNewMethodCall (destination path interface method : Option String) :
    Option DBusMessage := do
  let path ← checkedPath path
  let method ← method
  return .out { newOutgoing .methodCall with
    path := some path, member := some method, interface := interface, destination := destination }

def dbusMessageNewSignal (path interface name : Option String) : Option DBusMessage := do
  let path ← checkedPath path
  let interface ← interface
  let name ← name
  return .out { newOutgoing .signal with
    path := some path, interface := some interface, member := some name }

/-- What a reply to a message says about it: the number it had and who sent it. -/
def replyTarget (call : Option DBusMessage) : Option (UInt32 × Option String) :=
  match call with
  | some (.incoming m) => some (m.serial, m.sender)
  | _ => none

def dbusMessageNewMethodReturn (methodCall : Option DBusMessage) : Option DBusMessage := do
  let target ← replyTarget methodCall
  return .out { newOutgoing .methodReturn with
    replySerial := some target.1, destination := target.2 }

def dbusMessageNewError (replyTo : Option DBusMessage) (errorName errorMessage : Option String) :
    Option DBusMessage := do
  let name ← errorName
  let target ← replyTarget replyTo
  return .out { newOutgoing .error with
    replySerial := some target.1, destination := target.2, member := some name,
    args := (errorMessage.map Value.string).toList }

/-- Gives a message another destination, and says whether it could. -/
def dbusMessageSetDestination (message : DBusMessage) (destination : Option String) :
    DBusMessage × Bool :=
  match message with
  | .out o => (.out { o with destination := destination }, true)
  | .incoming m => (.incoming m, false)

/-- The types of the values that can be appended. -/
def isAppendable : Value → Bool
  | .byte _ | .boolean _ | .int16 _ | .uint16 _ | .int32 _ | .uint32 _ => true
  | .int64 _ | .uint64 _ | .double _ | .string _ | .objectPath _ => true
  | _ => false

/-- Appends a value to the arguments of a message, and says whether it could. -/
def dbusMessageIterAppendBasic (message : DBusMessage) (v : Value) : DBusMessage × Bool :=
  match message with
  | .out o =>
    if isAppendable v then (.out { o with args := o.args ++ [v] }, true) else (.out o, false)
  | .incoming m => (.incoming m, false)

/-- **Takes what a message says out of it**, if it is one under construction: what
was taken and what is left. -/
def takeOutgoing (message : Option DBusMessage) : Option Outgoing × Option DBusMessage :=
  match message with
  | some (.out o) =>
    (some o, some (.out { o with
      path := none, interface := none, member := none, destination := none, replySerial := none,
      args := [] }))
  | message => (none, message)

end Libdbus

end Oxibus
