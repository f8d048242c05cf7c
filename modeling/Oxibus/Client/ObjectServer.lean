import Mathlib.Data.List.AList
import Oxibus.Core.Names
import Oxibus.Core.Types

/-!
# Exported objects

A client that serves exports objects: at a path, any number of interfaces,
each under its name and with a handler for its methods. A call names a path
and a member, and may name an interface; without one it is taken by the only
interface at the path, and is ambiguous where there are more.

A handler is what it answers at the moment. One that keeps a state of its
own is another interface at another moment, and the table of objects may be
another one whenever it is looked at.
-/

namespace Oxibus

/-- An error that a method answers with. -/
structure MethodError where
  name : String
  message : String
  deriving DecidableEq, Repr

/-- What a method answers: values, or an error. -/
abbrev MethodResult : Type := Except MethodError (List Value)

namespace MethodError

def unknownMethod (member interface : String) : MethodError :=
  ⟨Errors.unknownMethod,
    "No such method \"" ++ member ++ "\" on interface \"" ++ interface ++ "\""⟩

def unknownInterface (interface : String) : MethodError :=
  ⟨Errors.unknownInterface, "No such interface \"" ++ interface ++ "\""⟩

def unknownObject (path : String) : MethodError :=
  ⟨Errors.unknownObject, "No such object path \"" ++ path ++ "\""⟩

def invalidArgs (msg : String) : MethodError := ⟨Errors.invalidArgs, msg⟩

end MethodError

/-- **An interface of an object.** -/
structure Interface where
  name : String
  /-- What a method answers to arguments. -/
  call : String → List Value → MethodResult

/-- The interfaces of an object, by their names. -/
abbrev Interfaces : Type := AList fun _ : String => Interface

/-- **The objects of a client**, by their paths. -/
structure ObjectServer where
  objects : AList fun _ : String => Interfaces

namespace ObjectServer

def new : ObjectServer := ⟨∅⟩

/-- Export an interface at a path. It replaces one of the same name. -/
def register (server : ObjectServer) (path : ObjectPath) (iface : Interface) : ObjectServer :=
  let ifaces := (server.objects.lookup path.text).getD ∅
  ⟨server.objects.insert path.text (ifaces.insert iface.name iface)⟩

/-- Take an interface back. A path without interfaces is no longer there. -/
def unregister (server : ObjectServer) (path interface : String) : ObjectServer :=
  match server.objects.lookup path with
  | some ifaces =>
    let ifaces := ifaces.erase interface
    if ifaces.entries.isEmpty then ⟨server.objects.erase path⟩
    else ⟨server.objects.insert path ifaces⟩
  | none => server

def hasPath (server : ObjectServer) (path : String) : Bool :=
  (server.objects.lookup path).isSome

def getInterface (server : ObjectServer) (path interface : String) : Option Interface :=
  (server.objects.lookup path).bind fun ifaces => ifaces.lookup interface

/-- **Who a call is for.** -/
def target (server : ObjectServer) (path : String) (interface : Option String)
    (member : String) : Except MethodError Interface :=
  match server.objects.lookup path with
  | none => .error (.unknownObject path)
  | some ifaces =>
    match interface with
    | some name =>
      match ifaces.lookup name with
      | some iface => .ok iface
      | none => .error (.unknownInterface name)
    | none =>
      -- the order of the table does not matter: only a single entry is taken
      match ifaces.entries with
      | [] => .error (.unknownMethod member "<no interface>")
      | [entry] => .ok entry.2
      | _ => .error (.invalidArgs ("ambiguous method call: multiple interfaces implement this " ++
          "member, specify INTERFACE"))

/-- What the target of a call answers; a call without one is an error. -/
def answer (found : Except MethodError Interface) (member : String) (args : List Value) :
    MethodResult :=
  match found with
  | .ok iface => iface.call member args
  | .error e => .error e

/-- **What a call is answered with.** -/
def dispatch (server : ObjectServer) (path : String) (interface : Option String)
    (member : String) (args : List Value) : MethodResult :=
  answer (server.target path interface member) member args

end ObjectServer

end Oxibus
