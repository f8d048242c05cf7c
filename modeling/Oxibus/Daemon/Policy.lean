import Oxibus.Core.Message

/-!
# Security policy

A policy is a list of rules, each for everyone, for a user, for a group, or
mandatory. What applies to an identity is gathered in that order, and the
last rule with a matching pattern decides; without any rules everything is
allowed, and without a matching one nothing is.

Beside the policy stands the kernel's mediation by security labels: the
daemon builds a query out of a message and asks. What the kernel answers is
a parameter.
-/

namespace Oxibus

/-- Whom a rule is for. -/
inductive Context where
  | default
  | user
  | group
  | mandatory
  deriving DecidableEq, Repr

/-- **A pattern on messages sent or received.** -/
inductive SendReceivePattern where
  /-- The other party alone. -/
  | destination (pat : String)
  /-- The other party and what the message says. -/
  | full (destination interface member path type : Option String)
  deriving DecidableEq, Repr

/-- A rule of a policy. -/
structure PolicyRule where
  context : Context
  user : Option String
  group : Option String
  allowOwn : List String
  denyOwn : List String
  allowSend : List SendReceivePattern
  denySend : List SendReceivePattern
  allowReceive : List SendReceivePattern
  denyReceive : List SendReceivePattern
  deriving DecidableEq, Repr

/-- **An identity**: a user, with a name and groups if they are known. -/
structure Identity where
  uid : UInt32
  userName : Option String
  groupNames : List String
  deriving DecidableEq, Repr

/-- **A policy.** -/
structure Policy where
  rules : List PolicyRule
  deriving DecidableEq, Repr

/-- Whether a text matches a pattern, in which a final `*` stands for
anything. -/
def globMatch (pattern text : String) : Bool :=
  if pattern = "*" then true
  else if pattern.toList.getLast? == some '*' then
    pattern.toList.dropLast.isPrefixOf text.toList
  else pattern == text

namespace SendReceivePattern

/-- A condition of a pattern; what the pattern does not mention holds. -/
def mentions (field : Option String) (cond : String → Bool) : Bool :=
  match field with
  | none => true
  | some s => cond s

/-- Whether a message is of the type a pattern names; an unknown name stands
for any type. -/
def matchesType (msg : Message) (type : String) : Bool :=
  if type = "method_call" then msg.messageType == .methodCall
  else if type = "method_return" then msg.messageType == .methodReturn
  else if type = "signal" then msg.messageType == .signal
  else if type = "error" then msg.messageType == .error
  else true

/-- **Whether a message to or from another party matches the pattern.** -/
def «matches» (pat : SendReceivePattern) (msg : Message) (otherParty : Option String) : Bool :=
  match pat with
  | destination pat => globMatch pat (otherParty.getD "")
  | full dest iface memb path type =>
    mentions dest (fun d => globMatch d (otherParty.getD "")) &&
    mentions iface (fun i => msg.interface == some i) &&
    mentions memb (fun m => msg.member == some m) &&
    mentions path (fun p => msg.path.map ObjectPath.text == some p) &&
    mentions type (matchesType msg)

end SendReceivePattern

namespace Policy

def isEmpty (policy : Policy) : Bool := policy.rules.isEmpty

/-- Whether a rule of its context applies to an identity. -/
def appliesTo (identity : Identity) (rule : PolicyRule) : Bool :=
  match rule.context with
  | .default => true
  | .user => rule.user == identity.userName || rule.user == some (toString identity.uid.toNat)
  | .group => match rule.group with
    | some g => identity.groupNames.contains g
    | none => false
  | .mandatory => true

/-- The rules of one context that apply to an identity. -/
def inContext (policy : Policy) (identity : Identity) (context : Context) : List PolicyRule :=
  policy.rules.filter fun rule => rule.context == context && appliesTo identity rule

/-- **The rules that apply to an identity**, those for everyone first and the
mandatory ones last. -/
def applicable (policy : Policy) (identity : Identity) : List PolicyRule :=
  policy.inContext identity .default ++ policy.inContext identity .user ++
    policy.inContext identity .group ++ policy.inContext identity .mandatory

/-- **The last rule decides**: each applicable rule can allow and then
deny. -/
def verdict (policy : Policy) (identity : Identity) (allows denies : PolicyRule → Bool) : Bool :=
  if policy.isEmpty then true
  else (policy.applicable identity).foldl (fun verdict rule =>
    if denies rule then false else if allows rule then true else verdict) false

/-- Whether an identity may own a name. -/
def canOwn (policy : Policy) (identity : Identity) (name : String) : Bool :=
  policy.verdict identity (fun rule => rule.allowOwn.any fun p => globMatch p name)
    (fun rule => rule.denyOwn.any fun p => globMatch p name)

/-- **Whether an identity may send a message to a destination.** -/
def canSend (policy : Policy) (identity : Identity) (msg : Message)
    (destination : Option String) : Bool :=
  policy.verdict identity (fun rule => rule.allowSend.any fun p => p.matches msg destination)
    (fun rule => rule.denySend.any fun p => p.matches msg destination)

/-- **Whether an identity may receive a message from a sender.** -/
def canReceive (policy : Policy) (identity : Identity) (msg : Message)
    (sender : Option String) : Bool :=
  policy.verdict identity (fun rule => rule.allowReceive.any fun p => p.matches msg sender)
    (fun rule => rule.denyReceive.any fun p => p.matches msg sender)

end Policy

/-! ## Mediation by security labels -/

def aaClassDbus : UInt8 := 32

def aaDbusSend : UInt32 := 2

def aaDbusReceive : UInt32 := 4

def aaDbusBind : UInt32 := 64

/-- **The kernel's mediation**: whether it is enabled, and what it answers to
a query – allowed and audited, or a failure. -/
structure AppArmor where
  isEnabled : Bool
  queryLabel : UInt32 → List UInt8 → Option (Bool × Bool)

namespace AppArmor

/-- The parts of a query up to the last one that is there. -/
def trimParts (parts : List (Option String)) : List (Option String) :=
  (parts.reverse.dropWhile Option.isNone).reverse

/-- The bytes of a query. -/
def buildQuery (con bustype : String) (name dstCon path interface member : Option String) :
    List UInt8 :=
  [0, 0, 0, 0, 0, 0] ++ asBytes con ++ [0, aaClassDbus] ++ asBytes bustype ++
    (trimParts [name, dstCon, path, interface, member]).flatMap fun part =>
      0 :: asBytes (part.getD "")

/-- **Whether the kernel permits an operation.** What is not confined is, and
what cannot be asked is. -/
def checkPermission (aa : AppArmor) (mask : UInt32) (con dstCon : Option String)
    (bustype : String) (name path interface member : Option String) : Bool :=
  if !aa.isEnabled then true
  else
    let con := con.getD "unconfined"
    if con = "unconfined" then true
    else
      match aa.queryLabel mask (buildQuery con bustype name dstCon path interface member) with
      | some (allowed, _) => allowed
      | none => true

end AppArmor

end Oxibus
