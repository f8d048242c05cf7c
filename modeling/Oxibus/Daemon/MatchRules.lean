import Oxibus.Core.Names
import Oxibus.Core.Message

/-!
# Match rules

A connection asks for broadcasts by match rules: conditions on the kind,
the fields and the first arguments of a message, written as
`key='value'` pairs. A rule remembers its text, by which it is removed.

The tokenizer goes through the bytes of the text. A quote inside a value is
written as the four characters quote, backslash, quote, quote; every other
byte of a value stands for the character with that number.
-/

namespace Oxibus

/-- **A match rule.** What is not asked for is `none` or empty. -/
structure MatchRule where
  messageType : Option MessageType
  sender : Option String
  interface : Option String
  member : Option String
  path : Option String
  pathNamespace : Option String
  destination : Option String
  args : List (ℕ × String)
  argPaths : List (ℕ × String)
  arg0namespace : Option String
  eavesdrop : Bool
  /-- The text of the rule. -/
  raw : String
  deriving DecidableEq, Repr

/-- An operation on match rules that can fail with a message. -/
abbrev RuleResult (α : Type) : Type := Outcome String α

/-! ## Parsing -/

/-- The rest of a quoted value, after its opening quote, and what follows
the closing one. -/
def readQuoted : List UInt8 → List Char → RuleResult (String × List UInt8)
  | [], _ => .err "unterminated quoted value in match rule"
  | 39 :: 92 :: 39 :: 39 :: rest, value => readQuoted rest (value ++ ['\''])
  | 39 :: 92 :: 39 :: _, _ => .err "malformed escaped quote in match rule"
  | 39 :: rest, value => .ok (String.ofList value, rest)
  | b :: rest, value => readQuoted rest (value ++ [Char.ofNat b.toNat])

/-- The pairs of a rule's text. The fuel is the number of pairs that can
still come. -/
def tokenizeFrom : ℕ → List UInt8 → RuleResult (List (String × String))
  | _, [] => .ok []
  | 0, _ :: _ => .diverge
  | fuel + 1, bytes =>
    let (key, rest) := bytes.span (· != 61)
    match rest with
    | [] => .err "match rule missing '=' after key"
    | _ :: 39 :: rest => do
      let (value, rest) ← readQuoted rest []
      let pairs ← tokenizeFrom fuel (match rest with
        | 44 :: rest => rest
        | rest => rest)
      .ok (((fromUtf8 key).getD "", value) :: pairs)
    | _ => .err "match rule value must be single-quoted"

/-- **The pairs of a rule's text.** Each takes at least one byte. -/
def tokenize (s : String) : RuleResult (List (String × String)) :=
  tokenizeFrom (asBytes s).length (asBytes s)

/-- Remove a prefix as often as it is there: `trim_start_matches`. -/
def trimStartMatches (pre : List Char) : ℕ → List Char → List Char
  | 0, cs => cs
  | fuel + 1, cs =>
    if pre.isPrefixOf cs ∧ pre ≠ [] then trimStartMatches pre fuel (cs.drop pre.length) else cs

/-- Remove a suffix as often as it is there: `trim_end_matches`. -/
def trimEndMatches (suf cs : List Char) : List Char :=
  (trimStartMatches suf.reverse cs.length cs.reverse).reverse

/-- The number of a decimal numeral, after an optional `+`, if it fits in 64
bits. -/
def parseUsize (cs : List Char) : Option ℕ :=
  let digits := match cs with
    | '+' :: rest => rest
    | cs => cs
  if digits.isEmpty ∨ digits.any (fun c => !c.isDigit) then none
  else
    let n := Nat.ofDigitChars 10 digits 0
    if n < 2 ^ 64 then some n else none

/-- The index an `arg` key names. -/
def argIndex (key : String) (digits : List Char) : RuleResult ℕ :=
  match parseUsize digits with
  | none => .err ("invalid match rule key '" ++ key ++ "'")
  | some idx => if 63 < idx then .err "arg index must be 0..63" else .ok idx

/-- The message type a rule names. -/
def ruleType (value : String) : RuleResult MessageType :=
  if value = "signal" then .ok .signal
  else if value = "method_call" then .ok .methodCall
  else if value = "method_return" then .ok .methodReturn
  else if value = "error" then .ok .error
  else .err ("invalid match rule type '" ++ value ++ "'")

namespace MatchRule

/-- A rule that asks for nothing. -/
def empty (raw : String) : MatchRule :=
  ⟨none, none, none, none, none, none, none, [], [], none, false, raw⟩

/-- A rule with one more pair. -/
def addPair (rule : MatchRule) (key value : String) : RuleResult MatchRule :=
  if key = "type" then do
    let t ← ruleType value
    .ok { rule with messageType := some t }
  else if key = "sender" then .ok { rule with sender := some value }
  else if key = "interface" then .ok { rule with interface := some value }
  else if key = "member" then .ok { rule with member := some value }
  else if key = "path" then .ok { rule with path := some value }
  else if key = "path_namespace" then .ok { rule with pathNamespace := some value }
  else if key = "destination" then .ok { rule with destination := some value }
  else if key = "eavesdrop" then .ok { rule with eavesdrop := value == "true" }
  else if key = "arg0namespace" then .ok { rule with arg0namespace := some value }
  else if "arg".toList.isPrefixOf key.toList then
    let digits := trimStartMatches "arg".toList key.length key.toList
    if "path".toList.isSuffixOf key.toList then do
      let idx ← argIndex key (trimEndMatches "path".toList digits)
      .ok { rule with argPaths := rule.argPaths ++ [(idx, value)] }
    else do
      let idx ← argIndex key digits
      .ok { rule with args := rule.args ++ [(idx, value)] }
  else .err ("unknown match rule key '" ++ key ++ "'")

/-- A rule with more pairs. -/
def addPairs : MatchRule → List (String × String) → RuleResult MatchRule
  | rule, [] => .ok rule
  | rule, (key, value) :: pairs => do
    let rule ← rule.addPair key value
    rule.addPairs pairs

end MatchRule

/-- **The rule of a text.** -/
def parseMatchRule (s : String) : RuleResult MatchRule := do
  let pairs ← tokenize s
  (MatchRule.empty s).addPairs pairs

/-! ## Matching -/

/-- Whether one path is the other or lies above or below it. -/
def isPathParentOrChild (p1 p2 : String) : Bool :=
  p1 == p2 || p1 == "/" || p2 == "/" || (p2 ++ "/").toList.isPrefixOf p1.toList ||
    (p1 ++ "/").toList.isPrefixOf p2.toList

/-- The text of an argument. -/
def valueAsStr (msg : Message) (idx : ℕ) : Option String :=
  msg.body[idx]?.bind fun v => v.unwrapVariant.asStr

namespace MatchRule

/-- A condition that is not asked for holds. -/
def asks {α : Type} (field : Option α) (cond : α → Bool) : Bool :=
  match field with
  | none => true
  | some a => cond a

/-- Whether a message comes from the sender a rule names, directly or as the
owner of a well-known name. -/
def matchesSender (msg : Message) (resolveOwner : String → Option String) (sender : String) :
    Bool :=
  let actual := msg.sender.getD ""
  actual == sender || (!startsWithColon sender && resolveOwner sender == some actual)

/-- **Whether a message matches a rule.** -/
def «matches» (rule : MatchRule) (msg : Message) (resolveOwner : String → Option String) : Bool :=
  asks rule.messageType (fun t => msg.messageType == t) &&
  asks rule.sender (matchesSender msg resolveOwner) &&
  asks rule.interface (fun iface => msg.interface == some iface) &&
  asks rule.member (fun member => msg.member == some member) &&
  asks rule.path (fun path => msg.path.map ObjectPath.text == some path) &&
  asks rule.pathNamespace (fun ns => (msg.path.map fun p => p.isWithinNamespace ns).getD false) &&
  asks rule.destination (fun dest => msg.destination == some dest) &&
  rule.args.all (fun (idx, expected) => valueAsStr msg idx == some expected) &&
  rule.argPaths.all (fun (idx, expected) =>
    ((valueAsStr msg idx).map fun val => isPathParentOrChild val expected).getD false) &&
  asks rule.arg0namespace (fun ns =>
    ((valueAsStr msg 0).map fun val =>
      val == ns || (ns ++ ".").toList.isPrefixOf val.toList).getD false)

end MatchRule

end Oxibus
