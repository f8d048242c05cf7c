import Oxibus.Daemon.Policy
import Oxibus.Daemon.XmlTokens

/-!
# Policies from XML documents

A document gives one rule for each `<allow>` or `<deny>` with an attribute
that is known, inside a `<policy>`. The tag of the policy says whom the rules
are for: everyone, a user, a group. What it does not say, or says in a way
that is not known, is taken for everyone.

Every rule is traced back to its element and the tag of its policy
(`parseXmlPolicy_eq`); that tells for which documents nothing but a policy for
everyone makes rules for everyone.
-/

namespace Oxibus

namespace Xml

/-- Whom the rules of a policy are for. -/
structure PolicyContext where
  context : Context
  user : Option String
  group : Option String
  deriving DecidableEq, Repr

/-- **Whom a `<policy>` tag is for.** -/
def policyContext (attrs : Attrs) : PolicyContext :=
  match attrs.get "context" with
  | some c =>
    ⟨if c = "default" then .default else if c = "mandatory" then .mandatory else .default,
      none, none⟩
  | none =>
    match attrs.get "user" with
    | some u => ⟨.user, some u, none⟩
    | none =>
      match attrs.get "group" with
      | some g => ⟨.group, none, some g⟩
      | none => ⟨.default, none, none⟩

/-- The pattern of the names that may be owned. -/
def ownPattern (attrs : Attrs) : Option String :=
  match attrs.get "own" with
  | some own => some own
  | none => (attrs.get "own_prefix").map fun pre => pre ++ "*"

/-- The attributes about messages in one direction. -/
structure DirectionNames where
  party : String
  partyPrefix : String
  interface : String
  member : String
  path : String
  type : String

def sendNames : DirectionNames :=
  ⟨"send_destination", "send_destination_prefix", "send_interface", "send_member", "send_path",
    "send_type"⟩

def recvNames : DirectionNames :=
  ⟨"recv_sender", "recv_sender_prefix", "recv_interface", "recv_member", "recv_path", "recv_type"⟩

/-- **The pattern of the messages in one direction**, if an attribute is about
them. -/
def messagePattern (names : DirectionNames) (attrs : Attrs) : Option SendReceivePattern :=
  let party := attrs.get names.party
  let partyPrefix := attrs.get names.partyPrefix
  let interface := attrs.get names.interface
  let member := attrs.get names.member
  let path := attrs.get names.path
  let type := attrs.get names.type
  if party.isSome || partyPrefix.isSome || interface.isSome || member.isSome || path.isSome ||
      type.isSome then
    some (.full (party.or (partyPrefix.map fun pre => pre ++ "*")) interface member path type)
  else none

/-- **The rule of an `<allow>` or `<deny>`**; none if no attribute is known. -/
def elementRule (current : PolicyContext) (isAllow : Bool) (attrs : Attrs) : Option PolicyRule :=
  let own := ownPattern attrs
  let send := messagePattern sendNames attrs
  let recv := messagePattern recvNames attrs
  if own.isSome || send.isSome || recv.isSome then
    some {
      context := current.context
      user := current.user
      group := current.group
      allowOwn := if isAllow then own.toList else []
      denyOwn := if isAllow then [] else own.toList
      allowSend := if isAllow then send.toList else []
      denySend := if isAllow then [] else send.toList
      allowReceive := if isAllow then recv.toList else []
      denyReceive := if isAllow then [] else recv.toList }
  else none

/-- The rule of a tag inside a policy. The code for a tag that is closed at once
is the same as for one that is not. -/
def tagRule (current : Option PolicyContext) (name : String) (attrs : Attrs) :
    Option PolicyRule :=
  if name = "allow" ∨ name = "deny" then
    current.bind fun current => elementRule current (name == "allow") attrs
  else none

/-- The rules of the tokens that are left, inside a policy or outside. -/
def parseTokens : Option PolicyContext → List XmlToken → List PolicyRule
  | _, [] => []
  | current, .startTag name attrs :: tokens =>
    if name = "policy" then parseTokens (some (policyContext attrs)) tokens
    else (tagRule current name attrs).toList ++ parseTokens current tokens
  | current, .endTag name :: tokens =>
    parseTokens (if name = "policy" then none else current) tokens
  | current, .selfClosingTag name attrs :: tokens =>
    (tagRule current name attrs).toList ++ parseTokens current tokens

/-- **The rules of a document.** -/
def parseXmlPolicy (xml : String) : List PolicyRule := parseTokens none (tokenizeXml xml)

/-! ## Where rules come from -/

/-- **An `<allow>` or `<deny>` element** inside a policy, with the attributes of
the policy's tag. -/
structure XmlElement where
  policy : Attrs
  isAllow : Bool
  attrs : Attrs
  deriving DecidableEq, Repr

/-- The rule of an element. -/
def XmlElement.rule (e : XmlElement) : Option PolicyRule :=
  elementRule (policyContext e.policy) e.isAllow e.attrs

/-- The element of a tag. -/
def tagElement (policy : Option Attrs) (name : String) (attrs : Attrs) : Option XmlElement :=
  if name = "allow" ∨ name = "deny" then
    policy.map fun policy => ⟨policy, name == "allow", attrs⟩
  else none

/-- The elements of the tokens that are left. -/
def elementsOf : Option Attrs → List XmlToken → List XmlElement
  | _, [] => []
  | policy, .startTag name attrs :: tokens =>
    if name = "policy" then elementsOf (some attrs) tokens
    else (tagElement policy name attrs).toList ++ elementsOf policy tokens
  | policy, .endTag name :: tokens =>
    elementsOf (if name = "policy" then none else policy) tokens
  | policy, .selfClosingTag name attrs :: tokens =>
    (tagElement policy name attrs).toList ++ elementsOf policy tokens

/-- **The elements of a document**, in order. -/
def elements (xml : String) : List XmlElement := elementsOf none (tokenizeXml xml)

theorem tagRule_eq (policy : Option Attrs) (name : String) (attrs : Attrs) :
    (tagRule (policy.map policyContext) name attrs).toList
      = (tagElement policy name attrs).toList.filterMap XmlElement.rule := by
  unfold tagRule tagElement
  split
  · cases policy with
    | none => rfl
    | some policy =>
      show (elementRule (policyContext policy) (name == "allow") attrs).toList
        = List.filterMap XmlElement.rule [⟨policy, name == "allow", attrs⟩]
      cases hrule : XmlElement.rule ⟨policy, name == "allow", attrs⟩ with
      | none =>
        rw [List.filterMap_cons_none hrule, show elementRule _ _ _ = none from hrule]
        rfl
      | some rule =>
        rw [List.filterMap_cons_some hrule, show elementRule _ _ _ = some rule from hrule]
        rfl
  · rfl

theorem parseTokens_eq (policy : Option Attrs) (tokens : List XmlToken) :
    parseTokens (policy.map policyContext) tokens
      = (elementsOf policy tokens).filterMap XmlElement.rule := by
  induction tokens generalizing policy with
  | nil => rfl
  | cons token tokens ih =>
    cases token with
    | startTag name attrs =>
      unfold parseTokens elementsOf
      split
      · exact ih (some attrs)
      · rw [List.filterMap_append, ih policy, tagRule_eq]
    | endTag name =>
      unfold parseTokens elementsOf
      split
      · exact ih none
      · exact ih policy
    | selfClosingTag name attrs =>
      unfold parseTokens elementsOf
      rw [List.filterMap_append, ih policy, tagRule_eq]

/-- **Every rule is the rule of an element**, in the order of the document. -/
theorem parseXmlPolicy_eq (xml : String) :
    parseXmlPolicy xml = (elements xml).filterMap XmlElement.rule :=
  parseTokens_eq none (tokenizeXml xml)

/-- The rule of an element is for whom its policy is for. -/
theorem XmlElement.rule_context {e : XmlElement} {rule : PolicyRule} (h : e.rule = some rule) :
    (⟨rule.context, rule.user, rule.group⟩ : PolicyContext) = policyContext e.policy := by
  unfold XmlElement.rule elementRule at h
  dsimp only at h
  split at h
  · rw [← Option.some.inj h]
  · cases h

/-! ## Rules for everyone -/

/-- Whether a `<policy>` tag selects its identities in a way that is known: a
context for everyone, a user or a group. -/
def selected (policy : Attrs) : Bool :=
  match policy.get "context" with
  | some c => c == "default" || c == "mandatory"
  | none => (policy.get "user").isSome || (policy.get "group").isSome

/-- **Only default policies apply to everyone**: a rule in the default context
is of an element in a `<policy context="default">`, and a policy that is
selected in no known way gives no rule that applies to everyone. -/
def OnlyDefaultsForEveryone (xml : String) : Prop :=
  ∀ e ∈ elements xml, ∀ rule, e.rule = some rule →
    (rule.context = .default → e.policy.get "context" = some "default") ∧
    (selected e.policy = false → ¬ ∀ identity, Policy.appliesTo identity rule = true)

/-- A policy that is selected in no known way is taken for everyone. -/
theorem policyContext_of_not_selected {policy : Attrs} (h : selected policy = false) :
    policyContext policy = ⟨.default, none, none⟩ := by
  unfold selected at h
  unfold policyContext
  cases hcontext : policy.get "context" with
  | some c =>
    rw [hcontext] at h
    obtain ⟨hdefault, hmandatory⟩ := Bool.or_eq_false_iff.mp h
    show PolicyContext.mk (if c = "default" then _ else _) _ _ = _
    rw [if_neg (beq_eq_false_iff_ne.mp hdefault), if_neg (beq_eq_false_iff_ne.mp hmandatory)]
  | none =>
    rw [hcontext] at h
    obtain ⟨huser, hgroup⟩ := Bool.or_eq_false_iff.mp h
    rw [Option.isSome_eq_false_iff, Option.isNone_iff_eq_none] at huser hgroup
    rw [huser, hgroup]

/-- One that is selected in a known way is for everyone by its context only. -/
theorem context_of_selected {policy : Attrs} (h : selected policy = true)
    (hdefault : (policyContext policy).context = .default) :
    policy.get "context" = some "default" := by
  unfold selected at h
  unfold policyContext at hdefault
  cases hcontext : policy.get "context" with
  | some c =>
    rw [hcontext] at h hdefault
    by_cases hc : c = "default"
    · rw [hc]
    · have hmandatory : c = "mandatory" := by simpa [hc] using h
      rw [hmandatory] at hdefault
      simp at hdefault
  | none =>
    rw [hcontext] at h hdefault
    cases huser : policy.get "user" with
    | some u =>
      rw [huser] at hdefault
      cases hdefault
    | none =>
      cases hgroup : policy.get "group" with
      | some g =>
        rw [huser, hgroup] at hdefault
        cases hdefault
      | none =>
        rw [huser, hgroup] at h
        cases h

/-- **Only default policies apply to everyone, exactly when** every element that
gives a rule is in a policy that is selected in a known way: a context that
is `default` or `mandatory`, or no context and a user or a group. -/
theorem onlyDefaultsForEveryone_iff (xml : String) : OnlyDefaultsForEveryone xml ↔
    ∀ e ∈ elements xml, e.rule.isSome = true → selected e.policy = true := by
  constructor
  · intro h e he hrule
    obtain ⟨rule, hrule⟩ := Option.isSome_iff_exists.mp hrule
    by_contra hselected
    have hselected : selected e.policy = false := Bool.eq_false_iff.mpr hselected
    have hcontext := XmlElement.rule_context hrule
    rw [policyContext_of_not_selected hselected] at hcontext
    have hdefault : rule.context = .default := congrArg PolicyContext.context hcontext
    refine (h e he rule hrule).2 hselected fun identity => ?_
    unfold Policy.appliesTo
    rw [hdefault]
  · intro h e he rule hrule
    have hselected := h e he (by rw [hrule]; rfl)
    refine ⟨fun hdefault => ?_, fun hnot => ?_⟩
    · refine context_of_selected hselected ?_
      rw [← XmlElement.rule_context hrule]
      exact hdefault
    · rw [hselected] at hnot
      cases hnot

/-- A policy for those who sit at the console. -/
def consoleXml : String :=
  "<busconfig>\n  <policy at_console=\"true\">\n    <allow own=\"a.b\"/>\n  </policy>\n</busconfig>"

/-- **It is taken for a policy for everyone.** -/
theorem onlyDefaultsForEveryone_consoleXml : ¬ ∀ xml, OnlyDefaultsForEveryone xml := by
  intro h
  have helement : (⟨[("at_console", "true")], true, [("own", "a.b")]⟩ : XmlElement)
      ∈ elements consoleXml := by decide +kernel
  have hcontext := (h consoleXml _ helement _ rfl).1 rfl
  exact absurd hcontext (by decide)

end Xml

end Oxibus
