import Oxibus.Daemon.XmlPieces

/-!
# Two forms of one element

An element can be closed at once, `<allow …/>`, or by an end tag,
`<allow …></allow>`. The parser has a branch for either form, each with the
whole translation of the attributes: the pattern of the names, the patterns of
messages sent and received, and whether anything was found at all.

Both branches give the same rule (`startTagRule_eq`, `selfClosingTagRule_eq`),
and the end tag of an element means nothing to the parser. A document can thus
be rewritten from one form to the other, element by element, and keeps its
rules and their order (`sameForms_rules`).
-/

namespace Oxibus

namespace Xml

/-! ## The two branches -/

/-- **The rule of a start tag.** -/
def startTagRule (current : Option PolicyContext) (name : String) (attrs : Attrs) :
    Option PolicyRule :=
  if name = "allow" ∨ name = "deny" then
    match current with
    | none => none
    | some ctx =>
      let isAllow := name == "allow"
      let rule : PolicyRule := ⟨ctx.context, ctx.user, ctx.group, [], [], [], [], [], []⟩
      let hasApplied := false
      let (rule, hasApplied) :=
        match attrs.get "own" with
        | some own =>
          (if isAllow then { rule with allowOwn := rule.allowOwn ++ [own] }
            else { rule with denyOwn := rule.denyOwn ++ [own] }, true)
        | none =>
          match attrs.get "own_prefix" with
          | some ownPrefix =>
            let pat := ownPrefix ++ "*"
            (if isAllow then { rule with allowOwn := rule.allowOwn ++ [pat] }
              else { rule with denyOwn := rule.denyOwn ++ [pat] }, true)
          | none => (rule, hasApplied)
      let sendDestination := attrs.get "send_destination"
      let sendDestinationPrefix := attrs.get "send_destination_prefix"
      let sendInterface := attrs.get "send_interface"
      let sendMember := attrs.get "send_member"
      let sendPath := attrs.get "send_path"
      let sendType := attrs.get "send_type"
      let (rule, hasApplied) :=
        if sendDestination.isSome || sendDestinationPrefix.isSome || sendInterface.isSome ||
            sendMember.isSome || sendPath.isSome || sendType.isSome then
          let dest := sendDestination.or (sendDestinationPrefix.map fun p => p ++ "*")
          let pattern := SendReceivePattern.full dest sendInterface sendMember sendPath sendType
          (if isAllow then { rule with allowSend := rule.allowSend ++ [pattern] }
            else { rule with denySend := rule.denySend ++ [pattern] }, true)
        else (rule, hasApplied)
      let recvSender := attrs.get "recv_sender"
      let recvSenderPrefix := attrs.get "recv_sender_prefix"
      let recvInterface := attrs.get "recv_interface"
      let recvMember := attrs.get "recv_member"
      let recvPath := attrs.get "recv_path"
      let recvType := attrs.get "recv_type"
      let (rule, hasApplied) :=
        if recvSender.isSome || recvSenderPrefix.isSome || recvInterface.isSome ||
            recvMember.isSome || recvPath.isSome || recvType.isSome then
          let sender := recvSender.or (recvSenderPrefix.map fun p => p ++ "*")
          let pattern := SendReceivePattern.full sender recvInterface recvMember recvPath recvType
          (if isAllow then { rule with allowReceive := rule.allowReceive ++ [pattern] }
            else { rule with denyReceive := rule.denyReceive ++ [pattern] }, true)
        else (rule, hasApplied)
      if hasApplied then some rule else none
  else none

/-- **The rule of a tag that is closed at once.** The branch asks for a policy
first, and takes the tag for a start tag then. -/
def selfClosingTagRule (current : Option PolicyContext) (name : String) (attrs : Attrs) :
    Option PolicyRule :=
  if (name = "allow" ∨ name = "deny") ∧ current.isSome = true then
    match XmlToken.startTag name attrs, current with
    | .startTag name attrs, some ctx =>
      let isAllow := name == "allow"
      let rule : PolicyRule := ⟨ctx.context, ctx.user, ctx.group, [], [], [], [], [], []⟩
      let hasApplied := false
      let (rule, hasApplied) :=
        match attrs.get "own" with
        | some own =>
          (if isAllow then { rule with allowOwn := rule.allowOwn ++ [own] }
            else { rule with denyOwn := rule.denyOwn ++ [own] }, true)
        | none =>
          match attrs.get "own_prefix" with
          | some ownPrefix =>
            let pat := ownPrefix ++ "*"
            (if isAllow then { rule with allowOwn := rule.allowOwn ++ [pat] }
              else { rule with denyOwn := rule.denyOwn ++ [pat] }, true)
          | none => (rule, hasApplied)
      let sendDestination := attrs.get "send_destination"
      let sendDestinationPrefix := attrs.get "send_destination_prefix"
      let sendInterface := attrs.get "send_interface"
      let sendMember := attrs.get "send_member"
      let sendPath := attrs.get "send_path"
      let sendType := attrs.get "send_type"
      let (rule, hasApplied) :=
        if sendDestination.isSome || sendDestinationPrefix.isSome || sendInterface.isSome ||
            sendMember.isSome || sendPath.isSome || sendType.isSome then
          let dest := sendDestination.or (sendDestinationPrefix.map fun p => p ++ "*")
          let pattern := SendReceivePattern.full dest sendInterface sendMember sendPath sendType
          (if isAllow then { rule with allowSend := rule.allowSend ++ [pattern] }
            else { rule with denySend := rule.denySend ++ [pattern] }, true)
        else (rule, hasApplied)
      let recvSender := attrs.get "recv_sender"
      let recvSenderPrefix := attrs.get "recv_sender_prefix"
      let recvInterface := attrs.get "recv_interface"
      let recvMember := attrs.get "recv_member"
      let recvPath := attrs.get "recv_path"
      let recvType := attrs.get "recv_type"
      let (rule, hasApplied) :=
        if recvSender.isSome || recvSenderPrefix.isSome || recvInterface.isSome ||
            recvMember.isSome || recvPath.isSome || recvType.isSome then
          let sender := recvSender.or (recvSenderPrefix.map fun p => p ++ "*")
          let pattern := SendReceivePattern.full sender recvInterface recvMember recvPath recvType
          (if isAllow then { rule with allowReceive := rule.allowReceive ++ [pattern] }
            else { rule with denyReceive := rule.denyReceive ++ [pattern] }, true)
        else (rule, hasApplied)
      if hasApplied then some rule else none
    | _, _ => none
  else none

/-- The rules of the tokens that are left, each tag by its own branch. -/
def parseXmlTokens : Option PolicyContext → List XmlToken → List PolicyRule
  | _, [] => []
  | current, .startTag name attrs :: tokens =>
    if name = "policy" then parseXmlTokens (some (policyContext attrs)) tokens
    else (startTagRule current name attrs).toList ++ parseXmlTokens current tokens
  | current, .endTag name :: tokens =>
    parseXmlTokens (if name = "policy" then none else current) tokens
  | current, .selfClosingTag name attrs :: tokens =>
    (selfClosingTagRule current name attrs).toList ++ parseXmlTokens current tokens

/-- A rule, and whether anything was found for it. -/
abbrev Translation : Type := PolicyRule × Bool

namespace Translation

variable (isAllow : Bool)

/-- A pattern of names is found. -/
def pushOwn (own : String) (found : Translation) : Translation :=
  (if isAllow then { found.1 with allowOwn := found.1.allowOwn ++ [own] }
    else { found.1 with denyOwn := found.1.denyOwn ++ [own] }, true)

/-- A pattern of messages sent is found. -/
def pushSend (send : SendReceivePattern) (found : Translation) : Translation :=
  (if isAllow then { found.1 with allowSend := found.1.allowSend ++ [send] }
    else { found.1 with denySend := found.1.denySend ++ [send] }, true)

/-- A pattern of messages received is found. -/
def pushReceive (recv : SendReceivePattern) (found : Translation) : Translation :=
  (if isAllow then { found.1 with allowReceive := found.1.allowReceive ++ [recv] }
    else { found.1 with denyReceive := found.1.denyReceive ++ [recv] }, true)

/-- What there may be of a pattern. -/
def add {α : Type} (push : α → Translation → Translation) (pattern : Option α)
    (found : Translation) : Translation :=
  match pattern with
  | some pattern => push pattern found
  | none => found

theorem add_ownPattern (push : String → Translation → Translation) (attrs : Attrs)
    (found : Translation) : add push (ownPattern attrs) found
      = match attrs.get "own" with
        | some own => push own found
        | none =>
          match attrs.get "own_prefix" with
          | some ownPrefix => push (ownPrefix ++ "*") found
          | none => found := by
  unfold ownPattern
  cases attrs.get "own" with
  | some own => rfl
  | none => cases attrs.get "own_prefix" <;> rfl

theorem add_messagePattern (push : SendReceivePattern → Translation → Translation)
    (names : DirectionNames) (attrs : Attrs) (found : Translation) :
    add push (messagePattern names attrs) found
      = if (attrs.get names.party).isSome || (attrs.get names.partyPrefix).isSome ||
            (attrs.get names.interface).isSome || (attrs.get names.member).isSome ||
            (attrs.get names.path).isSome || (attrs.get names.type).isSome then
          push (.full ((attrs.get names.party).or
              ((attrs.get names.partyPrefix).map fun p => p ++ "*"))
            (attrs.get names.interface) (attrs.get names.member) (attrs.get names.path)
            (attrs.get names.type)) found
        else found := by
  unfold messagePattern
  dsimp only
  split
  · rfl
  · rfl

/-- **The three parts of an element make its rule.** -/
theorem elementRule_eq_add (ctx : PolicyContext) (attrs : Attrs) :
    elementRule ctx isAllow attrs
      = let found := add (pushReceive isAllow) (messagePattern recvNames attrs)
          (add (pushSend isAllow) (messagePattern sendNames attrs)
            (add (pushOwn isAllow) (ownPattern attrs)
              (⟨ctx.context, ctx.user, ctx.group, [], [], [], [], [], []⟩, false)))
        if found.2 then some found.1 else none := by
  unfold elementRule
  generalize ownPattern attrs = own
  generalize messagePattern sendNames attrs = send
  generalize messagePattern recvNames attrs = recv
  cases own <;> cases send <;> cases recv <;> cases isAllow <;> rfl

end Translation

/-- **The branch of start tags translates as one.** -/
theorem startTagRule_eq (current : Option PolicyContext) (name : String) (attrs : Attrs) :
    startTagRule current name attrs = tagRule current name attrs := by
  unfold startTagRule tagRule
  split
  · cases current with
    | none => rfl
    | some ctx =>
      rw [Option.bind_some, Translation.elementRule_eq_add, Translation.add_ownPattern,
        Translation.add_messagePattern, Translation.add_messagePattern]
      rfl
  · rfl

/-- **The other branch translates as this one.** -/
theorem selfClosingTagRule_eq (current : Option PolicyContext) (name : String) (attrs : Attrs) :
    selfClosingTagRule current name attrs = startTagRule current name attrs := by
  cases current with
  | none =>
    unfold selfClosingTagRule startTagRule
    rw [if_neg fun h => Bool.false_ne_true h.2]
    split
    · rfl
    · rfl
  | some ctx =>
    by_cases hname : name = "allow" ∨ name = "deny"
    · unfold selfClosingTagRule startTagRule
      rw [if_pos ⟨hname, rfl⟩, if_pos hname]
    · unfold selfClosingTagRule startTagRule
      rw [if_neg fun h => hname h.1, if_neg hname]

/-- The rules of a document are those of its tokens, each by its own branch. -/
theorem parseXmlTokens_eq (current : Option PolicyContext) (tokens : List XmlToken) :
    parseXmlTokens current tokens = parseTokens current tokens := by
  induction tokens generalizing current with
  | nil => rfl
  | cons token tokens ih =>
    cases token with
    | startTag name attrs =>
      rw [parseXmlTokens, parseTokens, ih, ih, startTagRule_eq]
    | endTag name => rw [parseXmlTokens, parseTokens, ih]
    | selfClosingTag name attrs =>
      rw [parseXmlTokens, parseTokens, ih, selfClosingTagRule_eq, startTagRule_eq]

/-! ## Tokens in either form -/

/-- The names of the elements that make rules. -/
def IsRuleName (name : String) : Prop := name = "allow" ∨ name = "deny"

/-- **The same tokens but for the form of the elements that make rules**: some
that are closed at once have an end tag instead, and the other way around. -/
inductive SameForms : List XmlToken → List XmlToken → Prop where
  | nil : SameForms [] []
  | keep (token : XmlToken) {ts us : List XmlToken} : SameForms ts us →
      SameForms (token :: ts) (token :: us)
  | expand {name : String} (attrs : Attrs) {ts us : List XmlToken} : IsRuleName name →
      SameForms ts us →
      SameForms (.selfClosingTag name attrs :: ts) (.startTag name attrs :: .endTag name :: us)
  | collapse {name : String} (attrs : Attrs) {ts us : List XmlToken} : IsRuleName name →
      SameForms ts us →
      SameForms (.startTag name attrs :: .endTag name :: ts) (.selfClosingTag name attrs :: us)

theorem IsRuleName.ne_policy {name : String} (h : IsRuleName name) : name ≠ "policy" := by
  rcases h with rfl | rfl <;> decide

/-- An element with an end tag has the rule it has when it is closed at once. -/
theorem parseXmlTokens_expand {name : String} (h : IsRuleName name)
    (current : Option PolicyContext) (attrs : Attrs) (tokens : List XmlToken) :
    parseXmlTokens current (.startTag name attrs :: .endTag name :: tokens)
      = parseXmlTokens current (.selfClosingTag name attrs :: tokens) := by
  rw [parseXmlTokens, if_neg h.ne_policy, parseXmlTokens, if_neg h.ne_policy, parseXmlTokens,
    selfClosingTagRule_eq]

/-- **The form of elements does not matter for the rules.** -/
theorem SameForms.rules {ts us : List XmlToken} (h : SameForms ts us)
    (current : Option PolicyContext) : parseXmlTokens current ts = parseXmlTokens current us := by
  induction h generalizing current with
  | nil => rfl
  | keep token _ ih =>
    cases token with
    | startTag name attrs => rw [parseXmlTokens, parseXmlTokens, ih, ih]
    | endTag name => rw [parseXmlTokens, parseXmlTokens, ih]
    | selfClosingTag name attrs => rw [parseXmlTokens, parseXmlTokens, ih]
  | expand attrs hname _ ih =>
    rw [parseXmlTokens_expand hname, parseXmlTokens, parseXmlTokens, ih]
  | collapse attrs hname _ ih =>
    rw [parseXmlTokens_expand hname, parseXmlTokens, parseXmlTokens, ih]

theorem SameForms.refl (ts : List XmlToken) : SameForms ts ts := by
  induction ts with
  | nil => exact .nil
  | cons token ts ih => exact .keep token ih

theorem SameForms.append_left (toks : List XmlToken) {ts us : List XmlToken}
    (h : SameForms ts us) : SameForms (toks ++ ts) (toks ++ us) := by
  induction toks with
  | nil => exact h
  | cons token toks ih => exact .keep token ih

/-! ## Documents in either form -/

/-- An element that is closed at once. -/
def closedAtOnce (name : String) (attrs : List Char) : List Char :=
  '<' :: (name.toList ++ (attrs ++ ['/', '>']))

/-- The element with an end tag. -/
def withEndTag (name : String) (attrs : List Char) : List Char :=
  '<' :: (name.toList ++ (attrs ++ ['>'])) ++ ("</".toList ++ (name.toList ++ ['>']))

/-- **The same document but for the form of the elements that make rules.**
Everything else is in whole pieces, up to a rest that is the same. -/
inductive SameDocs : List Char → List Char → Prop where
  | rest (cs : List Char) : SameDocs cs cs
  | piece {p d e : List Char} : Piece p → SameDocs d e → SameDocs (p ++ d) (p ++ e)
  | expand {name : String} {attrs d e : List Char} : IsRuleName name →
      (∀ c ∈ attrs.head?, isWhitespace c = true) → AttrsText attrs → SameDocs d e →
      SameDocs (closedAtOnce name attrs ++ d) (withEndTag name attrs ++ e)
  | collapse {name : String} {attrs d e : List Char} : IsRuleName name →
      (∀ c ∈ attrs.head?, isWhitespace c = true) → AttrsText attrs → SameDocs d e →
      SameDocs (withEndTag name attrs ++ d) (closedAtOnce name attrs ++ e)

/-- **Both forms of an element have the same name and attributes.** -/
theorem exists_tokens_forms {name : String} {attrs : List Char} (hname : IsRuleName name)
    (hspace : ∀ c ∈ attrs.head?, isWhitespace c = true) (hattrs : AttrsText attrs) :
    ∃ as, (∀ rest, tokens (closedAtOnce name attrs ++ rest)
          = .selfClosingTag name as :: tokens rest) ∧
      ∀ rest, tokens (withEndTag name attrs ++ rest)
          = .startTag name as :: .endTag name :: tokens rest := by
  have hplain : PlainTagName name.toList := by
    rcases hname with rfl | rfl
    · decide
    · decide
  obtain ⟨c, cs, hcons, hbang, hslash⟩ : ∃ c cs, name.toList = c :: cs ∧ c ≠ '!' ∧ c ≠ '/' := by
    rcases hname with rfl | rfl
    · exact ⟨'a', "llow".toList, rfl, by decide, by decide⟩
    · exact ⟨'d', "eny".toList, rfl, by decide, by decide⟩
  have htag : Writing.TagName name := ⟨by rw [hcons]; exact List.cons_ne_nil _ _, hplain⟩
  have hhead : ∀ more, (name.toList ++ more).head? ≠ some '/' := by
    intro more
    rw [hcons]
    exact fun h => hslash (Option.some.inj h)
  have hread : ∀ more, tokens ('<' :: (name.toList ++ more))
      = (readTag (name.toList ++ more)).1 :: tokens (readTag (name.toList ++ more)).2 := by
    intro more
    rw [hcons]
    exact tokens_tag hbang
  obtain ⟨as, hbegin⟩ := exists_readTag_attrs hplain hspace hattrs
  refine ⟨as, fun rest => ?_, fun rest => ?_⟩
  · have htext : closedAtOnce name attrs ++ rest
        = '<' :: (name.toList ++ (attrs ++ '/' :: '>' :: rest)) := by
      simp [closedAtOnce]
    rw [htext, hread, hbegin '/' ('>' :: rest) (.inr rfl) (hhead _)]
    show .selfClosingTag (String.ofList name.toList) as :: tokens rest = _
    rw [String.ofList_toList]
  · have htext : withEndTag name attrs ++ rest
        = '<' :: (name.toList ++ (attrs ++ '>' :: '<' :: '/' :: (name.toList ++ '>' :: rest))) := by
      simp [withEndTag]
    rw [htext, hread, hbegin '>' _ (.inl rfl) (hhead _)]
    show .startTag (String.ofList name.toList) as
      :: tokens ('<' :: '/' :: (name.toList ++ '>' :: rest)) = _
    rw [String.ofList_toList, tokens_tag (by decide), htag.readTag_end]

/-- Such documents have the same tokens but for the form of elements. -/
theorem SameDocs.tokens {d e : List Char} (h : SameDocs d e) :
    SameForms (tokens d) (tokens e) := by
  induction h with
  | rest cs => exact .refl _
  | piece hp _ ih =>
    obtain ⟨toks, htoks⟩ := hp.settled
    rw [htoks, htoks]
    exact ih.append_left toks
  | expand hname hspace hattrs _ ih =>
    obtain ⟨as, hclosed, hended⟩ := exists_tokens_forms hname hspace hattrs
    rw [hclosed, hended]
    exact .expand as hname ih
  | collapse hname hspace hattrs _ ih =>
    obtain ⟨as, hclosed, hended⟩ := exists_tokens_forms hname hspace hattrs
    rw [hclosed, hended]
    exact .collapse as hname ih

/-- **Both forms of an element mean the same.** Tokens, and documents, that
differ only in how their `<allow>` and `<deny>` elements are closed have the
same rules in the same order. -/
theorem sameForms_rules :
    (∀ ts us, SameForms ts us → ∀ current,
      parseXmlTokens current ts = parseXmlTokens current us) ∧
      ∀ d e : String, SameDocs d.toList e.toList →
        parseXmlPolicy d = parseXmlPolicy e ∧
          parseXmlPolicy d = parseXmlTokens none (tokenizeXml d) := by
  refine ⟨fun ts us h current => h.rules current, fun d e h => ⟨?_, ?_⟩⟩
  · unfold parseXmlPolicy
    rw [← parseXmlTokens_eq, ← parseXmlTokens_eq]
    exact h.tokens.rules none
  · exact (parseXmlTokens_eq none (tokenizeXml d)).symm

/-- One attribute with its value in quotes. -/
def assignment (name value : String) : List Char :=
  ' ' :: (name.toList ++ '=' :: '"' :: (value.toList ++ ['"']))

theorem attrsText_assignment {name value : String} (hname : PlainAttrName name.toList)
    (hvalue : '"' ∉ value.toList) : AttrsText (assignment name value) := by
  have hgap : Space [' '] := by
    intro c hc
    rw [List.mem_singleton.mp hc]
    rfl
  exact @AttrsText.quoted [' '] name.toList [] [] value.toList [] '"' hgap hname nofun nofun
    (.inl rfl) hvalue (.space nofun)

/-- A policy of one user, whose element is closed at once. -/
def closedPolicy : String := "<policy user=\"alice\"><allow own=\"a.b\"/></policy>"

/-- The same policy with an end tag. -/
def endedPolicy : String := "<policy user=\"alice\"><allow own=\"a.b\"></allow></policy>"

theorem sameDocs_policies : SameDocs closedPolicy.toList endedPolicy.toList := by
  have hspace : ∀ name value, ∀ c ∈ (assignment name value).head?, isWhitespace c = true := by
    intro name value c hc
    cases hc
    rfl
  have huser : AttrsText (assignment "user" "alice") :=
    attrsText_assignment (by decide) (by decide)
  have hown : AttrsText (assignment "own" "a.b") :=
    attrsText_assignment (by decide) (by decide)
  have hpolicy := @Piece.tag [] "policy".toList (assignment "user" "alice") ['>']
    (.plain (by decide)) (by decide) (by decide) (hspace _ _) huser .bracket
  have hclosed : closedPolicy.toList
      = '<' :: ([] ++ ("policy".toList ++ (assignment "user" "alice" ++ ['>']))) ++
        (closedAtOnce "allow" (assignment "own" "a.b") ++ "</policy>".toList) := by decide
  have hended : endedPolicy.toList
      = '<' :: ([] ++ ("policy".toList ++ (assignment "user" "alice" ++ ['>']))) ++
        (withEndTag "allow" (assignment "own" "a.b") ++ "</policy>".toList) := by decide
  rw [hclosed, hended]
  exact .piece hpolicy (.expand (.inl rfl) (hspace _ _) hown (.rest _))

/-- An element in both forms: as tokens, and in a policy that gives one rule. -/
theorem sameForms_rules_allow :
    parseXmlTokens none [.startTag "policy" [], .selfClosingTag "allow" [("own", "a.b")]]
        = parseXmlTokens none
          [.startTag "policy" [], .startTag "allow" [("own", "a.b")], .endTag "allow"] ∧
      parseXmlPolicy closedPolicy
        = [⟨.user, some "alice", none, ["a.b"], [], [], [], [], []⟩] ∧
      parseXmlPolicy closedPolicy = parseXmlPolicy endedPolicy :=
  ⟨sameForms_rules.1 _ _ (.keep _ (.expand _ (.inl rfl) .nil)) none, by decide +kernel,
    (sameForms_rules.2 closedPolicy endedPolicy sameDocs_policies).1⟩

end Xml

end Oxibus
