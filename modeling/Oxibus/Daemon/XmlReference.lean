import Oxibus.Daemon.XmlPolicy
import Oxibus.Daemon.XmlWriting
import Mathlib.Data.List.Nodup

/-!
# The reference's policy elements

What the `<allow>` and `<deny>` elements of the reference daemon's documents
mean, said without rules or patterns: an element applies to an operation when
it has an attribute about it and all of these hold, and the last element that
applies decides (`reference`). A document with these elements in a policy for
everyone is then read by the daemon's parser.

Rules about names and about messages sent keep their meaning. Those about
messages received do not: the parser looks for them under names of its own, so
that no reference document lets anyone receive (`Document.canReceive_eq`).
-/

namespace Oxibus

namespace Xml

/-- What an attribute says of a message. -/
inductive MessageField where
  | party
  | interface
  | member
  | path
  | type
  deriving DecidableEq, Repr

/-- **An attribute of the reference.** -/
inductive RefAttr where
  | own
  | send (field : MessageField)
  | receive (field : MessageField)
  deriving DecidableEq, Repr

/-- The name of an attribute in a document. -/
def RefAttr.name : RefAttr → String
  | own => "own"
  | send .party => "send_destination"
  | send .interface => "send_interface"
  | send .member => "send_member"
  | send .path => "send_path"
  | send .type => "send_type"
  | receive .party => "receive_sender"
  | receive .interface => "receive_interface"
  | receive .member => "receive_member"
  | receive .path => "receive_path"
  | receive .type => "receive_type"

/-- **An operation** that a policy decides. -/
inductive Operation where
  | own (name : String)
  | send (msg : Message) (destination : Option String)
  | receive (msg : Message) (sender : Option String)

/-- Whether a message is as an attribute says. -/
def MessageField.holds (field : MessageField) (value : String) (msg : Message)
    (otherParty : Option String) : Bool :=
  match field with
  | party => globMatch value (otherParty.getD "")
  | interface => msg.interface == some value
  | member => msg.member == some value
  | path => msg.path.map ObjectPath.text == some value
  | type => SendReceivePattern.matchesType msg value

/-- Whether an attribute is about an operation, and then whether the operation
is as it says. -/
def RefAttr.test (attr : RefAttr) (value : String) (op : Operation) : Option Bool :=
  match attr, op with
  | own, .own name => some (globMatch value name)
  | send field, .send msg destination => some (field.holds value msg destination)
  | receive field, .receive msg sender => some (field.holds value msg sender)
  | _, _ => none

/-- **An element of the reference**; no attribute comes twice. -/
structure RefElement where
  isAllow : Bool
  attrs : List (RefAttr × String)
  nodup : (attrs.map Prod.fst).Nodup
  deriving DecidableEq, Repr

namespace RefElement

/-- What the attributes of an element about an operation say. -/
def tests (e : RefElement) (op : Operation) : List Bool :=
  e.attrs.filterMap fun attr => attr.1.test attr.2 op

/-- **Whether an element applies to an operation**: it has an attribute about
it, and all of these hold. -/
def applies (e : RefElement) (op : Operation) : Bool :=
  !(e.tests op).isEmpty && (e.tests op).all id

end RefElement

/-- **What the reference decides**: as the last element that applies, and no
without one. -/
def reference (es : List RefElement) (op : Operation) : Bool :=
  es.foldl (fun verdict e => if e.applies op then e.isAllow else verdict) false

/-- Every `<allow>` that applies to an operation is taken back by a later
`<deny>`. -/
def TakenBack (es : List RefElement) (op : Operation) : Prop :=
  ∀ pre e post, es = pre ++ e :: post → e.isAllow = true → e.applies op = true →
    ∃ d ∈ post, d.isAllow = false ∧ d.applies op = true

/-! ## Documents -/

/-- **An element as it is written**: after some text, with its attributes in
some writing, closed at once or by an end tag. -/
structure WrittenElement where
  element : RefElement
  text : List Char
  text_plain : '<' ∉ text
  writing : Writing
  isSelfClosing : Bool
  values_plain : ∀ attr ∈ element.attrs, writing.quote ∉ attr.2.toList

/-- The tag of an element. -/
def RefElement.tag (e : RefElement) : String := if e.isAllow then "allow" else "deny"

/-- The attributes of an element, by name. -/
def RefElement.named (e : RefElement) : Attrs := e.attrs.map fun attr => (attr.1.name, attr.2)

namespace WrittenElement

/-- The text of an element. -/
def chars (w : WrittenElement) : List Char :=
  w.text ++ '<' :: (w.element.tag.toList ++ (w.writing.attrsText w.element.named ++
    if w.isSelfClosing then ['/', '>']
    else '>' :: '<' :: '/' :: (w.element.tag.toList ++ ['>'])))

/-- The tokens of an element. -/
def tokens (w : WrittenElement) : List XmlToken :=
  if w.isSelfClosing then [.selfClosingTag w.element.tag w.element.named.reverse]
  else [.startTag w.element.tag w.element.named.reverse, .endTag w.element.tag]

end WrittenElement

/-- **A document of the reference**: one policy for everyone, with elements. -/
structure Document where
  writing : Writing
  written : List WrittenElement

namespace Document

/-- The attributes of the policy's tag. -/
def policyAttrs : Attrs := [("context", "default")]

def chars (D : Document) : List Char :=
  "<busconfig><".toList ++ ("policy".toList ++ (D.writing.attrsText policyAttrs ++
    '>' :: (D.written.flatMap WrittenElement.chars ++ "</policy></busconfig>".toList)))

/-- **The text of a document.** -/
def xml (D : Document) : String := String.ofList D.chars

/-- The elements of a document. -/
def elements (D : Document) : List RefElement := D.written.map WrittenElement.element

/-- The policy that is read from a document. -/
def policy (D : Document) : Policy := ⟨parseXmlPolicy D.xml⟩

end Document

/-! ## Reading a document -/

theorem RefAttr.name_injective : Function.Injective RefAttr.name := by
  intro a b h
  cases a with
  | own =>
    cases b with
    | own => rfl
    | send field => cases field <;> exact absurd h (by decide)
    | receive field => cases field <;> exact absurd h (by decide)
  | send f =>
    cases b with
    | own => cases f <;> exact absurd h (by decide)
    | send g => cases f <;> cases g <;> first | rfl | exact absurd h (by decide)
    | receive g => cases f <;> cases g <;> exact absurd h (by decide)
  | receive f =>
    cases b with
    | own => cases f <;> exact absurd h (by decide)
    | send g => cases f <;> cases g <;> exact absurd h (by decide)
    | receive g => cases f <;> cases g <;> first | rfl | exact absurd h (by decide)

/-- What is checked character by character. -/
theorem plain_of_all {p : Char → Bool} {cs : List Char} (h : (cs.all fun c => !p c) = true) :
    ∀ c ∈ cs, p c = false := by
  intro c hc
  exact Bool.not_eq_true' (p c) ▸ List.all_eq_true.mp h c hc

theorem RefAttr.name_plain (attr : RefAttr) :
    attr.name.toList ≠ [] ∧ ∀ c ∈ attr.name.toList, endsAttrName c = false := by
  have hall : attr.name.toList ≠ [] ∧ (attr.name.toList.all fun c => !endsAttrName c) = true := by
    cases attr with
    | own => decide
    | send field => cases field <;> decide
    | receive field => cases field <;> decide
  exact ⟨hall.1, plain_of_all hall.2⟩

theorem RefElement.tagName (e : RefElement) : Writing.TagName e.tag := by
  unfold RefElement.tag
  cases e.isAllow
  · exact ⟨by decide, plain_of_all (by decide)⟩
  · exact ⟨by decide, plain_of_all (by decide)⟩

/-- The first character of the tag of an element is no exclamation mark. -/
theorem RefElement.tag_head (e : RefElement) :
    ∃ c cs, e.tag.toList = c :: cs ∧ c ≠ '!' := by
  unfold RefElement.tag
  cases e.isAllow
  · exact ⟨'d', "eny".toList, rfl, by decide⟩
  · exact ⟨'a', "llow".toList, rfl, by decide⟩

namespace WrittenElement

theorem writable (w : WrittenElement) :
    ∀ attr ∈ w.element.named, w.writing.Writable attr.1 attr.2 := by
  intro attr hattr
  obtain ⟨⟨name, value⟩, hmem, rfl⟩ := List.mem_map.mp hattr
  exact ⟨name.name_plain.1, name.name_plain.2, w.values_plain _ hmem⟩

/-- **An element is read as it is written.** -/
theorem tokens_chars (w : WrittenElement) (rest : List Char) :
    Xml.tokens (w.chars ++ rest) = w.tokens ++ Xml.tokens rest := by
  obtain ⟨c, cs, htag, hc⟩ := w.element.tag_head
  have hopen : ∀ tail, Xml.tokens (w.text ++ '<' :: (w.element.tag.toList ++ tail))
      = (readTag (w.element.tag.toList ++ tail)).1 ::
        Xml.tokens (readTag (w.element.tag.toList ++ tail)).2 := by
    intro tail
    rw [tokens_text w.text_plain, htag]
    exact tokens_tag hc
  unfold chars tokens
  cases w.isSelfClosing with
  | true =>
    have hread := (Writing.readTag_text w.element.tagName rest w.writable).2
    have hchars : w.text ++ '<' :: (w.element.tag.toList ++
        (w.writing.attrsText w.element.named ++ ['/', '>'])) ++ rest
          = w.text ++ '<' :: (w.element.tag.toList ++
            (w.writing.attrsText w.element.named ++ '/' :: '>' :: rest)) := by simp
    simp only [if_true]
    rw [hchars, hopen, hread]
    rfl
  | false =>
    have hread := (Writing.readTag_text w.element.tagName
      ('<' :: '/' :: (w.element.tag.toList ++ '>' :: rest)) w.writable).1
    have hend := w.element.tagName.readTag_end rest
    have hchars : w.text ++ '<' :: (w.element.tag.toList ++
        (w.writing.attrsText w.element.named ++ '>' :: '<' :: '/' ::
          (w.element.tag.toList ++ ['>']))) ++ rest
          = w.text ++ '<' :: (w.element.tag.toList ++ (w.writing.attrsText w.element.named ++
            '>' :: '<' :: '/' :: (w.element.tag.toList ++ '>' :: rest))) := by simp
    simp only [Bool.false_eq_true, if_false]
    rw [hchars, hopen, hread, tokens_tag (by decide), hend]
    rfl

end WrittenElement

namespace Document

/-- A policy for everyone is opened. -/
theorem tokens_policy (W : Writing) (body : List Char) :
    tokens ("<busconfig><".toList ++ ("policy".toList ++ (W.attrsText policyAttrs ++ '>' :: body)))
      = .startTag "busconfig" [] :: .startTag "policy" policyAttrs :: tokens body := by
  have hpolicy : Writing.TagName "policy" := ⟨by decide, plain_of_all (by decide)⟩
  have hwritable : ∀ attr ∈ policyAttrs, W.Writable attr.1 attr.2 := by
    intro attr hattr
    rw [List.mem_singleton.mp hattr]
    refine ⟨by decide, plain_of_all (by decide), ?_⟩
    rcases W.quote_eq with h | h <;> rw [h] <;> decide
  have houter : ∀ cs, tokens ("<busconfig><".toList ++ ("policy".toList ++ cs))
      = .startTag "busconfig" [] :: tokens ('<' :: ("policy".toList ++ cs)) :=
    fun _ => tokens_tag (by decide : ('b' : Char) ≠ '!')
  have hinner : ∀ cs, tokens ('<' :: ("policy".toList ++ cs))
      = (readTag ("policy".toList ++ cs)).1 :: tokens (readTag ("policy".toList ++ cs)).2 :=
    fun _ => tokens_tag (by decide : ('p' : Char) ≠ '!')
  rw [houter, hinner, (Writing.readTag_text hpolicy body hwritable).1]
  rfl

/-- The tokens of a document. -/
theorem tokenizeXml_xml (D : Document) : tokenizeXml D.xml
    = .startTag "busconfig" [] :: .startTag "policy" policyAttrs ::
      (D.written.flatMap WrittenElement.tokens ++ [.endTag "policy", .endTag "busconfig"]) := by
  have helements : ∀ ws : List WrittenElement,
      tokens (ws.flatMap WrittenElement.chars ++ "</policy></busconfig>".toList)
        = ws.flatMap WrittenElement.tokens ++ [.endTag "policy", .endTag "busconfig"] := by
    intro ws
    induction ws with
    | nil => decide
    | cons w ws ih =>
      rw [List.flatMap_cons, List.flatMap_cons, List.append_assoc, w.tokens_chars, ih,
        List.append_assoc]
  unfold xml chars
  rw [tokenizeXml_ofList, tokens_policy, helements]

end Document

/-! ## The rule of an element -/

namespace RefElement

/-- The value of an attribute. -/
def value (e : RefElement) (attr : RefAttr) : Option String := List.lookup attr e.attrs

/-- The rule that the daemon reads from an element. -/
def rule (e : RefElement) : Option PolicyRule :=
  elementRule ⟨.default, none, none⟩ e.isAllow e.named.reverse

end RefElement

/-- Where no key comes twice, looking up finds what is there. -/
theorem lookup_eq_some_iff_mem {α β : Type} [DecidableEq α] {l : List (α × β)}
    (h : (l.map Prod.fst).Nodup) {k : α} {v : β} : l.lookup k = some v ↔ (k, v) ∈ l := by
  induction l with
  | nil =>
    constructor
    · exact fun hnone => nomatch hnone
    · exact fun hmem => nomatch hmem
  | cons entry l ih =>
    obtain ⟨k', v'⟩ := entry
    obtain ⟨hnot, hnodup⟩ := List.nodup_cons.mp h
    by_cases hk : k = k'
    · subst hk
      rw [List.lookup_cons_self, List.mem_cons]
      constructor
      · intro hv
        exact .inl (by rw [Option.some.inj hv])
      · rintro (heq | hmem)
        · rw [(Prod.mk.inj heq).2]
        · exact absurd (List.mem_map_of_mem (f := Prod.fst) hmem) hnot
    · have hne : (k == k') = false := beq_eq_false_iff_ne.mpr hk
      rw [List.lookup_cons, hne, List.mem_cons]
      show l.lookup k = some v ↔ _
      rw [ih hnodup]
      exact ⟨.inr, fun hmem => hmem.resolve_left fun heq => hk (Prod.mk.inj heq).1⟩

namespace RefElement

theorem value_eq_some_iff {e : RefElement} {attr : RefAttr} {v : String} :
    e.value attr = some v ↔ (attr, v) ∈ e.attrs := lookup_eq_some_iff_mem e.nodup

theorem get_named {e : RefElement} {name v : String} :
    Attrs.get e.named.reverse name = some v ↔
      ∃ attr : RefAttr, attr.name = name ∧ e.value attr = some v := by
  have hnodup : (e.named.reverse.map Prod.fst).Nodup := by
    have hmap : e.named.map Prod.fst = (e.attrs.map Prod.fst).map RefAttr.name := by
      unfold named
      rw [List.map_map, List.map_map]
      rfl
    rw [List.map_reverse, List.nodup_reverse, hmap]
    exact e.nodup.map RefAttr.name_injective
  unfold Attrs.get
  rw [lookup_eq_some_iff_mem hnodup, List.mem_reverse]
  unfold named
  rw [List.mem_map]
  constructor
  · rintro ⟨⟨attr, value⟩, hmem, heq⟩
    obtain ⟨hname, hvalue⟩ := Prod.mk.inj heq
    exact ⟨attr, hname, value_eq_some_iff.mpr (hvalue ▸ hmem)⟩
  · rintro ⟨attr, hname, hvalue⟩
    exact ⟨(attr, v), value_eq_some_iff.mp hvalue, by rw [hname]⟩

/-- The parser finds an attribute under its name. -/
theorem get_name (e : RefElement) (attr : RefAttr) :
    Attrs.get e.named.reverse attr.name = e.value attr := by
  refine Option.ext fun v => ?_
  rw [get_named]
  constructor
  · rintro ⟨attr', hname, hvalue⟩
    rwa [RefAttr.name_injective hname] at hvalue
  · exact fun hvalue => ⟨attr, rfl, hvalue⟩

/-- It finds nothing under a name that is none of the reference's. -/
theorem get_of_ne (e : RefElement) {name : String} (h : ∀ attr : RefAttr, attr.name ≠ name) :
    Attrs.get e.named.reverse name = none := by
  cases hget : Attrs.get e.named.reverse name with
  | none => rfl
  | some v =>
    obtain ⟨attr, hname, -⟩ := get_named.mp hget
    exact absurd hname (h attr)

/-- The names of the reference's attributes. -/
def refNames : List String :=
  RefAttr.own.name :: [MessageField.party, .interface, .member, .path, .type].flatMap fun field =>
    [(RefAttr.send field).name, (RefAttr.receive field).name]

theorem name_mem_refNames (attr : RefAttr) : attr.name ∈ refNames := by
  cases attr with
  | own => decide
  | send field => cases field <;> decide
  | receive field => cases field <;> decide

theorem get_of_not_mem (e : RefElement) {name : String} (h : name ∉ refNames) :
    Attrs.get e.named.reverse name = none :=
  e.get_of_ne fun attr hname => h (hname ▸ name_mem_refNames attr)

theorem ownPattern_eq (e : RefElement) : ownPattern e.named.reverse = e.value .own := by
  unfold ownPattern
  rw [show Attrs.get e.named.reverse "own" = e.value .own from e.get_name .own,
    e.get_of_not_mem (by decide : "own_prefix" ∉ refNames)]
  cases e.value .own <;> rfl

/-- The fields that an element mentions of messages sent. -/
def sendPattern (e : RefElement) : Option SendReceivePattern :=
  if (e.value (.send .party)).isSome || (e.value (.send .interface)).isSome ||
      (e.value (.send .member)).isSome || (e.value (.send .path)).isSome ||
      (e.value (.send .type)).isSome then
    some (.full (e.value (.send .party)) (e.value (.send .interface)) (e.value (.send .member))
      (e.value (.send .path)) (e.value (.send .type)))
  else none

theorem messagePattern_send (e : RefElement) :
    messagePattern sendNames e.named.reverse = e.sendPattern := by
  have hpartyPrefix : Attrs.get e.named.reverse sendNames.partyPrefix = none :=
    e.get_of_not_mem (by decide)
  have hparty : Attrs.get e.named.reverse sendNames.party = e.value (.send .party) :=
    e.get_name (.send .party)
  have hinterface : Attrs.get e.named.reverse sendNames.interface = e.value (.send .interface) :=
    e.get_name (.send .interface)
  have hmember : Attrs.get e.named.reverse sendNames.member = e.value (.send .member) :=
    e.get_name (.send .member)
  have hpath : Attrs.get e.named.reverse sendNames.path = e.value (.send .path) :=
    e.get_name (.send .path)
  have htype : Attrs.get e.named.reverse sendNames.type = e.value (.send .type) :=
    e.get_name (.send .type)
  unfold messagePattern sendPattern
  rw [hpartyPrefix, hparty, hinterface, hmember, hpath, htype]
  simp only [Option.isSome_none, Bool.or_false, Option.map_none, Option.or_none]

/-- **The parser looks for what is received under other names.** -/
theorem messagePattern_recv (e : RefElement) :
    messagePattern recvNames e.named.reverse = none := by
  have hget : ∀ name ∈ [recvNames.party, recvNames.partyPrefix, recvNames.interface,
      recvNames.member, recvNames.path, recvNames.type],
      Attrs.get e.named.reverse name = none := by
    intro name hname
    exact e.get_of_not_mem fun hmem =>
      (by decide : ∀ name ∈ [recvNames.party, recvNames.partyPrefix, recvNames.interface,
        recvNames.member, recvNames.path, recvNames.type], name ∉ refNames) name hname hmem
  unfold messagePattern
  rw [hget _ (by decide), hget _ (by decide), hget _ (by decide), hget _ (by decide),
    hget _ (by decide), hget _ (by decide)]
  rfl

/-- An element applies when some attribute is about the operation, and none
fails. -/
theorem applies_iff {e : RefElement} {op : Operation} : e.applies op = true ↔
    (∃ attr v, e.value attr = some v ∧ (attr.test v op).isSome) ∧
      ∀ attr v, e.value attr = some v → attr.test v op ≠ some false := by
  have hmem : ∀ b, b ∈ e.tests op ↔ ∃ attr v, e.value attr = some v ∧ attr.test v op = some b := by
    intro b
    unfold tests
    rw [List.mem_filterMap]
    constructor
    · rintro ⟨⟨attr, v⟩, hattr, htest⟩
      exact ⟨attr, v, value_eq_some_iff.mpr hattr, htest⟩
    · rintro ⟨attr, v, hattr, htest⟩
      exact ⟨(attr, v), value_eq_some_iff.mp hattr, htest⟩
  unfold applies
  rw [Bool.and_eq_true, Bool.not_eq_true', List.isEmpty_eq_false_iff_exists_mem, List.all_eq_true]
  refine and_congr ?_ ?_
  · constructor
    · rintro ⟨b, hb⟩
      obtain ⟨attr, v, hvalue, htest⟩ := (hmem b).mp hb
      exact ⟨attr, v, hvalue, by rw [htest]; rfl⟩
    · rintro ⟨attr, v, hvalue, htest⟩
      obtain ⟨b, hb⟩ := Option.isSome_iff_exists.mp htest
      exact ⟨b, (hmem b).mpr ⟨attr, v, hvalue, hb⟩⟩
  · constructor
    · intro hall attr v hvalue htest
      exact Bool.false_ne_true (hall false ((hmem false).mpr ⟨attr, v, hvalue, htest⟩))
    · intro hall b hb
      obtain ⟨attr, v, hvalue, htest⟩ := (hmem b).mp hb
      cases b with
      | true => rfl
      | false => exact absurd htest (hall attr v hvalue)

theorem applies_own (e : RefElement) (name : String) :
    e.applies (.own name) = (e.value .own).any fun p => globMatch p name := by
  rw [Bool.eq_iff_iff, applies_iff]
  constructor
  · rintro ⟨⟨attr, v, hvalue, htest⟩, hall⟩
    cases attr with
    | own =>
      have hmatch := hall .own v hvalue
      rw [hvalue]
      show globMatch v name = true
      exact Bool.eq_true_of_not_eq_false fun hfalse => hmatch (congrArg some hfalse)
    | send field => cases htest
    | receive field => cases htest
  · intro hany
    cases hvalue : e.value .own with
    | none =>
      rw [hvalue] at hany
      cases hany
    | some v =>
      rw [hvalue] at hany
      refine ⟨⟨.own, v, hvalue, rfl⟩, fun attr v' hvalue' htest => ?_⟩
      cases attr with
      | own =>
        rw [Option.some.inj (hvalue'.symm.trans hvalue)] at htest
        exact Bool.false_ne_true ((Option.some.inj htest).symm.trans hany)
      | send field => cases htest
      | receive field => cases htest

theorem mentions_iff {value : Option String} {cond : String → Bool} :
    SendReceivePattern.mentions value cond = true ↔ ∀ v, value = some v → cond v ≠ false := by
  cases value with
  | none =>
    constructor
    · exact fun _ v hv => nomatch hv
    · exact fun _ => rfl
  | some v =>
    constructor
    · rintro hcond v' hv' hfalse
      rw [← Option.some.inj hv'] at hfalse
      exact Bool.false_ne_true (hfalse.symm.trans hcond)
    · exact fun hall => Bool.eq_true_of_not_eq_false (hall v rfl)

theorem applies_send (e : RefElement) (msg : Message) (destination : Option String) :
    e.applies (.send msg destination) = e.sendPattern.any fun p => p.matches msg destination := by
  have hmatches : (∀ attr v, e.value attr = some v →
      attr.test v (.send msg destination) ≠ some false) ↔
        ∀ field : MessageField, SendReceivePattern.mentions (e.value (.send field))
          (fun v => field.holds v msg destination) = true := by
    constructor
    · exact fun hall field => mentions_iff.mpr fun v hv hfalse =>
        hall (.send field) v hv (congrArg some hfalse)
    · intro hall attr v hv htest
      cases attr with
      | own => cases htest
      | send field => exact mentions_iff.mp (hall field) v hv (Option.some.inj htest)
      | receive field => cases htest
  have hsome : (∃ attr v, e.value attr = some v ∧ (attr.test v (.send msg destination)).isSome) ↔
      ∃ field : MessageField, (e.value (.send field)).isSome = true := by
    constructor
    · rintro ⟨attr, v, hv, htest⟩
      cases attr with
      | own => cases htest
      | send field => exact ⟨field, by rw [hv]; rfl⟩
      | receive field => cases htest
    · rintro ⟨field, hfield⟩
      obtain ⟨v, hv⟩ := Option.isSome_iff_exists.mp hfield
      exact ⟨.send field, v, hv, rfl⟩
  have hfields : ∀ {P : MessageField → Prop}, (∀ field, P field) ↔
      P .party ∧ P .interface ∧ P .member ∧ P .path ∧ P .type := by
    intro P
    constructor
    · exact fun h => ⟨h _, h _, h _, h _, h _⟩
    · rintro ⟨hparty, hinterface, hmember, hpath, htype⟩ field
      cases field <;> assumption
  rw [Bool.eq_iff_iff, applies_iff, hmatches, hsome]
  have hcond : ((e.value (.send .party)).isSome || (e.value (.send .interface)).isSome ||
      (e.value (.send .member)).isSome || (e.value (.send .path)).isSome ||
      (e.value (.send .type)).isSome) = true ↔
        ∃ field : MessageField, (e.value (.send field)).isSome = true := by
    simp only [Bool.or_eq_true, or_assoc]
    constructor
    · rintro (h | h | h | h | h)
      · exact ⟨.party, h⟩
      · exact ⟨.interface, h⟩
      · exact ⟨.member, h⟩
      · exact ⟨.path, h⟩
      · exact ⟨.type, h⟩
    · rintro ⟨field, h⟩
      cases field with
      | party => exact .inl h
      | interface => exact .inr (.inl h)
      | member => exact .inr (.inr (.inl h))
      | path => exact .inr (.inr (.inr (.inl h)))
      | type => exact .inr (.inr (.inr (.inr h)))
  unfold sendPattern
  by_cases hfield : ∃ field : MessageField, (e.value (.send field)).isSome = true
  · rw [if_pos (hcond.mpr hfield), hfields]
    show _ ↔ SendReceivePattern.matches (.full _ _ _ _ _) msg destination = true
    unfold SendReceivePattern.matches
    simp only [Bool.and_eq_true, and_assoc]
    exact ⟨And.right, fun hall => ⟨hfield, hall⟩⟩
  · rw [if_neg fun h => hfield (hcond.mp h)]
    exact ⟨fun h => absurd h.1 hfield, fun h => nomatch h⟩

end RefElement

/-! ## What the daemon decides -/

/-- What a rule allows. -/
def allowed (rule : PolicyRule) : Operation → Bool
  | .own name => rule.allowOwn.any fun p => globMatch p name
  | .send msg destination => rule.allowSend.any fun p => p.matches msg destination
  | .receive msg sender => rule.allowReceive.any fun p => p.matches msg sender

/-- What a rule denies. -/
def denied (rule : PolicyRule) : Operation → Bool
  | .own name => rule.denyOwn.any fun p => globMatch p name
  | .send msg destination => rule.denySend.any fun p => p.matches msg destination
  | .receive msg sender => rule.denyReceive.any fun p => p.matches msg sender

/-- What the daemon decides about an operation. -/
def decides (policy : Policy) (identity : Identity) : Operation → Bool
  | .own name => policy.canOwn identity name
  | .send msg destination => policy.canSend identity msg destination
  | .receive msg sender => policy.canReceive identity msg sender

theorem decides_eq (policy : Policy) (identity : Identity) (op : Operation) :
    decides policy identity op
      = policy.verdict identity (fun rule => allowed rule op) (fun rule => denied rule op) := by
  cases op <;> rfl

/-- What the daemon makes of the attributes about an operation: nothing of those
about messages received. -/
def seen (e : RefElement) (op : Operation) : Bool :=
  match op with
  | .own _ => e.applies op
  | .send _ _ => e.applies op
  | .receive _ _ => false

/-- **The rule of an element allows or denies what the element applies to**, but
nothing about messages received. -/
theorem RefElement.rule_seen {e : RefElement} (op : Operation) :
    (∀ rule, e.rule = some rule → allowed rule op = (e.isAllow && seen e op) ∧
      denied rule op = (!e.isAllow && seen e op)) ∧
    (e.rule = none → seen e op = false) := by
  have hlists : ∀ {α : Type} (o : Option α) (p : α → Bool),
      ((if e.isAllow then o.toList else []).any p = (e.isAllow && o.any p)) ∧
        ((if e.isAllow then [] else o.toList).any p = (!e.isAllow && o.any p)) := by
    intro α o p
    cases e.isAllow <;> cases o <;> simp
  unfold RefElement.rule elementRule
  simp only [e.ownPattern_eq, e.messagePattern_send, e.messagePattern_recv, Option.isSome_none,
    Bool.or_false]
  constructor
  · intro rule hrule
    split at hrule
    · rw [← Option.some.inj hrule]
      cases op with
      | own name =>
        show _ = (e.isAllow && e.applies (.own name)) ∧ _ = (!e.isAllow && e.applies (.own name))
        rw [e.applies_own]
        exact hlists _ _
      | send msg destination =>
        show _ = (e.isAllow && e.applies (.send msg destination)) ∧
          _ = (!e.isAllow && e.applies (.send msg destination))
        rw [e.applies_send]
        exact hlists _ _
      | receive msg sender => exact hlists none _
    · cases hrule
  · intro hrule
    split at hrule
    · cases hrule
    · next hnone =>
      rw [Bool.or_eq_true, not_or] at hnone
      obtain ⟨hown, hsend⟩ := hnone
      rw [Option.not_isSome_iff_eq_none] at hown hsend
      cases op with
      | own name =>
        show e.applies (.own name) = false
        rw [e.applies_own, hown]
        rfl
      | send msg destination =>
        show e.applies (.send msg destination) = false
        rw [e.applies_send, hsend]
        rfl
      | receive msg sender => rfl

/-- With rules for everyone only, all of them decide, in their order. -/
theorem verdict_of_default {policy : Policy} (hne : policy.isEmpty = false)
    (hdefault : ∀ rule ∈ policy.rules, rule.context = .default) (identity : Identity)
    (allows denies : PolicyRule → Bool) :
    policy.verdict identity allows denies = policy.rules.foldl (fun verdict rule =>
      if denies rule then false else if allows rule then true else verdict) false := by
  have hall : policy.inContext identity .default = policy.rules := by
    refine List.filter_eq_self.mpr fun rule hrule => ?_
    unfold Policy.appliesTo
    rw [hdefault rule hrule]
    rfl
  have hnone : ∀ context, context ≠ .default → policy.inContext identity context = [] := by
    intro context hcontext
    refine List.filter_eq_nil_iff.mpr fun rule hrule => ?_
    rw [hdefault rule hrule, beq_eq_false_iff_ne.mpr hcontext.symm]
    exact Bool.false_ne_true
  unfold Policy.verdict Policy.applicable
  rw [hne, hall, hnone .user (by decide), hnone .group (by decide), hnone .mandatory (by decide)]
  simp only [Bool.false_eq_true, if_false, List.append_nil]

namespace Document

variable {D : Document}

/-- The tokens of an element make one element. -/
theorem elementsOf_tokens (w : WrittenElement) (policy : Attrs) (rest : List XmlToken) :
    elementsOf (some policy) (w.tokens ++ rest)
      = ⟨policy, w.element.isAllow, w.element.named.reverse⟩ :: elementsOf (some policy) rest := by
  have htag : w.element.tag ≠ "policy" ∧ (w.element.tag = "allow" ∨ w.element.tag = "deny") ∧
      (w.element.tag == "allow") = w.element.isAllow := by
    unfold RefElement.tag
    cases w.element.isAllow <;> decide
  obtain ⟨hpolicy, hknown, hallow⟩ := htag
  have helement : tagElement (some policy) w.element.tag w.element.named.reverse
      = some ⟨policy, w.element.isAllow, w.element.named.reverse⟩ := by
    unfold tagElement
    rw [if_pos hknown, hallow]
    rfl
  unfold WrittenElement.tokens
  cases w.isSelfClosing with
  | true =>
    show (tagElement _ _ _).toList ++ elementsOf _ rest = _
    rw [helement]
    rfl
  | false =>
    show (if w.element.tag = "policy" then _ else (tagElement _ _ _).toList ++
      elementsOf (if w.element.tag = "policy" then _ else _) rest) = _
    rw [if_neg hpolicy, if_neg hpolicy, helement]
    rfl

/-- The rules of a document are those of its elements. -/
theorem rules_eq (D : Document) : D.policy.rules = D.elements.filterMap RefElement.rule := by
  have hrest : ∀ ws : List WrittenElement,
      elementsOf (some policyAttrs)
          (ws.flatMap WrittenElement.tokens ++ [.endTag "policy", .endTag "busconfig"])
        = ws.map fun w => ⟨policyAttrs, w.element.isAllow, w.element.named.reverse⟩ := by
    intro ws
    induction ws with
    | nil => decide
    | cons w ws ih =>
      rw [List.flatMap_cons, List.map_cons, List.append_assoc, elementsOf_tokens, ih]
  have hpolicy : D.policy.rules = (Xml.elements D.xml).filterMap XmlElement.rule :=
    parseXmlPolicy_eq D.xml
  have helements : Xml.elements D.xml
      = elementsOf (some policyAttrs) (D.written.flatMap WrittenElement.tokens ++
        [.endTag "policy", .endTag "busconfig"]) := by
    unfold Xml.elements
    rw [tokenizeXml_xml]
    rfl
  rw [hpolicy, helements, hrest, List.filterMap_map]
  unfold Document.elements
  rw [List.filterMap_map]
  rfl

/-- **What the daemon decides by a document**: as the reference, with nothing
seen of messages received. -/
theorem decides_eq_foldl (hne : D.policy.isEmpty = false) (identity : Identity) (op : Operation) :
    decides D.policy identity op
      = D.elements.foldl (fun verdict e => if seen e op then e.isAllow else verdict) false := by
  have hdefault : ∀ rule ∈ D.policy.rules, rule.context = .default := by
    intro rule hrule
    rw [rules_eq, List.mem_filterMap] at hrule
    obtain ⟨e, -, he⟩ := hrule
    unfold RefElement.rule elementRule at he
    dsimp only at he
    split at he
    · rw [← Option.some.inj he]
    · cases he
  rw [decides_eq, verdict_of_default hne hdefault, rules_eq, List.foldl_filterMap]
  refine List.foldl_ext _ _ _ fun verdict e _ => ?_
  obtain ⟨hsome, hnone⟩ := e.rule_seen op
  cases hrule : e.rule with
  | none =>
    rw [hnone hrule]
    rfl
  | some rule =>
    obtain ⟨hallowed, hdenied⟩ := hsome rule hrule
    show (if denied rule op then false else if allowed rule op then true else verdict) = _
    rw [hallowed, hdenied]
    cases e.isAllow <;> cases seen e op <;> rfl

/-- **Rules about names and messages sent keep their meaning.** -/
theorem decides_eq_reference (hne : D.policy.isEmpty = false) (identity : Identity)
    (op : Operation) (hop : ∀ msg sender, op ≠ .receive msg sender) :
    decides D.policy identity op = reference D.elements op := by
  rw [decides_eq_foldl hne]
  cases op with
  | own name => rfl
  | send msg destination => rfl
  | receive msg sender => exact absurd rfl (hop msg sender)

/-- **No document of the reference lets anyone receive.** -/
theorem canReceive_eq (hne : D.policy.isEmpty = false) (identity : Identity) (msg : Message)
    (sender : Option String) : D.policy.canReceive identity msg sender = false := by
  have hdecides := decides_eq_foldl hne identity (.receive msg sender)
  have hconst : ∀ es : List RefElement, es.foldl
      (fun verdict e => if seen e (.receive msg sender) then e.isAllow else verdict) false
        = false := by
    intro es
    induction es with
    | nil => rfl
    | cons e es ih => exact ih
  rw [hconst] at hdecides
  exact hdecides

end Document

theorem takenBack_cons {e : RefElement} {es : List RefElement} {op : Operation} :
    TakenBack (e :: es) op ↔
      (e.isAllow = true → e.applies op = true → ∃ d ∈ es, d.isAllow = false ∧ d.applies op = true) ∧
        TakenBack es op := by
  constructor
  · exact fun h => ⟨h [] e es rfl, fun pre e' post heq => h (e :: pre) e' post (by rw [heq]; rfl)⟩
  · rintro ⟨hfirst, hrest⟩ pre e' post heq
    cases pre with
    | nil =>
      obtain ⟨rfl, rfl⟩ := List.cons.inj heq
      exact hfirst
    | cons head pre => exact hrest pre e' post (List.cons.inj heq).2

/-- **The reference refuses exactly what is not allowed, or taken back.** -/
theorem reference_eq_false_iff (es : List RefElement) (op : Operation) :
    reference es op = false ↔ TakenBack es op := by
  suffices hfold : ∀ verdict : Bool,
      es.foldl (fun verdict e => if e.applies op then e.isAllow else verdict) verdict = false ↔
        (verdict = true → ∃ d ∈ es, d.isAllow = false ∧ d.applies op = true) ∧ TakenBack es op by
    refine (hfold false).trans ⟨And.right, fun h => ⟨?_, h⟩⟩
    exact fun hfalse => nomatch hfalse
  induction es with
  | nil =>
    intro verdict
    constructor
    · rintro rfl
      refine ⟨fun hfalse => absurd hfalse Bool.false_ne_true, fun pre e post heq => ?_⟩
      cases pre <;> cases heq
    · rintro ⟨hverdict, -⟩
      cases verdict with
      | false => rfl
      | true =>
        obtain ⟨d, hd, -⟩ := hverdict rfl
        cases hd
  | cons e es ih =>
    intro verdict
    rw [List.foldl_cons, ih, takenBack_cons]
    cases happlies : e.applies op with
    | false => simp [happlies]
    | true =>
      cases hallow : e.isAllow with
      | false => simp [happlies, hallow]
      | true =>
        constructor
        · rintro ⟨hback, hrest⟩
          refine ⟨fun _ => ?_, fun _ _ => hback rfl, hrest⟩
          obtain ⟨d, hd, hdeny⟩ := hback rfl
          exact ⟨d, List.mem_cons_of_mem _ hd, hdeny⟩
        · rintro ⟨-, hback, hrest⟩
          exact ⟨fun _ => hback rfl rfl, hrest⟩

/-- **Documents of the reference keep their meaning** for an identity, a name
and a message with its parties. -/
def KeepsMeaning (D : Document) (identity : Identity) (name : String) (msg : Message)
    (destination sender : Option String) : Prop :=
  D.policy.canOwn identity name = reference D.elements (.own name) ∧
    D.policy.canSend identity msg destination = reference D.elements (.send msg destination) ∧
    D.policy.canReceive identity msg sender = reference D.elements (.receive msg sender)

/-- **A document keeps its meaning exactly for messages that the reference does
not let be received.** -/
theorem keepsMeaning_iff {D : Document} (hne : D.policy.isEmpty = false) (identity : Identity)
    (name : String) (msg : Message) (destination sender : Option String) :
    KeepsMeaning D identity name msg destination sender ↔
      TakenBack D.elements (.receive msg sender) := by
  have hown : D.policy.canOwn identity name = reference D.elements (.own name) :=
    D.decides_eq_reference hne identity (.own name) fun _ _ h => nomatch h
  have hsend : D.policy.canSend identity msg destination
      = reference D.elements (.send msg destination) :=
    D.decides_eq_reference hne identity (.send msg destination) fun _ _ h => nomatch h
  rw [← reference_eq_false_iff]
  unfold KeepsMeaning
  rw [D.canReceive_eq hne]
  exact ⟨fun h => h.2.2.symm, fun h => ⟨hown, hsend, h.symm⟩⟩

/-- Attributes after one space, in double quotes. -/
def plainWriting : Writing :=
  ⟨[' '], List.cons_ne_nil _ _, List.forall_mem_singleton.mpr rfl, '"', .inl rfl⟩

/-- Elements with one attribute each, closed at once. -/
def plainElement (isAllow : Bool) (attr : RefAttr) (value : String) (h : '"' ∉ value.toList) :
    WrittenElement where
  element := ⟨isAllow, [(attr, value)], List.nodup_singleton _⟩
  text := []
  text_plain := List.not_mem_nil
  writing := plainWriting
  isSelfClosing := true
  values_plain := by
    intro attr hattr
    rw [List.mem_singleton.mp hattr]
    exact h

/-- A document that lets everyone own a name, and receive from everyone. -/
def receiveAll : Document where
  writing := plainWriting
  written :=
    [plainElement true .own "a.b" (by decide), plainElement true (.receive .party) "*" (by decide)]

/-- One that takes the second back. -/
def receiveNothing : Document where
  writing := plainWriting
  written :=
    [plainElement true .own "a.b" (by decide), plainElement true (.receive .party) "*" (by decide),
      plainElement false (.receive .party) "*" (by decide)]

/-- Someone without a name. -/
def someone : Identity := ⟨1000, none, []⟩

def plainSignal : Message := (Message.Builder.signal ⟨"/a"⟩ "a.b" "C").build 1

example : receiveAll.xml = "<busconfig><policy context=\"default\"><allow own=\"a.b\"/>" ++
    "<allow receive_sender=\"*\"/></policy></busconfig>" := by decide

theorem isEmpty_of_rules {D : Document} (h : D.elements.filterMap RefElement.rule ≠ []) :
    D.policy.isEmpty = false := by
  unfold Policy.isEmpty
  rw [D.rules_eq]
  exact List.isEmpty_eq_false_iff.mpr h

theorem keepsMeaning_iff_receiveNothing : receiveNothing.policy.isEmpty = false ∧
    KeepsMeaning receiveNothing someone "a.b" plainSignal none (some ":1.1") := by
  have hne : receiveNothing.policy.isEmpty = false := isEmpty_of_rules (by decide)
  refine ⟨hne, (keepsMeaning_iff hne someone "a.b" plainSignal none (some ":1.1")).mpr ?_⟩
  exact (reference_eq_false_iff _ _).mp (by decide)

/-- What everyone may receive by the reference is refused. -/
theorem keepsMeaning_receiveAll : receiveAll.policy.isEmpty = false ∧
    ¬ KeepsMeaning receiveAll someone "a.b" plainSignal none (some ":1.1") := by
  have hne : receiveAll.policy.isEmpty = false := isEmpty_of_rules (by decide)
  have hallowed : reference receiveAll.elements (.receive plainSignal (some ":1.1")) = true := by
    decide
  refine ⟨hne, fun hkeeps => ?_⟩
  have hrefused := receiveAll.canReceive_eq hne someone plainSignal (some ":1.1")
  exact Bool.false_ne_true ((hrefused.symm.trans hkeeps.2.2).trans hallowed)

end Xml

end Oxibus
