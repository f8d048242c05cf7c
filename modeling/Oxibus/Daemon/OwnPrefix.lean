import Oxibus.Daemon.XmlReference

/-!
# Names under a prefix

A document may give names away by a prefix: `own_prefix="a.b"` is meant for
`a.b` and everything below it, `a.b.c` and so on. The parser makes a pattern
of the prefix, with a star behind it, and the star knows nothing of the dots
between the elements of a name. So the document also gives away names that
happen to begin with the same characters, such as `a.bc`, and those are the
only ones it should not (`respectsElements_iff`). Match rules with an
`arg0namespace` look for the dot.
-/

namespace Oxibus

/-- **A star stands for anything behind the prefix.** -/
theorem globMatch_star (pre text : String) :
    globMatch (pre ++ "*") text = true ↔ pre.toList <+: text.toList := by
  have htoList : (pre ++ "*").toList = pre.toList ++ ['*'] := String.toList_append
  unfold globMatch
  rw [htoList, List.getLast?_concat, List.dropLast_concat]
  split
  · next hstar =>
    have hnil : pre.toList = [] := by
      have hlen := congrArg List.length (htoList.symm.trans (congrArg String.toList hstar))
      simpa using hlen
    rw [hnil]
    exact iff_of_true rfl List.nil_prefix
  · rw [if_pos (beq_self_eq_true _), List.isPrefixOf_iff_prefix]

namespace Xml

/-- **A document whose only rule is an `<allow own_prefix="…"/>`**, in a policy for
everyone. -/
def OnlyOwnPrefix (xml pre : String) : Prop :=
  ∃ policy : Attrs, policy.get "context" = some "default" ∧
    elements xml = [⟨policy, true, [("own_prefix", pre)]⟩]

/-- **The document gives a name away exactly if it is the prefix or below it.** -/
def RespectsElements (xml pre : String) (identity : Identity) (name : String) : Prop :=
  Policy.canOwn ⟨parseXmlPolicy xml⟩ identity name = true ↔
    name = pre ∨ (pre ++ ".").toList <+: name.toList

/-- Such a document, in some writing. -/
def prefixXml (W : Writing) (pre : String) : String :=
  String.ofList ("<busconfig><".toList ++ ("policy".toList ++ (W.attrsText Document.policyAttrs ++
    '>' :: '<' :: ("allow".toList ++ (W.attrsText [("own_prefix", pre)] ++
      '/' :: '>' :: "</policy></busconfig>".toList)))))

variable {xml pre name : String}

/-- The one element of such a document is read as it is written. -/
theorem tokens_prefix {W : Writing} (h : W.quote ∉ pre.toList) (rest : List Char) :
    tokens ('<' :: ("allow".toList ++ (W.attrsText [("own_prefix", pre)] ++ '/' :: '>' :: rest)))
      = .selfClosingTag "allow" [("own_prefix", pre)] :: tokens rest := by
  have hallow : Writing.TagName "allow" := ⟨by decide, plain_of_all (by decide)⟩
  have hwritable : ∀ attr ∈ [("own_prefix", pre)], W.Writable attr.1 attr.2 := by
    intro attr hattr
    rw [List.mem_singleton.mp hattr]
    exact ⟨(by decide : "own_prefix".toList ≠ []),
      plain_of_all (by decide : ("own_prefix".toList.all fun c => !endsAttrName c) = true), h⟩
  have hopen : ∀ cs, tokens ('<' :: ("allow".toList ++ cs))
      = (readTag ("allow".toList ++ cs)).1 :: tokens (readTag ("allow".toList ++ cs)).2 :=
    fun _ => tokens_tag (by decide : ('a' : Char) ≠ '!')
  rw [hopen, (Writing.readTag_text hallow rest hwritable).2]
  rfl

/-- **Every prefix has such a document**, if it can be written between the quotes. -/
theorem onlyOwnPrefix_prefixXml {W : Writing} (h : W.quote ∉ pre.toList) :
    OnlyOwnPrefix (prefixXml W pre) pre := by
  have hend : tokens "</policy></busconfig>".toList = [.endTag "policy", .endTag "busconfig"] := by
    decide
  have htokens : tokenizeXml (prefixXml W pre)
      = [.startTag "busconfig" [], .startTag "policy" Document.policyAttrs,
        .selfClosingTag "allow" [("own_prefix", pre)], .endTag "policy", .endTag "busconfig"] := by
    unfold prefixXml
    rw [tokenizeXml_ofList, Document.tokens_policy, tokens_prefix h, hend]
  refine ⟨Document.policyAttrs, by decide, ?_⟩
  unfold elements
  rw [htokens]
  rfl

/-- The rule of the document is a pattern. -/
theorem OnlyOwnPrefix.parseXmlPolicy_eq (h : OnlyOwnPrefix xml pre) : parseXmlPolicy xml =
    [⟨.default, none, none, [pre ++ "*"], [], [], [], [], []⟩] := by
  obtain ⟨policy, hcontext, helements⟩ := h
  have hpolicy : policyContext policy = ⟨.default, none, none⟩ := by
    rw [policyContext, hcontext]
    rfl
  have hrule : XmlElement.rule ⟨policy, true, [("own_prefix", pre)]⟩
      = some ⟨.default, none, none, [pre ++ "*"], [], [], [], [], []⟩ := by
    rw [XmlElement.rule, hpolicy]
    rfl
  rw [Xml.parseXmlPolicy_eq, helements, List.filterMap_cons_some hrule]
  rfl

/-- **It gives away what begins with the prefix.** -/
theorem OnlyOwnPrefix.canOwn_iff (h : OnlyOwnPrefix xml pre) (identity : Identity) :
    Policy.canOwn ⟨parseXmlPolicy xml⟩ identity name = true ↔ pre.toList <+: name.toList := by
  have hrules := h.parseXmlPolicy_eq
  rw [Policy.canOwn, verdict_of_default (by rw [Policy.isEmpty, hrules]; rfl)
    (by rw [hrules]; exact List.forall_mem_singleton.mpr rfl), hrules, ← globMatch_star]
  show (if false then false else if (globMatch (pre ++ "*") name || false) = true then true
    else false) = true ↔ _
  rw [Bool.or_false]
  cases globMatch (pre ++ "*") name <;> simp

/-- **When the elements of a name are respected**: the name does not go on behind the
prefix with anything but a dot. -/
theorem respectsElements_iff (h : OnlyOwnPrefix xml pre) (identity : Identity) (name : String) :
    RespectsElements xml pre identity name ↔
      ∀ c rest, name.toList = pre.toList ++ c :: rest → c = '.' := by
  have hdot : (pre ++ ".").toList = pre.toList ++ ['.'] := String.toList_append
  have hbelow :
      (name = pre ∨ (pre ++ ".").toList <+: name.toList) → pre.toList <+: name.toList := by
    rintro (rfl | hbelow)
    · exact List.prefix_rfl
    · rw [hdot] at hbelow
      exact (List.prefix_append _ _).trans hbelow
  unfold RespectsElements
  rw [h.canOwn_iff identity]
  constructor
  · intro hsame c rest hname
    rcases hsame.mp ⟨c :: rest, hname.symm⟩ with rfl | ⟨below, hbelow⟩
    · have hlen := congrArg List.length hname
      simp at hlen
    · rw [hdot, hname, List.append_assoc] at hbelow
      exact (List.cons.inj (List.append_cancel_left hbelow)).1.symm
  · intro hdots
    refine ⟨?_, hbelow⟩
    rintro ⟨tail, htail⟩
    cases tail with
    | nil =>
      rw [List.append_nil] at htail
      exact .inl (String.toList_injective htail).symm
    | cons c rest =>
      obtain rfl := hdots c rest htail.symm
      exact .inr ⟨rest, by rw [hdot, List.append_assoc]; exact htail⟩

/-- **Below `com.foo` they are.** -/
theorem respectsElements_below :
    RespectsElements (prefixXml plainWriting "com.foo") "com.foo" ⟨1000, none, []⟩ "com.foo.bar" :=
  (respectsElements_iff (onlyOwnPrefix_prefixXml (by decide)) _ _).mpr fun c rest hname => by
    have hname : "com.foo".toList ++ '.' :: "bar".toList = "com.foo".toList ++ c :: rest := hname
    exact (List.cons.inj (List.append_cancel_left hname)).1.symm

/-- **Beside it they are not**: the document gives away `com.foobar` too. -/
theorem beside_not_respectsElements :
    OnlyOwnPrefix (prefixXml plainWriting "com.foo") "com.foo" ∧
      ¬ RespectsElements (prefixXml plainWriting "com.foo") "com.foo" ⟨1000, none, []⟩
        "com.foobar" := by
  have honly : OnlyOwnPrefix (prefixXml plainWriting "com.foo") "com.foo" :=
    onlyOwnPrefix_prefixXml (by decide)
  refine ⟨honly, fun hrespects => ?_⟩
  have hbegins : "com.foo".toList <+: "com.foobar".toList :=
    List.isPrefixOf_iff_prefix.mp (by decide)
  rcases hrespects.mp ((honly.canOwn_iff _).mpr hbegins) with hsame | hbelow
  · exact absurd hsame (by decide)
  · exact absurd (List.isPrefixOf_iff_prefix.mpr hbelow) (by decide)

end Xml

end Oxibus
