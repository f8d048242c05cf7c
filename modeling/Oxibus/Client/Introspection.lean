import Oxibus.Client.ObjectServer
import Oxibus.Core.Paths
import Oxibus.Lib.Trees

/-!
# Introspection

An object server describes each path in a text: the interfaces that the path has,
and a node for each child. It keeps no tree, only the paths that have interfaces;
the children of a path are found in the texts of the others.

They are the children in the tree that the registered paths span, each one once
(`mem_children_iff`, `nodup_children`), after any sequence of calls that register
and unregister interfaces. So a walk from the root comes to the root, the
registered paths and their ancestors (`introspect_covers`).
-/

namespace Oxibus

/-! ## Descriptions of interfaces -/

/-- Where a pattern stands for the last time: `rfind`. -/
def rfind (pattern text : List Char) : Option ℕ :=
  (List.range (text.length + 1)).reverse.find? fun i => pattern.isPrefixOf (text.drop i)

/-- The tags of some properties. -/
def writeProperties (properties : List (String × Value)) : String :=
  String.join (properties.map fun property =>
    "<property name=\"" ++ property.1 ++ "\" type=\"" ++
      property.2.valueType.toSignatureString ++ "\" access=\"readwrite\"/>")

/-- **What interfaces say of themselves.** -/
structure Descriptions where
  introspectionXml : Interface → String
  listProperties : Interface → List (String × Value) := fun _ => []
  propertiesXml : Interface → String := fun iface => writeProperties (listProperties iface)

/-- A description with the tags of the properties in it, unless it has some of its
own. -/
def spliceProperties (ifaceXml propertiesXml : String) : String :=
  if propertiesXml = "" ∨ (rfind "<property".toList ifaceXml.toList).isSome then ifaceXml
  else
    match rfind "</interface>".toList ifaceXml.toList with
    | some idx =>
      String.ofList (ifaceXml.toList.take idx) ++ propertiesXml ++
        String.ofList (ifaceXml.toList.drop idx)
    | none => ifaceXml

/-- **What an interface wrote is kept**: the tags of its properties stand in front of
a closing tag of it, or nowhere. -/
theorem spliceProperties_spec (ifaceXml propertiesXml : String) :
    spliceProperties ifaceXml propertiesXml = ifaceXml ∨
      ∃ front back : String, ifaceXml = front ++ back ∧
        "</interface>".toList <+: back.toList ∧
        spliceProperties ifaceXml propertiesXml = front ++ propertiesXml ++ back := by
  unfold spliceProperties
  split
  · exact .inl rfl
  · split
    · next idx hidx =>
      have hfound := List.find?_some hidx
      refine .inr ⟨_, _, ?_, ?_, rfl⟩
      · rw [← String.ofList_append, List.take_append_drop, String.ofList_toList]
      · have hback : (String.ofList (ifaceXml.toList.drop idx)).toList = ifaceXml.toList.drop idx :=
          String.toList_ofList
        rw [hback]
        exact List.isPrefixOf_iff_prefix.mp hfound
    · exact .inl rfl

/-- **In which order a map is gone through**: any one. -/
structure MapOrder where
  keys : List String → List String
  keys_perm (l : List String) : (keys l).Perm l
  values : List Interface → List Interface
  values_perm (l : List Interface) : (values l).Perm l

/-! ## The children of a path -/

/-- What is left of a text behind a pattern: `strip_prefix`. -/
def stripPrefix (pattern text : String) : Option String :=
  if pattern.toList.isPrefixOf text.toList then
    some (String.ofList (text.toList.drop pattern.toList.length))
  else none

/-- The text in front of all paths below a path. -/
def pathPrefix (path : String) : String := if path = "/" then "/" else path ++ "/"

/-- **What the loop over the paths does with one of them.** -/
def pushChild (path : String) (children : List String) (candidate : String) : List String :=
  if candidate = path then children
  else
    match stripPrefix (pathPrefix path) candidate with
    | none => children
    | some rest =>
      let child := (split '/' rest).headD rest
      if child ≠ "" ∧ child ∉ children then children ++ [child] else children

/-- The entry of a child. -/
def nodeEntry (child : String) : String := "  <node name=\"" ++ child ++ "\"/>\n"

namespace ObjectServer

/-- The children of a path. -/
def children (server : ObjectServer) (order : MapOrder) (path : String) : List String :=
  (order.keys server.objects.keys).foldl (pushChild path) []

/-- The descriptions of the interfaces of a path. -/
def describe (server : ObjectServer) (descriptions : Descriptions) (order : MapOrder)
    (path : String) : String :=
  match server.objects.lookup path with
  | some ifaces =>
    String.join ((order.values (ifaces.entries.map Sigma.snd)).map fun iface =>
      spliceProperties (descriptions.introspectionXml iface) (descriptions.propertiesXml iface) ++
        "\n")
  | none => ""

/-- The description of a path in front of its children. -/
def introspectHead (server : ObjectServer) (descriptions : Descriptions) (order : MapOrder)
    (path : String) : String :=
  "<!DOCTYPE node PUBLIC \"-//freedesktop//DTD D-BUS Object Introspection 1.0//EN\"\n" ++
    " \"http://www.freedesktop.org/standards/dbus/1.0/introspect.dtd\">\n" ++ "<node>\n" ++
    server.describe descriptions order path

/-- **The description of a path.** -/
def introspect (server : ObjectServer) (descriptions : Descriptions) (order : MapOrder)
    (path : String) : String :=
  server.introspectHead descriptions order path ++
    String.join ((server.children order path).map nodeEntry) ++ "</node>\n"

end ObjectServer

/-! ## What the loop collects -/

/-- The child of a path that a candidate lies at or below. -/
def childOf (path candidate : String) : Option String :=
  if candidate = path then none
  else
    (stripPrefix (pathPrefix path) candidate).bind fun rest =>
      let child := (split '/' rest).headD rest
      if child ≠ "" then some child else none

theorem pushChild_eq (path : String) (children : List String) (candidate : String) :
    pushChild path children candidate =
      match childOf path candidate with
      | some child => if child ∈ children then children else children ++ [child]
      | none => children := by
  unfold pushChild childOf
  by_cases hself : candidate = path
  · rw [if_pos hself, if_pos hself]
  · rw [if_neg hself, if_neg hself]
    cases stripPrefix (pathPrefix path) candidate with
    | none => rfl
    | some rest =>
      dsimp only [Option.bind_some]
      by_cases hempty : (split '/' rest).headD rest ≠ ""
      · rw [if_pos hempty]
        by_cases hmem : (split '/' rest).headD rest ∈ children
        · rw [if_neg fun h => h.2 hmem]
          exact (if_pos hmem).symm
        · rw [if_pos ⟨hempty, hmem⟩]
          exact (if_neg hmem).symm
      · rw [if_neg hempty, if_neg fun h => hempty h.1]

/-- The loop keeps the children apart and collects those of all candidates. -/
theorem foldl_pushChild {path : String} {children candidates : List String}
    (hnodup : children.Nodup) :
    (candidates.foldl (pushChild path) children).Nodup ∧
      ∀ s, s ∈ candidates.foldl (pushChild path) children ↔
        s ∈ children ∨ ∃ candidate ∈ candidates, childOf path candidate = some s := by
  induction candidates generalizing children with
  | nil => exact ⟨hnodup, fun s => by simp⟩
  | cons candidate candidates ih =>
    have hpush : (pushChild path children candidate).Nodup ∧
        ∀ s, s ∈ pushChild path children candidate ↔
          s ∈ children ∨ childOf path candidate = some s := by
      rw [pushChild_eq]
      cases childOf path candidate with
      | none => exact ⟨hnodup, fun s => by simp⟩
      | some child =>
        dsimp only
        by_cases hmem : child ∈ children
        · rw [if_pos hmem]
          refine ⟨hnodup, fun s => ⟨.inl, fun h => h.elim id fun heq => ?_⟩⟩
          rw [← Option.some.inj heq]
          exact hmem
        · rw [if_neg hmem]
          refine ⟨?_, fun s => by simp [eq_comm]⟩
          rw [← List.concat_eq_append, List.nodup_concat]
          exact ⟨hmem, hnodup⟩
    obtain ⟨hnodup', hmem'⟩ := ih hpush.1
    refine ⟨hnodup', fun s => ?_⟩
    rw [List.foldl_cons, hmem', hpush.2, List.exists_mem_cons_iff, or_assoc]

/-! ## Children and segments -/

theorem pathPrefix_pathText {ps : List String} (h : ∀ s ∈ ps, IsSegment s) :
    (pathPrefix (pathText ps)).toList = pathChars ps ++ ['/'] := by
  unfold pathPrefix
  by_cases hnil : ps = []
  · rw [hnil]
    rfl
  · have hroot : pathText ps ≠ "/" := by
      intro heq
      have hsegments := segmentsOf_pathText h
      rw [heq] at hsegments
      exact hnil (hsegments.symm.trans (by decide))
    rw [if_neg hroot, String.toList_append, toList_pathText hnil]
    rfl

/-- A slash behind some segments is the one in front of the next segment. -/
theorem pathChars_append_slash_iff {ps qs : List String} {r : List Char}
    (hp : ∀ s ∈ ps, IsSegment s) (hq : ∀ s ∈ qs, IsSegment s) :
    pathChars qs = pathChars ps ++ '/' :: r ↔
      ∃ s rest, qs = ps ++ s :: rest ∧ r = s.toList ++ pathChars rest := by
  have hcons : ∀ (s : String) rest,
      pathChars (s :: rest) = '/' :: (s.toList ++ pathChars rest) := by
    intro s rest
    unfold pathChars
    rw [List.flatMap_cons, List.cons_append]
  constructor
  · intro heq
    induction ps generalizing qs with
    | nil =>
      cases qs with
      | nil => cases heq
      | cons s rest =>
        rw [hcons] at heq
        exact ⟨s, rest, rfl, (List.cons.inj heq).2.symm⟩
    | cons p ps ih =>
      cases qs with
      | nil => cases heq
      | cons q qs =>
        have hp0 := (hp p List.mem_cons_self).2
        have hq0 := (hq q List.mem_cons_self).2
        rw [hcons, hcons, List.cons_append, List.append_assoc] at heq
        have htail := (List.cons.inj heq).2
        -- both texts have a slash behind their first segments
        obtain ⟨r', hr'⟩ : ∃ r', pathChars ps ++ '/' :: r = '/' :: r' := by
          cases ps with
          | nil => exact ⟨r, rfl⟩
          | cons p' ps' =>
            rw [hcons]
            exact ⟨_, rfl⟩
        rw [hr'] at htail
        cases qs with
        | nil =>
          have hmem : '/' ∈ q.toList ++ pathChars [] := by
            rw [htail]
            exact List.mem_append_right _ List.mem_cons_self
          rw [List.mem_append] at hmem
          exact absurd (hmem.resolve_right List.not_mem_nil) hq0
        | cons q' qs' =>
          rw [hcons] at htail
          obtain ⟨hfirst, hrest⟩ := append_cons_inj hq0 hp0 htail
          have heq' : pathChars (q' :: qs') = pathChars ps ++ '/' :: r := by
            rw [hr', ← hrest, hcons]
          obtain ⟨s, rest, hsegments, hr⟩ := ih
            (fun s hs => hp s (List.mem_cons_of_mem _ hs))
            (fun s hs => hq s (List.mem_cons_of_mem _ hs)) heq'
          refine ⟨s, rest, ?_, hr⟩
          rw [hsegments, String.toList_inj.mp hfirst]
          rfl
  · rintro ⟨s, rest, rfl, rfl⟩
    rw [pathChars_append, hcons]

theorem stripPrefix_eq_some_iff {pattern text rest : String} :
    stripPrefix pattern text = some rest ↔ text.toList = pattern.toList ++ rest.toList := by
  unfold stripPrefix
  constructor
  · intro h
    split at h
    · next hpre =>
      obtain ⟨tail, htail⟩ := List.isPrefixOf_iff_prefix.mp hpre
      rw [← Option.some.inj h, String.toList_ofList, ← htail, List.drop_left]
    · cases h
  · intro h
    have hpre : pattern.toList.isPrefixOf text.toList = true := by
      rw [List.isPrefixOf_iff_prefix, h]
      exact List.prefix_append _ _
    rw [if_pos hpre, h, List.drop_left, String.ofList_toList]

/-- The first piece of what is left of a path. -/
theorem headD_split {rest s : String} {segments : List String} (hs : IsSegment s)
    (hrest : rest.toList = s.toList ++ pathChars segments) : (split '/' rest).headD rest = s := by
  unfold split
  rw [hrest, splitOn_segment_append hs.2, List.map_cons, List.headD_cons, String.ofList_toList]

/-- **The child of a path that another path lies at or below** is its segment behind
those of the path. -/
theorem childOf_pathText_iff {ps qs : List String} {s : String} (hp : ∀ s ∈ ps, IsSegment s)
    (hq : ∀ s ∈ qs, IsSegment s) :
    childOf (pathText ps) (pathText qs) = some s ↔ ∃ rest, qs = ps ++ s :: rest := by
  unfold childOf
  constructor
  · intro h
    split at h
    · cases h
    · obtain ⟨r, hr, hchild⟩ := Option.bind_eq_some_iff.mp h
      rw [stripPrefix_eq_some_iff, pathPrefix_pathText hp, List.append_assoc,
        List.singleton_append] at hr
      by_cases hnil : qs = []
      · -- nothing is left of the root
        have hlen := congrArg List.length hr
        rw [hnil, List.length_append, List.length_cons] at hlen
        have hone : (pathText []).toList.length = 1 := rfl
        have hr0 : r = "" := by
          rw [← String.toList_inj]
          exact List.length_eq_zero_iff.mp (by omega)
        rw [hr0] at hchild
        cases hchild
      · rw [toList_pathText hnil, pathChars_append_slash_iff hp hq] at hr
        obtain ⟨s', rest, hqs, hrest⟩ := hr
        have hs' : IsSegment s' := hq s' (by simp [hqs])
        dsimp only at hchild
        rw [headD_split hs' hrest, if_pos hs'.1] at hchild
        rw [← Option.some.inj hchild]
        exact ⟨rest, hqs⟩
  · rintro ⟨rest, hqs⟩
    have hs : IsSegment s := hq s (by simp [hqs])
    have hnil : qs ≠ [] := by simp [hqs]
    have hne : pathText qs ≠ pathText ps := by
      intro heq
      have hsegments := congrArg segmentsOf heq
      rw [segmentsOf_pathText hq, segmentsOf_pathText hp, hqs] at hsegments
      simp at hsegments
    have hstrip : stripPrefix (pathPrefix (pathText ps)) (pathText qs)
        = some (String.ofList (s.toList ++ pathChars rest)) := by
      rw [stripPrefix_eq_some_iff, pathPrefix_pathText hp, toList_pathText hnil,
        List.append_assoc, List.singleton_append, String.toList_ofList]
      exact (pathChars_append_slash_iff hp hq).mpr ⟨s, rest, hqs, rfl⟩
    rw [if_neg hne, hstrip]
    dsimp only [Option.bind_some]
    rw [headD_split hs String.toList_ofList, if_pos hs.1]

/-! ## Runs of a server -/

/-- **A call that changes the objects of a server.** -/
inductive ObjectOp where
  | register (path : ObjectPath) (iface : Interface)
  | unregister (path interface : String)

namespace ObjectOp

/-- The paths of the calls are object paths. -/
def Valid : ObjectOp → Prop
  | register path _ => isValidObjectPath path.text = true
  | unregister path _ => isValidObjectPath path = true

def step (server : ObjectServer) : ObjectOp → ObjectServer
  | register path iface => server.register path iface
  | unregister path interface => server.unregister path interface

/-- What the last call about an interface of a path has left. -/
def held (before : String → String → Option Interface) :
    ObjectOp → String → String → Option Interface
  | register path iface => fun p name =>
    if p = path.text ∧ name = iface.name then some iface else before p name
  | unregister path interface => fun p name =>
    if p = path ∧ name = interface then none else before p name

end ObjectOp

namespace ObjectServer

/-- The server after some calls. -/
def run (ops : List ObjectOp) : ObjectServer := ops.foldl ObjectOp.step new

end ObjectServer

/-- **The interfaces of the paths after some calls.** -/
def heldAfter (ops : List ObjectOp) : String → String → Option Interface :=
  ops.foldl ObjectOp.held fun _ _ => none

/-- A path has an interface. -/
def Registered (ops : List ObjectOp) (path : String) : Prop :=
  ∃ name iface, heldAfter ops path name = some iface

theorem Interfaces.exists_lookup_iff {ifaces : Interfaces} :
    (∃ name iface, ifaces.lookup name = some iface) ↔ ifaces.entries ≠ [] := by
  constructor
  · rintro ⟨name, iface, h⟩ hnil
    have hmem := AList.mem_lookup_iff.mp h
    rw [hnil] at hmem
    cases hmem
  · intro hne
    obtain ⟨⟨name, iface⟩, rest, hentries⟩ := List.exists_cons_of_ne_nil hne
    refine ⟨name, iface, AList.mem_lookup_iff.mpr ?_⟩
    rw [hentries]
    exact List.mem_cons_self

namespace ObjectServer

variable {server : ObjectServer} {table : String → String → Option Interface}

/-- **A server holds a table**: it has the interfaces of the table, and no path that
has none. -/
structure Holds (server : ObjectServer) (table : String → String → Option Interface) : Prop where
  interfaces : ∀ path name, server.getInterface path name = table path name
  inhabited : ∀ path ifaces, server.objects.lookup path = some ifaces → ifaces.entries ≠ []
  valid : ∀ path, server.hasPath path = true → isValidObjectPath path = true

theorem holds_new : new.Holds fun _ _ => none := by
  have hlookup : ∀ path, new.objects.lookup path = none := fun path => AList.lookup_empty path
  refine ⟨fun path name => ?_, fun path ifaces h => ?_, fun path h => ?_⟩
  · unfold getInterface
    rw [hlookup]
    rfl
  · rw [hlookup] at h
    cases h
  · unfold hasPath at h
    rw [hlookup] at h
    cases h

/-- A path is there when it has an interface. -/
theorem Holds.hasPath_iff (h : server.Holds table) (path : String) :
    server.hasPath path = true ↔ ∃ name iface, table path name = some iface := by
  simp only [← h.interfaces path]
  unfold hasPath getInterface
  cases hlookup : server.objects.lookup path with
  | none => exact iff_of_false Bool.false_ne_true fun ⟨_, _, heq⟩ => nomatch heq
  | some ifaces =>
    exact iff_of_true rfl (Interfaces.exists_lookup_iff.mpr (h.inhabited path ifaces hlookup))

/-- **A change at one path**: what is held is what was held, but for what the path has
now. -/
theorem Holds.update (h : server.Holds table) {server' : ObjectServer}
    {table' : String → String → Option Interface} {path : String}
    (hother : ∀ p, p ≠ path → server'.objects.lookup p = server.objects.lookup p ∧
      table' p = table p)
    (hself : ∀ name, server'.getInterface path name = table' path name)
    (hinhabited : ∀ ifaces, server'.objects.lookup path = some ifaces → ifaces.entries ≠ [])
    (hvalid : server'.hasPath path = true → isValidObjectPath path = true) :
    server'.Holds table' := by
  refine ⟨fun p name => ?_, fun p ifaces hp => ?_, fun p hp => ?_⟩
  · by_cases hpath : p = path
    · rw [hpath]
      exact hself name
    · unfold getInterface
      rw [(hother p hpath).1, (hother p hpath).2]
      exact h.interfaces p name
  · by_cases hpath : p = path
    · rw [hpath] at hp
      exact hinhabited ifaces hp
    · rw [(hother p hpath).1] at hp
      exact h.inhabited p ifaces hp
  · by_cases hpath : p = path
    · rw [hpath] at hp ⊢
      exact hvalid hp
    · unfold hasPath at hp
      rw [(hother p hpath).1] at hp
      exact h.valid p hp

theorem Holds.register (h : server.Holds table) {path : ObjectPath}
    (hvalid : isValidObjectPath path.text = true) (iface : Interface) :
    (server.register path iface).Holds ((ObjectOp.register path iface).held table) := by
  have hself : (server.register path iface).objects.lookup path.text =
      some (((server.objects.lookup path.text).getD ∅).insert iface.name iface) :=
    AList.lookup_insert _
  refine h.update (fun p hp => ⟨AList.lookup_insert_ne hp, ?_⟩) (fun name => ?_)
    (fun ifaces hp => ?_) fun _ => hvalid
  · funext name
    exact if_neg fun heq => hp heq.1
  · unfold ObjectOp.held getInterface
    dsimp only
    rw [hself, Option.bind_some]
    by_cases hname : name = iface.name
    · rw [if_pos ⟨rfl, hname⟩, hname, AList.lookup_insert]
    · rw [if_neg fun heq => hname heq.2, AList.lookup_insert_ne hname, ← h.interfaces]
      unfold getInterface
      cases server.objects.lookup path.text with
      | none => exact AList.lookup_empty name
      | some ifaces => rfl
  · rw [hself] at hp
    rw [← Option.some.inj hp, ← Interfaces.exists_lookup_iff]
    exact ⟨iface.name, iface, AList.lookup_insert _⟩

/-- What is left of the interfaces of a path when one is taken back. -/
theorem lookup_unregister (server : ObjectServer) (path interface : String) :
    (server.unregister path interface).objects.lookup path =
      (server.objects.lookup path).bind fun ifaces =>
        if (ifaces.erase interface).entries.isEmpty then none
        else some (ifaces.erase interface) := by
  unfold unregister
  cases hlookup : server.objects.lookup path with
  | none => exact hlookup
  | some ifaces =>
    dsimp only [Option.bind_some]
    split
    · exact AList.lookup_erase path _
    · exact AList.lookup_insert _

theorem lookup_unregister_of_ne (server : ObjectServer) {path p : String} (interface : String)
    (hne : p ≠ path) :
    (server.unregister path interface).objects.lookup p = server.objects.lookup p := by
  unfold unregister
  split
  · dsimp only
    split
    · exact AList.lookup_erase_ne hne
    · exact AList.lookup_insert_ne hne
  · rfl

theorem Holds.unregister (h : server.Holds table) (path interface : String) :
    (server.unregister path interface).Holds
      ((ObjectOp.unregister path interface).held table) := by
  have hself := lookup_unregister server path interface
  refine h.update (fun p hp => ⟨lookup_unregister_of_ne server interface hp, ?_⟩)
    (fun name => ?_) (fun ifaces hp => ?_) fun hp => ?_
  · funext name
    exact if_neg fun heq => hp heq.1
  · unfold ObjectOp.held getInterface
    dsimp only
    rw [hself, ← h.interfaces]
    unfold getInterface
    cases server.objects.lookup path with
    | none => exact (ite_self none).symm
    | some ifaces =>
      have herase : (ifaces.erase interface).lookup name =
          if path = path ∧ name = interface then none else ifaces.lookup name := by
        by_cases hname : name = interface
        · rw [if_pos ⟨rfl, hname⟩, hname, AList.lookup_erase]
        · rw [if_neg fun heq => hname heq.2, AList.lookup_erase_ne hname]
      rw [Option.bind_some, Option.bind_some, ← herase]
      split
      · next hempty =>
        cases hlookup : (ifaces.erase interface).lookup name with
        | none => rfl
        | some iface =>
          exact absurd (List.isEmpty_iff.mp hempty)
            (Interfaces.exists_lookup_iff.mp ⟨name, iface, hlookup⟩)
      · rfl
  · rw [hself] at hp
    obtain ⟨before, -, hafter⟩ := Option.bind_eq_some_iff.mp hp
    split at hafter
    · cases hafter
    · next hne =>
      rw [← Option.some.inj hafter]
      exact fun hnil => hne (List.isEmpty_iff.mpr hnil)
  · unfold hasPath at hp
    rw [hself] at hp
    obtain ⟨after, hafter⟩ := Option.isSome_iff_exists.mp hp
    obtain ⟨ifaces, hbefore, -⟩ := Option.bind_eq_some_iff.mp hafter
    refine h.valid path ?_
    unfold hasPath
    rw [hbefore]
    rfl

/-- **After some calls a server holds what the last ones have left.** -/
theorem holds_run {ops : List ObjectOp} (hvalid : ∀ op ∈ ops, op.Valid) :
    (run ops).Holds (heldAfter ops) := by
  have hfold : ∀ (ops : List ObjectOp) (server : ObjectServer) (table), (∀ op ∈ ops, op.Valid) →
      server.Holds table →
      (ops.foldl ObjectOp.step server).Holds (ops.foldl ObjectOp.held table) := by
    intro ops
    induction ops with
    | nil => exact fun _ _ _ h => h
    | cons op ops ih =>
      intro server table hvalid h
      refine ih _ _ (fun op' hop' => hvalid op' (List.mem_cons_of_mem _ hop')) ?_
      have hop := hvalid op List.mem_cons_self
      cases op with
      | register path iface => exact h.register hop iface
      | unregister path interface => exact h.unregister path interface
  exact hfold ops new (fun _ _ => none) hvalid holds_new

/-! ## What introspection shows -/

theorem nodup_children (server : ObjectServer) (order : MapOrder) (path : String) :
    (server.children order path).Nodup :=
  (foldl_pushChild List.nodup_nil).1

/-- The children come from the paths that are there, in whatever order. -/
theorem mem_children {order : MapOrder} {path s : String} :
    s ∈ server.children order path ↔
      ∃ candidate, server.hasPath candidate = true ∧ childOf path candidate = some s := by
  unfold children hasPath
  rw [(foldl_pushChild List.nodup_nil).2]
  simp only [List.not_mem_nil, false_or, (order.keys_perm _).mem_iff, ← AList.mem_keys,
    AList.lookup_isSome]

end ObjectServer

/-- The segments of the paths that have an interface. -/
def registeredPaths (ops : List ObjectOp) : Set (List String) :=
  {segments | ∃ path, Registered ops path ∧ segments = segmentsOf path}

namespace ObjectServer

variable {ops : List ObjectOp} {order : MapOrder}

/-- A registered path is the text of its segments. -/
theorem pathText_of_registered (hvalid : ∀ op ∈ ops, op.Valid) {path : String}
    (h : Registered ops path) :
    (∀ s ∈ segmentsOf path, IsSegment s) ∧ path = pathText (segmentsOf path) := by
  have hholds := holds_run hvalid
  obtain ⟨segments, hsegments, rfl⟩ :=
    exists_pathText_of_isValid (hholds.valid path ((hholds.hasPath_iff path).mpr h))
  rw [segmentsOf_pathText hsegments]
  exact ⟨hsegments, rfl⟩

/-- **The children of a path are its children in the tree of the registered paths.** -/
theorem mem_children_iff (hvalid : ∀ op ∈ ops, op.Valid) {ps : List String}
    (hp : ∀ s ∈ ps, IsSegment s) (s : String) :
    s ∈ (run ops).children order (pathText ps) ↔ s ∈ Tree.children (registeredPaths ops) ps := by
  rw [mem_children]
  constructor
  · rintro ⟨candidate, hcandidate, hchild⟩
    have hregistered := ((holds_run hvalid).hasPath_iff candidate).mp hcandidate
    obtain ⟨hsegments, htext⟩ := pathText_of_registered hvalid hregistered
    rw [htext, childOf_pathText_iff hp hsegments] at hchild
    obtain ⟨rest, hrest⟩ := hchild
    exact ⟨rest, candidate, hregistered, hrest.symm⟩
  · rintro ⟨rest, candidate, hregistered, hrest⟩
    obtain ⟨hsegments, htext⟩ := pathText_of_registered hvalid hregistered
    refine ⟨candidate, ((holds_run hvalid).hasPath_iff candidate).mpr hregistered, ?_⟩
    rw [htext, childOf_pathText_iff hp hsegments]
    exact ⟨rest, hrest.symm⟩

/-! ## A walk from the root -/

/-- **The paths that a walk comes to** which starts at the root and follows the
entries of children. -/
inductive Visited (server : ObjectServer) : String → Prop where
  | root : Visited server "/"
  | child {path s : String} (order : MapOrder) : Visited server path →
      s ∈ server.children order path → Visited server (pathPrefix path ++ s)

theorem pathPrefix_append {ps : List String} {s : String} (hp : ∀ s ∈ ps, IsSegment s) :
    pathPrefix (pathText ps) ++ s = pathText (ps ++ [s]) := by
  have hne : ps ++ [s] ≠ [] := List.append_ne_nil_of_right_ne_nil _ (List.cons_ne_nil _ _)
  rw [← String.toList_inj, String.toList_append, pathPrefix_pathText hp, toList_pathText hne,
    pathChars_append, List.append_assoc]
  unfold pathChars
  simp

/-- The nodes of the tree are made of segments. -/
theorem isSegment_of_isNode (hvalid : ∀ op ∈ ops, op.Valid) {qs : List String}
    (h : Tree.IsNode (registeredPaths ops) qs) : ∀ s ∈ qs, IsSegment s := by
  rcases h with rfl | ⟨_, ⟨path, hregistered, rfl⟩, hpre⟩
  · exact List.forall_mem_nil _
  · exact fun s hs => (pathText_of_registered hvalid hregistered).1 s (hpre.subset hs)

/-- **A walk of a server is one in the tree of the registered paths.** -/
theorem visited_iff_reached (hvalid : ∀ op ∈ ops, op.Valid) (order : MapOrder) {q : String} :
    Visited (run ops) q ↔
      ∃ qs, Tree.Reached (Tree.children (registeredPaths ops)) qs ∧ q = pathText qs := by
  constructor
  · intro h
    induction h with
    | root => exact ⟨[], .root, rfl⟩
    | child order' _ hs ih =>
      obtain ⟨ps, hps, rfl⟩ := ih
      have hsegments := isSegment_of_isNode hvalid (Tree.reached_children_iff.mp hps)
      rw [mem_children_iff hvalid hsegments] at hs
      exact ⟨ps ++ [_], hps.child hs, pathPrefix_append hsegments⟩
  · rintro ⟨qs, hqs, rfl⟩
    induction hqs with
    | root => exact .root
    | child hps hs ih =>
      have hsegments := isSegment_of_isNode hvalid (Tree.reached_children_iff.mp hps)
      rw [← pathPrefix_append hsegments]
      exact ih.child order ((mem_children_iff hvalid hsegments _).mpr hs)

end ObjectServer

/-- A path is another one or an ancestor of it. -/
def LeadsTo (q path : String) : Prop :=
  ∃ segments, segments <+: segmentsOf path ∧ q = pathText segments

/-- **Introspection covers the tree of the registered paths.** The entries of a path
are, each once, the segments that come next on the way to a registered path, and a
walk from the root comes to the root, the registered paths and their ancestors. -/
theorem introspect_covers {ops : List ObjectOp} (hvalid : ∀ op ∈ ops, op.Valid)
    (descriptions : Descriptions) (order : MapOrder) :
    (∀ path, isValidObjectPath path = true → ∃ children,
      (ObjectServer.run ops).introspect descriptions order path =
          (ObjectServer.run ops).introspectHead descriptions order path ++
            String.join (children.map nodeEntry) ++ "</node>\n" ∧
        children = (ObjectServer.run ops).children order path ∧ children.Nodup ∧
        ∀ s, s ∈ children ↔
          ∃ q, Registered ops q ∧ ∃ rest, segmentsOf q = segmentsOf path ++ s :: rest) ∧
      ∀ q, ObjectServer.Visited (ObjectServer.run ops) q ↔
        q = "/" ∨ ∃ path, Registered ops path ∧ LeadsTo q path := by
  constructor
  · intro path hpath
    obtain ⟨ps, hps, rfl⟩ := exists_pathText_of_isValid hpath
    refine ⟨_, rfl, rfl, ObjectServer.nodup_children _ order _, fun s => ?_⟩
    rw [ObjectServer.mem_children_iff hvalid hps, segmentsOf_pathText hps]
    constructor
    · rintro ⟨rest, q, hq, hrest⟩
      exact ⟨q, hq, rest, hrest.symm⟩
    · rintro ⟨q, hq, rest, hrest⟩
      exact ⟨rest, q, hq, hrest.symm⟩
  · intro q
    rw [ObjectServer.visited_iff_reached hvalid order]
    simp only [Tree.reached_children_iff]
    constructor
    · rintro ⟨qs, rfl | ⟨_, ⟨path, hpath, rfl⟩, hpre⟩, rfl⟩
      · exact .inl rfl
      · exact .inr ⟨path, hpath, qs, hpre, rfl⟩
    · rintro (rfl | ⟨path, hpath, qs, hpre, rfl⟩)
      · exact ⟨[], .inl rfl, rfl⟩
      · exact ⟨qs, .inr ⟨_, ⟨path, hpath, rfl⟩, hpre⟩, rfl⟩

/-- An object below one that is not exported. -/
def nestedExport : List ObjectOp := [.register ⟨"/a/b"⟩ ⟨"a.B", fun _ _ => .ok []⟩]

/-- Interfaces that say nothing of themselves. -/
def noDescriptions : Descriptions := { introspectionXml := fun _ => "" }

/-- The order in which a map was filled. -/
def insertionOrder : MapOrder := ⟨id, fun l => List.Perm.refl l, id, fun l => List.Perm.refl l⟩

/-- The walk that comes to it. -/
theorem introspect_covers_nested : ObjectServer.Visited (ObjectServer.run nestedExport) "/a" := by
  refine ((introspect_covers (fun op hop => ?_) noDescriptions insertionOrder).2 "/a").mpr
    (.inr ⟨"/a/b", ⟨"a.B", _, rfl⟩, ["a"], ?_, by decide +kernel⟩)
  · obtain rfl := List.mem_singleton.mp hop
    show isValidObjectPath "/a/b" = true
    decide +kernel
  · decide +kernel

/-- **Without any registered path a walk still comes to the root.** -/
theorem not_introspect_covers_empty :
    ¬ ∀ q, ObjectServer.Visited (ObjectServer.run []) q ↔
        ∃ path, Registered [] path ∧ LeadsTo q path := by
  intro h
  obtain ⟨path, ⟨name, iface, hheld⟩, -⟩ := (h "/").mp .root
  cases hheld

end Oxibus
