import Oxibus.Daemon.RuleText
import Oxibus.Lib.Overrides

/-!
# What a match rule asks for

Every pair of a rule asks one thing of a message (`Ask`), and a rule as the
daemon stores it is a set of such asks. Most of them have a field of their
own in the rule, so that a later pair with the same key takes the place of
an earlier one (`MatchRule.has_ask`); the conditions on arguments are
collected.

From this follows which messages a rule matches: those that meet the pairs
no later pair replaces. Where a key with a field of its own is written
twice, that is fewer conditions than the text has
(`matches_iff_pairs`).
-/

namespace Oxibus

/-- **What a pair of a rule asks for.** -/
inductive Ask where
  | type (t : MessageType)
  | sender (name : String)
  | interface (name : String)
  | member (name : String)
  | path (name : String)
  | pathNamespace (ns : String)
  | destination (name : String)
  | eavesdrop (on : Bool)
  | arg0namespace (ns : String)
  | arg (idx : ℕ) (expected : String)
  | argPath (idx : ℕ) (expected : String)
  deriving DecidableEq, Repr

namespace Ask

/-- The key of an ask that has a field of its own. -/
def key : Ask → Option String
  | .type _ => some "type"
  | .sender _ => some "sender"
  | .interface _ => some "interface"
  | .member _ => some "member"
  | .path _ => some "path"
  | .pathNamespace _ => some "path_namespace"
  | .destination _ => some "destination"
  | .eavesdrop _ => some "eavesdrop"
  | .arg0namespace _ => some "arg0namespace"
  | .arg _ _ => none
  | .argPath _ _ => none

/-- Whether a later ask takes the place of an earlier one. -/
def replaces (later earlier : Ask) : Bool := earlier.key.isSome && later.key == earlier.key

/-- **Whether a message meets an ask.** -/
def holds (msg : Message) (resolveOwner : String → Option String) : Ask → Bool
  | .type t => msg.messageType == t
  | .sender name => MatchRule.matchesSender msg resolveOwner name
  | .interface name => msg.interface == some name
  | .member name => msg.member == some name
  | .path name => msg.path.map ObjectPath.text == some name
  | .pathNamespace ns => (msg.path.map fun p => p.isWithinNamespace ns).getD false
  | .destination name => msg.destination == some name
  | .eavesdrop _ => true
  | .arg0namespace ns =>
    ((valueAsStr msg 0).map fun val =>
      val == ns || (ns ++ ".").toList.isPrefixOf val.toList).getD false
  | .arg idx expected => valueAsStr msg idx == some expected
  | .argPath idx expected =>
    ((valueAsStr msg idx).map fun val => isPathParentOrChild val expected).getD false

end Ask

/-! ## Reading a pair -/

/-- The keys that have a field of their own in a rule. -/
def fieldKeys : List String :=
  ["type", "sender", "interface", "member", "path", "path_namespace", "destination",
    "eavesdrop", "arg0namespace"]

/-- The ask of a pair. -/
def readPair (key value : String) : RuleResult Ask :=
  if key = "type" then do
    let t ← ruleType value
    .ok (.type t)
  else if key = "sender" then .ok (.sender value)
  else if key = "interface" then .ok (.interface value)
  else if key = "member" then .ok (.member value)
  else if key = "path" then .ok (.path value)
  else if key = "path_namespace" then .ok (.pathNamespace value)
  else if key = "destination" then .ok (.destination value)
  else if key = "eavesdrop" then .ok (.eavesdrop (value == "true"))
  else if key = "arg0namespace" then .ok (.arg0namespace value)
  else if "arg".toList.isPrefixOf key.toList then
    let digits := trimStartMatches "arg".toList key.length key.toList
    if "path".toList.isSuffixOf key.toList then do
      let idx ← argIndex key (trimEndMatches "path".toList digits)
      .ok (.argPath idx value)
    else do
      let idx ← argIndex key digits
      .ok (.arg idx value)
  else .err ("unknown match rule key '" ++ key ++ "'")

/-- A key without a field of its own is taken apart as the key of an
argument. -/
theorem readPair_of_notMem {key : String} (h : key ∉ fieldKeys) (value : String) :
    readPair key value =
      if "arg".toList.isPrefixOf key.toList then
        let digits := trimStartMatches "arg".toList key.length key.toList
        if "path".toList.isSuffixOf key.toList then do
          let idx ← argIndex key (trimEndMatches "path".toList digits)
          .ok (.argPath idx value)
        else do
          let idx ← argIndex key digits
          .ok (.arg idx value)
      else .err ("unknown match rule key '" ++ key ++ "'") := by
  simp only [fieldKeys, List.mem_cons, List.not_mem_nil, or_false, not_or] at h
  obtain ⟨h₁, h₂, h₃, h₄, h₅, h₆, h₇, h₈, h₉⟩ := h
  rw [readPair, if_neg h₁, if_neg h₂, if_neg h₃, if_neg h₄, if_neg h₅, if_neg h₆, if_neg h₇,
    if_neg h₈, if_neg h₉]

/-- **A pair is read by its key**: a key with a field of its own asks for
that field, every other key for an argument. -/
theorem readPair_eq_ok {key value : String} {ask : Ask} (h : readPair key value = .ok ask) :
    (key ∈ fieldKeys ∧ ask.key = some key) ∨
      (key ∉ fieldKeys ∧ "arg".toList.isPrefixOf key.toList = true ∧
        ("path".toList.isSuffixOf key.toList = true ∧ (∃ idx, argIndex key (trimEndMatches
            "path".toList (trimStartMatches "arg".toList key.length key.toList)) = .ok idx ∧
            ask = .argPath idx value) ∨
          "path".toList.isSuffixOf key.toList = false ∧ (∃ idx, argIndex key
            (trimStartMatches "arg".toList key.length key.toList) = .ok idx ∧
            ask = .arg idx value))) := by
  by_cases hfield : key ∈ fieldKeys
  · left
    refine ⟨hfield, ?_⟩
    simp only [fieldKeys, List.mem_cons, List.not_mem_nil, or_false] at hfield
    rcases hfield with rfl | rfl | rfl | rfl | rfl | rfl | rfl | rfl | rfl
    · obtain ⟨t, -, ht⟩ := Outcome.bind_eq_ok.mp h
      cases ht
      rfl
    all_goals
      cases h
      rfl
  · right
    refine ⟨hfield, ?_⟩
    rw [readPair_of_notMem hfield] at h
    split at h
    · next harg =>
      refine ⟨harg, ?_⟩
      dsimp only at h
      split at h
      · next hpath =>
        obtain ⟨idx, hidx, hask⟩ := Outcome.bind_eq_ok.mp h
        cases hask
        exact .inl ⟨hpath, idx, hidx, rfl⟩
      · next hpath =>
        obtain ⟨idx, hidx, hask⟩ := Outcome.bind_eq_ok.mp h
        cases hask
        exact .inr ⟨Bool.eq_false_iff.mpr hpath, idx, hidx, rfl⟩
    · cases h

/-- The key of an ask is the key it was read from. -/
theorem key_of_readPair {key value : String} {ask : Ask} (h : readPair key value = .ok ask) :
    ask.key = if key ∈ fieldKeys then some key else none := by
  rcases readPair_eq_ok h with ⟨hfield, hkey⟩ | ⟨hfield, -, ⟨-, idx, -, rfl⟩ | ⟨-, idx, -, rfl⟩⟩
  · rw [if_pos hfield, hkey]
  · rw [if_neg hfield]
    rfl
  · rw [if_neg hfield]
    rfl

namespace MatchRule

/-- A rule that asks for one more thing. -/
def ask (rule : MatchRule) : Ask → MatchRule
  | .type t => { rule with messageType := some t }
  | .sender name => { rule with sender := some name }
  | .interface name => { rule with interface := some name }
  | .member name => { rule with member := some name }
  | .path name => { rule with path := some name }
  | .pathNamespace ns => { rule with pathNamespace := some ns }
  | .destination name => { rule with destination := some name }
  | .eavesdrop on => { rule with eavesdrop := on }
  | .arg0namespace ns => { rule with arg0namespace := some ns }
  | .arg idx expected => { rule with args := rule.args ++ [(idx, expected)] }
  | .argPath idx expected => { rule with argPaths := rule.argPaths ++ [(idx, expected)] }

/-- **Adding a pair is reading it and asking for what it says.** -/
theorem addPair_eq (rule : MatchRule) (key value : String) :
    rule.addPair key value = (do
      let a ← readPair key value
      .ok (rule.ask a)) := by
  have hite : ∀ {c : Prop} [Decidable c] (x y : RuleResult Ask) (f : Ask → RuleResult MatchRule),
      (if c then x else y) >>= f = if c then x >>= f else y >>= f := by
    intro c _ x y f
    split <;> rfl
  simp only [addPair, readPair, hite, Outcome.ok_bind, Outcome.err_bind, bind_assoc, ask]

/-- The pairs of a rule and what they ask for. -/
def Read (pairs : List (String × String)) (asks : List Ask) : Prop :=
  List.Forall₂ (fun pair a => readPair pair.1 pair.2 = .ok a) pairs asks

theorem addPairs_eq_ok {rule rule' : MatchRule} {pairs : List (String × String)} :
    rule.addPairs pairs = .ok rule'
      ↔ ∃ asks, Read pairs asks ∧ rule' = asks.foldl ask rule := by
  induction pairs generalizing rule with
  | nil =>
    rw [addPairs, Outcome.ok.injEq]
    constructor
    · rintro rfl
      exact ⟨[], .nil, rfl⟩
    · rintro ⟨asks, hread, rfl⟩
      cases hread
      rfl
  | cons pair pairs ih =>
    obtain ⟨key, value⟩ := pair
    rw [addPairs, Outcome.bind_eq_ok]
    constructor
    · rintro ⟨next, hadd, hrest⟩
      rw [addPair_eq, Outcome.bind_eq_ok] at hadd
      obtain ⟨a, ha, hnext⟩ := hadd
      cases hnext
      obtain ⟨asks, hread, rfl⟩ := ih.mp hrest
      exact ⟨a :: asks, .cons ha hread, rfl⟩
    · rintro ⟨asks, hread, rfl⟩
      cases hread with
      | @cons _ a _ asks ha hread =>
        refine ⟨rule.ask a, ?_, ih.mpr ⟨asks, hread, rfl⟩⟩
        rw [addPair_eq, ha]
        rfl

/-! ## The asks of a rule -/

/-- Whether a rule asks for something. -/
def Has (rule : MatchRule) : Ask → Prop
  | .type t => rule.messageType = some t
  | .sender name => rule.sender = some name
  | .interface name => rule.interface = some name
  | .member name => rule.member = some name
  | .path name => rule.path = some name
  | .pathNamespace ns => rule.pathNamespace = some ns
  | .destination name => rule.destination = some name
  | .eavesdrop on => rule.eavesdrop = on
  | .arg0namespace ns => rule.arg0namespace = some ns
  | .arg idx expected => (idx, expected) ∈ rule.args
  | .argPath idx expected => (idx, expected) ∈ rule.argPaths

/-- **What a rule asks for with one ask more**: that, and all it asked for
before that this does not replace. -/
theorem has_ask (rule : MatchRule) (a b : Ask) :
    (rule.ask a).Has b ↔ b = a ∨ (rule.Has b ∧ a.replaces b = false) := by
  cases a <;> cases b <;> simp [ask, Has, Ask.replaces, Ask.key, eq_comm, or_comm]

/-- A rule of no pairs asks for nothing but not to eavesdrop. -/
theorem has_empty (raw : String) (b : Ask) : (empty raw).Has b ↔ b = .eavesdrop false := by
  cases b <;> simp [empty, Has, eq_comm]

/-- An ask that was read comes from a pair. -/
theorem Read.mem_iff {pairs : List (String × String)} {asks : List Ask} (h : Read pairs asks)
    (a : Ask) : a ∈ asks ↔ ∃ pair ∈ pairs, readPair pair.1 pair.2 = .ok a := by
  induction h with
  | nil => simp
  | cons ha _ ih =>
    rw [List.mem_cons, ih, List.exists_mem_cons_iff, ha, Outcome.ok.injEq, eq_comm]

/-- Every pair that was read has an ask. -/
theorem Read.exists_ask {pairs : List (String × String)} {asks : List Ask} (h : Read pairs asks)
    {pair : String × String} (hpair : pair ∈ pairs) : ∃ a, readPair pair.1 pair.2 = .ok a := by
  induction h with
  | nil => cases hpair
  | cons ha _ ih =>
    rcases List.mem_cons.mp hpair with rfl | hmem
    · exact ⟨_, ha⟩
    · exact ih hmem

/-- **A rule has the conditions on arguments that its pairs ask for**, all of
them. -/
theorem has_of_key_eq_none {raw : String} {rule : MatchRule} {pairs : List (String × String)}
    (h : (empty raw).addPairs pairs = .ok rule) {a : Ask} (hkey : a.key = none) :
    rule.Has a ↔ ∃ pair ∈ pairs, readPair pair.1 pair.2 = .ok a := by
  obtain ⟨asks, hread, rfl⟩ := addPairs_eq_ok.mp h
  have hstays : ∀ later : Ask, later.replaces a = false := by
    intro later
    rw [Ask.replaces, hkey]
    rfl
  have hempty : ¬ (empty raw).Has a := by
    rw [has_empty]
    rintro rfl
    cases hkey
  rw [has_foldl has_ask, mem_kept_of_not_replaced hstays, hread.mem_iff]
  exact or_iff_left fun hold => hempty hold.1

theorem asks_eq_true {α : Type} {field : Option α} {cond : α → Bool} :
    asks field cond = true ↔ ∀ a, field = some a → cond a = true := by
  cases field with
  | none => simp [asks]
  | some a => simp [asks]

/-- **A rule matches the messages that meet all it asks for.** -/
theorem matches_iff_has (rule : MatchRule) (msg : Message)
    (resolveOwner : String → Option String) :
    rule.matches msg resolveOwner = true ↔ ∀ b, rule.Has b → b.holds msg resolveOwner = true := by
  simp only [«matches», Bool.and_eq_true, asks_eq_true, List.all_eq_true, Prod.forall]
  constructor
  · rintro ⟨⟨⟨⟨⟨⟨⟨⟨⟨ht, hs⟩, hi⟩, hm⟩, hp⟩, hns⟩, hd⟩, ha⟩, hap⟩, h0⟩ b hb
    cases b with
    | type t => exact ht t hb
    | sender name => exact hs name hb
    | interface name => exact hi name hb
    | member name => exact hm name hb
    | path name => exact hp name hb
    | pathNamespace ns => exact hns ns hb
    | destination name => exact hd name hb
    | eavesdrop on => rfl
    | arg0namespace ns => exact h0 ns hb
    | arg idx expected => exact ha idx expected hb
    | argPath idx expected => exact hap idx expected hb
  · intro h
    refine ⟨⟨⟨⟨⟨⟨⟨⟨⟨?_, ?_⟩, ?_⟩, ?_⟩, ?_⟩, ?_⟩, ?_⟩, ?_⟩, ?_⟩, ?_⟩
    · exact fun t ht => h (.type t) ht
    · exact fun name hname => h (.sender name) hname
    · exact fun name hname => h (.interface name) hname
    · exact fun name hname => h (.member name) hname
    · exact fun name hname => h (.path name) hname
    · exact fun ns hns => h (.pathNamespace ns) hns
    · exact fun name hname => h (.destination name) hname
    · exact fun idx expected hmem => h (.arg idx expected) hmem
    · exact fun idx expected hmem => h (.argPath idx expected) hmem
    · exact fun ns hns => h (.arg0namespace ns) hns

end MatchRule

/-! ## Pairs that are written twice -/

/-- Whether a later pair takes the place of an earlier one. -/
def pairReplaces (later earlier : String × String) : Bool :=
  fieldKeys.contains earlier.1 && later.1 == earlier.1

/-- Whether a message meets a pair. -/
def pairHolds (msg : Message) (resolveOwner : String → Option String)
    (pair : String × String) : Bool :=
  match readPair pair.1 pair.2 with
  | .ok a => a.holds msg resolveOwner
  | _ => false

/-- The rule of a single pair. -/
def pairRule (pair : String × String) : RuleResult MatchRule :=
  (MatchRule.empty (pairText pair.1 pair.2)).addPairs [pair]

/-- A pair takes the place of another exactly where its ask does. -/
theorem pairReplaces_of_read {later earlier : String × String} {a b : Ask}
    (ha : readPair later.1 later.2 = .ok a) (hb : readPair earlier.1 earlier.2 = .ok b) :
    pairReplaces later earlier = a.replaces b := by
  rw [pairReplaces, Ask.replaces, key_of_readPair ha, key_of_readPair hb]
  by_cases hearlier : earlier.1 ∈ fieldKeys
  · by_cases hlater : later.1 ∈ fieldKeys
    · rw [if_pos hearlier, if_pos hlater]
      simp [hearlier]
    · have hne : later.1 ≠ earlier.1 := fun h => hlater (h ▸ hearlier)
      rw [if_pos hearlier, if_neg hlater]
      simp [hne]
  · rw [if_neg hearlier]
    simp [hearlier]

section

variable (msg : Message) (resolveOwner : String → Option String)

/-- **A rule matches the messages that meet the pairs no later pair
replaces.** -/
theorem matches_addPairs {raw : String} {rule : MatchRule} {pairs : List (String × String)}
    (h : (MatchRule.empty raw).addPairs pairs = .ok rule) :
    rule.matches msg resolveOwner = true
      ↔ ∀ pair ∈ kept pairReplaces pairs, pairHolds msg resolveOwner pair = true := by
  obtain ⟨asks, hread, rfl⟩ := MatchRule.addPairs_eq_ok.mp h
  have hkept : MatchRule.Read (kept pairReplaces pairs) (kept Ask.replaces asks) :=
    forall₂_kept (R := fun (pair : String × String) a => readPair pair.1 pair.2 = .ok a)
      (fun _ _ _ _ ha hb => pairReplaces_of_read ha hb) hread
  have hholds : (∀ pair ∈ kept pairReplaces pairs, pairHolds msg resolveOwner pair = true)
      ↔ ∀ a ∈ kept Ask.replaces asks, a.holds msg resolveOwner = true := by
    generalize kept pairReplaces pairs = ps at hkept ⊢
    generalize kept Ask.replaces asks = as at hkept ⊢
    induction hkept with
    | nil => simp
    | @cons pair a ps as ha _ ih =>
      rw [List.forall_mem_cons, List.forall_mem_cons, ih, pairHolds, ha]
  rw [hholds, MatchRule.matches_iff_has]
  constructor
  · intro hall a ha
    exact hall a ((has_foldl MatchRule.has_ask _ _ _).mpr (.inl ha))
  · intro hall a ha
    rcases (has_foldl MatchRule.has_ask _ _ _).mp ha with hmem | ⟨hempty, -⟩
    · exact hall a hmem
    · rw [MatchRule.has_empty] at hempty
      rw [hempty]
      rfl

/-- **More pairs never match more, and their order does not matter**, where
no key with a field of its own is written twice. -/
theorem matches_of_subset {raw raw' : String} {rule rule' : MatchRule}
    {pairs pairs' : List (String × String)} (h : (MatchRule.empty raw).addPairs pairs = .ok rule)
    (h' : (MatchRule.empty raw').addPairs pairs' = .ok rule') (hsub : pairs' ⊆ pairs)
    (honce : pairs.Pairwise fun earlier later => pairReplaces later earlier = false)
    (hmatch : rule.matches msg resolveOwner = true) : rule'.matches msg resolveOwner = true := by
  rw [matches_addPairs msg resolveOwner h, kept_eq_self honce] at hmatch
  rw [matches_addPairs msg resolveOwner h']
  exact fun pair hpair => hmatch pair (hsub ((kept_sublist pairReplaces pairs').subset hpair))

/-- A rule of one pair matches the messages that meet it. -/
theorem matches_pairRule {pair : String × String} {single : MatchRule}
    (h : pairRule pair = .ok single) :
    single.matches msg resolveOwner = true ↔ pairHolds msg resolveOwner pair = true := by
  rw [matches_addPairs msg resolveOwner h,
    kept_eq_self (List.pairwise_singleton _ _)]
  simp

/-- **Every pair of an accepted rule is accepted on its own.** -/
theorem pairRule_of_addPairs {rule rule' : MatchRule} {pairs : List (String × String)}
    (h : rule.addPairs pairs = .ok rule') {pair : String × String} (hpair : pair ∈ pairs) :
    ∃ single, pairRule pair = .ok single := by
  obtain ⟨asks, hread, -⟩ := MatchRule.addPairs_eq_ok.mp h
  obtain ⟨a, ha⟩ := hread.exists_ask hpair
  exact ⟨_, MatchRule.addPairs_eq_ok.mpr ⟨[a], .cons ha .nil, rfl⟩⟩

/-- Whether a message matches the rule of each single pair. -/
def MatchesEach (pairs : List (String × String)) : Prop :=
  ∀ pair ∈ pairs, ∃ single, pairRule pair = .ok single ∧ single.matches msg resolveOwner = true

theorem matchesEach_iff {rule rule' : MatchRule} {pairs : List (String × String)}
    (h : rule.addPairs pairs = .ok rule') :
    MatchesEach msg resolveOwner pairs
      ↔ ∀ pair ∈ pairs, pairHolds msg resolveOwner pair = true := by
  refine forall₂_congr fun pair hpair => ?_
  constructor
  · rintro ⟨single, hsingle, hmatch⟩
    exact (matches_pairRule msg resolveOwner hsingle).mp hmatch
  · intro hholds
    obtain ⟨single, hsingle⟩ := pairRule_of_addPairs h hpair
    exact ⟨single, hsingle, (matches_pairRule msg resolveOwner hsingle).mpr hholds⟩

end

/-- **When a rule is the conjunction of its pairs.** An accepted rule
matches a message exactly where each of its pairs does if and only if the
message meets the pairs that a later one replaces whenever it meets the
others; where no key with a field of its own is written twice this is so for
every message. -/
theorem matches_iff_pairs (s : String) (pairs : List (String × String)) (rule : MatchRule)
    (htok : tokenize s = .ok pairs) (hrule : parseMatchRule s = .ok rule) :
    (∀ msg resolveOwner,
      ((rule.matches msg resolveOwner = true ↔ MatchesEach msg resolveOwner pairs)
        ↔ ((∀ pair ∈ kept pairReplaces pairs, pairHolds msg resolveOwner pair = true) →
            ∀ pair ∈ pairs, pairHolds msg resolveOwner pair = true))) ∧
    (pairs.Pairwise (fun earlier later => pairReplaces later earlier = false) →
      ∀ msg resolveOwner,
        (rule.matches msg resolveOwner = true ↔ MatchesEach msg resolveOwner pairs)) := by
  have hadd : (MatchRule.empty s).addPairs pairs = .ok rule := by
    rw [parseMatchRule, htok] at hrule
    exact hrule
  have hiff : ∀ msg resolveOwner,
      ((rule.matches msg resolveOwner = true ↔ MatchesEach msg resolveOwner pairs)
        ↔ ((∀ pair ∈ kept pairReplaces pairs, pairHolds msg resolveOwner pair = true) →
            ∀ pair ∈ pairs, pairHolds msg resolveOwner pair = true)) := by
    intro msg resolveOwner
    rw [matches_addPairs msg resolveOwner hadd, matchesEach_iff msg resolveOwner hadd]
    constructor
    · exact fun h => h.mp
    · refine fun h => ⟨h, fun hall pair hpair => hall pair ?_⟩
      exact (kept_sublist pairReplaces pairs).subset hpair
  refine ⟨hiff, fun hpairwise msg resolveOwner => (hiff msg resolveOwner).mpr ?_⟩
  rw [kept_eq_self hpairwise]
  exact id

/-- A signal with a given member and no arguments. -/
def memberSignal (member : String) : Message :=
  (Message.Builder.signal ⟨"/a"⟩ "a.b" member).build 1

/-- A rule on the member and an argument is the conjunction of the two. -/
theorem matches_iff_pairs_member :
    ∃ rule, parseMatchRule "member='A',arg0='x'" = .ok rule ∧
      (rule.matches (memberSignal "A") (fun _ => none) = true ↔
        MatchesEach (memberSignal "A") (fun _ => none) [("member", "A"), ("arg0", "x")]) :=
  ⟨_, by rfl, (matches_iff_pairs "member='A',arg0='x'" [("member", "A"), ("arg0", "x")] _
    (by decide +kernel) (by rfl)).2 (by decide) _ _⟩

/-- **Of two members the last one counts**: the rule with both matches a
signal that the rule with the first alone does not. -/
theorem matches_last_member :
    ∃ rule, parseMatchRule "member='A',member='B'" = .ok rule ∧
      tokenize "member='A',member='B'" = .ok [("member", "A"), ("member", "B")] ∧
      rule.matches (memberSignal "B") (fun _ => none) = true ∧
      ¬ MatchesEach (memberSignal "B") (fun _ => none) [("member", "A"), ("member", "B")] := by
  refine ⟨_, rfl, by decide +kernel, by decide +kernel, fun h => ?_⟩
  obtain ⟨single, hsingle, hmatch⟩ := h ("member", "A") List.mem_cons_self
  have hfirst : ((fun rule => rule.matches (memberSignal "B") fun _ => none) <$>
      pairRule ("member", "A")) = .ok false := by
    decide +kernel
  rw [hsingle, Outcome.map_ok, hmatch] at hfirst
  cases hfirst

end Oxibus
