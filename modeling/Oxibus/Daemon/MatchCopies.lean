import Oxibus.Daemon.Replay
import Oxibus.Daemon.RulePairs
import Oxibus.Daemon.Sessions

/-!
# Copies of a match rule

A connection may add the same rule several times, and it is kept as often as it
was added. A rule that is removed is gone at once, with all its copies. So the
rules of a connection are not the multiset of what was added and not yet removed
– they are, as long as every call to remove a rule finds one copy of it at most,
and from the first call that finds more they are not (`copies_eq_iff`).

What is lost is counted call by call: the copies a call takes away beyond the
first one. What was removed and what was lost is what was added and is gone
(`copies_of_serves`).
-/

namespace Oxibus

open BusProg

variable {bus : Bus} {c : ConnectionEntry} {w w' : World}

/-- **A call about the rules of its caller.** -/
inductive RuleCall where
  /-- `AddMatch` with a rule. -/
  | add (rule : String)
  /-- `RemoveMatch` with a rule. -/
  | remove (rule : String)
  deriving DecidableEq, Repr

/-- Whether the caller gets a reply that is no error. -/
def DriverOutcome.succeeds (outcome : DriverOutcome) : Bool :=
  match outcome.result with
  | .ok _ => true
  | .error _ => false

namespace RuleCall

/-- The program that serves the call. -/
def serve (bus : Bus) (c : ConnectionEntry) : RuleCall → BusProg DriverOutcome
  | add rule => Driver.handle bus c "AddMatch" [.string rule]
  | remove rule => Driver.handle bus c "RemoveMatch" [.string rule]

/-- Whether the call succeeds, and the rules it leaves. -/
def effect (bus : Bus) (rules : List MatchRule) : RuleCall → Bool × List MatchRule
  | add rule =>
    if bus.limits.maxMatchRulesPerConnection ≤ rules.length then (false, rules)
    else
      match parseMatchRule rule with
      | .ok parsed => (true, rules ++ [parsed])
      | _ => (false, rules)
  | remove rule =>
    let left := rules.filter fun held => held.raw != rule
    (left.length != rules.length, left)

/-- What the program returns, and the rules when it has. -/
def Post (bus : Bus) (c : ConnectionEntry) (call : RuleCall) (rules : List MatchRule)
    (outcome : DriverOutcome) (w : World) : Prop :=
  (outcome.succeeds, w.state.matchRules c) = call.effect bus rules

theorem matchRules_of_beside (h : w.Beside c w') : w'.state.matchRules c = w.state.matchRules c :=
  congrArg Cells.matchRules h.cells

/-- **A call is served as its effect says**, whoever runs beside it. -/
theorem ensures_serve (call : RuleCall) : (call.serve bus c).Ensures World.Exec (World.Beside c)
    (fun _ _ _ _ => True) (call.Post bus c (w.state.matchRules c)) w := by
  cases call with
  | add rule =>
    show (Driver.handleAddMatch bus c [.string rule]).Ensures _ _ _ _ _
    intro w₁ rules w₁' h₁ hexec
    obtain ⟨hrules, hstate⟩ : rules = w₁.state.matchRules c ∧ w₁'.state = w₁.state := hexec.1
    rw [matchRules_of_beside h₁] at hrules
    have hkept : w₁'.state.matchRules c = w.state.matchRules c := by
      rw [hstate, matchRules_of_beside h₁]
    refine ⟨trivial, ?_⟩
    rw [← hrules]
    refine Prog.ensures_ite (fun hfull => ?_) fun hroom => ?_
    · show (false, w₁'.state.matchRules c) = effect bus rules (add rule)
      rw [effect, if_pos hfull, hkept, hrules]
    · cases hparse : parseMatchRule rule with
      | ok parsed =>
        intro w₂ _ w₂' h₂ hpush
        refine ⟨trivial, ?_⟩
        have hstate₂ : w₂'.state = w₂.state.setCells c
            { w₂.state.cells c.id with matchRules := w₂.state.matchRules c ++ [parsed] } := hpush.1
        have hrules₂ : w₂.state.matchRules c = rules := by
          rw [matchRules_of_beside h₂, hkept, hrules]
        show (true, w₂'.state.matchRules c) = effect bus rules (add rule)
        rw [effect, if_neg hroom, hparse, hstate₂, hrules₂]
        simp [BusState.setCells, BusState.matchRules]
      | _ =>
        show (false, w₁'.state.matchRules c) = effect bus rules (add rule)
        rw [effect, if_neg hroom, hparse, hkept, hrules]
  | remove rule =>
    show (Driver.handleRemoveMatch c [.string rule]).Ensures _ _ _ _ _
    intro w₁ removed w₁' h₁ hexec
    obtain ⟨hremoved, hstate⟩ := hexec.1
    rw [matchRules_of_beside h₁] at hremoved hstate
    have hleft : w₁'.state.matchRules c
        = (w.state.matchRules c).filter fun held => held.raw != rule := by
      rw [hstate]
      simp [BusState.setCells, BusState.matchRules]
    refine ⟨trivial, ?_⟩
    show (if removed then _ else _ : BusProg DriverOutcome).Ensures _ _ _ _ _
    refine Prog.ensures_ite (fun hsome => ?_) fun hnone => ?_
    · show (true, w₁'.state.matchRules c) = effect bus (w.state.matchRules c) (remove rule)
      rw [effect, hleft, ← hremoved, hsome]
    · show (false, w₁'.state.matchRules c) = effect bus (w.state.matchRules c) (remove rule)
      rw [effect, hleft, ← hremoved, Bool.eq_false_iff.mpr hnone]

/-- What a call has done when it has been served. -/
theorem effect_of_runs {call : RuleCall} {outcome : DriverOutcome}
    {es : List (Prog.Event BusOp BusOp.Res World)}
    (h : Prog.Runs World.Exec (World.Beside c) w (call.serve bus c) es w' (.ret outcome)) :
    call.effect bus (w.state.matchRules c) = (outcome.succeeds, w'.state.matchRules c) := by
  refine ((ensures_serve call).post_of_runs h (.refl c) (fun _ _ _ => .trans) ?_).symm
  intro outcome w₁ w₂ henv hpost
  rw [Post, matchRules_of_beside henv]
  exact hpost

end RuleCall

/-! ## A connection's calls -/

/-- **A call that was served.** -/
structure ServedCall where
  /-- The rules the connection held before it. -/
  held : List MatchRule
  call : RuleCall
  /-- Whether it succeeded. -/
  succeeded : Bool

/-- **The calls of a connection, one after the other**, from a world to a world. The other
tasks run before each call, while it is served and after the last one. -/
inductive Serves (bus : Bus) (c : ConnectionEntry) : World → List ServedCall → World → Prop
  /-- No call. -/
  | nil {s t : World} (h : s.Beside c t) : Serves bus c s [] t
  /-- A call, and the calls after it. -/
  | cons {s t u : World} {call : RuleCall} {outcome : DriverOutcome} {calls : List ServedCall}
      {es : List (Prog.Event BusOp BusOp.Res World)}
      (hrun : Prog.Runs World.Exec (World.Beside c) s (call.serve bus c) es t (.ret outcome))
      (h : Serves bus c t calls u) :
      Serves bus c s (⟨s.state.matchRules c, call, outcome.succeeds⟩ :: calls) u

/-- The copies of a rule. -/
def copies (rule : String) (rules : List MatchRule) : ℕ := rules.countP fun held => held.raw == rule

/-- How often a rule was added with success. -/
def addedTimes (rule : String) (calls : List ServedCall) : ℕ :=
  calls.countP fun served => served.call == .add rule && served.succeeded

/-- How often a rule was removed with success. -/
def removedTimes (rule : String) (calls : List ServedCall) : ℕ :=
  calls.countP fun served => served.call == .remove rule && served.succeeded

/-- The copies of a rule that a call takes away beyond the first one. -/
def ServedCall.lost (rule : String) (served : ServedCall) : ℕ :=
  if served.call = .remove rule then copies rule served.held - 1 else 0

/-! ## One call -/

theorem raw_foldl_ask (asks : List Ask) (rule : MatchRule) :
    (asks.foldl MatchRule.ask rule).raw = rule.raw := by
  induction asks generalizing rule with
  | nil => rfl
  | cons a asks ih =>
    rw [List.foldl_cons, ih]
    cases a <;> rfl

/-- **A rule keeps the text it was read from.** -/
theorem raw_of_parseMatchRule {s : String} {rule : MatchRule} (h : parseMatchRule s = .ok rule) :
    rule.raw = s := by
  obtain ⟨pairs, -, hadd⟩ := Outcome.bind_eq_ok.mp h
  obtain ⟨asks, -, rfl⟩ := MatchRule.addPairs_eq_ok.mp hadd
  exact raw_foldl_ask asks (.empty s)

theorem copies_filter_self (rule : String) (rules : List MatchRule) :
    copies rule (rules.filter fun held => held.raw != rule) = 0 := by
  rw [copies, List.countP_eq_zero]
  intro held hheld
  have hne := (List.mem_filter.mp hheld).2
  simpa using hne

theorem copies_filter_of_ne {rule other : String} (h : other ≠ rule) (rules : List MatchRule) :
    copies rule (rules.filter fun held => held.raw != other) = copies rule rules := by
  rw [copies, List.countP_filter]
  refine List.countP_congr fun held _ => ?_
  simp only [Bool.and_eq_true, beq_iff_eq, bne_iff_ne, and_iff_left_iff_imp]
  rintro rfl
  exact h.symm

/-- **A rule is found to be removed exactly if a copy of it is held.** -/
theorem effect_remove_fst (bus : Bus) (rule : String) (rules : List MatchRule) :
    (RuleCall.effect bus rules (.remove rule)).1 = true ↔ 1 ≤ copies rule rules := by
  show ((rules.filter fun held => held.raw != rule).length != rules.length) = true ↔ _
  have hcount := List.length_eq_countP_add_countP (l := rules)
    fun held : MatchRule => held.raw == rule
  have hleft : (rules.filter fun held => held.raw != rule).length
      = rules.countP fun held => ¬ (held.raw == rule) = true := by
    rw [← List.countP_eq_length_filter]
    refine List.countP_congr fun held _ => ?_
    simp
  rw [bne_iff_ne, hleft, copies]
  omega

section CallMeasures

variable (rule other : String) (rules : List MatchRule) (succeeded : Bool)

@[simp]
theorem lost_add : ServedCall.lost rule ⟨rules, .add other, succeeded⟩ = 0 :=
  if_neg RuleCall.noConfusion

@[simp]
theorem lost_remove_self :
    ServedCall.lost rule ⟨rules, .remove rule, succeeded⟩ = copies rule rules - 1 :=
  if_pos rfl

@[simp]
theorem removedTimes_add : removedTimes rule [⟨rules, .add other, succeeded⟩] = 0 := by
  simp [removedTimes]

@[simp]
theorem addedTimes_remove : addedTimes rule [⟨rules, .remove other, succeeded⟩] = 0 := by
  simp [addedTimes]

variable {rule other}

theorem lost_remove_of_ne (h : other ≠ rule) :
    ServedCall.lost rule ⟨rules, .remove other, succeeded⟩ = 0 :=
  if_neg fun heq => h (RuleCall.remove.inj heq)

theorem removedTimes_remove_of_ne (h : other ≠ rule) :
    removedTimes rule [⟨rules, .remove other, succeeded⟩] = 0 := by
  simp [removedTimes, h]

end CallMeasures

/-- A rule that is added is one copy more, if it can be read and the connection may have it. -/
theorem copies_effect_add (bus : Bus) (rule other : String) (rules : List MatchRule) :
    copies rule (RuleCall.effect bus rules (.add other)).2
      = copies rule rules
        + addedTimes rule [⟨rules, .add other, (RuleCall.effect bus rules (.add other)).1⟩] := by
  rw [RuleCall.effect]
  split
  · simp [addedTimes]
  · split
    · next parsed hparse =>
      have hraw := raw_of_parseMatchRule hparse
      simp [copies, addedTimes, List.countP_append, List.countP_singleton, hraw]
    · simp [addedTimes]

/-- Removing a rule removes the first copy and loses the others. -/
theorem removedTimes_remove_self (bus : Bus) (rule : String) (rules : List MatchRule) :
    removedTimes rule [⟨rules, .remove rule, (RuleCall.effect bus rules (.remove rule)).1⟩]
        + (copies rule rules - 1)
      = copies rule rules := by
  have hfound := effect_remove_fst bus rule rules
  cases hsucceeded : (RuleCall.effect bus rules (.remove rule)).1 with
  | true =>
    have hheld := hfound.mp hsucceeded
    simp only [removedTimes, List.countP_singleton, beq_self_eq_true, Bool.and_self, if_true]
    omega
  | false =>
    have hnone : ¬ 1 ≤ copies rule rules := fun hheld => by
      rw [hfound.mpr hheld] at hsucceeded
      cases hsucceeded
    simp only [removedTimes, List.countP_singleton, Bool.and_false, Bool.false_eq_true, if_false]
    omega

/-- **What a call does to the copies of a rule**: what is left, what was removed and what was
lost is what was held and what was added. -/
theorem copies_effect (bus : Bus) (rule : String) (call : RuleCall) (rules : List MatchRule) :
    copies rule (call.effect bus rules).2
        + removedTimes rule [⟨rules, call, (call.effect bus rules).1⟩]
        + ServedCall.lost rule ⟨rules, call, (call.effect bus rules).1⟩
      = copies rule rules + addedTimes rule [⟨rules, call, (call.effect bus rules).1⟩] := by
  cases call with
  | add other =>
    rw [removedTimes_add, lost_add, copies_effect_add, Nat.add_zero]
  | remove other =>
    rw [addedTimes_remove, Nat.add_zero]
    by_cases hother : other = rule
    · subst hother
      have hleft : copies other (RuleCall.effect bus rules (.remove other)).2 = 0 :=
        copies_filter_self other rules
      rw [hleft, lost_remove_self, Nat.zero_add, removedTimes_remove_self]
    · have hleft : copies rule (RuleCall.effect bus rules (.remove other)).2 = copies rule rules :=
        copies_filter_of_ne hother rules
      rw [hleft, removedTimes_remove_of_ne _ _ hother, lost_remove_of_ne _ _ hother, Nat.add_zero]

/-! ## All calls -/

/-- **The account of a connection's rules**: what it holds, what was removed and what was lost
on the way is what it held and what was added. -/
theorem copies_of_serves {calls : List ServedCall} (h : Serves bus c w calls w') (rule : String) :
    copies rule (w'.state.matchRules c) + removedTimes rule calls
        + (calls.map (ServedCall.lost rule)).sum
      = copies rule (w.state.matchRules c) + addedTimes rule calls := by
  induction h with
  | nil h => simp [RuleCall.matchRules_of_beside h, removedTimes, addedTimes]
  | @cons s t u call outcome calls es hrun h ih =>
    have hone := copies_effect bus rule call (s.state.matchRules c)
    rw [RuleCall.effect_of_runs hrun] at hone
    have happend : ∀ {p : ServedCall → Bool} (served : ServedCall),
        (served :: calls).countP p = [served].countP p + calls.countP p := fun served => by
      rw [← List.countP_append, List.singleton_append]
    rw [List.map_cons, List.sum_cons, removedTimes, addedTimes, happend, happend]
    simp only [removedTimes, addedTimes] at hone ih ⊢
    omega

/-- A rule is found to be removed exactly if a copy is held. -/
theorem succeeded_of_serves {calls : List ServedCall} (h : Serves bus c w calls w')
    {served : ServedCall} (hserved : served ∈ calls) {rule : String}
    (hcall : served.call = .remove rule) :
    served.succeeded = true ↔ 1 ≤ copies rule served.held := by
  induction h with
  | nil h => exact absurd hserved List.not_mem_nil
  | @cons _ _ _ call outcome calls es hrun h ih =>
    rcases List.mem_cons.mp hserved with rfl | hserved
    · obtain rfl : call = .remove rule := hcall
      have heffect := congrArg Prod.fst (RuleCall.effect_of_runs hrun)
      rw [← effect_remove_fst bus, heffect]
    · exact ih hserved

/-- **The rules are the multiset of what was added and not removed, exactly if no call to
remove a rule ever found more than one copy of it.** -/
theorem copies_eq_iff {calls : List ServedCall} (h : Serves bus c w calls w')
    (hnew : w.state.matchRules c = []) :
    ((∀ rule, copies rule (w'.state.matchRules c) + removedTimes rule calls
          = addedTimes rule calls) ∧
        ∀ served ∈ calls, ∀ rule, served.call = .remove rule →
          (served.succeeded = true ↔ 1 ≤ copies rule served.held)) ↔
      ∀ served ∈ calls, ∀ rule, served.call = .remove rule → copies rule served.held ≤ 1 := by
  have haccount : ∀ rule, copies rule (w'.state.matchRules c) + removedTimes rule calls
      + (calls.map (ServedCall.lost rule)).sum = addedTimes rule calls := fun rule => by
    have heq := copies_of_serves h rule
    rwa [hnew, show copies rule [] = 0 from rfl, Nat.zero_add] at heq
  constructor
  · rintro ⟨hequal, -⟩ served hserved rule hcall
    have hsum : (calls.map (ServedCall.lost rule)).sum = 0 := by
      have := haccount rule
      have := hequal rule
      omega
    have hlost : served.lost rule = 0 :=
      List.sum_eq_zero_iff_forall_eq_nat.mp hsum _ (List.mem_map_of_mem hserved)
    rw [ServedCall.lost, if_pos hcall] at hlost
    omega
  · intro hsingle
    refine ⟨fun rule => ?_, fun served hserved rule hcall => succeeded_of_serves h hserved hcall⟩
    have hsum : (calls.map (ServedCall.lost rule)).sum = 0 := by
      refine List.sum_eq_zero_iff_forall_eq_nat.mpr
        (List.forall_mem_map.mpr fun served hserved => ?_)
      rw [ServedCall.lost]
      split
      · next hcall => exact Nat.sub_eq_zero_of_le (hsingle served hserved rule hcall)
      · rfl
    have := haccount rule
    omega

/-! ## Calls that are served -/

/-- Every call can be served. -/
theorem exists_runs {α : Type} (p : BusProg α) (w : World) : ∃ es a w',
    Prog.Runs World.Exec (World.Beside c) w p es w' (.ret a) := by
  induction p generalizing w with
  | ret a => exact ⟨[], a, w, .refl w _⟩
  | call o k ih =>
    have hexec : World.Exec o w (o.answer w.state).1
        ⟨(o.answer w.state).2, ⟨w.state, o, (o.answer w.state).1⟩ :: w.log⟩ :=
      ⟨o.exec_answer w.state, rfl⟩
    obtain ⟨es, a, w', hruns⟩ := ih (o.answer w.state).1 _
    exact ⟨_, a, w', .call hexec hruns⟩

/-- A rule for all signals. -/
def signalRule : MatchRule :=
  { MatchRule.empty "type='signal'" with messageType := some .signal }

/-- A connection. -/
def signalPeer : ConnectionEntry := ⟨1, ⟨1000, 1000, 4711⟩, none⟩

/-- A rule is added and removed: it never stands there twice. -/
theorem copies_eq_iff_one : ∃ calls w',
    Serves plainBus signalPeer ⟨.new, []⟩ calls w' ∧
      calls.map ServedCall.call = [.add signalRule.raw, .remove signalRule.raw] ∧
      (((∀ rule, copies rule (w'.state.matchRules signalPeer) + removedTimes rule calls
            = addedTimes rule calls) ∧
          ∀ served ∈ calls, ∀ rule, served.call = .remove rule →
            (served.succeeded = true ↔ 1 ≤ copies rule served.held)) ↔
        ∀ served ∈ calls, ∀ rule, served.call = .remove rule → copies rule served.held ≤ 1) := by
  obtain ⟨_, first, w₁, h₁⟩ := exists_runs (c := signalPeer)
    ((RuleCall.add signalRule.raw).serve plainBus signalPeer) ⟨.new, []⟩
  obtain ⟨_, second, w₂, h₂⟩ := exists_runs (c := signalPeer)
    ((RuleCall.remove signalRule.raw).serve plainBus signalPeer) w₁
  have h := Serves.cons h₁ (.cons h₂ (.nil (.refl signalPeer w₂)))
  exact ⟨_, w₂, h, rfl, copies_eq_iff h rfl⟩

/-- A rule that is added twice is gone when it is removed once. -/
theorem copies_lost : ¬ ∀ (bus : Bus) (c : ConnectionEntry) (w w' : World)
    (calls : List ServedCall), Serves bus c w calls w' → w.state.matchRules c = [] →
      (∀ rule, copies rule (w'.state.matchRules c) + removedTimes rule calls
          = addedTimes rule calls) ∧
        ∀ served ∈ calls, ∀ rule, served.call = .remove rule →
          (served.succeeded = true ↔ 1 ≤ copies rule served.held) := by
  intro h
  let c := signalPeer
  let w : World := ⟨.new, []⟩
  obtain ⟨_, first, w₁, h₁⟩ :=
    exists_runs (c := c) ((RuleCall.add signalRule.raw).serve plainBus c) w
  obtain ⟨_, second, w₂, h₂⟩ :=
    exists_runs (c := c) ((RuleCall.add signalRule.raw).serve plainBus c) w₁
  obtain ⟨_, third, w₃, h₃⟩ :=
    exists_runs (c := c) ((RuleCall.remove signalRule.raw).serve plainBus c) w₂
  -- one copy after the first call, two after the second, none after the third
  obtain ⟨hfirst, hheld₁⟩ : true = first.succeeds ∧ [signalRule] = w₁.state.matchRules c := by
    rw [← Prod.mk.injEq, ← RuleCall.effect_of_runs h₁]
    decide +kernel
  obtain ⟨hsecond, hheld₂⟩ :
      true = second.succeeds ∧ [signalRule, signalRule] = w₂.state.matchRules c := by
    rw [← Prod.mk.injEq, ← RuleCall.effect_of_runs h₂, ← hheld₁]
    decide +kernel
  obtain ⟨hthird, hheld₃⟩ : true = third.succeeds ∧ [] = w₃.state.matchRules c := by
    rw [← Prod.mk.injEq, ← RuleCall.effect_of_runs h₃, ← hheld₂]
    decide +kernel
  have hcount := (h plainBus c w w₃ _ (.cons h₁ (.cons h₂ (.cons h₃ (.nil (.refl c w₃))))) rfl).1
    signalRule.raw
  rw [← hfirst, ← hsecond, ← hthird, ← hheld₁, ← hheld₂, ← hheld₃] at hcount
  exact absurd hcount (by decide +kernel)

end Oxibus
