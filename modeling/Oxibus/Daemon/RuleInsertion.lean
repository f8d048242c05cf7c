import Oxibus.Daemon.Policy
import Mathlib.Data.Bool.Basic
import Mathlib.Order.Monotone.Basic

/-!
# A rule more

What a rule does depends on where it stands: the rules that apply are gathered
by context, and the last one that matches decides. A rule more, anywhere in a
policy and in any context, comes in at one place of what applies to an
identity, or at none (`applicable_insert`).

That is enough to see which way it can change a decision. The verdict runs
through the rules that apply, each rule takes a better verdict to one that is
no worse, and one that only allows takes none to a worse one. So no operation
is lost by a rule that only allows, and none is gained by one that only denies
(`monotone_insert`).
-/

namespace Oxibus

/-! ## A step more -/

section

variable {α β : Type*} [Preorder β] {f : β → α → β} {a : α}

/-- A step that goes up, anywhere among monotone steps. -/
theorem foldl_le_foldl_insert (hf : ∀ a, Monotone fun b => f b a) (ha : ∀ b, b ≤ f b a) (b : β)
    (as bs : List α) : (as ++ bs).foldl f b ≤ (as ++ a :: bs).foldl f b := by
  rw [List.foldl_append, List.foldl_append, List.foldl_cons]
  exact List.foldl_monotone hf bs (ha _)

/-- A step that goes down. -/
theorem foldl_insert_le_foldl (hf : ∀ a, Monotone fun b => f b a) (ha : ∀ b, f b a ≤ b) (b : β)
    (as bs : List α) : (as ++ a :: bs).foldl f b ≤ (as ++ bs).foldl f b := by
  rw [List.foldl_append, List.foldl_append, List.foldl_cons]
  exact List.foldl_monotone hf bs (ha _)

end

namespace Policy

variable {pre post : List PolicyRule} {rule : PolicyRule} {identity : Identity}

/-! ## Where a rule comes in -/

/-- The contexts, in the order in which they are gone through. -/
def contexts : List Context := [.default, .user, .group, .mandatory]

theorem applicable_eq (policy : Policy) (identity : Identity) :
    policy.applicable identity = contexts.flatMap (policy.inContext identity) := by
  simp [applicable, contexts]

theorem inContext_insert (context : Context) :
    inContext ⟨pre ++ rule :: post⟩ identity context =
      inContext ⟨pre⟩ identity context ++
        ((if rule.context == context && appliesTo identity rule then [rule] else []) ++
          inContext ⟨post⟩ identity context) := by
  unfold inContext
  rw [List.filter_append, List.filter_cons]
  split <;> rfl

theorem inContext_append (context : Context) :
    inContext ⟨pre ++ post⟩ identity context =
      inContext ⟨pre⟩ identity context ++ inContext ⟨post⟩ identity context :=
  List.filter_append ..

/-- **A rule comes in at one place of what applies**, in its context, or at none. -/
theorem applicable_insert (pre post : List PolicyRule) (rule : PolicyRule) (identity : Identity) :
    ∃ as bs, applicable ⟨pre ++ post⟩ identity = as ++ bs ∧
      (applicable ⟨pre ++ rule :: post⟩ identity = as ++ bs ∨
        applicable ⟨pre ++ rule :: post⟩ identity = as ++ rule :: bs) := by
  rw [applicable_eq, applicable_eq]
  have hnodup : contexts.Nodup := by decide
  generalize contexts = cs at hnodup ⊢
  induction cs with
  | nil => exact ⟨[], [], rfl, .inl rfl⟩
  | cons c cs ih =>
    obtain ⟨hc, hcs⟩ := List.nodup_cons.mp hnodup
    rw [List.flatMap_cons, List.flatMap_cons, inContext_insert, inContext_append]
    split
    · next happlies =>
      -- it does not come in again in a later context
      have hlater : cs.flatMap (inContext ⟨pre ++ rule :: post⟩ identity)
          = cs.flatMap (inContext ⟨pre ++ post⟩ identity) := by
        refine List.flatMap_congr fun c' hc' => ?_
        have hne : (rule.context == c') = false := by
          rw [beq_eq_false_iff_ne]
          rintro rfl
          exact hc (beq_iff_eq.mp (Bool.and_eq_true_iff.mp happlies).1 ▸ hc')
        rw [inContext_insert, inContext_append, hne]
        rfl
      refine ⟨inContext ⟨pre⟩ identity c,
        inContext ⟨post⟩ identity c ++ cs.flatMap (inContext ⟨pre ++ post⟩ identity), ?_, .inr ?_⟩
      · rw [List.append_assoc]
      · rw [hlater]
        simp only [List.append_assoc, List.cons_append, List.nil_append]
    · obtain ⟨as, bs, hold, hnew⟩ := ih hcs
      refine ⟨inContext ⟨pre⟩ identity c ++ inContext ⟨post⟩ identity c ++ as, bs, ?_, ?_⟩
      · rw [hold, List.append_assoc _ as bs]
      · rw [List.nil_append, List.append_assoc _ as, List.append_assoc _ as]
        exact hnew.imp (congrArg _) (congrArg _)

/-! ## What it can change -/

/-- What a rule makes of a verdict. -/
def step (allows denies : PolicyRule → Bool) (verdict : Bool) (rule : PolicyRule) : Bool :=
  if denies rule then false else if allows rule then true else verdict

theorem step_monotone (allows denies : PolicyRule → Bool) (rule : PolicyRule) :
    Monotone fun verdict => step allows denies verdict rule := by
  intro v w hvw
  unfold step
  split
  · exact le_rfl
  split
  · exact le_rfl
  · exact hvw

theorem verdict_eq_foldl {policy : Policy} (hne : policy.rules ≠ []) (identity : Identity)
    (allows denies : PolicyRule → Bool) : policy.verdict identity allows denies
      = (policy.applicable identity).foldl (step allows denies) false := by
  unfold verdict isEmpty
  rw [List.isEmpty_eq_false_iff.mpr hne]
  rfl

variable {allows denies : PolicyRule → Bool}

/-- **A rule that does not deny makes no verdict worse.** -/
theorem verdict_le_insert (hne : pre ++ post ≠ []) (hdenies : denies rule = false) :
    verdict ⟨pre ++ post⟩ identity allows denies
      ≤ verdict ⟨pre ++ rule :: post⟩ identity allows denies := by
  obtain ⟨as, bs, hold, hnew⟩ := applicable_insert pre post rule identity
  rw [verdict_eq_foldl hne, verdict_eq_foldl (List.append_ne_nil_of_right_ne_nil _
    (List.cons_ne_nil _ _)), hold]
  rcases hnew with hnew | hnew
  · rw [hnew]
  · rw [hnew]
    refine foldl_le_foldl_insert (step_monotone allows denies) (fun v => ?_) false as bs
    rw [step, hdenies]
    split
    · next h => cases h
    split
    · exact le_top
    · exact le_rfl

/-- **One that does not allow makes none better.** -/
theorem verdict_insert_le (hne : pre ++ post ≠ []) (hallows : allows rule = false) :
    verdict ⟨pre ++ rule :: post⟩ identity allows denies
      ≤ verdict ⟨pre ++ post⟩ identity allows denies := by
  obtain ⟨as, bs, hold, hnew⟩ := applicable_insert pre post rule identity
  rw [verdict_eq_foldl hne, verdict_eq_foldl (List.append_ne_nil_of_right_ne_nil _
    (List.cons_ne_nil _ _)), hold]
  rcases hnew with hnew | hnew
  · rw [hnew]
  · rw [hnew]
    refine foldl_insert_le_foldl (step_monotone allows denies) (fun v => ?_) false as bs
    rw [step, hallows]
    split
    · exact bot_le
    split
    · next h => cases h
    · exact le_rfl

end Policy

/-- A rule that has only allow lists. -/
structure PolicyRule.OnlyAllows (rule : PolicyRule) : Prop where
  own : rule.denyOwn = []
  send : rule.denySend = []
  receive : rule.denyReceive = []

/-- One that has only deny lists. -/
structure PolicyRule.OnlyDenies (rule : PolicyRule) : Prop where
  own : rule.allowOwn = []
  send : rule.allowSend = []
  receive : rule.allowReceive = []

namespace Policy

/-- **Every operation that `policy` allows an identity is allowed by `policy'`.** -/
structure NoStricter (policy policy' : Policy) (identity : Identity) : Prop where
  own : ∀ name, policy.canOwn identity name = true → policy'.canOwn identity name = true
  send : ∀ msg destination, policy.canSend identity msg destination = true →
    policy'.canSend identity msg destination = true
  receive : ∀ msg sender, policy.canReceive identity msg sender = true →
    policy'.canReceive identity msg sender = true

/-- **Rules are monotone**: one that only allows, put anywhere into a policy with rules,
loses nobody an operation, and one that only denies gains nobody one. -/
theorem monotone_insert (pre post : List PolicyRule) (hne : pre ++ post ≠ []) (rule : PolicyRule)
    (identity : Identity) :
    (rule.OnlyAllows → NoStricter ⟨pre ++ post⟩ ⟨pre ++ rule :: post⟩ identity) ∧
      (rule.OnlyDenies → NoStricter ⟨pre ++ rule :: post⟩ ⟨pre ++ post⟩ identity) := by
  constructor
  · intro h
    refine ⟨fun name => ?_, fun msg destination => ?_, fun msg sender => ?_⟩
    · exact Bool.le_iff_imp.mp (verdict_le_insert hne (by rw [h.own]; rfl))
    · exact Bool.le_iff_imp.mp (verdict_le_insert hne (by rw [h.send]; rfl))
    · exact Bool.le_iff_imp.mp (verdict_le_insert hne (by rw [h.receive]; rfl))
  · intro h
    refine ⟨fun name => ?_, fun msg destination => ?_, fun msg sender => ?_⟩
    · exact Bool.le_iff_imp.mp (verdict_insert_le hne (by rw [h.own]; rfl))
    · exact Bool.le_iff_imp.mp (verdict_insert_le hne (by rw [h.send]; rfl))
    · exact Bool.le_iff_imp.mp (verdict_insert_le hne (by rw [h.receive]; rfl))

/-- Everyone may own every name. -/
def anyName : PolicyRule := ⟨.default, none, none, ["*"], [], [], [], [], []⟩

/-- Nobody may own one. -/
def noName : PolicyRule := ⟨.mandatory, none, none, [], ["*"], [], [], [], []⟩

/-- Before the rule that takes it back, and after the one that it takes back. -/
theorem monotone_insert_names :
    NoStricter ⟨[noName]⟩ ⟨[anyName, noName]⟩ ⟨1000, none, []⟩ ∧
      NoStricter ⟨[anyName, noName]⟩ ⟨[anyName]⟩ ⟨1000, none, []⟩ :=
  ⟨(monotone_insert [] [noName] (List.cons_ne_nil _ _) anyName _).1 ⟨rfl, rfl, rfl⟩,
    (monotone_insert [anyName] [] (List.cons_ne_nil _ _) noName _).2 ⟨rfl, rfl, rfl⟩⟩

end Policy

end Oxibus
