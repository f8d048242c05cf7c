import Oxibus.Daemon.RuleInsertion
import Oxibus.Daemon.XmlReference

/-!
# Whom a rule touches

A rule for a user names the user, by name or by number, and a rule for a
group names the group. Nobody else should notice that the rule is there.

A rule for a group is skipped if it names none. A rule for a user is not: its
missing user is compared with the name of the identity, and equals the missing
name of an identity the system has no name for. To these nameless identities
a user's rule without a user applies, whatever it allows or denies; to all
others it does not, and every other rule touches only whom it names
(`untouched_iff`).
-/

namespace Oxibus

open Xml (Operation decides decides_eq allowed denied)

namespace PolicyRule

/-- **Whether a rule names an identity.** Rules for everyone and mandatory ones
name all. -/
def Names (rule : PolicyRule) (identity : Identity) : Prop :=
  match rule.context with
  | .default => True
  | .user => ∃ user, rule.user = some user ∧
      (identity.userName = some user ∨ user = toString identity.uid.toNat)
  | .group => ∃ group, rule.group = some group ∧ group ∈ identity.groupNames
  | .mandatory => True

/-- Whether a rule is for a user without saying which, and the identity has no
name. -/
def MeetsNameless (rule : PolicyRule) (identity : Identity) : Prop :=
  rule.context = .user ∧ rule.user = none ∧ identity.userName = none

/-- No pattern of a rule matches any operation. -/
def Silent (rule : PolicyRule) : Prop :=
  ∀ op, allowed rule op = false ∧ denied rule op = false

/-- A rule that allows everything. -/
def anything : PolicyRule :=
  ⟨.default, none, none, ["*"], [], [.destination "*"], [], [.destination "*"], []⟩

/-- A rule that says nothing. -/
def nothing : PolicyRule := ⟨.default, none, none, [], [], [], [], [], []⟩

theorem allowed_anything (op : Operation) : allowed anything op = true := by
  cases op <;> rfl

theorem denied_anything (op : Operation) : denied anything op = false := by
  cases op <;> rfl

theorem silent_nothing : Silent nothing := by
  intro op
  cases op <;> exact ⟨rfl, rfl⟩

end PolicyRule

namespace Policy

open PolicyRule

variable {rule : PolicyRule} {identity : Identity}

/-- **A rule applies to whom it does not name only if it is a user's rule
without a user and they have no name.** -/
theorem appliesTo_of_not_names (h : ¬ rule.Names identity) :
    appliesTo identity rule = true ↔ rule.MeetsNameless identity := by
  unfold Names at h
  unfold appliesTo MeetsNameless
  cases hcontext : rule.context with
  | default =>
    rw [hcontext] at h
    exact absurd trivial h
  | mandatory =>
    rw [hcontext] at h
    exact absurd trivial h
  | user =>
    rw [hcontext] at h
    cases huser : rule.user with
    | none => cases identity.userName <;> simp
    | some user =>
      have hnone : ¬ (Context.user = .user ∧ some user = none ∧ identity.userName = none) :=
        fun hmeets => Option.some_ne_none _ hmeets.2.1
      refine iff_of_false (fun happlies => h ⟨user, huser, ?_⟩) hnone
      rcases Bool.or_eq_true_iff.mp happlies with hname | huid
      · exact .inl (beq_iff_eq.mp hname).symm
      · exact .inr (Option.some.inj (beq_iff_eq.mp huid))
  | group =>
    rw [hcontext] at h
    cases hgroup : rule.group with
    | none => simp
    | some group =>
      have hmem : group ∉ identity.groupNames := fun hg => h ⟨group, hgroup, hg⟩
      simp [hmem]

/-- A rule that does not apply comes in nowhere. -/
theorem applicable_insert_of_not_applies (pre post : List PolicyRule)
    (h : appliesTo identity rule = false) :
    applicable ⟨pre ++ rule :: post⟩ identity = applicable ⟨pre ++ post⟩ identity := by
  rw [applicable_eq, applicable_eq]
  refine List.flatMap_congr fun context _ => ?_
  rw [inContext_insert, inContext_append, h, Bool.and_false]
  rfl

/-- **A decision is not touched by a rule that does not apply.** -/
theorem decides_insert_of_not_applies {pre post : List PolicyRule} (hne : pre ++ post ≠ [])
    (h : appliesTo identity rule = false) (op : Operation) :
    decides ⟨pre ++ rule :: post⟩ identity op = decides ⟨pre ++ post⟩ identity op := by
  rw [decides_eq, decides_eq, verdict_eq_foldl hne, verdict_eq_foldl
    (List.append_ne_nil_of_right_ne_nil _ (List.cons_ne_nil _ _)),
    applicable_insert_of_not_applies pre post h]

/-- Nor by one that says nothing about the operation. -/
theorem decides_insert_of_silent {pre post : List PolicyRule} (hne : pre ++ post ≠ [])
    {op : Operation} (hallowed : allowed rule op = false) (hdenied : denied rule op = false) :
    decides ⟨pre ++ rule :: post⟩ identity op = decides ⟨pre ++ post⟩ identity op := by
  rw [decides_eq, decides_eq]
  exact le_antisymm (verdict_insert_le hne hallowed) (verdict_le_insert hne hdenied)

/-- A rule for everyone, alone, decides. -/
theorem decides_alone {base : PolicyRule} (hbase : base.context = .default)
    (identity : Identity) (op : Operation) :
    decides ⟨[base] ++ []⟩ identity op
      = step (fun rule => allowed rule op) (fun rule => denied rule op) false base := by
  have hdefault : ∀ rule ∈ [base] ++ [], rule.context = .default :=
    List.forall_mem_singleton.mpr hbase
  rw [decides_eq, Xml.verdict_of_default rfl hdefault]
  rfl

/-- A user's rule that applies is asked after a rule for everyone. -/
theorem decides_pair {base : PolicyRule} (hbase : base.context = .default)
    (huser : rule.context = .user) (happlies : appliesTo identity rule = true) (op : Operation) :
    decides ⟨[base] ++ rule :: []⟩ identity op
      = step (fun rule => allowed rule op) (fun rule => denied rule op)
          (decides ⟨[base] ++ []⟩ identity op) rule := by
  have happ : appliesTo identity base = true := by
    unfold appliesTo
    rw [hbase]
  have htwo : applicable ⟨[base] ++ rule :: []⟩ identity = [base, rule] := by
    simp [applicable, inContext, hbase, huser, happ, happlies]
  rw [decides_alone hbase, decides_eq, verdict_eq_foldl (by simp), htwo]
  rfl

/-- **When a rule touches only whom it names.** A rule that does not name an
identity leaves all that a policy decides for it as it was, in every policy
with rules and wherever the rule stands, if and only if it is not a user's
rule without a user that meets a nameless identity, or no pattern of it
matches anything. -/
theorem untouched_iff (rule : PolicyRule) (identity : Identity) (hnot : ¬ rule.Names identity) :
    (∀ pre post, pre ++ post ≠ [] → ∀ op,
        decides ⟨pre ++ rule :: post⟩ identity op = decides ⟨pre ++ post⟩ identity op)
      ↔ ¬ rule.MeetsNameless identity ∨ rule.Silent := by
  constructor
  · intro hsame
    rw [or_iff_not_imp_left, not_not]
    intro hmeets op
    have happlies := (appliesTo_of_not_names hnot).mpr hmeets
    have hdenied : denied rule op = false := by
      -- a rule that denies is noticed after one that allows everything
      have hcase := hsame [anything] [] (by simp) op
      have hbase : decides ⟨[anything] ++ []⟩ identity op = true := by
        rw [decides_alone rfl, step, denied_anything, allowed_anything]
        rfl
      rw [decides_pair rfl hmeets.1 happlies, hbase, step] at hcase
      cases hd : denied rule op with
      | false => rfl
      | true =>
        rw [hd, if_pos rfl] at hcase
        cases hcase
    refine ⟨?_, hdenied⟩
    -- and one that allows after one that says nothing
    have hcase := hsame [nothing] [] (by simp) op
    have hbase : decides ⟨[nothing] ++ []⟩ identity op = false := by
      rw [decides_alone rfl, step, (silent_nothing op).1, (silent_nothing op).2]
      rfl
    rw [decides_pair rfl hmeets.1 happlies, hbase, step, hdenied] at hcase
    cases ha : allowed rule op with
    | false => rfl
    | true =>
      rw [ha] at hcase
      cases hcase
  · rintro (hmeets | hsilent) pre post hne op
    · refine decides_insert_of_not_applies hne ?_ op
      rw [← Bool.not_eq_true]
      exact fun happlies => hmeets ((appliesTo_of_not_names hnot).mp happlies)
    · exact decides_insert_of_silent hne (hsilent op).1 (hsilent op).2

/-- A rule for the user `alice`, who may own nothing. -/
def aliceRule : PolicyRule := ⟨.user, some "alice", none, [], ["*"], [], [], [], []⟩

/-- A rule for a user, without the user. -/
def userlessRule : PolicyRule := ⟨.user, none, none, [], ["*"], [], [], [], []⟩

/-- A rule for Alice is none for Bob. -/
theorem untouched_bob :
    decides ⟨[anything] ++ aliceRule :: []⟩ ⟨1000, some "bob", []⟩ (.own "a.b")
      = decides ⟨[anything] ++ []⟩ ⟨1000, some "bob", []⟩ (.own "a.b") := by
  refine (untouched_iff aliceRule ⟨1000, some "bob", []⟩ ?_).mpr (.inl ?_) [anything] []
    (by simp) (.own "a.b")
  · rintro ⟨user, huser, hname⟩
    cases huser
    revert hname
    decide
  · rintro ⟨-, huser, -⟩
    cases huser

/-- A rule for a user that is not named takes a name from an identity without
one. -/
theorem touched_nameless :
    ¬ userlessRule.Names ⟨1000, none, []⟩ ∧
      decides ⟨[anything] ++ []⟩ ⟨1000, none, []⟩ (.own "a.b") = true ∧
      decides ⟨[anything] ++ userlessRule :: []⟩ ⟨1000, none, []⟩ (.own "a.b") = false := by
  refine ⟨?_, by decide +kernel, by decide +kernel⟩
  rintro ⟨user, huser, -⟩
  cases huser

end Policy

end Oxibus
