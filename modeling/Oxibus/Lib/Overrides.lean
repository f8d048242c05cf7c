import Mathlib.Data.List.Forall2

/-!
# Settings that override one another

A list of settings is applied one after the other to a state. A setting
takes the place of an earlier one of the same kind, and stands beside all
others. What the state has in the end are the settings that no later one
replaces (`kept`), and what it had before where none of them replaces it
(`has_foldl`).
-/

namespace Oxibus

section Overrides

variable {α β σ : Type}

/-- The settings that no later one replaces. -/
def kept (replaces : α → α → Bool) : List α → List α
  | [] => []
  | a :: as => if as.any fun later => replaces later a then kept replaces as
      else a :: kept replaces as

theorem kept_sublist (replaces : α → α → Bool) (as : List α) : (kept replaces as).Sublist as := by
  induction as with
  | nil => exact List.Sublist.slnil
  | cons a as ih =>
    unfold kept
    split
    · exact ih.cons a
    · exact ih.cons_cons a

theorem mem_kept_cons {replaces : α → α → Bool} {a b : α} {as : List α} :
    b ∈ kept replaces (a :: as)
      ↔ b ∈ kept replaces as ∨ (b = a ∧ ∀ later ∈ as, replaces later a = false) := by
  rw [kept]
  split
  · next h =>
    obtain ⟨later, hmem, hlater⟩ := List.any_eq_true.mp h
    constructor
    · exact Or.inl
    · rintro (hb | ⟨-, hnone⟩)
      · exact hb
      · rw [hnone later hmem] at hlater
        exact absurd hlater Bool.false_ne_true
  · next h =>
    have hnone : ∀ later ∈ as, replaces later a = false := by
      intro later hmem
      rw [← Bool.not_eq_true]
      exact fun hlater => h (List.any_eq_true.mpr ⟨later, hmem, hlater⟩)
    rw [List.mem_cons]
    constructor
    · rintro (rfl | hb)
      · exact .inr ⟨rfl, hnone⟩
      · exact .inl hb
    · rintro (hb | ⟨rfl, -⟩)
      · exact .inr hb
      · exact .inl rfl

/-- A setting that nothing replaces is kept wherever it stands. -/
theorem mem_kept_of_not_replaced {replaces : α → α → Bool} {b : α}
    (hb : ∀ later, replaces later b = false) {as : List α} : b ∈ kept replaces as ↔ b ∈ as := by
  induction as with
  | nil => rfl
  | cons a as ih =>
    rw [mem_kept_cons, ih, List.mem_cons]
    constructor
    · rintro (hmem | ⟨rfl, -⟩)
      · exact .inr hmem
      · exact .inl rfl
    · rintro (rfl | hmem)
      · exact .inr ⟨rfl, fun later _ => hb later⟩
      · exact .inl hmem

/-- **A list in which nothing is replaced keeps everything.** -/
theorem kept_eq_self {replaces : α → α → Bool} {as : List α}
    (h : as.Pairwise fun a later => replaces later a = false) : kept replaces as = as := by
  induction h with
  | nil => rfl
  | cons hnone _ ih =>
    rw [kept, if_neg, ih]
    intro hany
    obtain ⟨later, hmem, hlater⟩ := List.any_eq_true.mp hany
    rw [hnone later hmem] at hlater
    exact Bool.false_ne_true hlater

/-- Lists whose entries replace one another in the same way keep entries of
the same places. -/
theorem forall₂_kept {R : α → β → Prop} {replaces : α → α → Bool} {replaces' : β → β → Bool}
    (hR : ∀ a b a' b', R a b → R a' b' → replaces a a' = replaces' b b') {as : List α}
    {bs : List β} (h : List.Forall₂ R as bs) :
    List.Forall₂ R (kept replaces as) (kept replaces' bs) := by
  induction h with
  | nil => exact .nil
  | @cons a b as bs hab hrest ih =>
    have hany : (as.any fun later => replaces later a) = bs.any fun later => replaces' later b := by
      clear ih
      induction hrest with
      | nil => rfl
      | cons hlater _ ih => rw [List.any_cons, List.any_cons, hR _ _ _ _ hlater hab, ih]
    rw [kept, kept, hany]
    split
    · exact ih
    · exact .cons hab ih

variable {apply : σ → α → σ} {Has : σ → α → Prop} {replaces : α → α → Bool}

/-- **What a state has after settings are applied to it**: those that no
later one replaces, and what it had before that none of them replaces. -/
theorem has_foldl
    (hstep : ∀ s a b, Has (apply s a) b ↔ b = a ∨ (Has s b ∧ replaces a b = false))
    (s : σ) (as : List α) (b : α) :
    Has (as.foldl apply s) b
      ↔ b ∈ kept replaces as ∨ (Has s b ∧ ∀ a ∈ as, replaces a b = false) := by
  induction as generalizing s with
  | nil => simp [kept]
  | cons a as ih =>
    rw [List.foldl_cons, ih, hstep, mem_kept_cons, List.forall_mem_cons]
    constructor
    · rintro (hb | ⟨rfl | ⟨hs, ha⟩, hnone⟩)
      · exact .inl (.inl hb)
      · exact .inl (.inr ⟨rfl, hnone⟩)
      · exact .inr ⟨hs, ha, hnone⟩
    · rintro ((hb | ⟨rfl, hnone⟩) | ⟨hs, ha, hnone⟩)
      · exact .inl hb
      · exact .inr ⟨.inl rfl, hnone⟩
      · exact .inr ⟨.inr ⟨hs, ha⟩, hnone⟩

end Overrides

end Oxibus
