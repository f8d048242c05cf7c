import Mathlib.Data.List.Basic

/-!
# Once in a history

A history is a list of what has happened, the latest first, and grows at its
head. `Never P` says that nothing in it satisfies `P`, `Once P` that exactly
one thing does. The lemmas say what becomes of the two when something more
happens, which is all a proof by steps needs.
-/

namespace Oxibus

variable {α : Type*} {P : α → Prop} {a b : α} {l : List α} {Q : List α → Prop}

/-- Nothing in the history satisfies `P`. -/
def Never (P : α → Prop) (l : List α) : Prop := ∀ a ∈ l, ¬ P a

/-- **Exactly one thing in the history satisfies `P`.** -/
def Once (P : α → Prop) : List α → Prop
  | [] => False
  | a :: l => (P a ∧ Never P l) ∨ (¬ P a ∧ Once P l)

theorem never_nil : Never P ([] : List α) := fun _ ha => absurd ha List.not_mem_nil

theorem never_cons : Never P (a :: l) ↔ ¬ P a ∧ Never P l := List.forall_mem_cons

theorem Never.cons (h : Never P l) (ha : ¬ P a) : Never P (a :: l) := never_cons.mpr ⟨ha, h⟩

/-- The first time is the only time so far. -/
theorem Never.once (h : Never P l) (ha : P a) : Once P (a :: l) := .inl ⟨ha, h⟩

theorem Once.cons (h : Once P l) (ha : ¬ P a) : Once P (a :: l) := .inr ⟨ha, h⟩

theorem Once.exists (h : Once P l) : ∃ a ∈ l, P a := by
  induction l with
  | nil => exact h.elim
  | cons a l ih =>
    rcases h with ⟨ha, -⟩ | ⟨-, h⟩
    · exact ⟨a, List.mem_cons_self, ha⟩
    · obtain ⟨b, hb, hPb⟩ := ih h
      exact ⟨b, List.mem_cons_of_mem _ hb, hPb⟩

/-- **At most one thing in the history satisfies `P`.** -/
def AtMostOnce (P : α → Prop) (l : List α) : Prop := Never P l ∨ Once P l

theorem AtMostOnce.cons (h : AtMostOnce P l) (ha : ¬ P a) : AtMostOnce P (a :: l) :=
  h.imp (fun hnever => hnever.cons ha) fun honce => honce.cons ha

/-- Two things are more than one. -/
theorem not_atMostOnce (ha : P a) (hb : P b) (h : [a, b].Sublist l) : ¬ AtMostOnce P l := by
  rintro (hnever | honce)
  · exact hnever a (h.subset List.mem_cons_self) ha
  · induction l with
    | nil => exact honce
    | cons c l ih =>
      cases h with
      | cons _ h =>
        rcases honce with ⟨-, hnever⟩ | ⟨-, honce⟩
        · exact hnever a (h.subset List.mem_cons_self) ha
        · exact ih h honce
      | cons_cons _ h =>
        rcases honce with ⟨-, hnever⟩ | ⟨hnot, -⟩
        · exact hnever b (List.singleton_sublist.mp h) hb
        · exact hnot ha

/-! ## What the rest of a history does not change -/

/-- **What other things do not change**: a statement about a history that depends
on what satisfies `P`. -/
def Indifferent (P : α → Prop) (Q : List α → Prop) : Prop := ∀ a l, ¬ P a → Q l → Q (a :: l)

theorem indifferent_never : Indifferent P (Never P) := fun _ _ ha h => h.cons ha

theorem indifferent_once : Indifferent P (Once P) := fun _ _ ha h => h.cons ha

theorem indifferent_atMostOnce : Indifferent P (AtMostOnce P) := fun _ _ ha h => h.cons ha

end Oxibus
