import Mathlib.Data.List.Basic

/-!
# Lists as tables of slots

A growing collection of running things – calls, tasks, connections – is a
list in which each has its position for good: one is added at the end, and a
step replaces the one at its position. The lemmas say what is found at a
position after either, and how many there are of a kind.
-/

namespace Oxibus

namespace Slots

variable {α : Type*} {l : List α} {i j : ℕ} {a b : α}

/-- **What is in a slot after one was replaced.** -/
theorem getElem?_set_eq_some :
    (l.set i a)[j]? = some b ↔ (i = j ∧ i < l.length ∧ a = b) ∨ (i ≠ j ∧ l[j]? = some b) := by
  rw [List.getElem?_set]
  by_cases hij : i = j
  · rw [if_pos hij]
    by_cases hi : i < l.length
    · simp [hij, hij ▸ hi]
    · simp [hij, hij ▸ hi]
  · rw [if_neg hij]
    simp [hij]

/-- **What is in a slot after one was added.** -/
theorem getElem?_concat_eq_some :
    (l ++ [a])[j]? = some b ↔ l[j]? = some b ∨ (j = l.length ∧ a = b) := by
  by_cases hj : j < l.length
  · rw [List.getElem?_append_left hj]
    simp [Nat.ne_of_lt hj]
  · have hle : l.length ≤ j := Nat.le_of_not_lt hj
    rw [List.getElem?_append_right hle, List.getElem?_eq_none hle]
    rcases Nat.eq_or_lt_of_le hle with rfl | hlt
    · simp
    · have hpos : j - l.length ≠ 0 := by omega
      rw [List.getElem?_singleton, if_neg hpos]
      simp [Nat.ne_of_gt hlt]

theorem lt_length_of_getElem? (h : l[i]? = some a) : i < l.length :=
  (List.getElem?_eq_some_iff.mp h).1

theorem length_le_set_append (l : List α) (i : ℕ) (b : α) (l' : List α) :
    l.length ≤ (l.set i b ++ l').length := by
  rw [List.length_append, List.length_set]
  exact Nat.le_add_right _ _

/-- The slot that was replaced, when others were added. -/
theorem getElem?_set_append_self {l' : List α} (h : l[i]? = some a) :
    (l.set i b ++ l')[i]? = some b := by
  have hlt := lt_length_of_getElem? h
  rw [List.getElem?_append_left (by rwa [List.length_set]), List.getElem?_set_self hlt]

/-- Another slot, when one was replaced and others were added. -/
theorem getElem?_set_append_of_ne {l' : List α} (h : l[j]? = some a) (hne : i ≠ j) :
    (l.set i b ++ l')[j]? = some a := by
  rw [List.getElem?_append_left (by rw [List.length_set]; exact lt_length_of_getElem? h),
    List.getElem?_set_ne hne, h]

/-- **The slots that satisfy a test, after one was replaced**: the one that
went is not counted, the one that came is. -/
theorem countP_set {p : α → Bool} (h : l[i]? = some a) :
    (l.set i b).countP p + (if p a then 1 else 0) = l.countP p + if p b then 1 else 0 := by
  induction l generalizing i with
  | nil => cases h
  | cons c l ih =>
    cases i with
    | zero =>
      cases h
      rw [List.set_cons_zero, List.countP_cons, List.countP_cons]
      omega
    | succ i =>
      rw [List.set_cons_succ, List.countP_cons, List.countP_cons]
      have := ih (i := i) h
      omega

end Slots

end Oxibus
