import Mathlib.Data.List.Nodup

/-!
# Pieces of a list

A `piece` of a list is what stands in it from a place on, so many in a row.
What a queue is given on one side and hands out on the other comes in pieces
of the same list, cut in two ways. Where a piece of one cut lies within a
piece of the other, what is in it is in the other as well; and if nothing
stands in the list twice, this is the only way (`forall_mem_piece_iff`).
-/

namespace Oxibus

variable {α : Type*}

/-- **What stands in a list from the place `k` on**, `d` in a row. -/
def piece (l : List α) (k d : ℕ) : List α := (l.drop k).take d

namespace Piece

variable {l : List α} {a : α} {j k d n : ℕ}

/-- The middle of a list is a piece of it. -/
theorem piece_append (as bs cs : List α) : piece (as ++ (bs ++ cs)) as.length bs.length = bs := by
  rw [piece, List.drop_left, List.take_left]

theorem mem_piece : a ∈ piece l k d ↔ ∃ p, k ≤ p ∧ p < k + d ∧ l[p]? = some a := by
  rw [List.mem_iff_getElem?]
  constructor
  · rintro ⟨i, hi⟩
    rw [piece, List.getElem?_take] at hi
    split at hi
    · next hlt =>
      rw [List.getElem?_drop] at hi
      exact ⟨k + i, Nat.le_add_right k i, by omega, hi⟩
    · cases hi
  · rintro ⟨p, hk, hlt, hp⟩
    refine ⟨p - k, ?_⟩
    rw [piece, List.getElem?_take_of_lt (by omega), List.getElem?_drop, Nat.add_sub_cancel' hk, hp]

/-- A piece within another one. -/
theorem mem_piece_of_within (hj : j ≤ k) (hn : k + d ≤ j + n) (h : a ∈ piece l k d) :
    a ∈ piece l j n := by
  obtain ⟨p, hk, hlt, hp⟩ := mem_piece.mp h
  exact mem_piece.mpr ⟨p, Nat.le_trans hj hk, Nat.lt_of_lt_of_le hlt hn, hp⟩

/-- **Where nothing stands twice, a piece is part of another one exactly if it lies within
it.** -/
theorem forall_mem_piece_iff (hnodup : l.Nodup) (hlen : k + d ≤ l.length) :
    (∀ a ∈ piece l k d, a ∈ piece l j n) ↔ d = 0 ∨ (j ≤ k ∧ k + d ≤ j + n) := by
  -- what stands at a place of the piece stands at no other place
  have hplace :
      (∀ a ∈ piece l k d, a ∈ piece l j n) → ∀ p, k ≤ p → p < k + d → j ≤ p ∧ p < j + n := by
    intro h p hk hlt
    have hp : p < l.length := Nat.lt_of_lt_of_le hlt hlen
    obtain ⟨a, ha⟩ : ∃ a, l[p]? = some a := ⟨_, List.getElem?_eq_getElem hp⟩
    obtain ⟨q, hj, hqlt, hq⟩ := mem_piece.mp (h a (mem_piece.mpr ⟨p, hk, hlt, ha⟩))
    obtain rfl : p = q := (List.getElem?_inj hp hnodup).mp (ha.trans hq.symm)
    exact ⟨hj, hqlt⟩
  constructor
  · intro h
    rcases Nat.eq_zero_or_pos d with hd | hd
    · exact .inl hd
    · have hfirst := hplace h k (Nat.le_refl k) (by omega)
      have hlast := hplace h (k + d - 1) (by omega) (by omega)
      exact .inr ⟨hfirst.1, by omega⟩
  · rintro (rfl | ⟨hj, hn⟩)
    · rw [piece, List.take_zero]
      exact fun a ha => absurd ha List.not_mem_nil
    · exact fun a ha => mem_piece_of_within hj hn ha

end Piece

end Oxibus
