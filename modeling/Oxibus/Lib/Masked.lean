import Mathlib.Data.List.Basic

/-!
# Lists that agree off a mask

A format may leave some positions to whoever writes it: padding, reserved
bits, a checksum filled in later. A mask has `true` at those positions, and
two lists `AgreeOff` the mask when they have its length and are equal
everywhere else. Lists agree piece by piece (`agreeOff_append`), so what is
said of a format's components carries over to what is composed of them.
-/

namespace Oxibus

/-- **Two lists that may differ where the mask is `true`**, and only there. -/
structure AgreeOff {α : Type*} (mask : List Bool) (as bs : List α) : Prop where
  left : as.length = mask.length
  right : bs.length = mask.length
  agree : ∀ i : ℕ, mask[i]? = some false → as[i]? = bs[i]?

namespace AgreeOff

variable {α : Type*} {m m' : List Bool} {as as' bs bs' cs : List α} {n : ℕ}

theorem length_eq (h : AgreeOff m as bs) : as.length = bs.length := h.left.trans h.right.symm

theorem refl (h : as.length = m.length) : AgreeOff m as as := ⟨h, h, fun _ _ => rfl⟩

theorem symm (h : AgreeOff m as bs) : AgreeOff m bs as :=
  ⟨h.right, h.left, fun i hi => (h.agree i hi).symm⟩

theorem trans (h : AgreeOff m as bs) (h' : AgreeOff m bs cs) : AgreeOff m as cs :=
  ⟨h.left, h'.right, fun i hi => (h.agree i hi).trans (h'.agree i hi)⟩

/-- Under a mask of `true` only the length matters. -/
theorem replicate_true (has : as.length = n) (hbs : bs.length = n) :
    AgreeOff (List.replicate n true) as bs := by
  refine ⟨has.trans List.length_replicate.symm, hbs.trans List.length_replicate.symm, ?_⟩
  intro i hi
  have htrue := List.eq_of_mem_replicate (List.mem_of_getElem? hi)
  cases htrue

/-- Under a mask of `false` the lists are equal. -/
theorem replicate_false_iff :
    AgreeOff (List.replicate n false) as bs ↔ as = bs ∧ as.length = n := by
  constructor
  · intro h
    have hlen : as.length = n := h.left.trans List.length_replicate
    refine ⟨List.ext_getElem? fun i => ?_, hlen⟩
    rcases Nat.lt_or_ge i n with hi | hi
    · exact h.agree i (List.getElem?_replicate_of_lt hi)
    · rw [List.getElem?_eq_none (Nat.le_trans (Nat.le_of_eq hlen) hi),
        List.getElem?_eq_none (Nat.le_trans (Nat.le_of_eq (h.length_eq.symm.trans hlen)) hi)]
  · rintro ⟨rfl, hlen⟩
    exact refl (hlen.trans List.length_replicate.symm)

/-- **Lists agree if their pieces do.** -/
theorem append (h : AgreeOff m as bs) (h' : AgreeOff m' as' bs') :
    AgreeOff (m ++ m') (as ++ as') (bs ++ bs') := by
  refine ⟨?_, ?_, fun i hi => ?_⟩
  · rw [List.length_append, List.length_append, h.left, h'.left]
  · rw [List.length_append, List.length_append, h.right, h'.right]
  rcases Nat.lt_or_ge i m.length with hlt | hge
  · rw [List.getElem?_append_left hlt] at hi
    rw [List.getElem?_append_left (h.left ▸ hlt), List.getElem?_append_left (h.right ▸ hlt)]
    exact h.agree i hi
  · rw [List.getElem?_append_right hge] at hi
    rw [List.getElem?_append_right (h.left ▸ hge), List.getElem?_append_right (h.right ▸ hge),
      h.left, h.right]
    exact h'.agree _ hi

/-- **What agrees with a list in two pieces comes in two pieces.** -/
theorem exists_append (has : as.length = m.length) (h : AgreeOff (m ++ m') (as ++ as') cs) :
    ∃ bs bs', cs = bs ++ bs' ∧ AgreeOff m as bs ∧ AgreeOff m' as' bs' := by
  have hlen := h.left
  have hlen' := h.right
  rw [List.length_append, List.length_append, has] at hlen
  rw [List.length_append] at hlen'
  have htake : (cs.take m.length).length = m.length := by
    rw [List.length_take_of_le]
    exact hlen' ▸ Nat.le_add_right _ _
  refine ⟨cs.take m.length, cs.drop m.length, (List.take_append_drop _ _).symm,
    ⟨has, htake, fun i hi => ?_⟩, ⟨Nat.add_left_cancel hlen, ?_, fun i hi => ?_⟩⟩
  · have hlt := (List.getElem?_eq_some_iff.mp hi).1
    have hboth := h.agree i ((List.getElem?_append_left hlt).trans hi)
    rw [List.getElem?_append_left (has ▸ hlt)] at hboth
    rw [hboth, List.getElem?_take_of_lt hlt]
  · rw [List.length_drop, hlen', Nat.add_sub_cancel_left]
  · have hboth := h.agree (m.length + i) (by
      rw [List.getElem?_append_right (Nat.le_add_right _ _), Nat.add_sub_cancel_left, hi])
    rwa [List.getElem?_append_right (has ▸ Nat.le_add_right _ _), has, Nat.add_sub_cancel_left,
      ← List.getElem?_drop] at hboth

end AgreeOff

end Oxibus
