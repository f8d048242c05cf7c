import Mathlib.Data.Set.Basic
import Mathlib.Data.List.Induction

/-!
# The tree that some paths span

A path is a list of steps from a root. Some paths span a tree: its nodes are the
root, the paths and all that lie on the way to them. A walk that starts at the
root and goes on to a child of where it is comes to all nodes of the tree and to
nothing else (`reached_children_iff`).
-/

namespace Oxibus

namespace Tree

variable {α : Type*}

/-- The steps from a path to its children, in the tree that some paths span. -/
def children (paths : Set (List α)) (p : List α) : Set α := {s | ∃ rest, p ++ s :: rest ∈ paths}

/-- **The paths that a walk comes to**, where it can take some steps at each. -/
inductive Reached (steps : List α → Set α) : List α → Prop where
  | root : Reached steps []
  | child {p : List α} {s : α} : Reached steps p → s ∈ steps p → Reached steps (p ++ [s])

/-- The nodes of the tree that some paths span. -/
def IsNode (paths : Set (List α)) (q : List α) : Prop := q = [] ∨ ∃ p ∈ paths, q <+: p

theorem isNode_concat_iff {paths : Set (List α)} {q : List α} {s : α} :
    IsNode paths (q ++ [s]) ↔ s ∈ children paths q := by
  constructor
  · rintro (hnil | ⟨p, hp, rest, rfl⟩)
    · exact absurd hnil (by simp)
    · refine ⟨rest, ?_⟩
      rwa [List.append_assoc, List.singleton_append] at hp
  · rintro ⟨rest, hrest⟩
    refine .inr ⟨_, hrest, rest, ?_⟩
    rw [List.append_assoc, List.singleton_append]

/-- What is on the way to a node is a node. -/
theorem IsNode.of_concat {paths : Set (List α)} {q : List α} {s : α}
    (h : IsNode paths (q ++ [s])) : IsNode paths q := by
  rcases h with hnil | ⟨p, hp, hpre⟩
  · exact absurd hnil (by simp)
  · exact .inr ⟨p, hp, (List.prefix_append q [s]).trans hpre⟩

/-- **A walk comes to the nodes of the tree.** -/
theorem reached_children_iff {paths : Set (List α)} {q : List α} :
    Reached (children paths) q ↔ IsNode paths q := by
  constructor
  · intro h
    induction h with
    | root => exact .inl rfl
    | child _ hs _ => exact isNode_concat_iff.mpr hs
  · intro h
    induction q using List.reverseRecOn with
    | nil => exact .root
    | append_singleton q s ih => exact .child (ih h.of_concat) (isNode_concat_iff.mp h)

end Tree

end Oxibus
