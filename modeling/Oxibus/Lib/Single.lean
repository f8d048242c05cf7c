import Oxibus.Lib.Prog

/-!
# Programs that do something at most once

`Prog.Only P` says that all operations of a program satisfy `P`.
`Prog.Single P Q` allows one exception: on every path there is at most one
operation that satisfies `Q` and not `P`. A program of this kind is put
together of parts in which nothing happens, one part in which it may happen,
and parts in which nothing happens again.
-/

namespace Oxibus

namespace Prog

variable {Op : Type} {Res : Op → Type} {α β : Type} {P Q : Op → Prop}

/-- **Every operation satisfies `P`, but for at most one on each path, which
satisfies `Q`.** -/
def Single (P Q : Op → Prop) : Prog Op Res α → Prop
  | ret _ => True
  | call o k => (P o ∧ ∀ r, (k r).Single P Q) ∨ (Q o ∧ ∀ r, (k r).Only P)

/-- Nothing happens. -/
theorem Only.single {p : Prog Op Res α} (h : p.Only P) : p.Single P Q := by
  induction p with
  | ret a => trivial
  | call o k ih => exact .inl ⟨h.1, fun r => ih r (h.2 r)⟩

/-- It may happen in the second part. -/
theorem Only.single_bind {p : Prog Op Res α} {f : α → Prog Op Res β} (hp : p.Only P)
    (hf : ∀ a, (f a).Single P Q) : (p >>= f).Single P Q := by
  induction p with
  | ret a => exact hf a
  | call o k ih => exact .inl ⟨hp.1, fun r => ih r (hp.2 r)⟩

/-- An operation with which nothing happens, and what comes after it. -/
theorem single_call {o : Op} {k : Res o → Prog Op Res α} (ho : P o)
    (hk : ∀ r, (k r).Single P Q) : (call o k).Single P Q := .inl ⟨ho, hk⟩

/-- Whatever happens is of one of the two kinds. -/
theorem Single.only {p : Prog Op Res α} (h : p.Single P Q) : p.Only fun o => P o ∨ Q o := by
  induction p with
  | ret a => trivial
  | call o k ih =>
    rcases h with ⟨ho, hk⟩ | ⟨ho, hk⟩
    · exact ⟨.inl ho, fun r => ih r (hk r)⟩
    · exact ⟨.inr ho, fun r => (hk r).mono fun _ => .inl⟩

/-- A test. -/
theorem single_ite {c : Prop} [Decidable c] {p q : Prog Op Res α} (hp : c → p.Single P Q)
    (hq : ¬c → q.Single P Q) : (if c then p else q).Single P Q := by
  by_cases hc : c
  · rw [if_pos hc]
    exact hp hc
  · rw [if_neg hc]
    exact hq hc

/-- **A step of such a program**: nothing happens and it still may, or it happens and
no more. -/
theorem Single.next {o : Op} {k : Res o → Prog Op Res α} (h : (call o k).Single P Q) (r : Res o) :
    (P o ∧ (k r).Single P Q) ∨ (Q o ∧ (k r).Only P) :=
  h.imp (fun h => ⟨h.1, h.2 r⟩) fun h => ⟨h.1, h.2 r⟩

end Prog

end Oxibus
