import Oxibus.Lib.Prog

/-!
# Running a program

A program can be run against a function that answers its operations. If each
answer is one that the operation can give, what the function does with a program
is one of its runs; so a run can be computed instead of being written down.
-/

namespace Oxibus

namespace Prog

variable {Op : Type} {Res : Op → Type} {α σ : Type}

/-- **A program is run to its end**, with these answers: what happens, the state it leaves,
and what it returns. -/
def simulate (answer : (o : Op) → σ → Res o × σ) :
    Prog Op Res α → σ → List (Event Op Res σ) × σ × α
  | ret a, s => ([], s, a)
  | call o k, s =>
    let (r, s') := answer o s
    let (es, t, a) := (k r).simulate answer s'
    (⟨s, o, r, s'⟩ :: es, t, a)

/-- **What is computed is a run.** -/
theorem runs_simulate {exec : Semantics Op Res σ} {env : σ → σ → Prop}
    {answer : (o : Op) → σ → Res o × σ} (h : ∀ o s, exec o s (answer o s).1 (answer o s).2)
    (p : Prog Op Res α) (s : σ) :
    Runs exec env s p (p.simulate answer s).1 (p.simulate answer s).2.1
      (ret (p.simulate answer s).2.2) := by
  induction p generalizing s with
  | ret a => exact .refl s _
  | call o k ih => exact .call (h o s) (ih _ _)

/-- **What every answer keeps holds in the end.** -/
theorem simulate_keeps {I : σ → Prop} {answer : (o : Op) → σ → Res o × σ}
    (h : ∀ o s, I s → I (answer o s).2) (p : Prog Op Res α) {s : σ} (hs : I s) :
    I (p.simulate answer s).2.1 := by
  induction p generalizing s with
  | ret a => exact hs
  | call o k ih => exact ih _ (h o s hs)

end Prog

end Oxibus
