import Oxibus.Lib.Prog

/-!
# Programs that can fail

A program of atomic operations that can fail is one that returns a value or an
error, `ExceptT ε (Prog Op Res) α`; the first error ends it. `Attempts` says
what it ensures where it returns a value and what it ensures where it fails, and
its rules go along the program: an operation, a sequence, a test.
-/

namespace Oxibus

namespace Prog

variable {Op : Type} {Res : Op → Type} {ε α β σ : Type}

/-- Perform one operation. -/
def attempt (o : Op) : ExceptT ε (Prog Op Res) (Res o) := ExceptT.lift (perform o)

variable (exec : Semantics Op Res σ) (env : σ → σ → Prop) (guar : Semantics Op Res σ)

/-- **What a program ensures that can fail**: what holds where it returns a value, and what
holds where it fails. -/
def Attempts (post : α → σ → Prop) (failed : ε → σ → Prop) (p : ExceptT ε (Prog Op Res) α)
    (s : σ) : Prop :=
  p.run.Ensures exec env guar
    (fun result s => match result with
      | .ok a => post a s
      | .error e => failed e s) s

variable {exec env guar} {post : α → σ → Prop} {failed : ε → σ → Prop} {s : σ}

theorem attempts_pure {a : α} (h : post a s) :
    Attempts exec env guar post failed (pure a : ExceptT ε (Prog Op Res) α) s := h

theorem attempts_throw {e : ε} (h : failed e s) :
    Attempts exec env guar post failed (throw e : ExceptT ε (Prog Op Res) α) s := h

/-- **An operation, and what comes after it.** -/
theorem attempts_attempt_bind {o : Op} {f : Res o → ExceptT ε (Prog Op Res) α}
    (h : ∀ s₁ r s₂, env s s₁ → exec o s₁ r s₂ →
      guar o s₁ r s₂ ∧ Attempts exec env guar post failed (f r) s₂) :
    Attempts exec env guar post failed (attempt o >>= f) s := h

/-- **A sequence**: the first part ensures what the second part needs, or fails for
both. -/
theorem attempts_bind {p : ExceptT ε (Prog Op Res) α} {f : α → ExceptT ε (Prog Op Res) β}
    {post : β → σ → Prop}
    (h : Attempts exec env guar (fun a s => Attempts exec env guar post failed (f a) s)
      failed p s) :
    Attempts exec env guar post failed (p >>= f) s := by
  show Prog.Ensures _ _ _ _ (p.run >>= _) s
  refine ensures_bind (h.mono fun result s hs => ?_)
  cases result with
  | ok a => exact hs
  | error e => exact hs

theorem Attempts.mono {post' : α → σ → Prop} {failed' : ε → σ → Prop}
    {p : ExceptT ε (Prog Op Res) α} (h : Attempts exec env guar post failed p s)
    (hpost : ∀ a s, post a s → post' a s) (hfailed : ∀ e s, failed e s → failed' e s) :
    Attempts exec env guar post' failed' p s := by
  refine Ensures.mono h fun result s hs => ?_
  cases result with
  | ok a => exact hpost a s hs
  | error e => exact hfailed e s hs

/-- A test: each branch may use its outcome. -/
theorem attempts_ite {c : Prop} [Decidable c] {p q : ExceptT ε (Prog Op Res) α}
    (hp : c → Attempts exec env guar post failed p s)
    (hq : ¬c → Attempts exec env guar post failed q s) :
    Attempts exec env guar post failed (if c then p else q) s := by
  by_cases hc : c
  · rw [if_pos hc]
    exact hp hc
  · rw [if_neg hc]
    exact hq hc

end Prog

end Oxibus
