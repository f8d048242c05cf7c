import Mathlib.Logic.Relation
import Mathlib.Order.WellFounded

/-!
# Refinement with steps that do not show

A system that is described in detail takes many steps where one that is
described from afar takes one. It *refines* the other one if each of its steps
is either a step of the other or does not show there, and if only so many steps
in a row do not show: some number falls with each of them.

Then wherever it gets, the other one could have got (`Refines.run`), and if all
that the other one does comes to an end, so does all that it does itself
(`Refines.acc`).
-/

namespace Oxibus

variable {C A : Type*}

/-- **Each step shows, or counts down.** -/
structure Refines (step : C → C → Prop) (abstractStep : A → A → Prop) (rel : C → A → Prop)
    (measure : C → ℕ) : Prop where
  step : ∀ {c c' a}, rel c a → step c c' →
    (∃ a', abstractStep a a' ∧ rel c' a') ∨ (rel c' a ∧ measure c' < measure c)

/-- **What comes to an end has one**: a state from where there is no step. -/
theorem exists_end {step : C → C → Prop} {c : C} (hacc : Acc (fun c' c => step c c') c) :
    ∃ d, Relation.ReflTransGen step c d ∧ ∀ d', ¬ step d d' := by
  induction hacc with
  | intro c _ ih =>
    by_cases hstep : ∃ c', step c c'
    · obtain ⟨c', hstep⟩ := hstep
      obtain ⟨d, hrun, hend⟩ := ih c' hstep
      exact ⟨d, .head hstep hrun, hend⟩
    · exact ⟨c, .refl, fun c' hstep' => hstep ⟨c', hstep'⟩⟩

namespace Refines

variable {step : C → C → Prop} {abstractStep : A → A → Prop} {rel : C → A → Prop}
  {measure : C → ℕ} {c c' : C} {a : A}

/-- **Where it gets, the other one gets**, also if it takes idle steps on the way. -/
theorem run (h : Refines step abstractStep rel measure) {idle : C → C → Prop}
    (hidle : ∀ {c c' a}, rel c a → idle c c' → rel c' a) (hrel : rel c a)
    (hrun : Relation.ReflTransGen (fun c c' => step c c' ∨ idle c c') c c') :
    ∃ a', Relation.ReflTransGen abstractStep a a' ∧ rel c' a' := by
  induction hrun with
  | refl => exact ⟨a, .refl, hrel⟩
  | tail _ hstep ih =>
    obtain ⟨b, hrun, hb⟩ := ih
    cases hstep with
    | inl hstep =>
      rcases h.step hb hstep with ⟨b', hstep', hb'⟩ | ⟨hb', -⟩
      · exact ⟨b', hrun.tail hstep', hb'⟩
      · exact ⟨b, hrun, hb'⟩
    | inr hidling => exact ⟨b, hrun, hidle hb hidling⟩

/-- **If the other one comes to an end, it does.** -/
theorem acc (h : Refines step abstractStep rel measure) (hrel : rel c a)
    (hacc : Acc (fun a' a => abstractStep a a') a) : Acc (fun c' c => step c c') c := by
  induction hacc generalizing c with
  | intro a _ iha =>
    -- the steps that do not show count down
    induction hm : measure c using Nat.strong_induction_on generalizing c with
    | _ m ihm =>
      refine ⟨c, fun c' hstep => ?_⟩
      rcases h.step hrel hstep with ⟨a', hstep', hrel'⟩ | ⟨hrel', hlt⟩
      · exact iha a' hstep' hrel'
      · exact ihm (measure c') (hm ▸ hlt) hrel' rfl

end Refines

end Oxibus
