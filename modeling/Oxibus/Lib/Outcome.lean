import Mathlib.Data.List.Basic
import Mathlib.Data.List.Forall2

/-!
# Outcomes of a fallible computation

A function of the source either returns a value, returns an error, stops
with a panic (an index or a slice out of range), or never returns at all.
`Outcome ε α` keeps the four apart, so that a statement about a returned
value says nothing by accident about a run that panics or loops.

The monad is the one of `Result` and the `?` operator: the first outcome
that is not a value ends the computation. `Outcome.bind_eq_ok` takes a
successful sequence apart, and it is the one lemma by which the proofs
about fallible code proceed – no definition by `do` is ever unfolded by
hand below it.
-/

namespace Oxibus

/-- **The outcome of running a fallible function.** -/
inductive Outcome (ε α : Type) where
  /-- The function returned `Ok a`. -/
  | ok (a : α)
  /-- The function returned `Err e`. -/
  | err (e : ε)
  /-- The function panicked: an index or a slice was out of range. -/
  | panic
  /-- The function does not return. -/
  | diverge
  deriving DecidableEq, Repr

namespace Outcome

variable {ε α β γ : Type}

/-- Sequencing: anything but a returned value ends the computation. -/
def bind (x : Outcome ε α) (f : α → Outcome ε β) : Outcome ε β :=
  match x with
  | ok a => f a
  | err e => err e
  | panic => panic
  | diverge => diverge

instance : Monad (Outcome ε) where
  pure := ok
  bind := bind

@[simp] theorem pure_eq_ok (a : α) : (pure a : Outcome ε α) = ok a := rfl

@[simp] theorem ok_bind (a : α) (f : α → Outcome ε β) : (ok a >>= f) = f a := rfl

@[simp] theorem err_bind (e : ε) (f : α → Outcome ε β) : (err e >>= f) = err e := rfl

@[simp] theorem panic_bind (f : α → Outcome ε β) : (panic >>= f) = panic := rfl

@[simp] theorem diverge_bind (f : α → Outcome ε β) : (diverge >>= f) = diverge := rfl

instance : LawfulMonad (Outcome ε) :=
  LawfulMonad.mk' (Outcome ε)
    (fun x => by cases x <;> rfl)
    (fun _ _ => rfl)
    (fun x _ _ => by cases x <;> rfl)

/-- **A sequence returns a value exactly where both of its parts do.** -/
theorem bind_eq_ok {x : Outcome ε α} {f : α → Outcome ε β} {b : β} :
    (x >>= f) = ok b ↔ ∃ a, x = ok a ∧ f a = ok b := by
  cases x with
  | ok a => simp
  | err e => simp
  | panic => simp
  | diverge => simp

/-- `map` returns a value exactly where its argument does. -/
theorem map_eq_ok {x : Outcome ε α} {f : α → β} {b : β} :
    (f <$> x) = ok b ↔ ∃ a, x = ok a ∧ f a = b := by
  rw [map_eq_pure_bind, bind_eq_ok]
  simp

@[simp] theorem map_ok (f : α → β) (a : α) : (f <$> (ok a : Outcome ε α)) = ok (f a) := rfl

@[simp] theorem map_err (f : α → β) (e : ε) : (f <$> (err e : Outcome ε α)) = err e := rfl

@[simp] theorem map_panic (f : α → β) : (f <$> (panic : Outcome ε α)) = panic := rfl

@[simp] theorem map_diverge (f : α → β) : (f <$> (diverge : Outcome ε α)) = diverge := rfl

/-- **A loop over a list returns a list exactly where each round returns its element.** -/
theorem mapM_eq_ok {f : α → Outcome ε β} {l : List α} {bs : List β} :
    l.mapM f = ok bs ↔ List.Forall₂ (fun a b => f a = ok b) l bs := by
  induction l generalizing bs with
  | nil =>
    rw [List.mapM_nil, List.forall₂_nil_left_iff]
    exact ⟨fun h => (ok.inj h).symm, fun h => congrArg ok h.symm⟩
  | cons a l ih =>
    rw [List.mapM_cons, bind_eq_ok, List.forall₂_cons_left_iff]
    constructor
    · rintro ⟨b, hb, h⟩
      obtain ⟨bs', hbs', h⟩ := bind_eq_ok.mp h
      exact ⟨b, bs', hb, ih.mp hbs', (ok.inj h).symm⟩
    · rintro ⟨b, bs', hb, hbs', rfl⟩
      exact ⟨b, hb, bind_eq_ok.mpr ⟨bs', ih.mpr hbs', rfl⟩⟩

/-- Each element of the list comes from a round. -/
theorem exists_of_mem_mapM {f : α → Outcome ε β} {l : List α} {bs : List β}
    (h : l.mapM f = ok bs) {b : β} (hb : b ∈ bs) : ∃ a ∈ l, f a = ok b := by
  induction mapM_eq_ok.mp h with
  | nil => exact absurd hb List.not_mem_nil
  | @cons a b' l bs hab hrest ih =>
    rcases List.mem_cons.mp hb with rfl | hb
    · exact ⟨a, List.mem_cons_self, hab⟩
    · obtain ⟨a', ha', heq⟩ := ih (mapM_eq_ok.mpr hrest) hb
      exact ⟨a', List.mem_cons_of_mem a ha', heq⟩

/-- Whether the function returned a value. -/
def isOk : Outcome ε α → Bool
  | ok _ => true
  | _ => false

@[simp] theorem isOk_ok (a : α) : (ok a : Outcome ε α).isOk = true := rfl

@[simp] theorem isOk_err (e : ε) : (err e : Outcome ε α).isOk = false := rfl

theorem isOk_iff {x : Outcome ε α} : x.isOk = true ↔ ∃ a, x = ok a := by
  cases x with
  | ok a => simp
  | err e => simp
  | panic => simp [isOk]
  | diverge => simp [isOk]

/-- The same outcome with its error turned into another: `map_err` on a
`Result`. -/
def mapErr {ε' : Type} (f : ε → ε') : Outcome ε α → Outcome ε' α
  | ok a => ok a
  | err e => err (f e)
  | panic => panic
  | diverge => diverge

/-- The value of a computation that returned one, or the error given for
everything else: `ok_or` on an `Option`. -/
def ofOption (e : ε) : Option α → Outcome ε α
  | some a => ok a
  | none => err e

theorem ofOption_eq_ok {e : ε} {x : Option α} {a : α} :
    ofOption e x = ok a ↔ x = some a := by
  cases x with
  | none => simp [ofOption]
  | some b => simp [ofOption]

/-! ## Functions that return -/

/-- **The function returned**, a value or an error. -/
def Returns : Outcome ε α → Prop
  | ok _ => True
  | err _ => True
  | panic => False
  | diverge => False

@[simp] theorem returns_ok (a : α) : (ok a : Outcome ε α).Returns := trivial

@[simp] theorem returns_err (e : ε) : (err e : Outcome ε α).Returns := trivial

/-- **A sequence returns exactly where its first part does, and its second part on what
the first part returned.** -/
theorem returns_bind_iff {x : Outcome ε α} {f : α → Outcome ε β} :
    (x >>= f).Returns ↔ x.Returns ∧ ∀ a, x = ok a → (f a).Returns := by
  cases x with
  | ok a => simp
  | err e => simp
  | panic => simp [Returns]
  | diverge => simp [Returns]

theorem Returns.bind {x : Outcome ε α} {f : α → Outcome ε β} (hx : x.Returns)
    (hf : ∀ a, x = ok a → (f a).Returns) : (x >>= f).Returns :=
  returns_bind_iff.mpr ⟨hx, hf⟩

theorem returns_ite {c : Prop} [Decidable c] {x y : Outcome ε α} (hx : c → x.Returns)
    (hy : ¬ c → y.Returns) : (if c then x else y).Returns := by
  split
  · next h => exact hx h
  · next h => exact hy h

theorem returns_ofOption (e : ε) (x : Option α) : (ofOption e x).Returns := by
  cases x with
  | none => trivial
  | some a => trivial

end Outcome

end Oxibus
