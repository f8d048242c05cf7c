import Mathlib.Logic.Relation

/-!
# Programs that share a state

A task of a concurrent server is a program of atomic operations: it performs
one, receives the answer, and goes on. Between two of them every other task
may run. `Prog Op Res α` is such a program, for a type `Op` of operations
whose answers have the types `Res`; what an operation does to the state, and
which answers it can give, is a relation that comes later.

There are two ways to reason about a program without knowing who runs beside
it.

* `Prog.Only P` says that every operation it performs satisfies `P`, whatever
  the answers are.
* `Prog.Ensures` is a precondition in the style of rely and guarantee: the
  state may change by a relation `env` before each operation, each operation
  performed satisfies a guarantee in the state it is performed in, and what
  the program returns satisfies a postcondition.

`Prog.Runs` are the runs of one program amid such interference; the two
notions are statements about all of them.
-/

namespace Oxibus

/-- **A program of atomic operations.** -/
inductive Prog (Op : Type) (Res : Op → Type) (α : Type) where
  /-- Return a value. -/
  | ret (a : α)
  /-- Perform an operation and go on with its answer. -/
  | call (o : Op) (k : Res o → Prog Op Res α)

namespace Prog

variable {Op : Type} {Res : Op → Type} {α β γ σ : Type}

/-- Sequencing. -/
def bind : Prog Op Res α → (α → Prog Op Res β) → Prog Op Res β
  | ret a, f => f a
  | call o k, f => call o fun r => (k r).bind f

instance : Monad (Prog Op Res) where
  pure := ret
  bind := bind

/-- The program that performs one operation and returns its answer. -/
def perform (o : Op) : Prog Op Res (Res o) := call o ret

@[simp] theorem pure_eq_ret (a : α) : (pure a : Prog Op Res α) = ret a := rfl

@[simp] theorem ret_bind (a : α) (f : α → Prog Op Res β) : (ret a >>= f) = f a := rfl

@[simp] theorem call_bind (o : Op) (k : Res o → Prog Op Res α) (f : α → Prog Op Res β) :
    (call o k >>= f) = call o fun r => k r >>= f := rfl

@[simp] theorem perform_bind (o : Op) (f : Res o → Prog Op Res β) :
    (perform o >>= f) = call o f := rfl

theorem bind_ret (p : Prog Op Res α) : (p >>= ret) = p := by
  induction p with
  | ret a => rfl
  | call o k ih =>
    show call o (fun r => k r >>= ret) = call o k
    congr 1
    funext r
    exact ih r

theorem bind_assoc (p : Prog Op Res α) (f : α → Prog Op Res β) (g : β → Prog Op Res γ) :
    (p >>= f >>= g) = p >>= fun a => f a >>= g := by
  induction p with
  | ret a => rfl
  | call o k ih =>
    show call o (fun r => (k r >>= f) >>= g) = call o fun r => k r >>= fun a => f a >>= g
    congr 1
    funext r
    exact ih r

instance : LawfulMonad (Prog Op Res) :=
  LawfulMonad.mk' (Prog Op Res) bind_ret (fun _ _ => rfl) bind_assoc

/-- **A loop over a list**: the body is run for one element after the
other. -/
def forEach (body : α → Prog Op Res Unit) : List α → Prog Op Res Unit
  | [] => ret ()
  | a :: as => body a >>= fun _ => forEach body as

theorem forEach_singleton (body : α → Prog Op Res Unit) (a : α) : forEach body [a] = body a :=
  bind_ret (body a)

/-! ## The operations a program performs -/

section Only

variable {P Q : Op → Prop}

/-- **Every operation the program performs satisfies `P`**, whatever answers
it receives. -/
def Only (P : Op → Prop) : Prog Op Res α → Prop
  | ret _ => True
  | call o k => P o ∧ ∀ r, (k r).Only P

@[simp] theorem only_ret (a : α) : (ret a : Prog Op Res α).Only P := trivial

@[simp] theorem only_perform {o : Op} : (perform o : Prog Op Res (Res o)).Only P ↔ P o :=
  ⟨fun h => h.1, fun h => ⟨h, fun _ => trivial⟩⟩

theorem only_bind {p : Prog Op Res α} {f : α → Prog Op Res β} (hp : p.Only P)
    (hf : ∀ a, (f a).Only P) : (p >>= f).Only P := by
  induction p with
  | ret a => exact hf a
  | call o k ih => exact ⟨hp.1, fun r => ih r (hp.2 r)⟩

/-- An operation that satisfies `P`, and what comes after it. -/
theorem only_perform_bind {o : Op} {f : Res o → Prog Op Res β} (ho : P o)
    (hf : ∀ r, (f r).Only P) : (perform o >>= f).Only P :=
  ⟨ho, hf⟩

/-- A test: each branch may use its outcome. -/
theorem only_split {c : Prop} [Decidable c] {p q : Prog Op Res α} (hp : c → p.Only P)
    (hq : ¬c → q.Only P) : (if c then p else q).Only P := by
  by_cases hc : c
  · rw [if_pos hc]
    exact hp hc
  · rw [if_neg hc]
    exact hq hc

theorem only_ite {c : Prop} [Decidable c] {p q : Prog Op Res α} (hp : p.Only P) (hq : q.Only P) :
    (if c then p else q).Only P :=
  only_split (fun _ => hp) fun _ => hq

theorem only_forEach {body : α → Prog Op Res Unit} {as : List α}
    (h : ∀ a ∈ as, (body a).Only P) : (forEach body as).Only P := by
  induction as with
  | nil => trivial
  | cons a as ih =>
    exact only_bind (h a List.mem_cons_self) fun _ =>
      ih fun b hb => h b (List.mem_cons_of_mem _ hb)

theorem Only.mono {p : Prog Op Res α} (h : p.Only P) (hPQ : ∀ o, P o → Q o) : p.Only Q := by
  induction p with
  | ret a => trivial
  | call o k ih => exact ⟨hPQ o h.1, fun r => ih r (h.2 r)⟩

/-- **Every operation the program performs satisfies `P`, and what it returns
satisfies `post`**, whatever answers it receives. -/
def Yields (P : Op → Prop) (post : α → Prop) : Prog Op Res α → Prop
  | ret a => post a
  | call o k => P o ∧ ∀ r, (k r).Yields P post

theorem Only.yields {p : Prog Op Res α} (h : p.Only P) : p.Yields P fun _ => True := by
  induction p with
  | ret a => trivial
  | call o k ih => exact ⟨h.1, fun r => ih r (h.2 r)⟩

theorem Only.yields_bind {post : β → Prop} {p : Prog Op Res α} {f : α → Prog Op Res β}
    (hp : p.Only P) (hf : ∀ a, (f a).Yields P post) : (p >>= f).Yields P post := by
  induction p with
  | ret a => exact hf a
  | call o k ih => exact ⟨hp.1, fun r => ih r (hp.2 r)⟩

/-- What every one of some conditions says of the operations, they say together. -/
theorem yields_forall {ι : Type} [Nonempty ι] {P : ι → Op → Prop} {post : α → Prop}
    {p : Prog Op Res α} (h : ∀ i, p.Yields (P i) post) : p.Yields (fun o => ∀ i, P i o) post := by
  induction p with
  | ret a => exact ‹Nonempty ι›.elim fun i => h i
  | call o k ih => exact ⟨fun i => (h i).1, fun r => ih r fun i => (h i).2 r⟩

theorem yields_ite {post : α → Prop} {c : Prop} [Decidable c] {p q : Prog Op Res α}
    (hp : p.Yields P post) (hq : q.Yields P post) : (if c then p else q).Yields P post := by
  by_cases hc : c
  · rwa [if_pos hc]
  · rwa [if_neg hc]

/-- **An operation that satisfies `Q` may come**, with operations that satisfy `P`
before it. -/
inductive MayReach (P Q : Op → Prop) : Prog Op Res α → Prop where
  /-- It is the next one. -/
  | here {o : Op} {k : Res o → Prog Op Res α} (h : Q o) : MayReach P Q (call o k)
  /-- It may come after the next one. -/
  | later {o : Op} {k : Res o → Prog Op Res α} (r : Res o) (ho : P o) (h : MayReach P Q (k r)) :
    MayReach P Q (call o k)

theorem not_mayReach_ret (a : α) : ¬ MayReach P Q (ret a : Prog Op Res α) := nofun

end Only

/-! ## Rely and guarantee -/

section Ensures

/-- What an operation does: in a state, with an answer, to a state. -/
abbrev Semantics (Op : Type) (Res : Op → Type) (σ : Type) : Type :=
  (o : Op) → σ → Res o → σ → Prop

variable (exec : Semantics Op Res σ) (env : σ → σ → Prop) (guar : Semantics Op Res σ)

/-- **The program, started in a state and amid interference by `env`, keeps
to its guarantee and returns what satisfies the postcondition.** -/
def Ensures (post : α → σ → Prop) : Prog Op Res α → σ → Prop
  | ret a, s => post a s
  | call o k, s => ∀ s₁ r s₂, env s s₁ → exec o s₁ r s₂ →
      guar o s₁ r s₂ ∧ (k r).Ensures post s₂

variable {exec env guar}

theorem Ensures.mono {post post' : α → σ → Prop} {p : Prog Op Res α} {s : σ}
    (h : p.Ensures exec env guar post s) (hpost : ∀ a s, post a s → post' a s) :
    p.Ensures exec env guar post' s := by
  induction p generalizing s with
  | ret a => exact hpost a s h
  | call o k ih =>
    intro s₁ r s₂ henv hexec
    obtain ⟨hg, hk⟩ := h s₁ r s₂ henv hexec
    exact ⟨hg, ih r hk⟩

theorem Ensures.weaken {guar' : Semantics Op Res σ} {post : α → σ → Prop}
    {p : Prog Op Res α} {s : σ}
    (h : p.Ensures exec env guar post s) (hguar : ∀ o s r s', guar o s r s' → guar' o s r s') :
    p.Ensures exec env guar' post s := by
  induction p generalizing s with
  | ret a => exact h
  | call o k ih =>
    intro s₁ r s₂ henv hexec
    obtain ⟨hg, hk⟩ := h s₁ r s₂ henv hexec
    exact ⟨hguar _ _ _ _ hg, ih r hk⟩

/-- **Sequencing**: the first part ensures what the second part needs. -/
theorem ensures_bind {post : β → σ → Prop} {p : Prog Op Res α} {f : α → Prog Op Res β} {s : σ}
    (h : p.Ensures exec env guar (fun a s => (f a).Ensures exec env guar post s) s) :
    (p >>= f).Ensures exec env guar post s := by
  induction p generalizing s with
  | ret a => exact h
  | call o k ih =>
    intro s₁ r s₂ henv hexec
    obtain ⟨hg, hk⟩ := h s₁ r s₂ henv hexec
    exact ⟨hg, ih r hk⟩

/-- A test: each branch may use its outcome. -/
theorem ensures_ite {post : α → σ → Prop} {c : Prop} [Decidable c] {p q : Prog Op Res α} {s : σ}
    (hp : c → p.Ensures exec env guar post s) (hq : ¬c → q.Ensures exec env guar post s) :
    (if c then p else q).Ensures exec env guar post s := by
  by_cases hc : c
  · rw [if_pos hc]
    exact hp hc
  · rw [if_neg hc]
    exact hq hc

/-- **A loop**: the body keeps an invariant, whatever the element. -/
theorem ensures_forEach {inv : σ → Prop} {body : α → Prog Op Res Unit} {as : List α} {s : σ}
    (h : ∀ a ∈ as, ∀ s, inv s → (body a).Ensures exec env guar (fun _ s => inv s) s)
    (hs : inv s) : (forEach body as).Ensures exec env guar (fun _ s => inv s) s := by
  induction as generalizing s with
  | nil => exact hs
  | cons a as ih =>
    refine ensures_bind ((h a List.mem_cons_self s hs).mono fun _ s hs => ?_)
    exact ih (fun b hb => h b (List.mem_cons_of_mem _ hb)) hs

/-- **A loop in which one element matters**: the others keep what holds before its
turn, and what holds after it. -/
theorem ensures_forEach_one {before after : σ → Prop} {body : α → Prog Op Res Unit} {as : List α}
    {a : α} {s : σ} (hnodup : as.Nodup) (ha : a ∈ as)
    (hbefore : ∀ b ∈ as, b ≠ a → ∀ s, before s →
      (body b).Ensures exec env guar (fun _ s => before s) s)
    (hone : ∀ s, before s → (body a).Ensures exec env guar (fun _ s => after s) s)
    (hafter : ∀ b ∈ as, b ≠ a → ∀ s, after s →
      (body b).Ensures exec env guar (fun _ s => after s) s)
    (hs : before s) : (forEach body as).Ensures exec env guar (fun _ s => after s) s := by
  induction as generalizing s with
  | nil => exact absurd ha List.not_mem_nil
  | cons b as ih =>
    obtain ⟨hb, hnodup⟩ := List.nodup_cons.mp hnodup
    by_cases hab : b = a
    · -- its turn: it is not among the others
      subst hab
      refine ensures_bind ((hone s hs).mono fun _ s hs => ensures_forEach (fun d hd => ?_) hs)
      exact hafter d (List.mem_cons_of_mem _ hd) fun heq => hb (heq ▸ hd)
    · refine ensures_bind ((hbefore b List.mem_cons_self hab s hs).mono fun _ s hs => ?_)
      refine ih hnodup ?_ (fun d hd => hbefore d (List.mem_cons_of_mem _ hd))
        (fun d hd => hafter d (List.mem_cons_of_mem _ hd)) hs
      exact (List.mem_cons.mp ha).resolve_left fun heq => hab heq.symm

/-- The same for a program that also keeps to what it returns. -/
theorem Yields.ensures {P : Op → Prop} {I : σ → Prop} {post : α → Prop} {p : Prog Op Res α}
    {s : σ} (h : p.Yields P post) (henv : ∀ s s', I s → env s s' → I s')
    (hop : ∀ o s r s', P o → I s → exec o s r s' → guar o s r s' ∧ I s') (hs : I s) :
    p.Ensures exec env guar (fun a s => post a ∧ I s) s := by
  induction p generalizing s with
  | ret a => exact ⟨h, hs⟩
  | call o k ih =>
    intro s₁ r s₂ hs₁ hexec
    obtain ⟨hguar, hs₂⟩ := hop o s₁ r s₂ h.1 (henv _ _ hs hs₁) hexec
    exact ⟨hguar, ih r (h.2 r) hs₂⟩

/-- What a program ensures, it still ensures after interference. -/
theorem Ensures.interfere {post : α → σ → Prop} {p : Prog Op Res α} {s s' : σ}
    (h : p.Ensures exec env guar post s) (htrans : ∀ a b c, env a b → env b c → env a c)
    (hpost : ∀ a s s', env s s' → post a s → post a s') (hs : env s s') :
    p.Ensures exec env guar post s' := by
  cases p with
  | ret a => exact hpost a s s' hs h
  | call o k => exact fun s₁ r s₂ henv => h s₁ r s₂ (htrans _ _ _ hs henv)

/-- **A program all of whose operations satisfy `P`** keeps an invariant that
such operations and the interference keep, and guarantees what they do under
the invariant. -/
theorem Only.ensures {P : Op → Prop} {I : σ → Prop} {p : Prog Op Res α} {s : σ} (h : p.Only P)
    (henv : ∀ s s', I s → env s s' → I s')
    (hop : ∀ o s r s', P o → I s → exec o s r s' → guar o s r s' ∧ I s') (hs : I s) :
    p.Ensures exec env guar (fun _ s => I s) s := by
  induction p generalizing s with
  | ret a => exact hs
  | call o k ih =>
    intro s₁ r s₂ hs₁ hexec
    obtain ⟨hguar, hs₂⟩ := hop o s₁ r s₂ h.1 (henv _ _ hs hs₁) hexec
    exact ⟨hguar, ih r (h.2 r) hs₂⟩

end Ensures

/-! ## Runs amid interference -/

section Runs

/-- **One operation of a run**: the state it found, its answer, the state it
left. -/
structure Event (Op : Type) (Res : Op → Type) (σ : Type) where
  /-- The state before. -/
  before : σ
  /-- The operation. -/
  op : Op
  /-- The answer. -/
  res : Res op
  /-- The state after. -/
  after : σ

variable (exec : Semantics Op Res σ) (env : σ → σ → Prop)

/-- **The runs of a program amid interference**: from a state and a program
to a state and what is left of the program, by these operations. -/
inductive Runs : σ → Prog Op Res α → List (Event Op Res σ) → σ → Prog Op Res α → Prop where
  /-- Nothing happens. -/
  | refl (s : σ) (p : Prog Op Res α) : Runs s p [] s p
  /-- Another task runs. -/
  | other {s s' t : σ} {p q : Prog Op Res α} {es : List (Event Op Res σ)} (henv : env s s')
      (h : Runs s' p es t q) : Runs s p es t q
  /-- The program performs its next operation. -/
  | call {s s' t : σ} {o : Op} {r : Res o} {k : Res o → Prog Op Res α} {q : Prog Op Res α}
      {es : List (Event Op Res σ)} (hexec : exec o s r s') (h : Runs s' (k r) es t q) :
      Runs s (call o k) (⟨s, o, r, s'⟩ :: es) t q

variable {exec env}

theorem Runs.bind {s t u : σ} {p : Prog Op Res α} {f : α → Prog Op Res β} {q : Prog Op Res β}
    {a : α} {es es' : List (Event Op Res σ)} (h : Runs exec env s p es t (ret a))
    (h' : Runs exec env t (f a) es' u q) : Runs exec env s (p >>= f) (es ++ es') u q := by
  generalize hr : (ret a : Prog Op Res α) = e at h
  induction h with
  | refl s p =>
    cases hr
    exact h'
  | other henv _ ih => exact .other henv (ih h' hr)
  | call hexec _ ih => exact .call hexec (ih h' hr)

/-- A run goes on. -/
theorem Runs.trans {s t u : σ} {p q q' : Prog Op Res α} {es es' : List (Event Op Res σ)}
    (h : Runs exec env s p es t q) (h' : Runs exec env t q es' u q') :
    Runs exec env s p (es ++ es') u q' := by
  induction h with
  | refl s p => exact h'
  | other henv _ ih => exact .other henv (ih h')
  | call hexec _ ih => exact .call hexec (ih h')

/-- **A program of operations that can leave the state alone** has a run that
does, to its end. -/
theorem Only.runs {P : Op → Prop} {p : Prog Op Res α} {s : σ} (h : p.Only P)
    (hop : ∀ o, P o → ∃ r, exec o s r s) : ∃ es a, Runs exec env s p es s (ret a) := by
  induction p with
  | ret a => exact ⟨[], a, .refl s _⟩
  | call o k ih =>
    obtain ⟨r, hexec⟩ := hop o h.1
    obtain ⟨es, a, hruns⟩ := ih r (h.2 r)
    exact ⟨_, a, .call hexec hruns⟩

/-- **What a program ensures holds of every operation of its runs.** -/
theorem Ensures.of_runs {guar : Semantics Op Res σ} {post : α → σ → Prop} {s t : σ}
    {p q : Prog Op Res α} {es : List (Event Op Res σ)}
    (h : p.Ensures exec env guar post s) (hruns : Runs exec env s p es t q)
    (hrefl : ∀ s, env s s) (htrans : ∀ a b c, env a b → env b c → env a c)
    (hpost : ∀ a s s', env s s' → post a s → post a s') :
    ∀ e ∈ es, guar e.op e.before e.res e.after := by
  induction hruns with
  | refl s p => exact nofun
  | other henv _ ih => exact ih (h.interfere htrans hpost henv)
  | call hexec _ ih =>
    obtain ⟨hg, hk⟩ := h _ _ _ (hrefl _) hexec
    intro e he
    rcases List.mem_cons.mp he with rfl | he
    · exact hg
    · exact ih hk e he

/-- **What a program ensures holds when it has returned.** -/
theorem Ensures.post_of_runs {guar : Semantics Op Res σ} {post : α → σ → Prop} {s t : σ}
    {p : Prog Op Res α} {a : α} {es : List (Event Op Res σ)}
    (h : p.Ensures exec env guar post s) (hruns : Runs exec env s p es t (ret a))
    (hrefl : ∀ s, env s s) (htrans : ∀ a b c, env a b → env b c → env a c)
    (hpost : ∀ a s s', env s s' → post a s → post a s') : post a t := by
  generalize hq : (ret a : Prog Op Res α) = q at hruns
  induction hruns with
  | refl s p =>
    subst hq
    exact h
  | other henv _ ih => exact ih (h.interfere htrans hpost henv) hq
  | call hexec _ ih => exact ih (h _ _ _ (hrefl _) hexec).2 hq

end Runs

end Prog

end Oxibus
