import Mathlib.Logic.Function.Basic

/-!
# Pointers that own what they point to

Where memory is managed by hand, some places hold pointers and are to be the
only ones to hold them: what a place points to is live, and no other place
points there. Then it can be released through this place, once, and nobody
reads it afterwards.

A place that was never given anything may hold any pointer. So all this is
about a *scope*, the places that have been set up. `Owns` says what the places
of a scope own, the values that are read through them, and that nothing is
touched of what was there before; `Tight` that nothing else is live. Each way
to change a place – releasing, acquiring, forgetting, handing over – has a rule
for either.
-/

namespace Oxibus

variable {ι A V : Type*}

/-- **A heap and the places that point into it.** -/
structure Owners (ι A V : Type*) where
  /-- What is live, by its address. -/
  heap : A → Option V
  /-- The pointer at a place, or null. -/
  pointer : ι → Option A

namespace Owners

variable [DecidableEq ι] [DecidableEq A]

/-- **Releases what a place points to.** There must be something live there, if the pointer is
not null. -/
def release (o : Owners ι A V) (i : ι) : Option (Owners ι A V) :=
  match o.pointer i with
  | none => some o
  | some a =>
    match o.heap a with
    | none => none
    | some _ => some ⟨Function.update o.heap a none, Function.update o.pointer i none⟩

/-- **A value is put at an address**, and a place points there. -/
def acquire (o : Owners ι A V) (i : ι) (a : A) (x : V) : Owners ι A V :=
  ⟨Function.update o.heap a (some x), Function.update o.pointer i (some a)⟩

/-- **A place points nowhere**, whatever it pointed to. -/
def forget (o : Owners ι A V) (i : ι) : Owners ι A V :=
  ⟨o.heap, Function.update o.pointer i none⟩

/-- **A place hands over its pointer** to another one. -/
def transfer (o : Owners ι A V) (i j : ι) : Owners ι A V :=
  ⟨o.heap, Function.update (Function.update o.pointer j (o.pointer i)) i none⟩

/-- What is read through a pointer: nothing if it is null. -/
def Reads (heap : A → Option V) (p : Option A) (x : Option V) : Prop :=
  match p, x with
  | none, none => True
  | some a, some x => heap a = some x
  | _, _ => False

omit [DecidableEq A] in
theorem Reads.of_heap {heap heap' : A → Option V} {p : Option A} {x : Option V}
    (h : Reads heap p x) (heq : ∀ a, p = some a → heap' a = heap a) : Reads heap' p x := by
  cases p with
  | none =>
    cases x with
    | none => exact h
    | some x => exact h.elim
  | some a =>
    cases x with
    | none => exact h
    | some x => exact (heq a rfl).trans h

omit [DecidableEq A] in
/-- A pointer that is not null points to something live. -/
theorem Reads.live {heap : A → Option V} {a : A} {x : Option V} (h : Reads heap (some a) x) :
    heap a = x ∧ x ≠ none := by
  cases x with
  | none => exact h.elim
  | some x => exact ⟨h, Option.some_ne_none x⟩

omit [DecidableEq A] in
/-- A pointer is null where nothing is read, and nowhere else. -/
theorem Reads.eq_none_iff {heap : A → Option V} {p : Option A} {x : Option V}
    (h : Reads heap p x) : p = none ↔ x = none := by
  cases p with
  | none =>
    cases x with
    | none => exact iff_of_true rfl rfl
    | some x => exact h.elim
  | some a =>
    constructor
    · intro hp
      cases hp
    · exact fun hx => absurd hx h.live.2

/-- **What the places of a scope own**: values, each of them its own, and nothing that was live
before. -/
structure Owns (before : A → Option V) (scope : ι → Prop) (value : ι → Option V)
    (o : Owners ι A V) : Prop where
  /-- What is read through a place. -/
  reads : ∀ i, scope i → Reads o.heap (o.pointer i) (value i)
  /-- No two places point to the same. -/
  apart : ∀ i j a, scope i → scope j → o.pointer i = some a → o.pointer j = some a → i = j
  /-- What was live before is so still. -/
  kept : ∀ a x, before a = some x → o.heap a = some x
  /-- And is not theirs. -/
  foreign : ∀ i a, scope i → o.pointer i = some a → before a = none

/-- **Nothing else is live** than what was so before and what the places own. -/
def Tight (before : A → Option V) (scope : ι → Prop) (o : Owners ι A V) : Prop :=
  ∀ a, o.heap a ≠ none → before a ≠ none ∨ ∃ i, scope i ∧ o.pointer i = some a

variable {before : A → Option V} {scope : ι → Prop} {value : ι → Option V} {o o' : Owners ι A V}
  {i j : ι} {a : A} {x : V}

/-- A place that has released what it points to points nowhere, and the others where they did. -/
theorem release_pointer (h : o.release i = some o') :
    o'.pointer = Function.update o.pointer i none := by
  unfold Owners.release at h
  cases hp : o.pointer i with
  | none =>
    rw [hp] at h
    rw [← Option.some.inj h, ← hp, Function.update_eq_self]
  | some a =>
    cases ha : o.heap a with
    | none =>
      simp only [hp, ha] at h
      cases h
    | some x =>
      simp only [hp, ha] at h
      rw [← Option.some.inj h]

/-- **What is owned can be released**, and the others keep what they own. -/
theorem Owns.release (h : Owns before scope value o) (hi : scope i) :
    ∃ o', o.release i = some o' ∧ Owns before scope (Function.update value i none) o' := by
  unfold Owners.release
  cases hp : o.pointer i with
  | none =>
    have hvalue : value i = none := (h.reads i hi).eq_none_iff.mp hp
    refine ⟨o, rfl, ?_⟩
    rw [← hvalue, Function.update_eq_self]
    exact h
  | some a =>
    have hreads := h.reads i hi
    rw [hp] at hreads
    obtain ⟨hlive, hne⟩ := hreads.live
    obtain ⟨x, hx⟩ := Option.ne_none_iff_exists'.mp hne
    rw [hx] at hlive
    simp only [hlive]
    refine ⟨_, rfl, fun j hj => ?_, fun j k b hj hk hjb hkb => ?_, fun b y hb => ?_,
      fun j b hj hjb => ?_⟩
    · by_cases hij : j = i
      · subst hij
        simp only [Function.update_self]
        trivial
      · simp only [Function.update_of_ne hij]
        refine (h.reads j hj).of_heap fun b hb => Function.update_of_ne ?_ _ _
        rintro rfl
        exact hij (h.apart j i _ hj hi hb hp)
    · have hold :
          ∀ {m : ι}, Function.update o.pointer i none m = some b → o.pointer m = some b := by
        intro m hm
        by_cases hmi : m = i
        · rw [hmi, Function.update_self] at hm
          cases hm
        · rwa [Function.update_of_ne hmi] at hm
      exact h.apart j k b hj hk (hold hjb) (hold hkb)
    · have hba : b ≠ a := by
        rintro rfl
        rw [h.foreign i b hi hp] at hb
        cases hb
      exact (Function.update_of_ne hba _ _).trans (h.kept b y hb)
    · by_cases hij : j = i
      · rw [hij] at hjb
        simp only [Function.update_self] at hjb
        cases hjb
      · simp only [Function.update_of_ne hij] at hjb
        exact h.foreign j b hj hjb

/-- **A value is acquired** at an address where nothing is live. -/
theorem Owns.acquire (h : Owns before scope value o) (ha : o.heap a = none) :
    Owns before scope (Function.update value i (some x)) (o.acquire i a x) := by
  have hfree : ∀ j, scope j → o.pointer j ≠ some a := by
    intro j hj hja
    have hreads := h.reads j hj
    rw [hja] at hreads
    exact hreads.live.2 (hreads.live.1.symm.trans ha)
  have hbefore : before a = none := by
    cases hb : before a with
    | none => rfl
    | some y => cases (h.kept a y hb).symm.trans ha
  constructor
  · intro j hj
    unfold Owners.acquire
    by_cases hij : j = i
    · subst hij
      simp only [Function.update_self]
      exact Function.update_self ..
    · simp only [Function.update_of_ne hij]
      refine (h.reads j hj).of_heap fun b hb => Function.update_of_ne ?_ _ _
      rintro rfl
      exact hfree j hj hb
  · intro j k b hj hk hjb hkb
    unfold Owners.acquire at hjb hkb
    by_cases hji : j = i
    · by_cases hki : k = i
      · exact hji.trans hki.symm
      · simp only [hji, Function.update_self] at hjb
        simp only [Function.update_of_ne hki] at hkb
        exact absurd (hkb.trans hjb.symm) (hfree k hk)
    · simp only [Function.update_of_ne hji] at hjb
      by_cases hki : k = i
      · simp only [hki, Function.update_self] at hkb
        exact absurd (hjb.trans hkb.symm) (hfree j hj)
      · simp only [Function.update_of_ne hki] at hkb
        exact h.apart j k b hj hk hjb hkb
  · intro b y hb
    have hba : b ≠ a := by
      rintro rfl
      cases hb.symm.trans hbefore
    exact (Function.update_of_ne hba _ _).trans (h.kept b y hb)
  · intro j b hj hjb
    unfold Owners.acquire at hjb
    by_cases hji : j = i
    · simp only [hji, Function.update_self] at hjb
      rw [← Option.some.inj hjb]
      exact hbefore
    · simp only [Function.update_of_ne hji] at hjb
      exact h.foreign j b hj hjb

omit [DecidableEq A] in
/-- **A place is set up** by forgetting what it pointed to. -/
theorem Owns.forget (h : Owns before scope value o) :
    Owns before (fun j => j = i ∨ scope j) (Function.update value i none) (o.forget i) := by
  have hold : ∀ {j b}, j = i ∨ scope j → (o.forget i).pointer j = some b →
      scope j ∧ o.pointer j = some b := by
    intro j b hj hjb
    unfold Owners.forget at hjb
    by_cases hji : j = i
    · simp only [hji, Function.update_self] at hjb
      cases hjb
    · simp only [Function.update_of_ne hji] at hjb
      exact ⟨hj.resolve_left hji, hjb⟩
  constructor
  · intro j hj
    unfold Owners.forget
    by_cases hji : j = i
    · simp only [hji, Function.update_self]
      trivial
    · simp only [Function.update_of_ne hji]
      exact h.reads j (hj.resolve_left hji)
  · intro j k b hj hk hjb hkb
    exact h.apart j k b (hold hj hjb).1 (hold hk hkb).1 (hold hj hjb).2 (hold hk hkb).2
  · exact h.kept
  · exact fun j b hj hjb => h.foreign j b (hold hj hjb).1 (hold hj hjb).2

omit [DecidableEq A] in
/-- **What a place owns is handed over.** -/
theorem Owns.transfer (h : Owns before scope value o) (hi : scope i) (hj : scope j) (hij : i ≠ j) :
    Owns before scope (Function.update (Function.update value j (value i)) i none)
      (o.transfer i j) := by
  -- who points somewhere now is `j`, as `i` did, or one that did before
  have hold : ∀ {k b}, scope k → (o.transfer i j).pointer k = some b →
      (k = j ∧ o.pointer i = some b) ∨ (k ≠ j ∧ k ≠ i ∧ o.pointer k = some b) := by
    intro k b hk hkb
    unfold Owners.transfer at hkb
    by_cases hki : k = i
    · simp only [hki, Function.update_self] at hkb
      cases hkb
    · simp only [Function.update_of_ne hki] at hkb
      by_cases hkj : k = j
      · simp only [hkj, Function.update_self] at hkb
        exact .inl ⟨hkj, hkb⟩
      · simp only [Function.update_of_ne hkj] at hkb
        exact .inr ⟨hkj, hki, hkb⟩
  constructor
  · intro k hk
    unfold Owners.transfer
    by_cases hki : k = i
    · simp only [hki, Function.update_self]
      trivial
    · simp only [Function.update_of_ne hki]
      by_cases hkj : k = j
      · simp only [hkj, Function.update_self]
        exact h.reads i hi
      · simp only [Function.update_of_ne hkj]
        exact h.reads k hk
  · intro k l b hk hl hkb hlb
    rcases hold hk hkb with ⟨rfl, hib⟩ | ⟨hkj, hki, hkb⟩
    · rcases hold hl hlb with ⟨rfl, -⟩ | ⟨-, hli, hlb⟩
      · rfl
      · exact absurd (h.apart l i b hl hi hlb hib) hli
    · rcases hold hl hlb with ⟨-, hib⟩ | ⟨-, -, hlb⟩
      · exact absurd (h.apart k i b hk hi hkb hib) hki
      · exact h.apart k l b hk hl hkb hlb
  · exact h.kept
  · intro k b hk hkb
    rcases hold hk hkb with ⟨-, hib⟩ | ⟨-, -, hkb⟩
    · exact h.foreign i b hi hib
    · exact h.foreign k b hk hkb

omit [DecidableEq ι] [DecidableEq A] in
/-- A smaller scope owns no less. -/
theorem Owns.of_scope {scope' : ι → Prop} (h : Owns before scope value o)
    (hscope : ∀ i, scope' i → scope i) : Owns before scope' value o :=
  ⟨fun i hi => h.reads i (hscope i hi),
    fun i j a hi hj => h.apart i j a (hscope i hi) (hscope j hj),
    h.kept, fun i a hi => h.foreign i a (hscope i hi)⟩

omit [DecidableEq ι] [DecidableEq A] in
/-- Before anything is set up, nothing is owned. -/
theorem Owns.start (o : Owners ι A V) (value : ι → Option V) :
    Owns o.heap (fun _ => False) value o :=
  ⟨fun _ hi => hi.elim, fun _ _ _ hi => hi.elim, fun _ _ h => h, fun _ _ hi => hi.elim⟩

/-! ## Nothing is leaked -/

omit [DecidableEq ι] [DecidableEq A] in
theorem Tight.start (o : Owners ι A V) : Tight o.heap (fun _ => False) o :=
  fun _ ha => .inl ha

omit [DecidableEq ι] [DecidableEq A] in
/-- A larger scope accounts for no less. -/
theorem Tight.of_scope {scope' : ι → Prop} (h : Tight before scope o)
    (hscope : ∀ i, scope i → scope' i) : Tight before scope' o :=
  fun a ha => (h a ha).imp_right fun ⟨i, hi, hia⟩ => ⟨i, hscope i hi, hia⟩

/-- What is released is not live any longer. -/
theorem Tight.release (h : Tight before scope o) (hr : o.release i = some o') :
    Tight before scope o' := by
  unfold Owners.release at hr
  cases hp : o.pointer i with
  | none =>
    rw [hp] at hr
    rw [← Option.some.inj hr]
    exact h
  | some a =>
    cases ha : o.heap a with
    | none =>
      simp only [hp, ha] at hr
      cases hr
    | some x =>
      simp only [hp, ha] at hr
      rw [← Option.some.inj hr]
      intro b hb
      have hba : b ≠ a := by
        rintro rfl
        exact hb (Function.update_self ..)
      refine (h b ?_).imp_right ?_
      · exact fun hnone => hb ((Function.update_of_ne hba _ _).trans hnone)
      · rintro ⟨j, hj, hjb⟩
        have hji : j ≠ i := by
          rintro rfl
          exact hba (Option.some.inj (hjb.symm.trans hp))
        exact ⟨j, hj, (Function.update_of_ne hji _ _).trans hjb⟩

/-- **What is acquired is accounted for**, and so is the rest, if the place pointed nowhere. -/
theorem Tight.acquire (h : Tight before scope o) (hi : scope i) (hp : o.pointer i = none) :
    Tight before scope (o.acquire i a x) := by
  intro b hb
  by_cases hba : b = a
  · refine .inr ⟨i, hi, ?_⟩
    rw [hba]
    exact Function.update_self ..
  · refine (h b ?_).imp_right ?_
    · exact fun hnone => hb ((Function.update_of_ne hba _ _).trans hnone)
    · rintro ⟨j, hj, hjb⟩
      have hji : j ≠ i := by
        rintro rfl
        cases hjb.symm.trans hp
      exact ⟨j, hj, (Function.update_of_ne hji _ _).trans hjb⟩

omit [DecidableEq A] in
/-- **What a place outside the scope pointed to is nobody's loss.** -/
theorem Tight.forget (h : Tight before scope o) (hi : ¬ scope i ∨ o.pointer i = none) :
    Tight before (fun j => j = i ∨ scope j) (o.forget i) := by
  intro b hb
  refine (h b hb).imp_right ?_
  rintro ⟨j, hj, hjb⟩
  have hji : j ≠ i := by
    rintro rfl
    rcases hi with hi | hi
    · exact hi hj
    · cases hjb.symm.trans hi
  exact ⟨j, .inr hj, (Function.update_of_ne hji _ _).trans hjb⟩

omit [DecidableEq A] in
/-- **What is handed over is not lost**, and neither is anything else, if the other place pointed
nowhere. -/
theorem Tight.transfer (h : Tight before scope o) (hj : scope j) (hij : i ≠ j)
    (hp : o.pointer j = none) : Tight before scope (o.transfer i j) := by
  intro b hb
  refine (h b hb).imp_right ?_
  rintro ⟨k, hk, hkb⟩
  by_cases hki : k = i
  · refine ⟨j, hj, (Function.update_of_ne hij.symm _ _).trans ((Function.update_self ..).trans ?_)⟩
    rw [← hki]
    exact hkb
  · have hkj : k ≠ j := by
      rintro rfl
      cases hkb.symm.trans hp
    exact ⟨k, hk,
      (Function.update_of_ne hki _ _).trans ((Function.update_of_ne hkj _ _).trans hkb)⟩

omit [DecidableEq ι] [DecidableEq A] in
/-- **When no place points anywhere, all is as it was.** -/
theorem Tight.heap_eq (h : Tight before scope o) (hown : Owns before scope value o)
    (hnull : ∀ i, scope i → o.pointer i = none) : o.heap = before := by
  funext a
  cases hb : before a with
  | some x => exact hown.kept a x hb
  | none =>
    by_contra ha
    rcases h a ha with hne | ⟨i, hi, hia⟩
    · exact hne hb
    · cases hia.symm.trans (hnull i hi)

end Owners

end Oxibus
