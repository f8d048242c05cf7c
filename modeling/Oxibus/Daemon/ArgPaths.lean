import Oxibus.Daemon.RuleKeys

/-!
# Conditions on paths in arguments

The specification of D-Bus has `argNpath='p'` hold for the text `p` and, for
texts that end with a slash, for what they are a prefix of, in either
direction: `/a/` stands for everything below it, `/a` for itself alone.

The matcher takes paths for the places of a tree instead: it asks whether
one of the two is the other or an ancestor of it, and puts the slash after
the shorter one itself. The two readings agree on equal texts, and on texts
of which neither starts the other and neither is `/`. Where one starts the
other they agree if it ends with a slash exactly when it is `/` or the other
goes on with a slash (`argPath_iff`).
-/

namespace Oxibus

/-- **The condition of the specification.** -/
def SpecArgPath (p a : String) : Prop :=
  a = p ∨ (['/'] <:+ p.toList ∧ p.toList <+: a.toList) ∨
    (['/'] <:+ a.toList ∧ a.toList <+: p.toList)

instance (p a : String) : Decidable (SpecArgPath p a) :=
  inferInstanceAs (Decidable (_ ∨ _ ∨ _))

/-- Whether a text that starts a longer one ends with a slash exactly when it
is `/` or the longer one goes on with a slash. -/
def SlashesAgree (short long : String) : Prop :=
  ∃ c more, long.toList = short.toList ++ c :: more ∧
    (['/'] <:+ short.toList ↔ short = "/" ∨ c = '/')

/-- **Where the two readings of a path condition agree.** -/
def ReadingsAgree (p a : String) : Prop :=
  a = p ∨ SlashesAgree p a ∨ SlashesAgree a p ∨
    (¬ p.toList <+: a.toList ∧ ¬ a.toList <+: p.toList ∧ p ≠ "/" ∧ a ≠ "/")

/-! ## The readings below one another -/

theorem isPathParentOrChild_iff {a p : String} :
    isPathParentOrChild a p = true ↔
      a = p ∨ a = "/" ∨ p = "/" ∨ p.toList ++ ['/'] <+: a.toList ∨
        a.toList ++ ['/'] <+: p.toList := by
  simp only [isPathParentOrChild, Bool.or_eq_true, beq_iff_eq, List.isPrefixOf_iff_prefix,
    String.toList_append, or_assoc]
  rfl

theorem isPathParentOrChild_comm (a p : String) :
    isPathParentOrChild a p = isPathParentOrChild p a := by
  rw [Bool.eq_iff_iff, isPathParentOrChild_iff, isPathParentOrChild_iff, eq_comm (a := a)]
  tauto

theorem specArgPath_comm {a p : String} : SpecArgPath p a ↔ SpecArgPath a p := by
  rw [SpecArgPath, SpecArgPath, eq_comm (a := a), or_comm (a := _ ∧ _)]

theorem eq_slash_iff {s : String} : s = "/" ↔ s.toList = ['/'] := String.toList_inj.symm

section Below

variable {a p : String} {c : Char} {more : List Char}

/-- A longer text is a place below a shorter one if the shorter one is `/` or
the longer one goes on with a slash. -/
theorem isPathParentOrChild_of_append (h : a.toList = p.toList ++ c :: more) :
    isPathParentOrChild a p = true ↔ p = "/" ∨ c = '/' := by
  have hlen : p.toList.length < a.toList.length := by
    rw [h, List.length_append, List.length_cons]
    omega
  have hne : a ≠ p := by
    rintro rfl
    exact Nat.lt_irrefl _ hlen
  have hshort : ¬ a.toList ++ ['/'] <+: p.toList := by
    intro hpre
    have := hpre.length_le
    rw [List.length_append] at this
    omega
  have hgoes : p.toList ++ ['/'] <+: a.toList ↔ c = '/' := by
    rw [h, List.prefix_append_right_inj, List.cons_prefix_cons, eq_comm]
    exact and_iff_left List.nil_prefix
  have hslash : a = "/" → c = '/' := by
    intro ha
    rw [eq_slash_iff, h] at ha
    cases hp : p.toList with
    | nil =>
      rw [hp] at ha
      exact (List.cons.inj ha).1
    | cons d ds =>
      rw [hp] at ha
      exact absurd (List.cons.inj ha).2 (by simp)
  rw [isPathParentOrChild_iff, hgoes]
  constructor
  · rintro (heq | ha | hp | hc | hpre)
    · exact absurd heq hne
    · exact .inr (hslash ha)
    · exact .inl hp
    · exact .inr hc
    · exact absurd hpre hshort
  · rintro (hp | hc)
    · exact .inr (.inr (.inl hp))
    · exact .inr (.inr (.inr (.inl hc)))

/-- A longer text is covered by a shorter one that ends with a slash. -/
theorem specArgPath_of_append (h : a.toList = p.toList ++ c :: more) :
    SpecArgPath p a ↔ ['/'] <:+ p.toList := by
  have hlen : p.toList.length < a.toList.length := by
    rw [h, List.length_append, List.length_cons]
    omega
  constructor
  · rintro (rfl | ⟨hends, -⟩ | ⟨-, hpre⟩)
    · exact absurd hlen (Nat.lt_irrefl _)
    · exact hends
    · exact absurd hpre.length_le (Nat.not_le_of_lt hlen)
  · intro hends
    refine .inr (.inl ⟨hends, ?_⟩)
    rw [h]
    exact List.prefix_append _ _

/-- **Where one text starts the other, the readings agree by its slashes.** -/
theorem readings_of_append (h : a.toList = p.toList ++ c :: more) :
    (isPathParentOrChild a p = true ↔ SpecArgPath p a) ↔ SlashesAgree p a := by
  rw [isPathParentOrChild_of_append h, specArgPath_of_append h]
  constructor
  · exact fun hiff => ⟨c, more, h, hiff.symm⟩
  · rintro ⟨d, rest, hd, hiff⟩
    rw [h] at hd
    obtain ⟨rfl, -⟩ := List.cons.inj (List.append_cancel_left hd)
    exact hiff.symm

/-- Of two texts of which neither starts the other only the root is related to
the other. -/
theorem isPathParentOrChild_of_apart (hpa : ¬ p.toList <+: a.toList)
    (hap : ¬ a.toList <+: p.toList) :
    isPathParentOrChild a p = true ↔ a = "/" ∨ p = "/" := by
  rw [isPathParentOrChild_iff]
  constructor
  · rintro (rfl | ha | hp | hpre | hpre)
    · exact absurd List.prefix_rfl hpa
    · exact .inl ha
    · exact .inr hp
    · exact absurd ((List.prefix_append _ _).trans hpre) hpa
    · exact absurd ((List.prefix_append _ _).trans hpre) hap
  · rintro (ha | hp)
    · exact .inr (.inl ha)
    · exact .inr (.inr (.inl hp))

/-- The specification relates no such texts. -/
theorem not_specArgPath_of_apart (hpa : ¬ p.toList <+: a.toList)
    (hap : ¬ a.toList <+: p.toList) : ¬ SpecArgPath p a := by
  rintro (rfl | ⟨-, hpre⟩ | ⟨-, hpre⟩)
  · exact hpa List.prefix_rfl
  · exact hpa hpre
  · exact hap hpre

end Below

theorem SlashesAgree.isPrefix {short long : String} (h : SlashesAgree short long) :
    short.toList <+: long.toList ∧ ¬ long.toList <+: short.toList := by
  obtain ⟨c, more, hlong, -⟩ := h
  constructor
  · rw [hlong]
    exact List.prefix_append _ _
  · intro hpre
    have := hpre.length_le
    rw [hlong, List.length_append, List.length_cons] at this
    omega

/-- A text that starts another one is it, or the other goes on. -/
theorem eq_or_append_of_prefix {short long : String} (h : short.toList <+: long.toList) :
    long = short ∨ ∃ c more, long.toList = short.toList ++ c :: more := by
  obtain ⟨rest, hrest⟩ := h
  cases rest with
  | nil =>
    rw [List.append_nil, String.toList_inj] at hrest
    exact .inl hrest.symm
  | cons c more => exact .inr ⟨c, more, hrest.symm⟩

/-- **Where the matcher and the specification agree on two texts.** -/
theorem readings_iff (a p : String) :
    (isPathParentOrChild a p = true ↔ SpecArgPath p a) ↔ ReadingsAgree p a := by
  by_cases hpa : p.toList <+: a.toList
  · rcases eq_or_append_of_prefix hpa with rfl | ⟨c, more, h⟩
    · have hcode : isPathParentOrChild a a = true := isPathParentOrChild_iff.mpr (.inl rfl)
      exact iff_of_true (iff_of_true hcode (.inl rfl)) (.inl rfl)
    · rw [readings_of_append h]
      constructor
      · exact fun hagree => .inr (.inl hagree)
      · rintro (rfl | hagree | hagree | ⟨hnot, -⟩)
        · simp at h
        · exact hagree
        · exact absurd hpa hagree.isPrefix.2
        · exact absurd hpa hnot
  by_cases hap : a.toList <+: p.toList
  · rcases eq_or_append_of_prefix hap with rfl | ⟨c, more, h⟩
    · exact absurd List.prefix_rfl hpa
    · rw [isPathParentOrChild_comm, specArgPath_comm, readings_of_append h]
      constructor
      · exact fun hagree => .inr (.inr (.inl hagree))
      · rintro (rfl | hagree | hagree | ⟨-, hnot, -⟩)
        · exact absurd hap hpa
        · exact absurd hagree.isPrefix.1 hpa
        · exact hagree
        · exact absurd hap hnot
  -- neither starts the other
  rw [isPathParentOrChild_of_apart hpa hap, iff_false_right (not_specArgPath_of_apart hpa hap)]
  constructor
  · intro hroot
    rw [not_or] at hroot
    exact .inr (.inr (.inr ⟨hpa, hap, hroot.2, hroot.1⟩))
  · rintro (rfl | hagree | hagree | ⟨-, -, hp, ha⟩)
    · exact absurd List.prefix_rfl hpa
    · exact absurd hagree.isPrefix.1 hpa
    · exact absurd hagree.isPrefix.1 hap
    · exact not_or.mpr ⟨ha, hp⟩

/-- **When `argNpath` follows the specification.** A rule with `argNpath='p'`
whose other conditions are met matches a message with the text `a` as its
argument N exactly when the specification says so, if and only if the two
readings of `p` and `a` agree. -/
theorem argPath_iff (rule : MatchRule) (n : ℕ) (p : String) (msg : Message)
    (resolveOwner : String → Option String) (a : String)
    (hasks : (n, p) ∈ rule.argPaths)
    (hothers : ∀ b, rule.Has b → b ≠ .argPath n p → b.holds msg resolveOwner = true)
    (harg : valueAsStr msg n = some a) :
    (rule.matches msg resolveOwner = true ↔ SpecArgPath p a) ↔ ReadingsAgree p a := by
  have hmatch : rule.matches msg resolveOwner = true ↔ isPathParentOrChild a p = true := by
    have hholds : (Ask.argPath n p).holds msg resolveOwner = isPathParentOrChild a p := by
      rw [Ask.holds, harg]
      rfl
    rw [MatchRule.matches_iff_has]
    constructor
    · intro hall
      rw [← hholds]
      exact hall (.argPath n p) hasks
    · intro hcode b hb
      by_cases hbp : b = .argPath n p
      · rw [hbp, hholds, hcode]
      · exact hothers b hb hbp
  rw [hmatch, readings_iff]

/-- A signal with a text as its argument. -/
def textSignal (text : String) : Message :=
  ((Message.Builder.signal ⟨"/a"⟩ "a.b" "C").arg (.string text)).build 1

/-- A rule with a condition on a path and no others. -/
def pathRule (n : ℕ) (p : String) : MatchRule :=
  { MatchRule.empty "" with argPaths := [(n, p)] }

/-- A rule with a condition on a path has nothing else to be met. -/
theorem holds_of_pathRule (n : ℕ) (p : String) (msg : Message)
    (resolveOwner : String → Option String) (b : Ask) (hb : (pathRule n p).Has b)
    (hne : b ≠ .argPath n p) : b.holds msg resolveOwner = true := by
  cases b with
  | argPath m q =>
    rw [MatchRule.Has, pathRule, List.mem_singleton, Prod.mk.injEq] at hb
    exact absurd (congrArg₂ Ask.argPath hb.1 hb.2) hne
  | eavesdrop on => rfl
  | arg m q => cases hb
  | _ => cases hb

/-- Where one text starts the other: the root covers `/a` in both readings, and `/a` does not
cover `/ab` in either. -/
theorem argPath_iff_starts :
    ((pathRule 0 "/").matches (textSignal "/a") (fun _ => none) = true ∧
      ((pathRule 0 "/").matches (textSignal "/a") (fun _ => none) = true ↔
        SpecArgPath "/" "/a")) ∧
    ((pathRule 0 "/a").matches (textSignal "/ab") (fun _ => none) = false ∧
      ((pathRule 0 "/a").matches (textSignal "/ab") (fun _ => none) = true ↔
        SpecArgPath "/a" "/ab")) := by
  refine ⟨⟨by decide +kernel, ?_⟩, by decide +kernel, ?_⟩
  · exact (argPath_iff (pathRule 0 "/") 0 "/" (textSignal "/a") _ "/a" List.mem_cons_self
      (holds_of_pathRule 0 "/" _ _) rfl).mpr (.inr (.inl ⟨'a', [], rfl, by decide⟩))
  · exact (argPath_iff (pathRule 0 "/a") 0 "/a" (textSignal "/ab") _ "/ab" List.mem_cons_self
      (holds_of_pathRule 0 "/a" _ _) rfl).mpr (.inr (.inl ⟨'b', [], rfl, by decide⟩))

/-- `/a/` does not cover `/a/b`, which it should. -/
theorem argPath_below_slash :
    ∃ rule, parseMatchRule "arg0path='/a/'" = .ok rule ∧
      valueAsStr (textSignal "/a/b") 0 = some "/a/b" ∧
      rule.matches (textSignal "/a/b") (fun _ => none) = false ∧ SpecArgPath "/a/" "/a/b" :=
  ⟨_, rfl, by decide +kernel, by decide +kernel, .inr (.inl (by decide))⟩

/-- `/a` covers `/a/b`, which it should not. -/
example : isPathParentOrChild "/a/b" "/a" = true ∧ ¬ SpecArgPath "/a" "/a/b" :=
  ⟨by decide +kernel, by decide⟩

end Oxibus
