import Oxibus.Daemon.RulePairs
import Mathlib.Data.List.Infix

/-!
# The keys of match rules

A rule may name the type, the sender and six more parts of a message, ask to
eavesdrop, and put conditions on the arguments 0 to 63, by keys such as
`arg7` and `arg7path`. The parser finds the index of an argument by removing
`arg` in front and `path` behind and reading what is left as a number.

It removes both as often as they are there, and its number may have a plus
sign. Besides the keys of the grammar it therefore accepts keys such as
`argarg0`, `arg0pathpath` and `arg+5`, and takes them for the keys they
resemble. These are the only ones (`realKeys_iff`).
-/

namespace Oxibus

/-! ## The grammar of keys -/

/-- A decimal numeral of an index from 0 to 63. -/
def IsIndex (digits : List Char) (n : ℕ) : Prop :=
  digits ≠ [] ∧ (∀ c ∈ digits, c.isDigit = true) ∧ Nat.ofDigitChars 10 digits 0 = n ∧ n ≤ 63

/-- `argN`. -/
def NamesArg (key : String) (n : ℕ) : Prop :=
  ∃ digits, IsIndex digits n ∧ key.toList = "arg".toList ++ digits

/-- `argNpath`. -/
def NamesArgPath (key : String) (n : ℕ) : Prop :=
  ∃ digits, IsIndex digits n ∧ key.toList = "arg".toList ++ (digits ++ "path".toList)

/-- **The keys a rule may have.** -/
def IsMatchKey (key : String) : Prop :=
  key ∈ fieldKeys ∨ ∃ n, NamesArg key n ∨ NamesArgPath key n

/-- **The keys of a rule are real**, and its conditions on arguments are
those of its `argN` and `argNpath` pairs. -/
structure RealKeys (pairs : List (String × String)) (rule : MatchRule) : Prop where
  /-- Every key is one a rule may have. -/
  keys : ∀ pair ∈ pairs, IsMatchKey pair.1
  /-- An argument is compared exactly where an `argN` pair says so. -/
  args : ∀ n value, (n, value) ∈ rule.args ↔ ∃ key, (key, value) ∈ pairs ∧ NamesArg key n
  /-- An argument is compared as a path exactly where an `argNpath` pair
  says so. -/
  argPaths : ∀ n value,
    (n, value) ∈ rule.argPaths ↔ ∃ key, (key, value) ∈ pairs ∧ NamesArgPath key n

/-- A key with neither `arg` in front nor `path` behind twice, and without a
plus sign. -/
def WrittenOnce (key : String) : Prop :=
  "argarg".toList.isPrefixOf key.toList = false ∧
    "pathpath".toList.isSuffixOf key.toList = false ∧ '+' ∉ key.toList

instance (key : String) : Decidable (WrittenOnce key) :=
  inferInstanceAs (Decidable (_ ∧ _ ∧ _))

/-! ## Removing what is in front and behind -/

theorem trimStartMatches_of_not_prefix {pre cs : List Char} (h : ¬ pre <+: cs) (fuel : ℕ) :
    trimStartMatches pre fuel cs = cs := by
  cases fuel with
  | zero => rfl
  | succ fuel => rw [trimStartMatches, if_neg fun hpre => h (List.isPrefixOf_iff_prefix.mp hpre.1)]

/-- What is in front once is removed once. -/
theorem trimStartMatches_append {pre cs : List Char} (hpre : pre ≠ []) (h : ¬ pre <+: cs)
    {fuel : ℕ} (hfuel : 0 < fuel) : trimStartMatches pre fuel (pre ++ cs) = cs := by
  obtain ⟨fuel, rfl⟩ := Nat.exists_eq_succ_of_ne_zero hfuel.ne'
  rw [trimStartMatches, if_pos ⟨List.isPrefixOf_iff_prefix.mpr (List.prefix_append pre cs), hpre⟩,
    List.drop_left, trimStartMatches_of_not_prefix h]

/-- What is behind once is removed once. -/
theorem trimEndMatches_append {suf cs : List Char} (hsuf : suf ≠ []) (h : ¬ suf <:+ cs) :
    trimEndMatches suf (cs ++ suf) = cs := by
  have hrev : ¬ suf.reverse <+: cs.reverse := fun hp => h (List.reverse_prefix.mp hp)
  have hlen : 0 < (cs ++ suf).length := by
    rw [List.length_append]
    have := List.length_pos_iff.mpr hsuf
    omega
  rw [trimEndMatches, List.reverse_append,
    trimStartMatches_append (fun h => hsuf (List.reverse_eq_nil_iff.mp h)) hrev hlen,
    List.reverse_reverse]

/-- Without a plus sign all of the text is read as digits. -/
theorem parseUsize_of_notMem {cs : List Char} (hplus : '+' ∉ cs) :
    parseUsize cs =
      if cs.isEmpty = true ∨ (cs.any fun c => !c.isDigit) = true then none
      else if Nat.ofDigitChars 10 cs 0 < 2 ^ 64 then some (Nat.ofDigitChars 10 cs 0)
      else none := by
  cases cs with
  | nil => rfl
  | cons c cs =>
    have hc : c ≠ '+' := fun h => hplus (h ▸ List.mem_cons_self)
    simp [parseUsize, hc]

/-- **Without a plus sign, the indices read are the numerals up to 63.** -/
theorem argIndex_eq_ok {key : String} {cs : List Char} {n : ℕ} (hplus : '+' ∉ cs) :
    argIndex key cs = .ok n ↔ IsIndex cs n := by
  have hany : (cs.any fun c => !c.isDigit) = false ↔ ∀ c ∈ cs, c.isDigit = true := by
    simp
  rw [argIndex, parseUsize_of_notMem hplus]
  constructor
  · intro h
    split at h
    · cases h
    · next idx hparse =>
      split at hparse
      · cases hparse
      · next hok =>
        rw [not_or, List.isEmpty_iff, Bool.not_eq_true, hany] at hok
        split at hparse
        · cases hparse
          split at h
          · cases h
          · next hle =>
            cases h
            exact ⟨hok.1, hok.2, rfl, Nat.le_of_not_lt hle⟩
        · cases hparse
  · rintro ⟨hne, hall, rfl, hle⟩
    have hok : ¬ (cs.isEmpty = true ∨ (cs.any fun c => !c.isDigit) = true) := by
      rw [not_or, List.isEmpty_iff, Bool.not_eq_true, hany]
      exact ⟨hne, hall⟩
    rw [if_neg hok, if_pos (by omega)]
    exact if_neg (by omega)

/-! ## The keys that are read as they are written -/

/-- A numeral has none of the letters of the keys. -/
theorem IsIndex.notMem {digits : List Char} {n : ℕ} (h : IsIndex digits n) {c : Char}
    (hc : c.isDigit = false) : c ∉ digits := by
  intro hmem
  rw [h.2.1 c hmem] at hc
  cases hc

theorem not_prefix_of_head_notMem {c : Char} {pre cs rest : List Char} (hc : c ∉ cs)
    (hcs : cs ≠ []) : ¬ (c :: pre) <+: cs ++ rest := by
  rintro ⟨more, hmore⟩
  cases cs with
  | nil => exact hcs rfl
  | cons d cs =>
    rw [List.cons_append, List.cons_append] at hmore
    rw [(List.cons.inj hmore).1] at hc
    exact hc List.mem_cons_self

theorem not_suffix_of_last_notMem {c : Char} (suf front : List Char) {cs : List Char}
    (hc : c ∉ cs) (hcs : cs ≠ []) : ¬ (suf ++ [c]) <:+ front ++ cs := by
  rw [← List.reverse_prefix, List.reverse_append, List.reverse_append]
  refine not_prefix_of_head_notMem (fun h => hc (List.mem_reverse.mp h)) fun h => hcs ?_
  exact List.reverse_eq_nil_iff.mp h

theorem argKey_notMem_fieldKeys {key : String} {n : ℕ} {digits rest : List Char}
    (hidx : IsIndex digits n) (hkey : key.toList = "arg".toList ++ (digits ++ rest))
    (hrest : 'n' ∉ rest) : key ∉ fieldKeys := by
  have hn : 'n' ∉ key.toList := by
    rw [hkey, List.mem_append, List.mem_append]
    rintro (h | h | h)
    · exact absurd h (by decide)
    · exact hidx.notMem (by rfl) h
    · exact hrest h
  have harg : "arg".toList.isPrefixOf key.toList = true := by
    rw [hkey]
    exact List.isPrefixOf_iff_prefix.mpr (List.prefix_append _ _)
  intro hmem
  simp only [fieldKeys, List.mem_cons, List.not_mem_nil, or_false] at hmem
  rcases hmem with rfl | rfl | rfl | rfl | rfl | rfl | rfl | rfl | rfl
  all_goals first
    | exact hn (by decide)
    | exact absurd harg (by decide)

/-- **`argN` is read as a condition on argument N.** -/
theorem readPair_of_namesArg {key : String} {n : ℕ} (h : NamesArg key n) (value : String) :
    readPair key value = .ok (.arg n value) := by
  obtain ⟨digits, hidx, hkey⟩ := h
  have hkey' : key.toList = "arg".toList ++ (digits ++ []) := by rw [hkey, List.append_nil]
  have hfield := argKey_notMem_fieldKeys hidx hkey' List.not_mem_nil
  have harg : "arg".toList.isPrefixOf key.toList = true := by
    rw [hkey]
    exact List.isPrefixOf_iff_prefix.mpr (List.prefix_append _ _)
  have hpath : ¬ "path".toList.isSuffixOf key.toList = true := by
    rw [hkey, List.isSuffixOf_iff_suffix]
    exact not_suffix_of_last_notMem "pat".toList _ (hidx.notMem (c := 'h') (by rfl)) hidx.1
  have hlen : 0 < key.length := by
    rw [← String.length_toList, hkey, List.length_append]
    exact Nat.add_pos_left (by decide) _
  have htrim : trimStartMatches "arg".toList key.length key.toList = digits := by
    have hnot : ¬ "arg".toList <+: digits := by
      rw [← List.append_nil digits]
      exact not_prefix_of_head_notMem (hidx.notMem (by rfl)) hidx.1
    rw [hkey, trimStartMatches_append (by decide) hnot hlen]
  rw [readPair_of_notMem hfield, if_pos harg, if_neg hpath, htrim,
    (argIndex_eq_ok (hidx.notMem (by rfl))).mpr hidx]
  rfl

/-- **`argNpath` is read as a condition on argument N as a path.** -/
theorem readPair_of_namesArgPath {key : String} {n : ℕ} (h : NamesArgPath key n)
    (value : String) : readPair key value = .ok (.argPath n value) := by
  obtain ⟨digits, hidx, hkey⟩ := h
  have hfield := argKey_notMem_fieldKeys hidx hkey (by decide)
  have harg : "arg".toList.isPrefixOf key.toList = true := by
    rw [hkey]
    exact List.isPrefixOf_iff_prefix.mpr (List.prefix_append _ _)
  have hpath : "path".toList.isSuffixOf key.toList = true := by
    rw [hkey, List.isSuffixOf_iff_suffix, ← List.append_assoc]
    exact List.suffix_append _ _
  have hlen : 0 < key.length := by
    rw [← String.length_toList, hkey, List.length_append]
    exact Nat.add_pos_left (by decide) _
  have htrim : trimStartMatches "arg".toList key.length key.toList = digits ++ "path".toList := by
    have hnot : ¬ "arg".toList <+: digits ++ "path".toList :=
      not_prefix_of_head_notMem (hidx.notMem (by rfl)) hidx.1
    rw [hkey, trimStartMatches_append (by decide) hnot hlen]
  have htrim' : trimEndMatches "path".toList (digits ++ "path".toList) = digits := by
    refine trimEndMatches_append (by decide) ?_
    exact not_suffix_of_last_notMem "pat".toList []
      (hidx.notMem (c := 'h') (by rfl)) hidx.1
  rw [readPair_of_notMem hfield, if_pos harg, if_pos hpath, htrim, htrim',
    (argIndex_eq_ok (hidx.notMem (by rfl))).mpr hidx]
  rfl

/-- A key of the grammar is written once. -/
theorem IsMatchKey.writtenOnce {key : String} (h : IsMatchKey key) : WrittenOnce key := by
  rcases h with hfield | ⟨n, ⟨digits, hidx, hkey⟩ | ⟨digits, hidx, hkey⟩⟩
  · revert key
    decide
  · refine ⟨?_, ?_, ?_⟩
    · rw [← Bool.not_eq_true, List.isPrefixOf_iff_prefix, hkey,
        show "argarg".toList = "arg".toList ++ "arg".toList from rfl, List.prefix_append_right_inj,
        ← List.append_nil digits]
      exact not_prefix_of_head_notMem (hidx.notMem (by rfl)) hidx.1
    · rw [← Bool.not_eq_true, List.isSuffixOf_iff_suffix, hkey]
      exact not_suffix_of_last_notMem "pathpat".toList _
        (hidx.notMem (c := 'h') (by rfl)) hidx.1
    · rw [hkey, List.mem_append]
      rintro (hmem | hmem)
      · exact absurd hmem (by decide)
      · exact hidx.notMem (by rfl) hmem
  · refine ⟨?_, ?_, ?_⟩
    · rw [← Bool.not_eq_true, List.isPrefixOf_iff_prefix, hkey,
        show "argarg".toList = "arg".toList ++ "arg".toList from rfl, List.prefix_append_right_inj]
      exact not_prefix_of_head_notMem (hidx.notMem (by rfl)) hidx.1
    · rw [← Bool.not_eq_true, List.isSuffixOf_iff_suffix, hkey, ← List.append_assoc,
        show "pathpath".toList = "path".toList ++ "path".toList from rfl,
        List.suffix_append_self_iff]
      exact not_suffix_of_last_notMem "pat".toList _
        (hidx.notMem (c := 'h') (by rfl)) hidx.1
    · rw [hkey, List.mem_append, List.mem_append]
      rintro (hmem | hmem | hmem)
      · exact absurd hmem (by decide)
      · exact hidx.notMem (by rfl) hmem
      · exact absurd hmem (by decide)

/-! ## What is read is what is written -/

/-- `path` does not reach into the `arg` in front of it. -/
theorem path_suffix_of_append {cs : List Char}
    (h : "path".toList <:+ "arg".toList ++ cs) : "path".toList <:+ cs := by
  rcases List.suffix_or_suffix_of_suffix h (List.suffix_append _ cs) with hsuf | hsuf
  · exact hsuf
  · rw [← List.mem_tails] at hsuf
    have htails :
        "path".toList.tails = ["path".toList, "ath".toList, "th".toList, "h".toList, []] :=
      rfl
    rw [htails] at hsuf
    simp only [List.mem_cons, List.not_mem_nil, or_false] at hsuf
    rcases hsuf with rfl | rfl | rfl | rfl | rfl
    all_goals first
      | exact List.suffix_rfl
      | exact absurd (List.isSuffixOf_iff_suffix.mpr h) (by decide)

/-- What follows the `arg` of a key that is written once. -/
theorem WrittenOnce.trim {key : String} (honce : WrittenOnce key)
    (harg : "arg".toList.isPrefixOf key.toList = true) :
    ∃ cs, key.toList = "arg".toList ++ cs ∧ '+' ∉ cs ∧
      trimStartMatches "arg".toList key.length key.toList = cs := by
  obtain ⟨cs, hcs⟩ := List.isPrefixOf_iff_prefix.mp harg
  have hnot : ¬ "arg".toList <+: cs := by
    intro hpre
    have htwice : "argarg".toList.isPrefixOf key.toList = true := by
      rw [List.isPrefixOf_iff_prefix, ← hcs,
        show "argarg".toList = "arg".toList ++ "arg".toList from rfl]
      exact (List.prefix_append_right_inj _).mpr hpre
    rw [honce.1] at htwice
    cases htwice
  have hlen : 0 < key.length := by
    rw [← String.length_toList, ← hcs, List.length_append]
    exact Nat.add_pos_left (by decide) _
  refine ⟨cs, hcs.symm, fun hplus => honce.2.2 ?_, ?_⟩
  · rw [← hcs]
    exact List.mem_append_right _ hplus
  · rw [← hcs, trimStartMatches_append (by decide) hnot hlen]

/-- **Of the keys written once, only `argN` is a condition on argument N.** -/
theorem readPair_arg_iff {key value : String} (honce : WrittenOnce key) {n : ℕ} {w : String} :
    readPair key value = .ok (.arg n w) ↔ w = value ∧ NamesArg key n := by
  constructor
  · intro h
    rcases readPair_eq_ok h with ⟨-, hkey⟩ | ⟨-, harg, ⟨-, idx, -, hask⟩ | ⟨-, idx, hidx, hask⟩⟩
    · cases hkey
    · cases hask
    · cases hask
      obtain ⟨cs, hcs, hplus, htrim⟩ := honce.trim harg
      rw [htrim, argIndex_eq_ok hplus] at hidx
      exact ⟨rfl, cs, hidx, hcs⟩
  · rintro ⟨rfl, hnames⟩
    exact readPair_of_namesArg hnames w

/-- **Of the keys written once, only `argNpath` is a condition on argument N
as a path.** -/
theorem readPair_argPath_iff {key value : String} (honce : WrittenOnce key) {n : ℕ}
    {w : String} : readPair key value = .ok (.argPath n w) ↔ w = value ∧ NamesArgPath key n := by
  constructor
  · intro h
    rcases readPair_eq_ok h with
      ⟨-, hkey⟩ | ⟨-, harg, ⟨hpath, idx, hidx, hask⟩ | ⟨-, idx, -, hask⟩⟩
    · cases hkey
    · cases hask
      obtain ⟨cs, hcs, hplus, htrim⟩ := honce.trim harg
      rw [List.isSuffixOf_iff_suffix, hcs] at hpath
      obtain ⟨digits, rfl⟩ := path_suffix_of_append hpath
      have hnot : ¬ "path".toList <:+ digits := by
        intro hsuf
        have htwice : "pathpath".toList.isSuffixOf key.toList = true := by
          rw [List.isSuffixOf_iff_suffix, hcs, ← List.append_assoc,
            show "pathpath".toList = "path".toList ++ "path".toList from rfl,
            List.suffix_append_self_iff]
          exact List.suffix_append_of_suffix hsuf
        rw [honce.2.1] at htwice
        cases htwice
      have hplus' : '+' ∉ digits := fun hmem => hplus (List.mem_append_left _ hmem)
      rw [htrim, trimEndMatches_append (by decide) hnot, argIndex_eq_ok hplus'] at hidx
      exact ⟨rfl, digits, hidx, hcs⟩
    · cases hask
  · rintro ⟨rfl, hnames⟩
    exact readPair_of_namesArgPath hnames w

/-- An accepted key that is written once is a key of the grammar. -/
theorem isMatchKey_of_readPair {key value : String} {a : Ask} (honce : WrittenOnce key)
    (h : readPair key value = .ok a) : IsMatchKey key := by
  rcases readPair_eq_ok h with ⟨hfield, -⟩ | ⟨-, -, ⟨-, idx, -, rfl⟩ | ⟨-, idx, -, rfl⟩⟩
  · exact .inl hfield
  · exact .inr ⟨idx, .inr ((readPair_argPath_iff honce).mp h).2⟩
  · exact .inr ⟨idx, .inl ((readPair_arg_iff honce).mp h).2⟩

/-- **When the keys of an accepted rule are real.** They are keys of the
grammar, and the rule compares the arguments they name, if and only if no
key has `arg` in front or `path` behind twice, or a plus sign. -/
theorem realKeys_iff (s : String) (pairs : List (String × String)) (rule : MatchRule)
    (htok : tokenize s = .ok pairs) (hrule : parseMatchRule s = .ok rule) :
    RealKeys pairs rule ↔ ∀ pair ∈ pairs, WrittenOnce pair.1 := by
  have hadd : (MatchRule.empty s).addPairs pairs = .ok rule := by
    rw [parseMatchRule, htok] at hrule
    exact hrule
  constructor
  · exact fun hreal pair hpair => (hreal.keys pair hpair).writtenOnce
  · intro honce
    obtain ⟨asks, hread, -⟩ := MatchRule.addPairs_eq_ok.mp hadd
    refine ⟨fun pair hpair => ?_, fun n value => ?_, fun n value => ?_⟩
    · obtain ⟨a, ha⟩ := hread.exists_ask hpair
      exact isMatchKey_of_readPair (honce pair hpair) ha
    · rw [show (n, value) ∈ rule.args ↔ rule.Has (.arg n value) from Iff.rfl,
        MatchRule.has_of_key_eq_none hadd rfl]
      constructor
      · rintro ⟨⟨key, v⟩, hpair, ha⟩
        obtain ⟨rfl, hnames⟩ := (readPair_arg_iff (honce _ hpair)).mp ha
        exact ⟨key, hpair, hnames⟩
      · rintro ⟨key, hpair, hnames⟩
        exact ⟨_, hpair, readPair_of_namesArg hnames value⟩
    · rw [show (n, value) ∈ rule.argPaths ↔ rule.Has (.argPath n value) from Iff.rfl,
        MatchRule.has_of_key_eq_none hadd rfl]
      constructor
      · rintro ⟨⟨key, v⟩, hpair, ha⟩
        obtain ⟨rfl, hnames⟩ := (readPair_argPath_iff (honce _ hpair)).mp ha
        exact ⟨key, hpair, hnames⟩
      · rintro ⟨key, hpair, hnames⟩
        exact ⟨_, hpair, readPair_of_namesArgPath hnames value⟩

/-- The keys of a rule on two arguments. -/
theorem realKeys_two_args :
    ∃ rule, parseMatchRule "arg7='x',arg3path='/a/'" = .ok rule ∧
      RealKeys [("arg7", "x"), ("arg3path", "/a/")] rule :=
  ⟨_, by rfl, (realKeys_iff "arg7='x',arg3path='/a/'" [("arg7", "x"), ("arg3path", "/a/")] _
    (by decide +kernel) (by rfl)).mpr (by decide)⟩

/-- `argarg0` is accepted, and compares argument 0. -/
theorem parseMatchRule_argarg0 :
    ∃ rule, parseMatchRule "argarg0='x'" = .ok rule ∧
      tokenize "argarg0='x'" = .ok [("argarg0", "x")] ∧ rule.args = [(0, "x")] ∧
      ¬ RealKeys [("argarg0", "x")] rule := by
  refine ⟨_, rfl, by decide +kernel, by decide +kernel, fun hreal => ?_⟩
  have honce := (hreal.keys _ List.mem_cons_self).writtenOnce
  exact absurd honce (by decide)

end Oxibus
