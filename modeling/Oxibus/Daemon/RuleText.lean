import Oxibus.Daemon.MatchRules
import Oxibus.Lib.Text
import Mathlib.Data.List.TakeDrop

/-!
# Writing match rules

A client writes a rule as `key='value'` pairs with commas between them, a
quote inside a value as quote, backslash, quote, quote. The tokenizer takes
such a text apart again: it finds the pairs that were written, in their
order and with their keys.

What it makes of a value is another matter. It pushes the value byte by byte
and takes each byte for a character, so that a value comes back as it was
written exactly when it is ASCII; a character of several bytes comes back as
several characters.
-/

namespace Oxibus

/-! ## Rule texts -/

/-- A character of a value as a rule writes it. -/
def escapeChar (c : Char) : List Char :=
  if c = '\'' then ['\'', '\\', '\'', '\''] else [c]

/-- A value as a rule writes it. -/
def escapeQuotes (value : String) : String :=
  String.ofList (value.toList.flatMap escapeChar)

/-- The text of a pair. -/
def pairText (key value : String) : String := key ++ "='" ++ escapeQuotes value ++ "'"

/-- **The text of a list of pairs.** -/
def ruleText : List (String × String) → String
  | [] => ""
  | [(key, value)] => pairText key value
  | (key, value) :: pairs => pairText key value ++ "," ++ ruleText pairs

/-- A value whose bytes have been taken for characters. -/
def bytewise (value : String) : String :=
  String.ofList ((asBytes value).map fun b => Char.ofNat b.toNat)

/-- **Taking bytes for characters keeps ASCII text and nothing else.** -/
theorem bytewise_eq_self {value : String} :
    bytewise value = value ↔ ∀ c ∈ value.toList, IsAscii c := by
  constructor
  · intro h
    apply isAscii_of_length_asBytes
    have hlen := congrArg (fun s => s.toList.length) h
    simpa [bytewise] using hlen
  · intro h
    have hbytes := asBytes_ofList (fun c hc => isAscii_iff_utf8Size.mp (h c hc))
    rw [String.ofList_toList] at hbytes
    have hchars : (value.toList.map asciiByte).map (fun b => Char.ofNat b.toNat)
        = value.toList := by
      rw [List.map_map]
      refine (List.map_congr_left fun c hc => ?_).trans (List.map_id _)
      have hc' : c.val.toNat < 128 := h c hc
      have hbyte : (asciiByte c).toNat = c.toNat := by
        show c.val.toUInt8.toNat = c.val.toNat
        rw [UInt32.toNat_toUInt8]
        exact Nat.mod_eq_of_lt (by omega)
      show Char.ofNat (asciiByte c).toNat = c
      rw [hbyte, Char.ofNat_toNat]
    rw [bytewise, hbytes, hchars, String.ofList_toList]

/-! ## The bytes of a rule text -/

/-- The bytes a rule writes for a byte of a value. -/
def escapeByte (b : UInt8) : List UInt8 := if b = 39 then [39, 92, 39, 39] else [b]

/-- A byte of a character is a quote only if the character is. -/
theorem escapeByte_utf8EncodeChar (c : Char) :
    (escapeChar c).flatMap String.utf8EncodeChar
      = (String.utf8EncodeChar c).flatMap escapeByte := by
  by_cases hc : c = '\''
  · subst hc
    rfl
  · have hbytes : ∀ b ∈ String.utf8EncodeChar c, escapeByte b = [b] := by
      intro b hb
      refine if_neg fun hq => hc ?_
      subst hq
      have hnat := toNat_of_mem_utf8EncodeChar hb (by decide)
      rw [← Char.ofNat_toNat c, ← hnat]
      rfl
    rw [List.flatMap_congr hbytes, List.flatMap_singleton', escapeChar, if_neg hc,
      List.flatMap_singleton]

theorem asBytes_escapeQuotes (value : String) :
    asBytes (escapeQuotes value) = (asBytes value).flatMap escapeByte := by
  rw [asBytes_eq_flatMap, asBytes_eq_flatMap, escapeQuotes, String.toList_ofList,
    List.flatMap_assoc, List.flatMap_assoc]
  exact List.flatMap_congr fun c _ => escapeByte_utf8EncodeChar c

theorem asBytes_pairText (key value : String) :
    asBytes (pairText key value)
      = asBytes key ++ 61 :: 39 :: ((asBytes value).flatMap escapeByte ++ [39]) := by
  have hopen : asBytes "='" = [61, 39] := rfl
  have hclose : asBytes "'" = [39] := rfl
  rw [pairText, asBytes_append, asBytes_append, asBytes_append, hopen, hclose,
    asBytes_escapeQuotes, List.append_assoc, List.append_assoc]
  rfl

/-- What follows a pair in a rule text: nothing, or a comma and the other
pairs. -/
def tailBytes (pairs : List (String × String)) : List UInt8 :=
  if pairs = [] then [] else 44 :: asBytes (ruleText pairs)

theorem asBytes_ruleText_cons (key value : String) (pairs : List (String × String)) :
    asBytes (ruleText ((key, value) :: pairs))
      = asBytes key ++ 61 :: 39 :: ((asBytes value).flatMap escapeByte
          ++ 39 :: tailBytes pairs) := by
  cases pairs with
  | nil => exact asBytes_pairText key value
  | cons pair pairs =>
    have hcomma : asBytes "," = [44] := rfl
    rw [ruleText, asBytes_append, asBytes_append, asBytes_pairText, hcomma, tailBytes,
      if_neg (List.cons_ne_nil _ _)]
    · simp only [List.append_assoc, List.cons_append, List.nil_append]
    · exact fun h => List.cons_ne_nil _ _ h

/-! ## Taking a rule text apart -/

/-- **A quoted value is read to its closing quote**, if what follows does not
look like the rest of an escape. -/
theorem readQuoted_escape (bytes rest : List UInt8) (value : List Char)
    (h : ∀ more, rest ≠ 92 :: 39 :: more) :
    readQuoted (bytes.flatMap escapeByte ++ 39 :: rest) value
      = .ok (String.ofList (value ++ bytes.map fun b => Char.ofNat b.toNat), rest) := by
  induction bytes generalizing value with
  | nil =>
    have hend : readQuoted (39 :: rest) value = .ok (String.ofList value, rest) := by
      unfold readQuoted
      split <;> simp_all
    simpa using hend
  | cons b bytes ih =>
    rw [List.flatMap_cons, List.append_assoc, escapeByte]
    by_cases hb : b = 39
    · subst hb
      rw [if_pos rfl]
      show readQuoted (39 :: 92 :: 39 :: 39 :: (bytes.flatMap escapeByte ++ 39 :: rest)) value = _
      rw [readQuoted, ih, List.append_assoc]
      rfl
    · rw [if_neg hb]
      show readQuoted (b :: (bytes.flatMap escapeByte ++ 39 :: rest)) value = _
      have hstep : readQuoted (b :: (bytes.flatMap escapeByte ++ 39 :: rest)) value
          = readQuoted (bytes.flatMap escapeByte ++ 39 :: rest)
          (value ++ [Char.ofNat b.toNat]) := by
        rw [readQuoted]
        all_goals simp [hb]
      rw [hstep, ih, List.append_assoc]
      rfl

/-- **The pairs of a rule text are found**, each value byte by byte. -/
theorem tokenizeFrom_ruleText {pairs : List (String × String)}
    (hkeys : ∀ pair ∈ pairs, '=' ∉ pair.1.toList) {fuel : ℕ} (hfuel : pairs.length ≤ fuel) :
    tokenizeFrom fuel (asBytes (ruleText pairs))
      = .ok (pairs.map fun pair => (pair.1, bytewise pair.2)) := by
  induction pairs generalizing fuel with
  | nil =>
    cases fuel with
    | zero => rfl
    | succ fuel => rfl
  | cons pair pairs ih =>
    obtain ⟨key, value⟩ := pair
    obtain ⟨fuel, rfl⟩ : ∃ n, fuel = n + 1 := ⟨fuel - 1, by
      have : (pairs.length + 1) ≤ fuel := hfuel
      omega⟩
    have hkey : ∀ b ∈ asBytes key, (b != 61) = true := by
      intro b hb
      rw [bne_iff_ne]
      rintro rfl
      exact hkeys _ List.mem_cons_self (mem_toList_of_mem_asBytes hb (by decide))
    have htail : ∀ more, tailBytes pairs ≠ 92 :: 39 :: more := by
      intro more h
      unfold tailBytes at h
      split at h
      · cases h
      · cases h
    have hrest : tokenizeFrom fuel (asBytes (ruleText pairs))
        = .ok (pairs.map fun pair => (pair.1, bytewise pair.2)) :=
      ih (fun p hp => hkeys p (List.mem_cons_of_mem _ hp)) (Nat.le_of_succ_le_succ hfuel)
    have hbytes := asBytes_ruleText_cons key value pairs
    have hspan : (asBytes (ruleText ((key, value) :: pairs))).span (· != 61)
        = (asBytes key, 61 :: 39 :: ((asBytes value).flatMap escapeByte
            ++ 39 :: tailBytes pairs)) := by
      rw [List.span_eq_takeWhile_dropWhile, hbytes, takeWhile_append_stop hkey (by rfl),
        dropWhile_append_stop hkey (by rfl)]
    have hne : asBytes (ruleText ((key, value) :: pairs)) ≠ [] := by
      rw [hbytes]
      exact List.append_ne_nil_of_right_ne_nil _ (List.cons_ne_nil _ _)
    rw [tokenizeFrom, hspan]
    swap
    · exact hne
    simp only [readQuoted_escape _ _ _ htail, Outcome.ok_bind, fromUtf8_asBytes]
    -- the comma is skipped where there is one
    cases pairs with
    | nil => cases fuel <;> rfl
    | cons pair pairs =>
      show (do
        let pairs ← tokenizeFrom fuel (asBytes (ruleText (pair :: pairs)))
        Outcome.ok ((key, bytewise value) :: pairs)) = _
      rw [hrest]
      rfl

/-- **Tokenizing a rule text finds its pairs.** -/
theorem tokenize_ruleText_eq {pairs : List (String × String)}
    (hkeys : ∀ pair ∈ pairs, '=' ∉ pair.1.toList) :
    tokenize (ruleText pairs) = .ok (pairs.map fun pair => (pair.1, bytewise pair.2)) := by
  refine tokenizeFrom_ruleText hkeys ?_
  clear hkeys
  induction pairs with
  | nil => exact Nat.zero_le _
  | cons pair pairs ih =>
    rw [asBytes_ruleText_cons]
    simp only [List.length_append, List.length_cons, tailBytes]
    split
    · next h =>
      rw [h, List.length_nil]
      omega
    · rw [List.length_cons]
      omega

/-- **Quoting round-trips exactly for ASCII values.** Tokenizing the text
written for a list of pairs gives these pairs if and only if every value is
ASCII. -/
theorem tokenize_ruleText (pairs : List (String × String))
    (hkeys : ∀ pair ∈ pairs, '=' ∉ pair.1.toList) :
    tokenize (ruleText pairs) = .ok pairs ↔ ∀ pair ∈ pairs, ∀ c ∈ pair.2.toList, IsAscii c := by
  have hpair : ∀ pair : String × String,
      (pair.1, bytewise pair.2) = pair ↔ ∀ c ∈ pair.2.toList, IsAscii c := by
    intro pair
    rw [← bytewise_eq_self, Prod.ext_iff]
    simp
  have hmap : pairs.map (fun pair => (pair.1, bytewise pair.2)) = pairs
      ↔ ∀ pair ∈ pairs, (pair.1, bytewise pair.2) = id pair := by
    rw [← List.map_eq_map_iff, List.map_id]
  rw [tokenize_ruleText_eq hkeys, Outcome.ok.injEq, hmap]
  exact forall₂_congr fun pair _ => hpair pair

/-- A value with an apostrophe comes back. -/
theorem tokenize_ruleText_apostrophe :
    ruleText [("member", "don't")] = "member='don'\\''t'" ∧
      tokenize (ruleText [("member", "don't")]) = .ok [("member", "don't")] := by
  have hascii : "don't".toList.all (fun c => decide (IsAscii c)) = true := by decide
  refine ⟨by decide +kernel, (tokenize_ruleText [("member", "don't")] (by decide)).mpr ?_⟩
  intro pair hpair c hc
  obtain rfl := List.mem_singleton.mp hpair
  exact of_decide_eq_true (List.all_eq_true.mp hascii c hc)

/-- A letter of two bytes comes back as two letters. -/
theorem tokenize_ruleText_accent :
    '=' ∉ "member".toList ∧ tokenize (ruleText [("member", "é")]) = .ok [("member", "Ã©")] ∧
      tokenize (ruleText [("member", "é")]) ≠ .ok [("member", "é")] := by
  decide +kernel

end Oxibus
