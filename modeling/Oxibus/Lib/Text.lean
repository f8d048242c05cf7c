import Mathlib.Algebra.Group.Nat.Defs
import Mathlib.Data.List.TakeWhile
import Mathlib.Data.List.Basic

/-!
# Text protocols

What programs that talk in lines of text need: splitting at a separator,
trimming white space, numbers in decimal and bytes in hexadecimal. Each reader
stands beside its writer, and what is written is read back.

Strings are taken apart as lists of characters; only the functions that callers
see take and give strings.
-/

namespace Oxibus

/-- The white space of Unicode. -/
def isWhitespace (c : Char) : Bool :=
  let n := c.toNat
  (9 ≤ n && n ≤ 13) || n == 0x20 || n == 0x85 || n == 0xA0 || n == 0x1680 ||
    (0x2000 ≤ n && n ≤ 0x200A) || n == 0x2028 || n == 0x2029 || n == 0x202F || n == 0x205F ||
    n == 0x3000

/-! ## Taking lists apart -/

theorem takeWhile_append_stop {α : Type} {p : α → Bool} {l r : List α} {d : α}
    (hl : ∀ c ∈ l, p c = true) (hd : p d = false) : (l ++ d :: r).takeWhile p = l := by
  rw [List.takeWhile_append_of_pos hl,
    List.takeWhile_cons_of_neg (by rw [hd]; exact Bool.false_ne_true), List.append_nil]

theorem dropWhile_append_stop {α : Type} {p : α → Bool} {l r : List α} {d : α}
    (hl : ∀ c ∈ l, p c = true) (hd : p d = false) : (l ++ d :: r).dropWhile p = d :: r := by
  rw [List.dropWhile_append_of_pos hl,
    List.dropWhile_cons_of_neg (by rw [hd]; exact Bool.false_ne_true)]

/-- What stands in front of the first separator, and what behind it. -/
theorem append_cons_inj {α : Type} [DecidableEq α] {l l' r r' : List α} {sep : α} (hl : sep ∉ l)
    (hl' : sep ∉ l') (h : l ++ sep :: r = l' ++ sep :: r') : l = l' ∧ r = r' := by
  have hplain : ∀ {m : List α}, sep ∉ m → ∀ c ∈ m, (c != sep) = true := fun hm c hc =>
    bne_iff_ne.mpr fun heq => hm (heq ▸ hc)
  have hsep : (sep != sep) = false := bne_self_eq_false sep
  have hfirst := congrArg (List.takeWhile (· != sep)) h
  rw [takeWhile_append_stop (hplain hl) hsep, takeWhile_append_stop (hplain hl') hsep] at hfirst
  have hrest := congrArg (List.dropWhile (· != sep)) h
  rw [dropWhile_append_stop (hplain hl) hsep, dropWhile_append_stop (hplain hl') hsep] at hrest
  exact ⟨hfirst, (List.cons.inj hrest).2⟩

/-! ## Trimming -/

/-- Without white space in front. -/
def trimStart (s : String) : String := String.ofList (s.toList.dropWhile isWhitespace)

/-- Without white space in front and behind. -/
def trim (s : String) : String :=
  String.ofList ((s.toList.dropWhile isWhitespace).reverse.dropWhile isWhitespace).reverse

/-- Text that does not start with white space is left as it is. -/
theorem trimStart_of_head {s : String} (h : ∀ c ∈ s.toList.head?, isWhitespace c = false) :
    trimStart s = s := by
  unfold trimStart
  cases hs : s.toList with
  | nil => rw [List.dropWhile_nil, ← hs, String.ofList_toList]
  | cons c cs =>
    have hc : isWhitespace c = false := h c (by rw [hs]; rfl)
    rw [List.dropWhile_cons_of_neg (by rw [hc]; exact Bool.false_ne_true), ← hs,
      String.ofList_toList]

theorem trim_of_ends {s : String} (hhead : ∀ c ∈ s.toList.head?, isWhitespace c = false)
    (hlast : ∀ c ∈ s.toList.getLast?, isWhitespace c = false) : trim s = s := by
  have hstart : s.toList.dropWhile isWhitespace = s.toList := by
    have htrim := trimStart_of_head hhead
    unfold trimStart at htrim
    rw [← String.ofList_inj, htrim, String.ofList_toList]
  have hend : s.toList.reverse.dropWhile isWhitespace = s.toList.reverse := by
    rw [← List.head?_reverse] at hlast
    cases hs : s.toList.reverse with
    | nil => rfl
    | cons c cs =>
      have hc : isWhitespace c = false := hlast c (by rw [hs]; rfl)
      rw [List.dropWhile_cons_of_neg (by rw [hc]; exact Bool.false_ne_true)]
  unfold trim
  rw [hstart, hend, List.reverse_reverse, String.ofList_toList]

/-! ## Splitting -/

/-- What stands before the first `sep` and what after it: `split_once`. -/
def splitOnce (sep : Char) (s : String) : Option (String × String) :=
  match s.toList.dropWhile (· != sep) with
  | [] => none
  | _ :: rest => some (String.ofList (s.toList.takeWhile (· != sep)), String.ofList rest)

theorem splitOnce_append {sep : Char} {s : String} (h : sep ∉ s.toList) (t : String) :
    splitOnce sep (s ++ String.singleton sep ++ t) = some (s, t) := by
  have hplain : ∀ c ∈ s.toList, (c != sep) = true := fun c hc =>
    bne_iff_ne.mpr fun heq => h (heq ▸ hc)
  have hsep : (sep != sep) = false := bne_self_eq_false sep
  have htext : (s ++ String.singleton sep ++ t).toList = s.toList ++ sep :: t.toList := by
    simp [String.toList_append]
  unfold splitOnce
  rw [htext, takeWhile_append_stop hplain hsep, dropWhile_append_stop hplain hsep]
  show some (String.ofList s.toList, String.ofList t.toList) = _
  rw [String.ofList_toList, String.ofList_toList]

theorem splitOnce_of_not_mem {sep : Char} {s : String} (h : sep ∉ s.toList) :
    splitOnce sep s = none := by
  have hnil : s.toList.dropWhile (· != sep) = [] := by
    refine List.dropWhile_eq_nil_iff.mpr fun c hc => bne_iff_ne.mpr fun heq => h ?_
    rwa [← heq]
  unfold splitOnce
  rw [hnil]

/-- What a string that is split was. -/
theorem eq_of_splitOnce {sep : Char} {s a b : String} (h : splitOnce sep s = some (a, b)) :
    s.toList = a.toList ++ sep :: b.toList := by
  unfold splitOnce at h
  split at h
  · cases h
  · next c rest hdrop =>
    obtain ⟨ha, hb⟩ := Prod.mk.inj (Option.some.inj h)
    have hc : c = sep := by
      have hne : s.toList.dropWhile (· != sep) ≠ [] := by
        rw [hdrop]
        exact List.cons_ne_nil _ _
      have hhead := List.head_dropWhile_not (· != sep) hne
      simpa [hdrop] using hhead
    rw [hc] at hdrop
    rw [← ha, ← hb, String.toList_ofList, String.toList_ofList, ← hdrop,
      List.takeWhile_append_dropWhile]

/-- The parts of a text between separators, of which the `n`-th is all that is
left: `splitn`. -/
def splitn : ℕ → Char → String → List String
  | 0, _, _ => []
  | 1, _, s => [s]
  | n + 2, sep, s =>
    match splitOnce sep s with
    | none => [s]
    | some (part, rest) => part :: splitn (n + 1) sep rest

theorem splitn_of_some {sep : Char} {s part rest : String} (h : splitOnce sep s = some (part, rest))
    (n : ℕ) : splitn (n + 2) sep s = part :: splitn (n + 1) sep rest := by
  rw [splitn, h]

theorem splitn_of_none {sep : Char} {s : String} (h : splitOnce sep s = none) (n : ℕ) :
    splitn (n + 2) sep s = [s] := by
  rw [splitn, h]

theorem splitn_append {sep : Char} {s : String} (h : sep ∉ s.toList) (n : ℕ) (t : String) :
    splitn (n + 2) sep (s ++ String.singleton sep ++ t) = s :: splitn (n + 1) sep t :=
  splitn_of_some (splitOnce_append h t) n

/-- The words of a text: `split_whitespace`. -/
def splitWhitespace (s : String) : List String :=
  ((s.toList.splitOnP isWhitespace).filter fun word => word ≠ []).map String.ofList

/-- The pieces of a text between the characters `sep`: `split`. -/
def split (sep : Char) (s : String) : List String := (s.toList.splitOn sep).map String.ofList

/-- **What stands in the pieces is what stood in the list**, without the separators. -/
theorem exists_mem_splitOn_iff {α : Type} [DecidableEq α] {sep c : α} {l : List α} :
    (∃ piece ∈ l.splitOn sep, c ∈ piece) ↔ c ∈ l ∧ c ≠ sep := by
  induction l with
  | nil => simp
  | cons d l ih =>
    rw [List.splitOn_cons_eq_if_modifyHead]
    split
    · next heq =>
      obtain rfl : d = sep := beq_iff_eq.mp heq
      have hempty :
          (∃ piece ∈ [] :: l.splitOn d, c ∈ piece) ↔ ∃ piece ∈ l.splitOn d, c ∈ piece := by
        simp
      rw [hempty, ih, List.mem_cons]
      exact ⟨fun h => ⟨.inr h.1, h.2⟩, fun h => ⟨h.1.resolve_left h.2, h.2⟩⟩
    · next hne =>
      have hd : d ≠ sep := fun heq => hne (beq_iff_eq.mpr heq)
      obtain ⟨first, pieces, hsplit⟩ := List.exists_cons_of_ne_nil (List.splitOn_ne_nil sep l)
      rw [hsplit] at ih ⊢
      have hhead : (∃ piece ∈ (first :: pieces).modifyHead (List.cons d), c ∈ piece) ↔
          c = d ∨ ∃ piece ∈ first :: pieces, c ∈ piece := by
        simp [or_assoc]
      rw [hhead, ih, List.mem_cons]
      constructor
      · rintro (rfl | ⟨hmem, hc⟩)
        · exact ⟨.inl rfl, hd⟩
        · exact ⟨.inr hmem, hc⟩
      · rintro ⟨rfl | hmem, hc⟩
        · exact .inl rfl
        · exact .inr ⟨hmem, hc⟩

theorem mem_of_mem_split {sep c : Char} {s piece : String} (hpiece : piece ∈ split sep s)
    (hc : c ∈ piece.toList) : c ∈ s.toList ∧ c ≠ sep := by
  obtain ⟨cs, hcs, rfl⟩ := List.mem_map.mp hpiece
  rw [String.toList_ofList] at hc
  exact exists_mem_splitOn_iff.mp ⟨cs, hcs, hc⟩

/-- **Pieces that are joined are split again.** -/
theorem split_intercalate {sep : Char} {pieces : List String} (hne : pieces ≠ [])
    (h : ∀ piece ∈ pieces, sep ∉ piece.toList) :
    split sep ((String.singleton sep).intercalate pieces) = pieces := by
  have hsingle : (String.singleton sep).toList = [sep] := by simp
  have hmap : pieces.map String.toList ≠ [] := fun heq => hne (List.map_eq_nil_iff.mp heq)
  unfold split
  rw [String.toList_intercalate, hsingle,
    List.splitOn_intercalate sep (List.forall_mem_map.mpr h) hmap, List.map_map]
  exact List.map_id'' (fun s => String.ofList_toList) pieces

/-- The lines that the pieces of a text between its newlines are. A carriage
return before a newline belongs to it, and a newline at the end of the text
begins no line. -/
def endLines : List (List Char) → List String
  | [] => []
  | [last] => if last = [] then [] else [String.ofList last]
  | piece :: pieces =>
    String.ofList (if piece.getLast? = some '\r' then piece.dropLast else piece) :: endLines pieces

/-- The lines of a text: `lines`. -/
def lines (s : String) : List String := endLines (s.toList.splitOn '\n')

theorem endLines_cons {piece : List Char} {pieces : List (List Char)} (h : pieces ≠ []) :
    endLines (piece :: pieces) =
      String.ofList (if piece.getLast? = some '\r' then piece.dropLast else piece) ::
        endLines pieces := by
  cases pieces with
  | nil => exact absurd rfl h
  | cons next pieces => rfl

theorem lines_append {s : String} (h : '\n' ∉ s.toList) (hlast : s.toList.getLast? ≠ some '\r')
    (t : String) : lines (s ++ "\n" ++ t) = s :: lines t := by
  have htext : (s ++ "\n" ++ t).toList = s.toList ++ '\n' :: t.toList := by
    simp [String.toList_append]
  unfold lines
  rw [htext, List.splitOn_append_cons_self_of_not_mem h,
    endLines_cons (List.splitOn_ne_nil _ _), if_neg hlast, String.ofList_toList]

/-- **The lines of two texts, of which the first ends a line.** -/
theorem lines_append_lines (s t : String) :
    lines (s ++ "\n" ++ t) = lines (s ++ "\n") ++ lines t := by
  have htext : (s ++ "\n" ++ t).toList = s.toList ++ '\n' :: t.toList := by
    simp [String.toList_append]
  have hfirst : (s ++ "\n").toList = s.toList ++ '\n' :: [] := by
    simp [String.toList_append]
  have hpieces : ∀ pieces : List (List Char),
      endLines (pieces ++ t.toList.splitOn '\n')
        = endLines (pieces ++ [[]]) ++ endLines (t.toList.splitOn '\n') := by
    intro pieces
    induction pieces with
    | nil => rfl
    | cons piece pieces ih =>
      rw [List.cons_append, List.cons_append,
        endLines_cons (List.append_ne_nil_of_right_ne_nil _ (List.splitOn_ne_nil _ _)),
        endLines_cons (List.append_ne_nil_of_right_ne_nil _ (List.cons_ne_nil _ _)), ih,
        List.cons_append]
  unfold lines
  rw [htext, hfirst, List.splitOn_append_cons_self, List.splitOn_append_cons_self,
    List.splitOn_nil, hpieces]

/-! ## Numbers in decimal -/

/-- The number of some digits, if there are any and nothing else. -/
def parseDigits (cs : List Char) : Option ℕ :=
  if cs.isEmpty ∨ cs.any (fun c => !c.isDigit) then none else some (Nat.ofDigitChars 10 cs 0)

/-- The number that a text says, after an optional `+`, if it fits in 32 bits:
`parse::<u32>`. -/
def parseU32 (s : String) : Option UInt32 :=
  let digits := match s.toList with
    | '+' :: rest => rest
    | cs => cs
  (parseDigits digits).bind fun n => if n < 2 ^ 32 then some (UInt32.ofNat n) else none

/-- The number that a text says, after an optional sign, if it fits in 64 bits:
`parse::<i64>`. -/
def parseI64 (s : String) : Option Int64 :=
  match s.toList with
  | '-' :: rest =>
    (parseDigits rest).bind fun n => if n ≤ 2 ^ 63 then some (Int64.ofInt (-(n : Int))) else none
  | '+' :: rest =>
    (parseDigits rest).bind fun n => if n < 2 ^ 63 then some (Int64.ofNat n) else none
  | cs =>
    (parseDigits cs).bind fun n => if n < 2 ^ 63 then some (Int64.ofNat n) else none

/-- A number in decimal. -/
def decimal (n : ℕ) : String := n.repr

def decimalI64 (x : Int64) : String :=
  if x.toInt < 0 then "-" ++ decimal x.toInt.natAbs else decimal x.toInt.natAbs

theorem isDigit_of_mem_decimal {n : ℕ} {c : Char} (h : c ∈ (decimal n).toList) :
    c.isDigit = true := by
  unfold decimal at h
  rw [Nat.toList_repr] at h
  exact Nat.isDigit_of_mem_toDigits (by decide) (by decide) h

theorem parseDigits_decimal (n : ℕ) : parseDigits (decimal n).toList = some n := by
  have hempty : ¬ ((decimal n).toList.isEmpty = true ∨
      (decimal n).toList.any (fun c => !c.isDigit) = true) := by
    rw [not_or, List.isEmpty_iff, List.any_eq_true]
    constructor
    · unfold decimal
      rw [Nat.toList_repr]
      exact Nat.toDigits_ne_nil
    · rintro ⟨c, hc, hdigit⟩
      rw [isDigit_of_mem_decimal hc] at hdigit
      exact Bool.false_ne_true hdigit
  unfold parseDigits
  rw [if_neg hempty]
  unfold decimal
  rw [Nat.toList_repr, Nat.ofDigitChars_ten_toDigits]

/-- A numeral starts with a digit. -/
theorem decimal_cons (n : ℕ) : ∃ c cs, (decimal n).toList = c :: cs ∧ c.isDigit = true := by
  obtain ⟨c, cs, hcs⟩ := List.exists_cons_of_ne_nil (l := (decimal n).toList) (by
    unfold decimal
    rw [Nat.toList_repr]
    exact Nat.toDigits_ne_nil)
  exact ⟨c, cs, hcs, isDigit_of_mem_decimal (n := n) (by rw [hcs]; exact List.mem_cons_self)⟩

/-- A numeral starts with no sign. -/
theorem decimal_ne_sign {sign : Char} (hsign : sign.isDigit = false) (n : ℕ) (rest : List Char) :
    (decimal n).toList ≠ sign :: rest := by
  intro heq
  have hdigit := isDigit_of_mem_decimal (n := n) (heq ▸ List.mem_cons_self)
  rw [hsign] at hdigit
  exact Bool.false_ne_true hdigit

/-- **A number is read back.** -/
theorem parseU32_decimal (n : UInt32) : parseU32 (decimal n.toNat) = some n := by
  have hparse := parseDigits_decimal n.toNat
  unfold parseU32
  split
  · next rest heq => exact absurd heq (decimal_ne_sign (by decide) n.toNat rest)
  · show (parseDigits (decimal n.toNat).toList).bind _ = _
    rw [hparse]
    show (if n.toNat < 2 ^ 32 then some (UInt32.ofNat n.toNat) else none) = some n
    rw [if_pos n.toNat_lt, UInt32.ofNat_toNat]

theorem parseI64_decimalI64 (x : Int64) : parseI64 (decimalI64 x) = some x := by
  have hlt := x.toInt_lt
  have hle := x.le_toInt
  have hparse := parseDigits_decimal x.toInt.natAbs
  unfold decimalI64
  by_cases hneg : x.toInt < 0
  · have htext : ("-" ++ decimal x.toInt.natAbs).toList
        = '-' :: (decimal x.toInt.natAbs).toList := by
      rw [String.toList_append]
      rfl
    have hnat : x.toInt.natAbs ≤ 2 ^ 63 := by omega
    have hint : -(x.toInt.natAbs : Int) = x.toInt := by omega
    rw [if_pos hneg]
    unfold parseI64
    rw [htext]
    show (parseDigits (decimal x.toInt.natAbs).toList).bind _ = _
    rw [hparse]
    show (if x.toInt.natAbs ≤ 2 ^ 63 then some (Int64.ofInt (-(x.toInt.natAbs : Int))) else none)
      = some x
    rw [if_pos hnat, hint, Int64.ofInt_toInt]
  · have hnat : x.toInt.natAbs < 2 ^ 63 := by omega
    have hint : (x.toInt.natAbs : Int) = x.toInt := by omega
    rw [if_neg hneg]
    unfold parseI64
    split
    · next rest heq => exact absurd heq (decimal_ne_sign (by decide) x.toInt.natAbs rest)
    · next rest heq => exact absurd heq (decimal_ne_sign (by decide) x.toInt.natAbs rest)
    · show (parseDigits (decimal x.toInt.natAbs).toList).bind _ = _
      rw [hparse]
      show (if x.toInt.natAbs < 2 ^ 63 then some (Int64.ofNat x.toInt.natAbs) else none) = some x
      rw [if_pos hnat, ← Int64.ofInt_eq_ofNat, hint, Int64.ofInt_toInt]

/-- Text without white space. -/
def Solid (s : String) : Prop := ∀ c ∈ s.toList, isWhitespace c = false

theorem Solid.not_mem {s : String} (h : Solid s) {c : Char} (hc : isWhitespace c = true) :
    c ∉ s.toList := by
  intro hmem
  rw [h c hmem] at hc
  exact Bool.false_ne_true hc

theorem isWhitespace_of_isDigit {c : Char} (h : c.isDigit = true) : isWhitespace c = false := by
  have hrange : 48 ≤ c.toNat ∧ c.toNat ≤ 57 := by
    unfold Char.isDigit at h
    rw [Bool.and_eq_true, decide_eq_true_eq, decide_eq_true_eq] at h
    exact ⟨UInt32.le_iff_toNat_le.mp h.1, UInt32.le_iff_toNat_le.mp h.2⟩
  obtain ⟨hlow, hhigh⟩ := hrange
  unfold isWhitespace
  simp only [Bool.or_eq_false_iff, Bool.and_eq_false_iff, decide_eq_false_iff_not,
    beq_eq_false_iff_ne]
  omega

theorem solid_decimal (n : ℕ) : Solid (decimal n) := fun _ hc =>
  isWhitespace_of_isDigit (isDigit_of_mem_decimal hc)

theorem solid_decimalI64 (x : Int64) : Solid (decimalI64 x) := by
  unfold decimalI64
  split
  · intro c hc
    rw [String.toList_append, List.mem_append] at hc
    rcases hc with hc | hc
    · rw [List.mem_singleton.mp hc]
      decide
    · exact solid_decimal _ c hc
  · exact solid_decimal _

/-! ## Bytes in hexadecimal -/

/-- The digit of a number below 16. -/
def hexDigit (n : ℕ) : Char := if n < 10 then Char.ofNat (48 + n) else Char.ofNat (87 + n)

/-- The number of a digit, in either case. -/
def hexValue (c : Char) : Option ℕ :=
  let n := c.toNat
  if 48 ≤ n ∧ n ≤ 57 then some (n - 48)
  else if 97 ≤ n ∧ n ≤ 102 then some (n - 87)
  else if 65 ≤ n ∧ n ≤ 70 then some (n - 55)
  else none

/-- The digits of some bytes. -/
def hexChars : List UInt8 → List Char
  | [] => []
  | b :: bs => hexDigit (b.toNat / 16) :: hexDigit (b.toNat % 16) :: hexChars bs

/-- The bytes of some digits, two for each byte. -/
def parseHex : List Char → Option (List UInt8)
  | [] => some []
  | [_] => none
  | c :: d :: cs => do
    let high ← hexValue c
    let low ← hexValue d
    let rest ← parseHex cs
    some (UInt8.ofNat (16 * high + low) :: rest)

/-- **Bytes in hexadecimal**: `hex::encode`. -/
def hexEncode (bs : List UInt8) : String := String.ofList (hexChars bs)

/-- **The bytes that a text says**: `hex::decode`. -/
def hexDecode (s : String) : Option (List UInt8) := parseHex s.toList

theorem hexValue_hexDigit {n : ℕ} (h : n < 16) : hexValue (hexDigit n) = some n := by
  have hall : ∀ n < 16, hexValue (hexDigit n) = some n := by decide
  exact hall n h

theorem parseHex_hexChars (bs : List UInt8) : parseHex (hexChars bs) = some bs := by
  induction bs with
  | nil => rfl
  | cons b bs ih =>
    have hb := b.toNat_lt
    rw [hexChars, parseHex, hexValue_hexDigit (by omega), hexValue_hexDigit (by omega), ih]
    show some (UInt8.ofNat (16 * (b.toNat / 16) + b.toNat % 16) :: bs) = _
    rw [Nat.div_add_mod, UInt8.ofNat_toNat]

/-- What is encoded are digits. -/
theorem exists_hexDigit_of_mem {bs : List UInt8} {c : Char} (h : c ∈ (hexEncode bs).toList) :
    ∃ n < 16, c = hexDigit n := by
  unfold hexEncode at h
  rw [String.toList_ofList] at h
  induction bs with
  | nil => cases h
  | cons b bs ih =>
    have hb := b.toNat_lt
    rcases List.mem_cons.mp h with rfl | h
    · exact ⟨_, by omega, rfl⟩
    · rcases List.mem_cons.mp h with rfl | h
      · exact ⟨_, by omega, rfl⟩
      · exact ih h

theorem solid_hexEncode (bs : List UInt8) : Solid (hexEncode bs) := by
  have hdigit : ∀ n < 16, isWhitespace (hexDigit n) = false := by decide
  intro c hc
  obtain ⟨n, hn, rfl⟩ := exists_hexDigit_of_mem hc
  exact hdigit n hn

/-- Without digits there are no bytes. -/
theorem hexDecode_eq_nil {s : String} (h : hexDecode s = some []) : s = "" := by
  unfold hexDecode at h
  cases hs : s.toList with
  | nil => rw [← String.ofList_toList (s := s), hs]
  | cons c cs =>
    rw [hs] at h
    cases cs with
    | nil => cases h
    | cons d cs =>
      rw [parseHex] at h
      obtain ⟨high, -, h⟩ := Option.bind_eq_some_iff.mp h
      obtain ⟨low, -, h⟩ := Option.bind_eq_some_iff.mp h
      obtain ⟨rest, -, h⟩ := Option.bind_eq_some_iff.mp h
      cases h

/-- **Bytes are read back.** -/
theorem hexDecode_hexEncode (bs : List UInt8) : hexDecode (hexEncode bs) = some bs := by
  unfold hexDecode hexEncode
  rw [String.toList_ofList, parseHex_hexChars]

end Oxibus
