import Oxibus.Core.Names
import Oxibus.Lib.Text

/-!
# The grammar of bus names

A bus name is at most 255 bytes of elements with dots between them, two or more
of them. A unique name has a colon in front; in a well-known one no element
begins with a digit. The elements of both are over the letters, the digits, `_`
and `-`.

The check of the source departs from this in two ways. It shares the check of
well-known names with interfaces and errors, which know no `-`; and after a
colon it does not ask for a dot. These are all the names that it judges
differently (`isValidBusName_correct_iff`).
-/

namespace Oxibus

/-- The text of some elements. -/
def dotted (elements : List (List UInt8)) : List UInt8 := [46].intercalate elements

/-- **An element**: letters, digits, `_` and `-`, at least one. -/
def IsElement (element : List UInt8) : Prop :=
  element ≠ [] ∧ ∀ b ∈ element, isPathByte b = true ∨ b = 45

/-- A digit. -/
def isDigitByte (b : UInt8) : Bool := 48 ≤ b && b ≤ 57

def BeginsWithDigit (element : List UInt8) : Prop := ∃ b ∈ element.head?, isDigitByte b = true

/-- **A unique name.** -/
def IsUniqueName (s : String) : Prop :=
  (asBytes s).length ≤ 255 ∧ ∃ elements, 2 ≤ elements.length ∧
    (∀ element ∈ elements, IsElement element) ∧ asBytes s = 58 :: dotted elements

/-- **A well-known name.** -/
def IsWellKnownName (s : String) : Prop :=
  (asBytes s).length ≤ 255 ∧ ∃ elements, 2 ≤ elements.length ∧
    (∀ element ∈ elements, IsElement element ∧ ¬ BeginsWithDigit element) ∧
      asBytes s = dotted elements

/-- **A bus name.** -/
def IsBusName (s : String) : Prop := IsUniqueName s ∨ IsWellKnownName s

/-- A colon and one element. -/
def IsLoneElement (s : String) : Prop :=
  (asBytes s).length ≤ 255 ∧ ∃ element, IsElement element ∧ asBytes s = 58 :: element

/-! ## Elements and dots -/

theorem IsElement.not_dot {element : List UInt8} (h : IsElement element) :
    (46 : UInt8) ∉ element := by
  intro hmem
  rcases h.2 46 hmem with h | h
  · exact absurd h (by decide)
  · exact absurd h (by decide)

/-- A text without dots is one element, a text with dots at least two. -/
theorem two_le_length_splitOn_iff (bytes : List UInt8) :
    2 ≤ (bytes.splitOn 46).length ↔ (46 : UInt8) ∈ bytes := by
  constructor
  · intro h
    by_contra hmem
    rw [List.splitOn_eq_singleton hmem, List.length_singleton] at h
    exact absurd h (by decide)
  · intro hmem
    obtain ⟨l, r, rfl⟩ := List.append_of_mem hmem
    rw [List.splitOn_append_cons_self, List.length_append]
    have hl := List.length_pos_of_ne_nil (List.splitOn_ne_nil 46 l)
    have hr := List.length_pos_of_ne_nil (List.splitOn_ne_nil 46 r)
    omega

/-- Elements are found again between the dots. -/
theorem splitOn_dotted {elements : List (List UInt8)} (hne : elements ≠ [])
    (h : ∀ element ∈ elements, (46 : UInt8) ∉ element) : (dotted elements).splitOn 46 = elements :=
  List.splitOn_intercalate 46 h hne

/-- Some texts are dotted in one way only. -/
theorem exists_dotted_iff {P : List UInt8 → Prop}
    (hdot : ∀ element, P element → (46 : UInt8) ∉ element)
    (bytes : List UInt8) :
    (∃ elements, 2 ≤ elements.length ∧ (∀ element ∈ elements, P element) ∧
      bytes = dotted elements) ↔
      (46 : UInt8) ∈ bytes ∧ ∀ element ∈ bytes.splitOn 46, P element := by
  rw [← two_le_length_splitOn_iff]
  constructor
  · rintro ⟨elements, hlen, hall, rfl⟩
    have hne : elements ≠ [] := by
      rintro rfl
      exact absurd hlen (by decide)
    rw [splitOn_dotted hne fun element hmem => hdot element (hall element hmem)]
    exact ⟨hlen, hall⟩
  · rintro ⟨hlen, hall⟩
    exact ⟨bytes.splitOn 46, hlen, hall, (List.intercalate_splitOn 46).symm⟩

theorem isUniqueName_iff (s : String) : IsUniqueName s ↔ (asBytes s).length ≤ 255 ∧
    ∃ rest, asBytes s = 58 :: rest ∧ (46 : UInt8) ∈ rest ∧
      ∀ element ∈ rest.splitOn 46, IsElement element := by
  refine and_congr_right fun _ => ?_
  constructor
  · rintro ⟨elements, hlen, hall, heq⟩
    exact ⟨dotted elements, heq,
      (exists_dotted_iff (fun _ => IsElement.not_dot) _).mp ⟨elements, hlen, hall, rfl⟩⟩
  · rintro ⟨rest, heq, hrest⟩
    obtain ⟨elements, hlen, hall, rfl⟩ :=
      (exists_dotted_iff (fun _ => IsElement.not_dot) rest).mpr hrest
    exact ⟨elements, hlen, hall, heq⟩

theorem isWellKnownName_iff (s : String) : IsWellKnownName s ↔ (asBytes s).length ≤ 255 ∧
    (46 : UInt8) ∈ asBytes s ∧
      ∀ element ∈ (asBytes s).splitOn 46, IsElement element ∧ ¬ BeginsWithDigit element :=
  and_congr_right fun _ => exists_dotted_iff (fun _ h => h.1.not_dot) (asBytes s)

/-! ## What the source accepts -/

/-- A byte that may stand first in a dotted name is one that may stand later, and no
digit. -/
theorem isNameStart_iff (b : UInt8) :
    isNameStart b = true ↔ isPathByte b = true ∧ isDigitByte b = false := by
  have hall : ∀ n < 256, isNameStart (UInt8.ofNat n) = true ↔
      isPathByte (UInt8.ofNat n) = true ∧ isDigitByte (UInt8.ofNat n) = false := by
    decide +kernel
  have hb := hall b.toNat b.toNat_lt
  rwa [UInt8.ofNat_toNat] at hb

/-- The check of an element of a dotted name. -/
theorem isDottedElement_iff (element : List UInt8) :
    (match element with
      | [] => false
      | first :: rest => isNameStart first && rest.all isPathByte) = true ↔
      (IsElement element ∧ ¬ BeginsWithDigit element) ∧ (45 : UInt8) ∉ element := by
  have hpath : isPathByte 45 = false := by decide
  cases element with
  | nil => exact ⟨Bool.noConfusion, fun h => absurd rfl h.1.1.1⟩
  | cons first rest =>
    have hdigit : BeginsWithDigit (first :: rest) ↔ isDigitByte first = true := by
      simp [BeginsWithDigit]
    rw [hdigit, Bool.not_eq_true]
    show (isNameStart first && rest.all isPathByte) = true ↔ _
    rw [Bool.and_eq_true, isNameStart_iff, List.all_eq_true]
    constructor
    · rintro ⟨⟨hfirst, hdigit⟩, hrest⟩
      have hall : ∀ b ∈ first :: rest, isPathByte b = true :=
        List.forall_mem_cons.mpr ⟨hfirst, hrest⟩
      refine ⟨⟨⟨List.cons_ne_nil first rest, fun b hb => .inl (hall b hb)⟩, hdigit⟩, fun hmem => ?_⟩
      rw [hall 45 hmem] at hpath
      cases hpath
    · rintro ⟨⟨⟨-, hall⟩, hdigit⟩, hhyphen⟩
      have hall : ∀ b ∈ first :: rest, isPathByte b = true := fun b hb =>
        (hall b hb).resolve_right fun heq => hhyphen (heq ▸ hb)
      exact ⟨⟨(List.forall_mem_cons.mp hall).1, hdigit⟩, (List.forall_mem_cons.mp hall).2⟩

/-- **Dotted names are the well-known names without a `-`.** -/
theorem isValidDottedName_iff (s : String) :
    isValidDottedName s = true ↔ IsWellKnownName s ∧ (45 : UInt8) ∉ asBytes s := by
  have hhyphen : (45 : UInt8) ∉ asBytes s ↔
      ∀ element ∈ (asBytes s).splitOn 46, (45 : UInt8) ∉ element := by
    have hne : (45 : UInt8) ≠ 46 := by decide
    rw [← not_iff_not]
    push Not
    rw [exists_mem_splitOn_iff]
    exact ⟨fun h => ⟨h, hne⟩, And.left⟩
  rw [isWellKnownName_iff, hhyphen]
  unfold isValidDottedName
  simp only [Bool.and_eq_true, Bool.not_eq_true', decide_eq_true_eq, List.contains_iff_mem,
    List.all_eq_true, List.isEmpty_eq_false_iff]
  constructor
  · rintro ⟨⟨⟨-, hlen⟩, hdot⟩, hall⟩
    have hall := fun element hmem => (isDottedElement_iff element).mp (hall element hmem)
    exact ⟨⟨hlen, hdot, fun element hmem => (hall element hmem).1⟩, fun element hmem =>
      (hall element hmem).2⟩
  · rintro ⟨⟨hlen, hdot, hall⟩, hhyphen⟩
    exact ⟨⟨⟨List.ne_nil_of_mem hdot, hlen⟩, hdot⟩, fun element hmem =>
      (isDottedElement_iff element).mpr ⟨hall element hmem, hhyphen element hmem⟩⟩

/-- The check of an element after a colon. -/
theorem isUniqueElement_iff (element : List UInt8) :
    (!element.isEmpty && element.all fun b => isPathByte b || b == 45) = true ↔
      IsElement element := by
  simp [IsElement, List.all_eq_true]

/-- **After a colon, the source takes the unique names, and one element as well.** -/
theorem isValidBusName_colon_iff {s : String} {rest : List UInt8} (h : asBytes s = 58 :: rest) :
    isValidBusName s = true ↔ IsUniqueName s ∨ IsLoneElement s := by
  have hvalid : isValidBusName s = true ↔ (asBytes s).length ≤ 255 ∧ rest ≠ [] ∧
      ∀ element ∈ rest.splitOn 46, IsElement element := by
    unfold isValidBusName
    split
    · next rest' hrest' =>
      obtain rfl : rest = rest' := (List.cons.inj (h.symm.trans hrest')).2
      rw [Bool.and_eq_true, Bool.and_eq_true, List.all_eq_true, decide_eq_true_eq,
        Bool.not_eq_true', List.isEmpty_eq_false_iff, and_comm (a := rest ≠ []), and_assoc]
      simp only [isUniqueElement_iff]
    · next hcolon => exact absurd h (hcolon rest)
  have hrest : ∀ {rest'}, asBytes s = 58 :: rest' → rest' = rest := fun heq =>
    (List.cons.inj (heq.symm.trans h)).2
  rw [hvalid, isUniqueName_iff]
  by_cases hdot : (46 : UInt8) ∈ rest
  · constructor
    · rintro ⟨hlen, -, hall⟩
      exact .inl ⟨hlen, rest, h, hdot, hall⟩
    · rintro (⟨hlen, rest', heq, -, hall⟩ | ⟨-, element, helement, heq⟩)
      · obtain rfl := hrest heq
        exact ⟨hlen, List.ne_nil_of_mem hdot, hall⟩
      · obtain rfl := hrest heq
        exact absurd hdot helement.not_dot
  · rw [List.splitOn_eq_singleton hdot, List.forall_mem_singleton]
    constructor
    · rintro ⟨hlen, -, hall⟩
      exact .inr ⟨hlen, rest, hall, h⟩
    · rintro (⟨-, rest', heq, hmem, -⟩ | ⟨hlen, element, helement, heq⟩)
      · obtain rfl := hrest heq
        exact absurd hmem hdot
      · obtain rfl := hrest heq
        exact ⟨hlen, helement.1, helement⟩

theorem isValidBusName_of_not_colon {s : String} (h : ∀ rest, asBytes s ≠ 58 :: rest) :
    isValidBusName s = isValidDottedName s := by
  unfold isValidBusName
  split
  · next rest heq => exact absurd heq (h rest)
  · rfl

/-- There is no colon in a well-known name. -/
theorem IsWellKnownName.ne_colon {s : String} (h : IsWellKnownName s) (rest : List UInt8) :
    asBytes s ≠ 58 :: rest := by
  intro heq
  have hmem : (58 : UInt8) ∈ asBytes s := heq ▸ List.mem_cons_self
  have hne : (58 : UInt8) ≠ 46 := by decide
  obtain ⟨element, helement, hcolon⟩ := exists_mem_splitOn_iff.mpr ⟨hmem, hne⟩
  rcases (((isWellKnownName_iff s).mp h).2.2 element helement).1.2 58 hcolon with hb | hb
  · exact absurd hb (by decide)
  · exact absurd hb (by decide)

/-- **The names that the source takes.** -/
theorem isValidBusName_iff (s : String) : isValidBusName s = true ↔
    IsUniqueName s ∨ IsLoneElement s ∨ (IsWellKnownName s ∧ (45 : UInt8) ∉ asBytes s) := by
  by_cases hcolon : ∃ rest, asBytes s = 58 :: rest
  · obtain ⟨rest, hrest⟩ := hcolon
    rw [isValidBusName_colon_iff hrest, ← or_assoc]
    exact ⟨.inl, fun h => h.resolve_right fun hwell => hwell.1.ne_colon rest hrest⟩
  · have hcolon : ∀ rest, asBytes s ≠ 58 :: rest := not_exists.mp hcolon
    rw [isValidBusName_of_not_colon hcolon, isValidDottedName_iff]
    constructor
    · exact fun h => .inr (.inr h)
    · rintro (⟨-, elements, -, -, heq⟩ | ⟨-, element, -, heq⟩ | h)
      · exact absurd heq (hcolon _)
      · exact absurd heq (hcolon _)
      · exact h

/-- A colon and one element is no bus name. -/
theorem IsLoneElement.not_isBusName {s : String} (h : IsLoneElement s) : ¬ IsBusName s := by
  obtain ⟨-, element, helement, heq⟩ := h
  rintro (hunique | hwell)
  · obtain ⟨-, rest, heq', hdot, -⟩ := (isUniqueName_iff s).mp hunique
    obtain rfl := (List.cons.inj (heq.symm.trans heq')).2
    exact helement.not_dot hdot
  · exact hwell.ne_colon element heq

/-- **The source judges a name as the grammar does**, unless it is a colon and one element, or
a well-known name with a `-` in it. -/
theorem isValidBusName_correct_iff (s : String) :
    (isValidBusName s = true ↔ IsBusName s) ↔
      ¬ IsLoneElement s ∧ ¬ (IsWellKnownName s ∧ (45 : UInt8) ∈ asBytes s) := by
  rw [isValidBusName_iff]
  constructor
  · intro h
    refine ⟨fun hlone => hlone.not_isBusName (h.mp (.inr (.inl hlone))), ?_⟩
    rintro ⟨hwell, hhyphen⟩
    rcases h.mpr (.inr hwell) with ⟨-, elements, -, -, heq⟩ | ⟨-, element, -, heq⟩ | ⟨-, hnone⟩
    · exact hwell.ne_colon _ heq
    · exact hwell.ne_colon _ heq
    · exact hnone hhyphen
  · rintro ⟨hlone, hhyphen⟩
    constructor
    · rintro (hunique | hone | ⟨hwell, -⟩)
      · exact .inl hunique
      · exact absurd hone hlone
      · exact .inr hwell
    · rintro (hunique | hwell)
      · exact .inl hunique
      · exact .inr (.inr ⟨hwell, fun hmem => hhyphen ⟨hwell, hmem⟩⟩)

/-- A `-` in a well-known name is refused. -/
theorem not_isValidBusName_correct : ¬ ∀ s, isValidBusName s = true ↔ IsBusName s := by
  intro h
  have hname : IsWellKnownName "org.my-app" := by
    rw [isWellKnownName_iff]
    have hsplit : (asBytes "org.my-app").splitOn 46
        = [[111, 114, 103], [109, 121, 45, 97, 112, 112]] := by decide
    refine ⟨by decide, by decide, ?_⟩
    rw [hsplit]
    simp [IsElement, BeginsWithDigit, isPathByte, isDigitByte]
  exact absurd ((h "org.my-app").mpr (.inr hname)) (by decide)

end Oxibus
