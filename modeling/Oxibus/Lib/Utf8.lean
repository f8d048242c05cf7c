import Mathlib.Data.List.Basic

/-!
# Strings as their UTF-8 bytes

A string of the source is a sequence of bytes known to be valid UTF-8, and
most of what the wire format does to it is done byte by byte. `asBytes` is
the byte view of a string and `fromUtf8` its partial inverse, the check a
decoder makes before it calls bytes a string.

Text that is known to be ASCII has one byte per character (`asBytes_ofList`),
and only such text (`isAscii_of_length_asBytes`); everything else the format
relies on is that the two views determine each other.
-/

namespace Oxibus

/-- The UTF-8 bytes of a string: `as_bytes`. -/
def asBytes (s : String) : List UInt8 := s.toByteArray.data.toList

/-- The string with the given UTF-8 bytes, if they are valid: `from_utf8`. -/
def fromUtf8 (bs : List UInt8) : Option String := String.fromUTF8? ⟨⟨bs⟩⟩

@[simp] theorem asBytes_empty : asBytes "" = [] := rfl

/-- **A string is determined by its bytes.** -/
theorem asBytes_inj {s t : String} : asBytes s = asBytes t ↔ s = t := by
  constructor
  · intro h
    apply String.toByteArray_inj.mp
    exact ByteArray.ext (Array.toList_inj.mp h)
  · exact congrArg asBytes

/-- **The bytes of a string are valid UTF-8, and give the string back.** -/
@[simp] theorem fromUtf8_asBytes (s : String) : fromUtf8 (asBytes s) = some s := by
  have hb : (⟨⟨asBytes s⟩⟩ : ByteArray) = s.toByteArray := by
    apply ByteArray.ext
    exact Array.toList_inj.mp rfl
  rw [fromUtf8, hb, String.fromUTF8?, dif_pos s.isValidUTF8]
  rfl

/-- Bytes accepted as a string are the bytes of that string. -/
theorem asBytes_of_fromUtf8 {bs : List UInt8} {s : String} (h : fromUtf8 bs = some s) :
    asBytes s = bs := by
  unfold fromUtf8 String.fromUTF8? at h
  split at h
  · cases h
    rfl
  · cases h

@[simp] theorem asBytes_append (s t : String) : asBytes (s ++ t) = asBytes s ++ asBytes t := by
  simp [asBytes, String.toByteArray_append]

@[simp] theorem asBytes_eq_nil {s : String} : asBytes s = [] ↔ s = "" := by
  rw [← asBytes_empty, asBytes_inj]

/-! ## ASCII text -/

/-- The byte of an ASCII character. -/
def asciiByte (c : Char) : UInt8 := c.val.toUInt8

/-- The character with the code of a byte. -/
theorem toNat_ofNat_byte (b : UInt8) : (Char.ofNat b.toNat).toNat = b.toNat := by
  have hb := b.toNat_lt
  have hvalid : b.toNat.isValidChar := Or.inl (by omega)
  rw [Char.ofNat, dif_pos hvalid]
  rfl

/-- **A byte is the byte of the character with its code.** -/
theorem asciiByte_ofNat (b : UInt8) : asciiByte (Char.ofNat b.toNat) = b := by
  have hb := b.toNat_lt
  have hval : (Char.ofNat b.toNat).val.toNat = b.toNat := toNat_ofNat_byte b
  rw [← UInt8.toNat_inj, asciiByte, UInt32.toNat_toUInt8, hval]
  omega

/-- The bytes of a string, character by character. -/
theorem asBytes_eq_flatMap (s : String) :
    asBytes s = s.toList.flatMap String.utf8EncodeChar := by
  rw [asBytes, ← String.utf8Encode_toList, List.utf8Encode]
  simp

/-- A byte below 128 in the encoding of a character is the character. -/
theorem toNat_of_mem_utf8EncodeChar {c : Char} {b : UInt8} (h : b ∈ String.utf8EncodeChar c)
    (hb : b.toNat < 128) : b.toNat = c.toNat := by
  have hval : c.toNat = c.val.toNat := rfl
  -- the bytes of longer encodings have their highest bit set
  have hhigh : ∀ {x y z : ℕ}, b = UInt8.ofNat (x % y + z) → 0 < y → 128 ≤ z → y + z ≤ 256 →
      False := by
    rintro x y z rfl hy hz hle
    have hlt := Nat.mod_lt x hy
    rw [UInt8.toNat_ofNat'] at hb
    omega
  unfold String.utf8EncodeChar at h
  dsimp only at h
  split at h
  · rw [List.mem_singleton] at h
    rw [h, UInt8.toNat_ofNat'] at hb ⊢
    omega
  exfalso
  split at h
  · simp only [List.mem_cons, List.not_mem_nil, or_false] at h
    rcases h with h | h
    · exact hhigh h (by decide) (by decide) (by decide)
    · exact hhigh h (by decide) (by decide) (by decide)
  split at h
  · simp only [List.mem_cons, List.not_mem_nil, or_false] at h
    rcases h with h | h | h
    · exact hhigh h (by decide) (by decide) (by decide)
    · exact hhigh h (by decide) (by decide) (by decide)
    · exact hhigh h (by decide) (by decide) (by decide)
  · simp only [List.mem_cons, List.not_mem_nil, or_false] at h
    rcases h with h | h | h | h
    · exact hhigh h (by decide) (by decide) (by decide)
    · exact hhigh h (by decide) (by decide) (by decide)
    · exact hhigh h (by decide) (by decide) (by decide)
    · exact hhigh h (by decide) (by decide) (by decide)

/-- **An ASCII byte in a string is a character of it.** -/
theorem mem_toList_of_mem_asBytes {s : String} {b : UInt8} (h : b ∈ asBytes s)
    (hb : b.toNat < 128) : Char.ofNat b.toNat ∈ s.toList := by
  rw [asBytes_eq_flatMap] at h
  obtain ⟨c, hc, hmem⟩ := List.mem_flatMap.mp h
  rw [toNat_of_mem_utf8EncodeChar hmem hb, Char.ofNat_toNat]
  exact hc

/-- **ASCII text has one byte per character.** -/
theorem asBytes_ofList {cs : List Char} (h : ∀ c ∈ cs, c.utf8Size = 1) :
    asBytes (String.ofList cs) = cs.map asciiByte := by
  rw [asBytes_eq_flatMap, String.toList_ofList]
  induction cs with
  | nil => rfl
  | cons c cs ih =>
    rw [List.flatMap_cons, String.utf8EncodeChar_eq_singleton (h c List.mem_cons_self),
      ih (fun d hd => h d (List.mem_cons_of_mem c hd))]
    rfl

/-- Whether a character is ASCII. -/
def IsAscii (c : Char) : Prop := c.toNat < 128

instance (c : Char) : Decidable (IsAscii c) := inferInstanceAs (Decidable (c.toNat < 128))

theorem isAscii_iff_utf8Size {c : Char} : IsAscii c ↔ c.utf8Size = 1 := by
  have hval : c.toNat = c.val.toNat := rfl
  rw [Char.utf8Size_eq_one_iff, UInt32.le_iff_toNat_le, IsAscii, hval,
    show (127 : UInt32).toNat = 127 from rfl]
  omega

/-- **The characters of a text whose bytes are ASCII.** -/
theorem toList_of_ascii {s : String} (h : ∀ b ∈ asBytes s, b.toNat < 128) :
    s.toList = (asBytes s).map fun b => Char.ofNat b.toNat := by
  rw [asBytes_eq_flatMap] at h ⊢
  generalize s.toList = cs at h ⊢
  induction cs with
  | nil => rfl
  | cons c cs ih =>
    rw [List.flatMap_cons] at h
    obtain ⟨b, bs, hbytes⟩ := List.exists_cons_of_ne_nil (l := String.utf8EncodeChar c) (by
      rw [← List.length_pos_iff, String.length_utf8EncodeChar]
      exact c.utf8Size_pos)
    have hmem : b ∈ String.utf8EncodeChar c := by
      rw [hbytes]
      exact List.mem_cons_self
    have hsmall := h b (List.mem_append_left _ hmem)
    have hcode := toNat_of_mem_utf8EncodeChar hmem hsmall
    have hsize : c.utf8Size = 1 := isAscii_iff_utf8Size.mp (show c.toNat < 128 by omega)
    have hone : bs = [] := by
      have hlen := String.length_utf8EncodeChar c
      rw [hbytes, hsize, List.length_cons] at hlen
      exact List.length_eq_zero_iff.mp (by omega)
    have hchar : Char.ofNat b.toNat = c := by
      rw [hcode, Char.ofNat_toNat]
    rw [List.flatMap_cons, hbytes, hone, List.map_append,
      ← ih fun d hd => h d (List.mem_append_right _ hd), List.map_singleton, hchar,
      List.singleton_append]

/-- Only ASCII text has as many bytes as characters. -/
theorem isAscii_of_length_asBytes {s : String} (h : (asBytes s).length = s.toList.length) :
    ∀ c ∈ s.toList, IsAscii c := by
  rw [asBytes_eq_flatMap] at h
  generalize s.toList = cs at h ⊢
  have hlonger : ∀ cs : List Char, cs.length ≤ (cs.flatMap String.utf8EncodeChar).length := by
    intro cs
    induction cs with
    | nil => exact Nat.le_refl _
    | cons c cs ih =>
      have hpos := c.utf8Size_pos
      rw [List.flatMap_cons, List.length_append, String.length_utf8EncodeChar, List.length_cons]
      omega
  induction cs with
  | nil => exact fun c hc => absurd hc List.not_mem_nil
  | cons c cs ih =>
    have hpos := c.utf8Size_pos
    have hrest := hlonger cs
    rw [List.flatMap_cons, List.length_append, String.length_utf8EncodeChar, List.length_cons] at h
    refine List.forall_mem_cons.mpr ⟨isAscii_iff_utf8Size.mpr (by omega), ih (by omega)⟩

/-! ## Bytes that are no string -/

/-- A byte that continues a character. -/
def isContinuation (b : UInt8) : Bool := 0x80 ≤ b && b ≤ 0xBF

/-- The number of bytes of a character, by its first one. -/
def charWidth (b : UInt8) : ℕ :=
  if b < 0x80 then 1
  else if 0xC2 ≤ b && b ≤ 0xDF then 2
  else if 0xE0 ≤ b && b ≤ 0xEF then 3
  else if 0xF0 ≤ b && b ≤ 0xF4 then 4
  else 0

/-- Whether the second byte may follow the first one of three or four. -/
def secondFits (first second : UInt8) : Bool :=
  if first = 0xE0 then 0xA0 ≤ second && second ≤ 0xBF
  else if first = 0xED then 0x80 ≤ second && second ≤ 0x9F
  else if first = 0xF0 then 0x90 ≤ second && second ≤ 0xBF
  else if first = 0xF4 then 0x80 ≤ second && second ≤ 0x8F
  else isContinuation second

/-- How many bytes of a broken character are replaced together: those that
could still have begun one. -/
def brokenLength (first : UInt8) : List UInt8 → ℕ
  | [] => 1
  | second :: rest =>
    if charWidth first < 3 || !secondFits first second then 1
    else if charWidth first = 4 && rest.head?.any isContinuation then 3
    else 2

/-- The characters of some bytes, `U+FFFD` for each broken one. A round
takes at least one byte. -/
def lossyChars : ℕ → List UInt8 → List Char
  | 0, _ => []
  | _ + 1, [] => []
  | rounds + 1, b :: bs =>
    let width := charWidth b
    match if width = 0 then none else fromUtf8 ((b :: bs).take width) with
    | some s => s.toList ++ lossyChars rounds ((b :: bs).drop width)
    | none => Char.ofNat 0xFFFD :: lossyChars rounds ((b :: bs).drop (brokenLength b bs))

/-- **The string that some bytes are taken for**: `from_utf8_lossy`. -/
def fromUtf8Lossy (bs : List UInt8) : String :=
  match fromUtf8 bs with
  | some s => s
  | none => String.ofList (lossyChars bs.length bs)

/-- Nothing is replaced in a string. -/
@[simp] theorem fromUtf8Lossy_asBytes (s : String) : fromUtf8Lossy (asBytes s) = s := by
  rw [fromUtf8Lossy, fromUtf8_asBytes]

end Oxibus
