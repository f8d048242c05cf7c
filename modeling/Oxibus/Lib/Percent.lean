import Oxibus.Lib.Text
import Oxibus.Lib.Utf8

/-!
# Percent-encoding

A byte that may not stand in a text as it is stands there as a `%` and its two
hexadecimal digits. Which bytes may is a parameter, `safe`; it is enough for
reading back that `%` is not among them and that all of them are ASCII.

The decoder takes a `%` for the start of a triplet only if two digits follow,
and for itself otherwise. It never refuses, so it reads back more texts than
the encoder writes.
-/

namespace Oxibus

/-- The number of a hexadecimal digit, in either case. -/
def hexVal (b : UInt8) : Option UInt8 :=
  if 48 ≤ b && b ≤ 57 then some (b - 48)
  else if 97 ≤ b && b ≤ 102 then some (b - 97 + 10)
  else if 65 ≤ b && b ≤ 70 then some (b - 65 + 10)
  else none

/-- The characters of a byte: itself if it is safe, a triplet if not. -/
def percentByte (safe : UInt8 → Bool) (b : UInt8) : List Char :=
  if safe b then [Char.ofNat b.toNat]
  else ['%', hexDigit (b.toNat / 16), hexDigit (b.toNat % 16)]

/-- **Bytes as text.** -/
def percentEncode (safe : UInt8 → Bool) (bs : List UInt8) : List Char :=
  bs.flatMap (percentByte safe)

/-- **Text as bytes.** A triplet needs two more bytes after its `%`. -/
def percentDecode : List UInt8 → List UInt8
  | [] => []
  | [b] => [b]
  | [b, c] => [b, c]
  | b :: c :: d :: rest =>
    if b = 37 then
      match hexVal c, hexVal d with
      | some high, some low => (high * 16 + low) :: percentDecode rest
      | _, _ => b :: percentDecode (c :: d :: rest)
    else b :: percentDecode (c :: d :: rest)

/-! ## What is written -/

/-- A hexadecimal digit, in either case. -/
def isHexDigit (c : Char) : Bool :=
  c.isDigit || ('a' ≤ c && c ≤ 'f') || ('A' ≤ c && c ≤ 'F')

theorem isHexDigit_hexDigit {n : ℕ} (h : n < 16) : isHexDigit (hexDigit n) = true := by
  have hall : ∀ n < 16, isHexDigit (hexDigit n) = true := by decide
  exact hall n h

/-- **Text in which every `%` starts a triplet**, and every other character is
a plain one. -/
inductive PercentText (plain : Char → Bool) : List Char → Prop
  | nil : PercentText plain []
  /-- A character that stands for itself. -/
  | plain {c : Char} {cs : List Char} : plain c = true → PercentText plain cs →
      PercentText plain (c :: cs)
  /-- Two digits after a `%`. -/
  | triplet {high low : Char} {cs : List Char} : isHexDigit high = true → isHexDigit low = true →
      PercentText plain cs → PercentText plain ('%' :: high :: low :: cs)

variable {safe : UInt8 → Bool} {plain : Char → Bool}

theorem percentText_percentEncode (hplain : ∀ b, safe b = true → plain (Char.ofNat b.toNat) = true)
    (bs : List UInt8) : PercentText plain (percentEncode safe bs) := by
  induction bs with
  | nil => exact .nil
  | cons b bs ih =>
    have hb := b.toNat_lt
    rw [percentEncode, List.flatMap_cons, percentByte]
    split
    · next hsafe => exact .plain (hplain b hsafe) ih
    · exact .triplet (isHexDigit_hexDigit (by omega)) (isHexDigit_hexDigit (by omega)) ih

/-- What stands in such a text is plain, a `%` or a digit. -/
theorem PercentText.mem {cs : List Char} (h : PercentText plain cs) {c : Char} (hc : c ∈ cs) :
    plain c = true ∨ c = '%' ∨ isHexDigit c = true := by
  induction h with
  | nil => exact absurd hc List.not_mem_nil
  | plain hplain _ ih =>
    rcases List.mem_cons.mp hc with rfl | hc
    · exact .inl hplain
    · exact ih hc
  | triplet hhigh hlow _ ih =>
    rcases List.mem_cons.mp hc with rfl | hc
    · exact .inr (.inl rfl)
    rcases List.mem_cons.mp hc with rfl | hc
    · exact .inr (.inr hhigh)
    rcases List.mem_cons.mp hc with rfl | hc
    · exact .inr (.inr hlow)
    · exact ih hc

/-- A character that is no plain one, no `%` and no digit does not stand in what is
encoded. -/
theorem not_mem_percentEncode (hplain : ∀ b, safe b = true → plain (Char.ofNat b.toNat) = true)
    {c : Char} (hc : plain c = false) (hpercent : c ≠ '%') (hdigit : isHexDigit c = false)
    (bs : List UInt8) : c ∉ percentEncode safe bs := by
  intro hmem
  rcases (percentText_percentEncode hplain bs).mem hmem with h | h | h
  · rw [hc] at h
    exact Bool.false_ne_true h
  · exact hpercent h
  · rw [hdigit] at h
    exact Bool.false_ne_true h

/-! ## Reading back -/

theorem hexVal_hexDigit {n : ℕ} (h : n < 16) :
    hexVal (asciiByte (hexDigit n)) = some (UInt8.ofNat n) := by
  have hall : ∀ n < 16, hexVal (asciiByte (hexDigit n)) = some (UInt8.ofNat n) := by decide
  exact hall n h

theorem percentDecode_cons_of_ne {b : UInt8} (hb : b ≠ 37) (bs : List UInt8) :
    percentDecode (b :: bs) = b :: percentDecode bs := by
  match bs with
  | [] => rfl
  | [_] => rfl
  | c :: d :: rest => rw [percentDecode, if_neg hb]

/-- A triplet is read as its byte, whatever follows. -/
theorem percentDecode_triplet (b : UInt8) (bs : List UInt8) :
    percentDecode (37 :: asciiByte (hexDigit (b.toNat / 16)) ::
      asciiByte (hexDigit (b.toNat % 16)) :: bs) = b :: percentDecode bs := by
  have hb := b.toNat_lt
  have hbyte : UInt8.ofNat (b.toNat / 16) * 16 + UInt8.ofNat (b.toNat % 16) = b := by
    rw [← UInt8.toNat_inj, UInt8.toNat_add, UInt8.toNat_mul, UInt8.toNat_ofNat',
      UInt8.toNat_ofNat', show (16 : UInt8).toNat = 16 from rfl]
    omega
  rw [percentDecode, if_pos rfl, hexVal_hexDigit (by omega), hexVal_hexDigit (by omega)]
  show (UInt8.ofNat (b.toNat / 16) * 16 + UInt8.ofNat (b.toNat % 16)) :: percentDecode bs = _
  rw [hbyte]

/-- What is encoded is ASCII. -/
theorem isAscii_of_mem_percentEncode (hascii : ∀ b, safe b = true → b.toNat < 128)
    {bs : List UInt8} {c : Char} (hc : c ∈ percentEncode safe bs) : IsAscii c := by
  have hdigit : ∀ n < 16, IsAscii (hexDigit n) := by decide
  obtain ⟨b, -, hc⟩ := List.mem_flatMap.mp hc
  have hb := b.toNat_lt
  rw [percentByte] at hc
  split at hc
  · next hsafe =>
    rw [List.mem_singleton.mp hc, IsAscii, toNat_ofNat_byte]
    exact hascii b hsafe
  · simp only [List.mem_cons, List.not_mem_nil, or_false] at hc
    rcases hc with rfl | rfl | rfl
    · decide
    · exact hdigit _ (by omega)
    · exact hdigit _ (by omega)

/-- **What is encoded is decoded again.** -/
theorem percentDecode_percentEncode (hpercent : safe 37 = false)
    (hascii : ∀ b, safe b = true → b.toNat < 128) (bs : List UInt8) :
    percentDecode ((percentEncode safe bs).map asciiByte) = bs := by
  induction bs with
  | nil => rfl
  | cons b bs ih =>
    rw [percentEncode, List.flatMap_cons, List.map_append, percentByte]
    split
    · next hsafe =>
      have hlt := hascii b hsafe
      have hne : b ≠ 37 := by
        rintro rfl
        rw [hpercent] at hsafe
        exact Bool.false_ne_true hsafe
      rw [List.map_singleton, List.singleton_append, asciiByte_ofNat, percentDecode_cons_of_ne hne]
      exact congrArg (b :: ·) ih
    · show percentDecode (37 :: asciiByte (hexDigit (b.toNat / 16)) ::
        asciiByte (hexDigit (b.toNat % 16)) :: (percentEncode safe bs).map asciiByte) = _
      rw [percentDecode_triplet, ih]

end Oxibus
