import Mathlib.Tactic.Ring
import Mathlib.Tactic.Linarith
import Mathlib.Data.List.Basic

/-!
# Fixed-width integers as bytes, and alignment

The two pieces of arithmetic every binary wire format rests on.

A natural number below `256 ^ w` is `w` bytes, least significant first or
most significant first; `ofBytes` reads back what `toBytes` writes
(`ofBytes_toBytes`), and writes back what it read (`toBytes_ofBytes`).

`padding p n` is the number of bytes that bring the offset `p` to a
multiple of `n`. What a format needs of it is that it depends on `p` modulo
any multiple of `n` only (`padding_congr`), since that is what lets an
encoding be moved to another offset.
-/

namespace Oxibus

/-! ## Integers -/

/-- The `w` low bytes of `n`, least significant first. -/
def leBytes : ℕ → ℕ → List UInt8
  | 0, _ => []
  | w + 1, n => UInt8.ofNat n :: leBytes w (n / 256)

/-- The number whose bytes, least significant first, are the list. -/
def ofLeBytes : List UInt8 → ℕ
  | [] => 0
  | b :: bs => b.toNat + 256 * ofLeBytes bs

/-- The `w` low bytes of `n` in the chosen byte order. -/
def toBytes (bigEndian : Bool) (w n : ℕ) : List UInt8 :=
  if bigEndian then (leBytes w n).reverse else leBytes w n

/-- The number the bytes spell in the chosen byte order. -/
def ofBytes (bigEndian : Bool) (bs : List UInt8) : ℕ :=
  if bigEndian then ofLeBytes bs.reverse else ofLeBytes bs

@[simp] theorem length_leBytes (w n : ℕ) : (leBytes w n).length = w := by
  induction w generalizing n with
  | zero => rfl
  | succ w ih => simp [leBytes, ih]

@[simp] theorem length_toBytes (be : Bool) (w n : ℕ) : (toBytes be w n).length = w := by
  cases be <;> simp [toBytes]

theorem ofLeBytes_leBytes {w n : ℕ} (h : n < 256 ^ w) : ofLeBytes (leBytes w n) = n := by
  induction w generalizing n with
  | zero =>
    have hn : n = 0 := by simpa using h
    simp [leBytes, ofLeBytes, hn]
  | succ w ih =>
    have hdiv : n / 256 < 256 ^ w := by
      rw [Nat.div_lt_iff_lt_mul (by decide)]
      simpa [pow_succ] using h
    have hbyte : (UInt8.ofNat n).toNat = n % 256 := by simp
    rw [leBytes, ofLeBytes, ih hdiv, hbyte]
    omega

/-- **An integer that fits its width reads back as itself.** -/
theorem ofBytes_toBytes (be : Bool) {w n : ℕ} (h : n < 256 ^ w) :
    ofBytes be (toBytes be w n) = n := by
  cases be <;> simp [ofBytes, toBytes, ofLeBytes_leBytes h]

theorem ofLeBytes_lt (bs : List UInt8) : ofLeBytes bs < 256 ^ bs.length := by
  induction bs with
  | nil => simp [ofLeBytes]
  | cons b bs ih =>
    have hb : b.toNat < 256 := b.toNat_lt
    rw [ofLeBytes, List.length_cons, pow_succ]
    omega

/-- What `w` bytes spell fits in `w` bytes. -/
theorem ofBytes_lt (be : Bool) (bs : List UInt8) : ofBytes be bs < 256 ^ bs.length := by
  cases be with
  | false => exact ofLeBytes_lt bs
  | true => simpa [ofBytes] using ofLeBytes_lt bs.reverse

theorem leBytes_ofLeBytes (bs : List UInt8) : leBytes bs.length (ofLeBytes bs) = bs := by
  induction bs with
  | nil => rfl
  | cons b bs ih =>
    have hb : b.toNat < 256 := b.toNat_lt
    have hdiv : (b.toNat + 256 * ofLeBytes bs) / 256 = ofLeBytes bs := by omega
    have hmod : UInt8.ofNat (b.toNat + 256 * ofLeBytes bs) = b := by
      apply UInt8.toNat_inj.mp
      simp only [UInt8.toNat_ofNat']
      omega
    rw [List.length_cons, leBytes, ofLeBytes, hdiv, ih, hmod]

/-- **Bytes that were read are the bytes writing the number gives.** -/
theorem toBytes_ofBytes (be : Bool) (bs : List UInt8) :
    toBytes be bs.length (ofBytes be bs) = bs := by
  cases be with
  | false => exact leBytes_ofLeBytes bs
  | true =>
    have h := leBytes_ofLeBytes bs.reverse
    rw [List.length_reverse] at h
    simp [toBytes, ofBytes, h]

/-! ## Alignment -/

/-- The number of bytes from the offset `p` to the next multiple of `n`. -/
def padding (p n : ℕ) : ℕ := (n - p % n) % n

theorem padding_eq_zero {p n : ℕ} (h : p % n = 0) : padding p n = 0 := by
  simp [padding, h]

theorem padding_eq_sub {p n : ℕ} (hn : 0 < n) (h : p % n ≠ 0) :
    padding p n = n - p % n := by
  have hlt : p % n < n := Nat.mod_lt p hn
  exact Nat.mod_eq_of_lt (by omega)

/-- After the padding the offset is a multiple of the alignment. -/
theorem add_padding_mod {p n : ℕ} (hn : 0 < n) : (p + padding p n) % n = 0 := by
  by_cases h : p % n = 0
  · rw [padding_eq_zero h, Nat.add_zero, h]
  · have hlt : p % n < n := Nat.mod_lt p hn
    rw [padding_eq_sub hn h, Nat.add_mod, Nat.mod_eq_of_lt (show n - p % n < n by omega)]
    rw [Nat.add_sub_cancel' hlt.le, Nat.mod_self]

/-- Nothing is padded at an aligned offset. -/
@[simp] theorem padding_add_padding {p n : ℕ} (hn : 0 < n) :
    padding (p + padding p n) n = 0 :=
  padding_eq_zero (add_padding_mod hn)

/-- **The padding depends on the offset only modulo the alignment.** -/
theorem padding_congr {p q n : ℕ} (h : p % n = q % n) : padding p n = padding q n := by
  simp [padding, h]

end Oxibus
