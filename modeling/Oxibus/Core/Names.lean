import Oxibus.Core.Types

/-!
# Well-known names and the grammar of bus names

The names of the bus itself, of its interfaces and signals, and of the
errors it replies with; and the check a bus name has to pass before a
connection can own it.
-/

namespace Oxibus

/-! ## The names of the bus -/

namespace WellKnown

def busName : String := "org.freedesktop.DBus"

def busPath : ObjectPath := ⟨"/org/freedesktop/DBus"⟩

def busInterface : String := "org.freedesktop.DBus"

def monitoringInterface : String := "org.freedesktop.DBus.Monitoring"

def statsInterface : String := "org.freedesktop.DBus.Debug.Stats"

def introspectableInterface : String := "org.freedesktop.DBus.Introspectable"

def peerInterface : String := "org.freedesktop.DBus.Peer"

def nameAcquired : String := "NameAcquired"

def nameLost : String := "NameLost"

def nameOwnerChanged : String := "NameOwnerChanged"

end WellKnown

/-! ## The names of errors -/

namespace Errors

def failed : String := "org.freedesktop.DBus.Error.Failed"

def serviceUnknown : String := "org.freedesktop.DBus.Error.ServiceUnknown"

def nameHasNoOwner : String := "org.freedesktop.DBus.Error.NameHasNoOwner"

def noReply : String := "org.freedesktop.DBus.Error.NoReply"

def badAddress : String := "org.freedesktop.DBus.Error.BadAddress"

def limitsExceeded : String := "org.freedesktop.DBus.Error.LimitsExceeded"

def accessDenied : String := "org.freedesktop.DBus.Error.AccessDenied"

def invalidArgs : String := "org.freedesktop.DBus.Error.InvalidArgs"

def unknownMethod : String := "org.freedesktop.DBus.Error.UnknownMethod"

def unknownObject : String := "org.freedesktop.DBus.Error.UnknownObject"

def unknownInterface : String := "org.freedesktop.DBus.Error.UnknownInterface"

def matchRuleNotFound : String := "org.freedesktop.DBus.Error.MatchRuleNotFound"

def matchRuleInvalid : String := "org.freedesktop.DBus.Error.MatchRuleInvalid"

def spawnExecFailed : String := "org.freedesktop.DBus.Error.Spawn.ExecFailed"

end Errors

/-! ## Bus names -/

/-- A letter or `_`, the first byte of an element of a dotted name. -/
def isNameStart (b : UInt8) : Bool :=
  (65 ≤ b && b ≤ 90) || (97 ≤ b && b ≤ 122) || b == 95

/-- Whether a byte string starts with the byte. -/
def startsWithColon (s : String) : Bool := (asBytes s).head? == some 58

/-- **The grammar of dotted names.** The separator and the letters are ASCII,
so the text is split and checked byte by byte. -/
def isValidDottedName (s : String) : Bool :=
  let bytes := asBytes s
  !bytes.isEmpty && bytes.length ≤ 255 && bytes.contains 46 &&
    (bytes.splitOn 46).all fun element =>
      match element with
      | [] => false
      | first :: rest => isNameStart first && rest.all isPathByte

/-- **The grammar of bus names**: a unique name after a colon, or a dotted
name. -/
def isValidBusName (s : String) : Bool :=
  match asBytes s with
  | 58 :: rest =>
    !rest.isEmpty && (asBytes s).length ≤ 255 &&
      (rest.splitOn 46).all fun element =>
        !element.isEmpty && element.all fun b => isPathByte b || b == 45
  | _ => isValidDottedName s

/-- **The unique name of a number**: `allocate_unique_name` formats the next
number of a counter. -/
def uniqueName (n : ℕ) : String := ":1." ++ toString n

/-- Unique names start with a colon. -/
@[simp] theorem startsWithColon_uniqueName (n : ℕ) : startsWithColon (uniqueName n) = true := by
  unfold startsWithColon uniqueName
  rw [asBytes_append]
  rfl

/-- No unique name is the name of the bus. -/
theorem uniqueName_ne_busName (n : ℕ) : uniqueName n ≠ WellKnown.busName := by
  intro h
  have hcolon := startsWithColon_uniqueName n
  rw [h] at hcolon
  exact absurd hcolon (by decide)

theorem toList_uniqueName (n : ℕ) : (uniqueName n).toList = ":1.".toList ++ Nat.toDigits 10 n := by
  have hdigits : (toString n).toList = Nat.toDigits 10 n := Nat.toList_repr
  rw [uniqueName, String.toList_append, hdigits]

/-- **Different numbers have different unique names.** -/
theorem uniqueName_injective {m n : ℕ} (h : uniqueName m = uniqueName n) : m = n := by
  have hlist := congrArg String.toList h
  rw [toList_uniqueName, toList_uniqueName] at hlist
  have hdigits := congrArg (fun cs => Nat.ofDigitChars 10 cs 0) (List.append_cancel_left hlist)
  simpa only [Nat.ofDigitChars_ten_toDigits] using hdigits

/-- A unique name is ASCII, without a zero byte. -/
theorem nulFree_uniqueName (n : ℕ) : (asBytes (uniqueName n)).contains 0 = false := by
  have hdigit : ∀ c ∈ Nat.toDigits 10 n, 48 ≤ c.val.toNat ∧ c.val.toNat ≤ 57 := fun c hc =>
    Char.isDigit_iff_toNat.mp (Nat.isDigit_of_mem_toDigits (by decide) (by decide) hc)
  have hbytes : asBytes (toString n) = (Nat.toDigits 10 n).map asciiByte := by
    rw [Nat.toString_eq_ofList_toDigits]
    refine asBytes_ofList fun c hc => Char.utf8Size_eq_one_iff.mpr ?_
    have hle := (hdigit c hc).2
    rw [UInt32.le_iff_toNat_le]
    exact Nat.le_trans hle (by decide)
  have hmem : (0 : UInt8) ∉ asBytes (uniqueName n) := by
    rw [uniqueName, asBytes_append, hbytes, List.mem_append]
    rintro (hzero | hzero)
    · exact absurd hzero (by decide)
    · obtain ⟨c, hc, hbyte⟩ := List.mem_map.mp hzero
      have hval := congrArg UInt8.toNat hbyte
      rw [asciiByte, UInt32.toNat_toUInt8] at hval
      have := hdigit c hc
      have hlt : c.val.toNat % 2 ^ 8 = c.val.toNat := Nat.mod_eq_of_lt (by omega)
      rw [hlt] at hval
      have hz : (0 : UInt8).toNat = 0 := rfl
      omega
  simpa using hmem

end Oxibus
