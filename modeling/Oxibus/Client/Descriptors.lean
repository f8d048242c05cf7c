import Oxibus.Core.Marshal

/-!
# Descriptors in arguments

A value that is handed to the client holds a file descriptor as it is, and a
value on the wire holds its place among the descriptors of the message. So
the descriptors are taken out of the arguments, from left to right, and each
leaves its place behind.

Neither the type of a value nor the length of its encoding depends on it, and
so a value can be encoded afterwards if and only if it can be before.
-/

namespace Oxibus

namespace Value

mutual

/-- Take the descriptors out of a value, after those that are there. -/
def walkFds : Value → List Int32 → Value × List Int32
  | unixFd fdRef, fds => (unixFd (UInt32.ofNat fds.length), fds ++ [fdRef.toInt32])
  | array elementType elements, fds =>
    let walked := extractFds elements fds
    (array elementType walked.1, walked.2)
  | struct fields, fds =>
    let walked := extractFds fields fds
    (struct walked.1, walked.2)
  | dictEntry k v, fds =>
    let key := walkFds k fds
    let val := walkFds v key.2
    (dictEntry key.1 val.1, val.2)
  | variant inner, fds =>
    let walked := walkFds inner fds
    (variant walked.1, walked.2)
  | v, fds => (v, fds)

/-- **Take the descriptors out of a list of values**, from left to right. -/
def extractFds : List Value → List Int32 → List Value × List Int32
  | [], fds => ([], fds)
  | v :: vs, fds =>
    let head := walkFds v fds
    let tail := extractFds vs head.2
    (head.1 :: tail.1, tail.2)

end

/-! ## Types -/

/-- The types of a list stay, when the type of each value does. -/
theorem valueTypes_extractFds_of {vs : List Value}
    (ih : ∀ v ∈ vs, ∀ fds, (walkFds v fds).1.valueType = v.valueType) (fds : List Int32) :
    valueTypes (extractFds vs fds).1 = valueTypes vs := by
  induction vs generalizing fds with
  | nil => rfl
  | cons v vs ihvs =>
    show (walkFds v fds).1.valueType :: valueTypes (extractFds vs (walkFds v fds).2).1 = _
    rw [ih v List.mem_cons_self, ihvs fun w hw => ih w (List.mem_cons_of_mem v hw)]
    rfl

/-- **A value keeps its type.** -/
theorem valueType_walkFds (v : Value) (fds : List Int32) :
    (walkFds v fds).1.valueType = v.valueType := by
  induction v using Value.inductionOn generalizing fds with
  | basic v hv =>
    cases basic_of_isBasic hv with
    | _ => rfl
  | array t vs ih => rfl
  | struct vs ih =>
    show DType.struct (valueTypes (extractFds vs fds).1) = DType.struct (valueTypes vs)
    rw [valueTypes_extractFds_of ih]
  | dictEntry k v ihk ihv =>
    show DType.dictEntry (walkFds k fds).1.valueType
      (walkFds v (walkFds k fds).2).1.valueType = _
    rw [ihk, ihv]
    rfl
  | variant inner ih => rfl

theorem valueTypes_extractFds (vs : List Value) (fds : List Int32) :
    valueTypes (extractFds vs fds).1 = valueTypes vs :=
  valueTypes_extractFds_of (fun v _ => valueType_walkFds v) fds

/-! ## Encodings -/

/-- Two sequences agree on errors and lengths when their parts do. -/
theorem length_bind_congr {x y : CoreResult (List UInt8)}
    {f g : List UInt8 → CoreResult (List UInt8)}
    (h : List.length <$> x = List.length <$> y)
    (hfg : ∀ a b, a.length = b.length → List.length <$> f a = List.length <$> g b) :
    List.length <$> (x >>= f) = List.length <$> (y >>= g) := by
  cases x with
  | ok a =>
    obtain ⟨b, hb, hlen⟩ := Outcome.map_eq_ok.mp h.symm
    rw [hb, Outcome.ok_bind, Outcome.ok_bind]
    exact hfg a b hlen.symm
  | err e =>
    cases y with
    | err e' =>
      cases h
      rfl
    | _ => cases h
  | panic =>
    cases y with
    | panic => rfl
    | _ => cases h
  | diverge =>
    cases y with
    | diverge => rfl
    | _ => cases h

/-- The encoding of a list keeps its length, when the encoding of each value
does. -/
theorem encodeAll_extractFds_of {be : Bool} {vs : List Value}
    (ih : ∀ v ∈ vs, ∀ fds p, List.length <$> (walkFds v fds).1.encode be p
      = List.length <$> v.encode be p) (fds : List Int32) (p : ℕ) :
    List.length <$> encodeAll be (extractFds vs fds).1 p = List.length <$> encodeAll be vs p := by
  induction vs generalizing fds p with
  | nil => rfl
  | cons v vs ihvs =>
    refine length_bind_congr (ih v List.mem_cons_self fds p) fun a b hab => ?_
    rw [hab]
    refine length_bind_congr (ihvs (fun w hw => ih w (List.mem_cons_of_mem v hw)) _ _)
      fun as bs has => ?_
    simp [hab, has]

/-- **The encoding of a value keeps its length**, and its error where there is
none. -/
theorem encode_walkFds (be : Bool) (v : Value) (fds : List Int32) (p : ℕ) :
    List.length <$> (walkFds v fds).1.encode be p = List.length <$> v.encode be p := by
  induction v using Value.inductionOn generalizing fds p with
  | basic v hv =>
    cases basic_of_isBasic hv with
    | unixFd index => simp [walkFds, encode]
    | _ => rfl
  | array t vs ih =>
    refine length_bind_congr (encodeAll_extractFds_of ih fds _) fun a b hab => ?_
    rw [hab]
    split
    · rfl
    · simp [hab]
  | struct vs ih =>
    refine length_bind_congr (encodeAll_extractFds_of ih fds _) fun a b hab => ?_
    simp [hab]
  | dictEntry k v ihk ihv =>
    refine length_bind_congr (ihk fds _) fun a b hab => ?_
    rw [hab]
    refine length_bind_congr (ihv _ _) fun c d hcd => ?_
    simp [hab, hcd]
  | variant inner ih =>
    show List.length <$> (Value.variant (walkFds inner fds).1).encode be p = _
    rw [encode, encode, valueType_walkFds]
    refine length_bind_congr rfl fun a b hab => ?_
    rw [hab]
    refine length_bind_congr (ih fds _) fun c d hcd => ?_
    simp [hab, hcd]

/-- **Values can be encoded without their descriptors if and only if they can be
with them.** -/
theorem isOk_encodeAll_extractFds (be : Bool) (vs : List Value) (fds : List Int32) (p : ℕ) :
    (encodeAll be (extractFds vs fds).1 p).isOk = (encodeAll be vs p).isOk := by
  have hisOk : ∀ x : CoreResult (List UInt8), (List.length <$> x).isOk = x.isOk := by
    intro x
    cases x <;> rfl
  rw [← hisOk, ← hisOk (encodeAll be vs p), encodeAll_extractFds_of fun v _ => encode_walkFds be v]

end Value

end Oxibus
