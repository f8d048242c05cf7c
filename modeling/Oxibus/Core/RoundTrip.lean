import Oxibus.Core.Encoding

/-!
# Decoding undoes encoding

`Value.WellFormed` is the language of values: what a caller may put in a
message. A well-formed value that can be written, with object paths that
are not longer than the wire's length field, reads back as itself, at any
offset, in either byte order, whatever comes before and after it
(`readValue_writeValue`), and so does a whole body (`unmarshalBody_marshalBody`).

The bound on object paths is not in `Value.WellFormed`, since nothing in the
source asks for it: `ObjectPath::new` looks at the characters only, and the
encoder writes the length modulo `2 ^ 32`. `readValue_ne_of_long_path` shows
that the bound cannot be left out.
-/

namespace Oxibus

namespace Value

mutual

/-- **The well-formed values.** The argument says whether a dict entry may
stand here, which is the case directly under an array. -/
def WellFormed : Bool → Value → Prop
  | _, string s => (asBytes s).contains 0 = false ∧ (asBytes s).length < 2 ^ 32
  | _, objectPath p => ObjectPath.new p.text = .ok p
  | _, signature sig => Signature.new sig.text = .ok sig
  | _, array t vs => (∀ v ∈ vs, v.valueType = t) ∧ WellFormedAll true vs
  | _, struct vs => vs ≠ [] ∧ WellFormedAll false vs
  | allow, dictEntry k v =>
      allow = true ∧ k.valueType.isBasic = true ∧ WellFormed false k ∧ WellFormed false v
  | _, variant inner =>
      (parseSingleCompleteType inner.valueType.toSignatureString).isOk = true ∧
        WellFormed false inner
  | _, _ => True

/-- Every value of a list is well formed. -/
def WellFormedAll : Bool → List Value → Prop
  | _, [] => True
  | allow, v :: vs => WellFormed allow v ∧ WellFormedAll allow vs

end

theorem wellFormedAll_iff {allow : Bool} {vs : List Value} :
    WellFormedAll allow vs ↔ ∀ v ∈ vs, v.WellFormed allow := by
  induction vs with
  | nil => simp [WellFormedAll]
  | cons v vs ih => simp [WellFormedAll, ih]

/-- **Every object path in the value is short enough for its length field.** -/
def PathsFit (v : Value) : Prop := ∀ s ∈ v.paths, (asBytes s).length < 2 ^ 32

theorem pathsFit_of_mem {vs : List Value} (h : ∀ s ∈ pathsAll vs, (asBytes s).length < 2 ^ 32)
    {v : Value} (hv : v ∈ vs) : v.PathsFit := by
  induction vs with
  | nil => cases hv
  | cons w vs ih =>
    intro s hs
    rcases List.mem_cons.mp hv with rfl | hv
    · exact h s (List.mem_append_left _ hs)
    · exact ih (fun s hs => h s (List.mem_append_right _ hs)) hv s hs

/-- A type whose signature parses is the type that is parsed. -/
theorem parseSingleCompleteType_toSignatureString {t : DType}
    (h : (parseSingleCompleteType t.toSignatureString).isOk = true) :
    parseSingleCompleteType t.toSignatureString = .ok t := by
  obtain ⟨t', ht'⟩ := Outcome.isOk_iff.mp h
  have hparse := parseSingleCompleteType_eq_ok.mp ht'
  rw [← signatureOf_singleton] at hparse
  have := eq_of_parseSignature_signatureOf hparse
  rw [ht', List.singleton_inj.mp this]

/-- **A well-formed value fits**, if its object paths do. -/
theorem fits_of_wellFormed {allow : Bool} {v : Value} (hwf : v.WellFormed allow)
    (hpaths : v.PathsFit) : v.Fits := by
  induction v using Value.inductionOn generalizing allow with
  | basic v hv =>
    cases basic_of_isBasic hv with
    | string s => exact hwf.2
    | objectPath path =>
      refine ⟨?_, hpaths _ (by simp [paths])⟩
      rw [WellFormed, ObjectPath.new] at hwf
      split at hwf
      · assumption
      · cases hwf
    | signature sig => exact (Signature.new_eq_ok.mp hwf).2
    | _ => trivial
  | array t vs ih =>
    refine ⟨hwf.1, fitsAll_iff.mpr fun v hv => ?_⟩
    exact ih v hv (wellFormedAll_iff.mp hwf.2 v hv) (pathsFit_of_mem hpaths hv)
  | struct vs ih =>
    refine ⟨hwf.1, fitsAll_iff.mpr fun v hv => ?_⟩
    exact ih v hv (wellFormedAll_iff.mp hwf.2 v hv) (pathsFit_of_mem hpaths hv)
  | dictEntry k v ihk ihv =>
    exact ⟨ihk hwf.2.2.1 fun s hs => hpaths s (List.mem_append_left _ hs),
      ihv hwf.2.2.2 fun s hs => hpaths s (List.mem_append_right _ hs)⟩
  | variant inner ih =>
    exact ⟨parseSingleCompleteType_toSignatureString hwf.1, ih hwf.2 hpaths⟩

end Value

open Unmarshaler in
/-- A layout that stands in a buffer is read from where it starts. -/
theorem readValue_of_layout {be : Bool} {v : Value} {pre out suf : List UInt8}
    (h : v.Layout be pre.length out) :
    readValue v.valueType ⟨pre ++ out ++ suf, pre.length, be⟩
      = .ok (v, ⟨pre ++ out ++ suf, (pre ++ out).length, be⟩) := by
  have hpos : pre.length ≤ (pre ++ out ++ suf).length := by simp
  have hrest : rest ⟨pre ++ out ++ suf, pre.length, be⟩ = out ++ suf := by simp [rest]
  rw [layoutRead v hpos h (consumes_of_rest hpos hrest)]
  simp [advance]

/-- **A value that was written reads back as itself.** -/
theorem readValue_writeValue {v : Value} (hfits : v.Fits) {m m' : Marshaler}
    (h : Marshaler.writeValue v m = .ok m') (suf : List UInt8) :
    Unmarshaler.readValue v.valueType ⟨m'.buf ++ suf, m.pos, m.bigEndian⟩
      = .ok (v, ⟨m'.buf ++ suf, m'.pos, m.bigEndian⟩) := by
  rw [Marshaler.writeValue_eq, Outcome.map_eq_ok] at h
  obtain ⟨out, hout, rfl⟩ := h
  exact readValue_of_layout (Value.layout_of_encode hfits hout)

/-- **A body that was built decodes to its values**, if its signature is one
the parser accepts. -/
theorem unmarshalBody_marshalBody {vs : List Value} (hfits : Value.FitsAll vs) {be : Bool}
    {bytes : List UInt8} {sig : String} (h : marshalBody vs be = .ok (bytes, sig))
    (hsig : (parseSignature sig).isOk = true) : unmarshalBody bytes sig be = .ok vs := by
  rw [marshalBody_eq, Outcome.map_eq_ok] at h
  obtain ⟨out, hout, h⟩ := h
  simp only [Prod.mk.injEq] at h
  obtain ⟨rfl, rfl⟩ := h
  obtain ⟨ts, hts⟩ := Outcome.isOk_iff.mp hsig
  obtain rfl := eq_of_parseSignature_signatureOf hts
  have hrest : (Unmarshaler.new out be).rest = out ++ [] := by
    simp [Unmarshaler.rest, Unmarshaler.new]
  have hcons := Unmarshaler.consumes_of_rest (Nat.zero_le _) hrest
  have hread := (Unmarshaler.readValues_eq_ok (parseSignature_reads hts).2.2
    (Nat.zero_le _)).mpr ⟨rfl, out, Value.layoutAll_of_encodeAll hfits hout, hcons⟩
  rw [unmarshalBody, hts, Outcome.ok_bind, hread]
  rfl

/-- **Decoding undoes encoding**, for single values in any surroundings and
for bodies. -/
theorem decode_encode :
    (∀ v : Value, v.WellFormed false → v.PathsFit → ∀ (m m' : Marshaler) (suf : List UInt8),
      Marshaler.writeValue v m = .ok m' →
      Unmarshaler.readValue v.valueType ⟨m'.buf ++ suf, m.pos, m.bigEndian⟩
        = .ok (v, ⟨m'.buf ++ suf, m'.pos, m.bigEndian⟩)) ∧
    (∀ vs : List Value, (∀ v ∈ vs, v.WellFormed false ∧ v.PathsFit) →
      ∀ (be : Bool) (bytes : List UInt8) (sig : String),
      marshalBody vs be = .ok (bytes, sig) → (parseSignature sig).isOk = true →
      unmarshalBody bytes sig be = .ok vs) := by
  constructor
  · intro v hwf hpaths m m' suf h
    exact readValue_writeValue (Value.fits_of_wellFormed hwf hpaths) h suf
  · intro vs hvs be bytes sig h hsig
    refine unmarshalBody_marshalBody (Value.fitsAll_iff.mpr fun v hv => ?_) h hsig
    exact Value.fits_of_wellFormed (hvs v hv).1 (hvs v hv).2

/-- A struct with a string and a variant of an array, written after three
bytes. -/
theorem decode_encode_struct :
    ∃ m', Marshaler.writeValue
        (.struct [.string "ab", .variant (.array .uint16 [.uint16 7, .uint16 8])])
        ⟨[1, 2, 3], true⟩ = .ok m' ∧
      Unmarshaler.readValue (.struct [.string, .variant]) ⟨m'.buf ++ [9], 3, true⟩
        = .ok (.struct [.string "ab", .variant (.array .uint16 [.uint16 7, .uint16 8])],
            ⟨m'.buf ++ [9], m'.pos, true⟩) := by
  refine ⟨_, rfl, decode_encode.1 (.struct [.string "ab", .variant (.array .uint16
    [.uint16 7, .uint16 8])]) ⟨by simp, ?_, ⟨by decide, ?_⟩, trivial⟩ ?_
    ⟨[1, 2, 3], true⟩ _ [9] rfl⟩
  · exact ⟨by decide, by decide⟩
  · exact ⟨by simp [Value.valueType], trivial, trivial, trivial⟩
  · simp [Value.PathsFit, Value.paths, Value.pathsAll]

/-! ## Object paths longer than the length field -/

/-- The object path of one element of `n` letters. -/
def longPath (n : ℕ) : ObjectPath := ⟨String.ofList ('/' :: List.replicate n 'a')⟩

theorem asBytes_longPath (n : ℕ) :
    asBytes (longPath n).text = 47 :: List.replicate n 97 := by
  have hone : ∀ c ∈ '/' :: List.replicate n 'a', c.utf8Size = 1 := by
    intro c hc
    rcases List.mem_cons.mp hc with rfl | hc
    · rfl
    · rw [List.eq_of_mem_replicate hc]
      rfl
  rw [longPath, asBytes_ofList hone, List.map_cons, List.map_replicate]
  rfl

theorem isValidObjectPath_longPath (n : ℕ) :
    isValidObjectPath (longPath (n + 1)).text = true := by
  have hsplit : (List.replicate (n + 1) (97 : UInt8)).splitOn 47
      = [List.replicate (n + 1) 97] := by
    apply List.splitOn_eq_singleton
    intro h
    exact absurd (List.eq_of_mem_replicate h) (by decide)
  unfold isValidObjectPath
  rw [asBytes_longPath]
  simp only [hsplit, List.getLast?_replicate]
  simp [List.replicate_succ, isPathByte]

/-- **An object path of `2 ^ 32` bytes or more is written but does not read
back.** -/
theorem readValue_ne_of_long_path {n : ℕ} (hn : 2 ^ 32 ≤ n + 2) (m : Marshaler)
    (suf : List UInt8) : ∃ m', Marshaler.writeValue (.objectPath (longPath (n + 1))) m = .ok m' ∧
      ∀ u', Unmarshaler.readValue .objectPath ⟨m'.buf ++ suf, m.pos, m.bigEndian⟩
        ≠ .ok (.objectPath (longPath (n + 1)), u') := by
  have hnul := zero_notMem_of_isValidObjectPath (isValidObjectPath_longPath n)
  refine ⟨_, by rw [Marshaler.writeValue_eq, Value.encode, Value.encodeRawString, hnul]; rfl, ?_⟩
  intro u' h
  have hpos : m.pos ≤ ((m.extend (Value.encodeUInt m.bigEndian 4
      ((asBytes (longPath (n + 1)).text).length % 2 ^ 32) m.pos ++
        asBytes (longPath (n + 1)).text ++ [0])).buf ++ suf).length := by
    simp only [Marshaler.extend_buf, List.length_append, Marshaler.pos]
    omega
  have hwf : DType.objectPath.WellFormed false := by simp [DType.WellFormed]
  obtain ⟨-, bs, ⟨-, hlen, -⟩, -⟩ := (Unmarshaler.readValue_eq_ok hwf hpos).mp h
  rw [asBytes_longPath, List.length_cons, List.length_replicate] at hlen
  omega

/-- **The bound on object paths is needed**: a well-formed path of `2 ^ 32`
bytes does not read back. -/
theorem decode_encode_fails_on_long_path :
    (Value.objectPath (longPath (4294967294 + 1))).WellFormed false ∧
      ∃ m', Marshaler.writeValue (.objectPath (longPath (4294967294 + 1)))
          (Marshaler.new false) = .ok m' ∧
        Unmarshaler.readValue .objectPath ⟨m'.buf ++ [], 0, false⟩
          ≠ .ok (.objectPath (longPath (4294967294 + 1)), ⟨m'.buf ++ [], m'.pos, false⟩) := by
  constructor
  · rw [Value.WellFormed, ObjectPath.new, isValidObjectPath_longPath]
    rfl
  · obtain ⟨m', hwrite, hread⟩ :=
      readValue_ne_of_long_path (n := 4294967294) (by decide) (Marshaler.new false) []
    exact ⟨m', hwrite, hread _⟩

end Oxibus
