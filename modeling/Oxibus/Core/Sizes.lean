import Oxibus.Core.Forwarding

/-!
# The size of an encoded message

The reader refuses a frame longer than `maxMessageLen`, and the encoder
refuses an array longer than `maxArrayLen`. Nothing bounds the sum: a body
of several arrays, a body of long strings, or a frame at the limit that is
stamped with a sender can be encoded and is longer than any reader takes.
Past 2^32 bytes the length fields themselves are wrong, since a length is
cast to 32 bits when it is written.

`Value.size` is the number of bytes a value takes, computed without
encoding it, and `Message.wireSize` that of a message. What the size rules
ask of a frame (`Message.Sized`) holds exactly of the messages whose size is
within the limit (`Message.sized_iff`), so a bound on that number is all the
encoder would have to check.
-/

namespace Oxibus

/-- The length of a frame in bytes. -/
def maxMessageLen : ℕ := 134217728

/-! ## The bytes a value takes -/

namespace Value

mutual

/-- **The bytes a value takes from the offset `p` on**, with the padding
before it. -/
def size : Value → ℕ → ℕ
  | byte _, _ => 1
  | boolean _, p => padding p 4 + 4
  | int16 _, p => padding p 2 + 2
  | uint16 _, p => padding p 2 + 2
  | int32 _, p => padding p 4 + 4
  | uint32 _, p => padding p 4 + 4
  | int64 _, p => padding p 8 + 8
  | uint64 _, p => padding p 8 + 8
  | double _, p => padding p 8 + 8
  | string s, p => padding p 4 + 4 + ((asBytes s).length + 1)
  | objectPath path, p => padding p 4 + 4 + ((asBytes path.text).length + 1)
  | signature sig, _ => (asBytes sig.text).length + 2
  | unixFd _, p => padding p 4 + 4
  | array t vs, p =>
    padding p 4 + 4 + padding (p + padding p 4 + 4) t.alignment + sizeAll vs (arrayStart t p)
  | struct vs, p => padding p 8 + sizeAll vs (p + padding p 8)
  | dictEntry k v, p =>
    padding p 8 + size k (p + padding p 8) +
      size v (p + padding p 8 + size k (p + padding p 8))
  | variant inner, p =>
    inner.valueType.sigBytes.length + 2 + size inner (p + (inner.valueType.sigBytes.length + 2))

/-- The bytes values take one after the other, the first from the offset
`p` on. -/
def sizeAll : List Value → ℕ → ℕ
  | [], _ => 0
  | v :: vs, p => size v p + sizeAll vs (p + size v p)

end

theorem length_of_encodeSignatureStr {s : String} {out : List UInt8}
    (h : encodeSignatureStr s = .ok out) : out.length = (asBytes s).length + 2 := by
  rw [signatureBytes_of_encode h, length_signatureBytes]

/-- Values in sequence take the bytes of each. -/
theorem length_of_encodeAll_of {be : Bool} {vs : List Value}
    (ih : ∀ v ∈ vs, ∀ {p out}, v.encode be p = .ok out → out.length = v.size p) {p : ℕ}
    {out : List UInt8} (h : encodeAll be vs p = .ok out) : out.length = sizeAll vs p := by
  induction vs generalizing p out with
  | nil =>
    cases h
    rfl
  | cons v vs ihvs =>
    obtain ⟨b, hb, h⟩ := Outcome.bind_eq_ok.mp h
    obtain ⟨bs, hbs, h⟩ := Outcome.bind_eq_ok.mp h
    cases h
    have hlen := ih v List.mem_cons_self hb
    rw [hlen] at hbs
    rw [List.length_append, sizeAll, hlen,
      ihvs (fun w hw => ih w (List.mem_cons_of_mem v hw)) hbs]

/-- **A value is encoded in as many bytes as it takes.** -/
theorem length_of_encode {be : Bool} {v : Value} {p : ℕ} {out : List UInt8}
    (h : v.encode be p = .ok out) : out.length = v.size p := by
  have htext : ∀ {s : String} {p : ℕ} {out : List UInt8}, encodeRawString be s p = .ok out →
      out.length = padding p 4 + 4 + ((asBytes s).length + 1) := by
    intro s p out h
    unfold encodeRawString at h
    split at h
    · cases h
    · cases h
      simp [Nat.add_assoc]
  induction v using Value.inductionOn generalizing p out with
  | basic v hv =>
    cases basic_of_isBasic hv with
    | byte v =>
      cases h
      rfl
    | string s => exact htext h
    | objectPath path => exact htext h
    | signature sig => exact length_of_encodeSignatureStr h
    | _ =>
      cases h
      exact length_encodeUInt ..
  | array t vs ih =>
    obtain ⟨body, hbody, h⟩ := Outcome.bind_eq_ok.mp h
    split at h
    · cases h
    · cases h
      rw [size, ← length_of_encodeAll_of ih hbody]
      simp [Nat.add_assoc]
  | struct vs ih =>
    obtain ⟨body, hbody, h⟩ := Outcome.bind_eq_ok.mp h
    cases h
    rw [size, ← length_of_encodeAll_of ih hbody]
    simp
  | dictEntry k v ihk ihv =>
    obtain ⟨kb, hkb, h⟩ := Outcome.bind_eq_ok.mp h
    obtain ⟨vb, hvb, h⟩ := Outcome.bind_eq_ok.mp h
    cases h
    rw [size, ← ihk hkb, ← ihv hvb]
    simp [Nat.add_assoc]
  | variant inner ih =>
    obtain ⟨sig, hsig, h⟩ := Outcome.bind_eq_ok.mp h
    obtain ⟨body, hbody, h⟩ := Outcome.bind_eq_ok.mp h
    cases h
    have hlen := length_of_encodeSignatureStr hsig
    rw [DType.asBytes_toSignatureString] at hlen
    rw [hlen] at hbody
    rw [List.length_append, hlen, ih hbody, size]

theorem length_of_encodeAll {be : Bool} {vs : List Value} {p : ℕ} {out : List UInt8}
    (h : encodeAll be vs p = .ok out) : out.length = sizeAll vs p :=
  length_of_encodeAll_of (fun _ _ _ _ => length_of_encode) h

/-! ## Its length fields -/

/-- The number in the four bytes an aligned length is written in, in bytes
that start at the offset `p`. -/
def lengthField (be : Bool) (p : ℕ) (bs : List UInt8) : ℕ :=
  ofBytes be ((bs.drop (padding p 4)).take 4)

mutual

/-- **Every length field of the value is the length it stands for**, in
bytes that start with the value at the offset `p`. -/
def Measured (be : Bool) : Value → ℕ → List UInt8 → Prop
  | string s, p, bs => lengthField be p bs = (asBytes s).length
  | objectPath path, p, bs => lengthField be p bs = (asBytes path.text).length
  | signature sig, _, bs => ofBytes be (bs.take 1) = (asBytes sig.text).length
  | array t vs, p, bs => lengthField be p bs = sizeAll vs (arrayStart t p) ∧
      MeasuredAll be vs (arrayStart t p) (bs.drop (arrayStart t p - p))
  | struct vs, p, bs => MeasuredAll be vs (p + padding p 8) (bs.drop (padding p 8))
  | dictEntry k v, p, bs => Measured be k (p + padding p 8) (bs.drop (padding p 8)) ∧
      Measured be v (p + padding p 8 + k.size (p + padding p 8))
        (bs.drop (padding p 8 + k.size (p + padding p 8)))
  | variant inner, p, bs => ofBytes be (bs.take 1) = inner.valueType.sigBytes.length ∧
      Measured be inner (p + (inner.valueType.sigBytes.length + 2))
        (bs.drop (inner.valueType.sigBytes.length + 2))
  | _, _, _ => True

/-- The same for values one after the other. -/
def MeasuredAll (be : Bool) : List Value → ℕ → List UInt8 → Prop
  | [], _, _ => True
  | v :: vs, p, bs => Measured be v p bs ∧ MeasuredAll be vs (p + v.size p) (bs.drop (v.size p))

end

/-- A length below 2^32 is written as it is. -/
theorem lengthField_encodeUInt {be : Bool} {n p : ℕ} (hn : n < 2 ^ 32) (r : List UInt8) :
    lengthField be p (encodeUInt be 4 n p ++ r) = n := by
  have hdrop : (encodeUInt be 4 n p ++ r).drop (padding p 4) = toBytes be 4 n ++ r := by
    rw [encodeUInt, List.append_assoc, List.drop_left' (length_zeros p 4)]
  rw [lengthField, hdrop, List.take_left' (length_toBytes be 4 n), ofBytes_toBytes be hn]

/-- A signature's length is written in one byte, which is enough. -/
theorem ofBytes_take_encodeSignatureStr {be : Bool} {s : String} {out : List UInt8}
    (h : encodeSignatureStr s = .ok out) (r : List UInt8) :
    ofBytes be ((out ++ r).take 1) = (asBytes s).length := by
  unfold encodeSignatureStr at h
  split at h
  · cases h
  · next hlen =>
    cases h
    have hbyte : (UInt8.ofNat (asBytes s).length).toNat = (asBytes s).length :=
      UInt8.toNat_ofNat_of_lt' (Nat.lt_succ_of_le (Nat.not_lt.mp hlen))
    cases be <;> simpa [ofBytes, ofLeBytes] using hbyte

/-- Values in sequence are measured, when each of them is. -/
theorem measuredAll_of_encodeAll_of {be : Bool} {vs : List Value}
    (ih : ∀ v ∈ vs, ∀ {p out}, v.encode be p = .ok out → v.size p < 2 ^ 32 →
      ∀ r, v.Measured be p (out ++ r)) {p : ℕ} {out : List UInt8}
    (h : encodeAll be vs p = .ok out) (hsize : sizeAll vs p < 2 ^ 32) (r : List UInt8) :
    MeasuredAll be vs p (out ++ r) := by
  induction vs generalizing p out with
  | nil => trivial
  | cons v vs ihvs =>
    obtain ⟨b, hb, h⟩ := Outcome.bind_eq_ok.mp h
    obtain ⟨bs, hbs, h⟩ := Outcome.bind_eq_ok.mp h
    cases h
    have hlen := length_of_encode hb
    rw [hlen] at hbs
    rw [sizeAll] at hsize
    rw [MeasuredAll, List.append_assoc]
    refine ⟨ih v List.mem_cons_self hb (by omega) _, ?_⟩
    rw [List.drop_left' hlen]
    exact ihvs (fun w hw => ih w (List.mem_cons_of_mem v hw)) hbs (by omega)

/-- **The encoder writes true lengths**, as long as the value is shorter
than 2^32 bytes. -/
theorem measured_of_encode {be : Bool} {v : Value} {p : ℕ} {out : List UInt8}
    (h : v.encode be p = .ok out) (hsize : v.size p < 2 ^ 32) (r : List UInt8) :
    v.Measured be p (out ++ r) := by
  have htext : ∀ {s : String} {p : ℕ} {out : List UInt8}, encodeRawString be s p = .ok out →
      (asBytes s).length < 2 ^ 32 → ∀ r, lengthField be p (out ++ r) = (asBytes s).length := by
    intro s p out h hs r
    unfold encodeRawString at h
    split at h
    · cases h
    · cases h
      rw [Nat.mod_eq_of_lt hs, List.append_assoc, List.append_assoc]
      exact lengthField_encodeUInt hs _
  induction v using Value.inductionOn generalizing p out r with
  | basic v hv =>
    cases basic_of_isBasic hv with
    | string s =>
      rw [size] at hsize
      exact htext h (by omega) r
    | objectPath path =>
      rw [size] at hsize
      exact htext h (by omega) r
    | signature sig => exact ofBytes_take_encodeSignatureStr h r
    | _ => trivial
  | array t vs ih =>
    obtain ⟨body, hbody, h⟩ := Outcome.bind_eq_ok.mp h
    split at h
    · cases h
    · cases h
      have hlen := length_of_encodeAll hbody
      rw [size] at hsize
      rw [Measured, ← hlen]
      refine ⟨?_, ?_⟩
      · rw [List.append_assoc, List.append_assoc]
        exact lengthField_encodeUInt (by omega) _
      · have hstart : arrayStart t p - p = (encodeUInt be 4 body.length p ++
            zeros (p + padding p 4 + 4) t.alignment).length := by
          simp only [List.length_append, length_encodeUInt, length_zeros, arrayStart]
          omega
        rw [List.append_assoc, List.drop_left' hstart.symm]
        exact measuredAll_of_encodeAll_of (fun w hw _ _ hw' hs r => ih w hw hw' hs r) hbody
          (by omega) r
  | struct vs ih =>
    obtain ⟨body, hbody, h⟩ := Outcome.bind_eq_ok.mp h
    cases h
    rw [size] at hsize
    rw [Measured, List.append_assoc, List.drop_left' (length_zeros p 8)]
    exact measuredAll_of_encodeAll_of (fun w hw _ _ hw' hs r => ih w hw hw' hs r) hbody (by omega) r
  | dictEntry k v ihk ihv =>
    obtain ⟨kb, hkb, h⟩ := Outcome.bind_eq_ok.mp h
    obtain ⟨vb, hvb, h⟩ := Outcome.bind_eq_ok.mp h
    cases h
    have hlen := length_of_encode hkb
    rw [hlen] at hvb
    rw [size] at hsize
    rw [Measured]
    refine ⟨?_, ?_⟩
    · rw [List.append_assoc, List.append_assoc, List.drop_left' (length_zeros p 8)]
      exact ihk hkb (by omega) _
    · have hboth : (zeros p 8 ++ kb).length = padding p 8 + k.size (p + padding p 8) := by
        rw [List.length_append, length_zeros, hlen]
      rw [List.append_assoc, List.drop_left' hboth]
      exact ihv hvb (by omega) r
  | variant inner ih =>
    obtain ⟨sig, hsig, h⟩ := Outcome.bind_eq_ok.mp h
    obtain ⟨body, hbody, h⟩ := Outcome.bind_eq_ok.mp h
    cases h
    have hlen := length_of_encodeSignatureStr hsig
    have hbyte : ofBytes be _ = _ := ofBytes_take_encodeSignatureStr hsig (body ++ r)
    rw [DType.asBytes_toSignatureString] at hlen hbyte
    rw [hlen] at hbody
    rw [size] at hsize
    rw [Measured, List.append_assoc, List.drop_left' hlen]
    exact ⟨hbyte, ih hbody (by omega) r⟩

theorem measuredAll_of_encodeAll {be : Bool} {vs : List Value} {p : ℕ} {out : List UInt8}
    (h : encodeAll be vs p = .ok out) (hsize : sizeAll vs p < 2 ^ 32) (r : List UInt8) :
    MeasuredAll be vs p (out ++ r) :=
  measuredAll_of_encodeAll_of (fun _ _ _ _ hv hs r => measured_of_encode hv hs r) h hsize r

end Value

/-! ## The bytes a message takes -/

namespace Message

/-- Where the body of the encoded message starts. -/
def bodyStart (m : Message) : ℕ :=
  let headerLen := 12 + (MessageHeader.fieldsValue m.wireFields).size 12
  headerLen + padding headerLen 8

/-- **The bytes a message takes.** -/
def wireSize (m : Message) : ℕ := m.bodyStart + Value.sizeAll m.body 0

/-- **What the size rules of a reader ask of a frame**: it is not too long,
and each length in it is the length of what it is about – the body's, and
those of every string and every array of the header and of the body. -/
structure Sized (m : Message) (out : List UInt8) : Prop where
  length_le : out.length ≤ maxMessageLen
  bodyLength_eq : ofBytes m.header.bigEndian ((out.drop 4).take 4) = (out.drop m.bodyStart).length
  fields_measured :
  (MessageHeader.fieldsValue m.wireFields).Measured m.header.bigEndian 12 (out.drop 12)
  body_measured : Value.MeasuredAll m.header.bigEndian m.body 0 (out.drop m.bodyStart)

/-- **A message is encoded in as many bytes as it takes.** -/
theorem length_of_toBytes_eq {m : Message} {out : List UInt8} (h : m.toBytes = .ok out) :
    out.length = m.wireSize := by
  obtain ⟨-, bodyBytes, arr, hbody, -, harr, rfl⟩ := toBytes_eq_ok.mp h
  rw [wireSize, bodyStart, ← Value.length_of_encode harr, ← Value.length_of_encodeAll hbody]
  simp [Nat.add_assoc]

/-- A message within the limit has true lengths in all of its fields. -/
theorem sized_of_wireSize_le {m : Message} {out : List UInt8} (h : m.toBytes = .ok out)
    (hsize : m.wireSize ≤ maxMessageLen) : m.Sized out := by
  have hlength := length_of_toBytes_eq h
  have hmax : maxMessageLen < 2 ^ 32 := by decide
  obtain ⟨-, bodyBytes, arr, hbody, -, harr, rfl⟩ := toBytes_eq_ok.mp h
  have hfixed := (m.wireHeader bodyBytes.length).length_fixedBytes
  have harrLen := Value.length_of_encode harr
  have hbodyLen := Value.length_of_encodeAll hbody
  rw [wireSize, bodyStart] at hsize
  have hbodyShort : bodyBytes.length < 2 ^ 32 := by omega
  have hstart : ((m.wireHeader bodyBytes.length).fixedBytes ++
      (arr ++ zeros (12 + arr.length) 8)).length = m.bodyStart := by
    rw [List.length_append, List.length_append, hfixed, length_zeros, harrLen, bodyStart]
    simp only [Nat.add_assoc]
  have hdrop : List.drop m.bodyStart ((m.wireHeader bodyBytes.length).fixedBytes ++
      (arr ++ (zeros (12 + arr.length) 8 ++ bodyBytes))) = bodyBytes := by
    rw [← List.append_assoc arr, ← List.append_assoc, List.drop_left' hstart]
  refine ⟨?_, ?_, ?_, ?_⟩
  · rw [hlength, wireSize, bodyStart]
    exact hsize
  · rw [hdrop]
    have hnum : (UInt32.ofNat bodyBytes.length).toNat = bodyBytes.length :=
      UInt32.toNat_ofNat_of_lt' hbodyShort
    simp only [MessageHeader.fixedBytes, wireHeader, hnum, List.cons_append, List.nil_append,
      List.drop_succ_cons, List.drop_zero, List.append_assoc]
    rw [List.take_left' (length_toBytes ..), ofBytes_toBytes _ hbodyShort]
  · rw [List.drop_left' hfixed]
    exact Value.measured_of_encode harr (by omega) _
  · rw [hdrop]
    have hall := Value.measuredAll_of_encodeAll hbody (by omega) []
    rwa [List.append_nil] at hall

/-- **The encoder's frames obey the size rules exactly where the message is
small enough.** -/
theorem sized_iff {m : Message} {out : List UInt8} (h : m.toBytes = .ok out) :
    m.Sized out ↔ m.wireSize ≤ maxMessageLen := by
  constructor
  · intro hsized
    rw [← length_of_toBytes_eq h]
    exact hsized.length_le
  · exact sized_of_wireSize_le h

/-! ## Two long arrays -/

/-- A reply with two arrays of zero bytes. -/
def twoArrays (bodyLength : UInt32) (fields : List HeaderField) (a b : ℕ) : Message where
  header := ⟨false, .methodReturn, 0, 1, bodyLength, 1, fields⟩
  body := [.array .byte (List.replicate a (.byte 0)), .array .byte (List.replicate b (.byte 0))]
  fds := []

theorem sizeAll_zeroBytes (n p : ℕ) : Value.sizeAll (List.replicate n (.byte 0)) p = n := by
  induction n generalizing p with
  | zero => rfl
  | succ n ih =>
    rw [List.replicate_succ, Value.sizeAll, ih, Value.size, Nat.add_comm]

theorem encodeAll_zeroBytes (be : Bool) (n p : ℕ) :
    Value.encodeAll be (List.replicate n (.byte 0)) p = .ok (List.replicate n 0) := by
  induction n generalizing p with
  | zero => rfl
  | succ n ih =>
    rw [List.replicate_succ, Value.encodeAll, Value.encode, Outcome.ok_bind, ih]
    rfl

/-- Two arrays of whole words take their bytes and a length each. -/
theorem sizeAll_twoArrays (n : UInt32) (fields : List HeaderField) {a : ℕ}
    (ha : a % 4 = 0) (b : ℕ) :
    Value.sizeAll (twoArrays n fields a b).body 0 = a + b + 8 := by
  have hone : ∀ p, padding p 1 = 0 := fun p => padding_eq_zero (Nat.mod_one p)
  have hword : padding (4 + a) 4 = 0 := padding_eq_zero (by omega)
  simp only [twoArrays, Value.sizeAll, Value.size, sizeAll_zeroBytes, DType.alignment, hone,
    show padding 0 4 = 0 from rfl, Nat.zero_add, Nat.add_zero, hword]
  omega

/-- The two arrays can be sent with any fields that a reply can have. -/
theorem isOk_toBytes_twoArrays {n : UInt32} {fields : List HeaderField} {a b : ℕ}
    (ha : a ≤ maxArrayLen)
    (hb : b ≤ maxArrayLen) (hvalid : ∀ f ∈ fields, f.Valid)
    (hreply : ((twoArrays n fields a b).wireHeader 0).replySerial.isSome = true)
    (hnul : ∀ f ∈ (twoArrays n fields a b).wireFields, f.toValue.NulFree)
    (hsizes : HeaderField.sizes (twoArrays n fields a b).wireFields 16 ≤ maxArrayLen) :
    (twoArrays n fields a b).toBytes.isOk = true := by
  have harray : ∀ (n p : ℕ), n ≤ maxArrayLen →
      ∃ out, Value.encode false (.array .byte (List.replicate n (.byte 0))) p = .ok out := by
    intro n p hn
    have hlen : ¬ n > maxArrayLen := by omega
    rw [Value.encode, encodeAll_zeroBytes, Outcome.ok_bind, List.length_replicate, if_neg hlen]
    exact ⟨_, rfl⟩
  have hsig : (twoArrays n fields a b).bodySignature = "ayay" := rfl
  obtain ⟨out, hout⟩ := harray a 0 ha
  obtain ⟨out', hout'⟩ := harray b (0 + out.length) hb
  refine (isOk_toBytes_iff hvalid).mpr
    ⟨Or.inr (by rw [hsig]; decide +kernel), out ++ (out' ++ []), ?_,
    validate_eq_ok.mpr hreply, hnul, hsizes⟩
  show Value.encodeAll false [_, _] 0 = _
  simp only [Value.encodeAll, hout, hout', Outcome.ok_bind]

theorem wireFields_twoArrays (n : UInt32) (fields : List HeaderField) (a b : ℕ) :
    (twoArrays n fields a b).wireFields =
      (fields.filter fun f : HeaderField => !f.isBodyField) ++ [.signature ⟨"ayay"⟩] ++ [] := rfl

theorem fitsAll_twoArrays (n : UInt32) (fields : List HeaderField) (a b : ℕ) :
    Value.FitsAll (twoArrays n fields a b).body := by
  have hbyte : ∀ k, ∀ v ∈ List.replicate k (Value.byte 0), v = .byte 0 :=
    fun k v hv => List.eq_of_mem_replicate hv
  refine Value.fitsAll_iff.mpr fun v hv => ?_
  simp only [twoArrays, List.mem_cons, List.not_mem_nil, or_false] at hv
  rcases hv with rfl | rfl
  all_goals
    refine ⟨fun v hv => by rw [hbyte _ v hv]; rfl, Value.fitsAll_iff.mpr fun v hv => ?_⟩
    rw [hbyte _ v hv]
    trivial

/-- A short one is within the limit. -/
theorem sized_twoArrays_four : ∃ out, (twoArrays 0 [.replySerial 1] 4 4).toBytes = .ok out ∧
    (twoArrays 0 [.replySerial 1] 4 4).Sized out := by
  have hok : (twoArrays 0 [.replySerial 1] 4 4).toBytes.isOk = true :=
    isOk_toBytes_twoArrays (by decide) (by decide) (by simp [HeaderField.Valid]) rfl
      (by decide +kernel) (by decide +kernel)
  obtain ⟨out, hout⟩ := Outcome.isOk_iff.mp hok
  exact ⟨out, hout, (sized_iff hout).mpr (by decide +kernel)⟩

/-- **Two arrays of the greatest length make a frame that is too long**, and
a frame that is just short enough is too long when it is stamped. -/
theorem longer_than_maxMessageLen :
    (∃ m out, toBytes m = .ok out ∧ ¬ m.Sized out) ∧
      ∃ frame m out, fromBytes frame [] = .ok m ∧ frame.length ≤ maxMessageLen ∧
        (m.setSender ":1.0").toBytes = .ok out ∧ maxMessageLen < out.length := by
  have hok : ∀ b ≤ maxArrayLen,
      (twoArrays 0 [.replySerial 1] maxArrayLen b).toBytes.isOk = true := fun b hb =>
    isOk_toBytes_twoArrays (Nat.le_refl _) hb (by simp [HeaderField.Valid]) rfl
      (by rw [wireFields_twoArrays]; decide +kernel) (by rw [wireFields_twoArrays]; decide +kernel)
  have hsize :
      ∀ b, (twoArrays 0 [.replySerial 1] maxArrayLen b).wireSize = maxArrayLen + b + 48 := by
    intro b
    have hstart : (twoArrays 0 [.replySerial 1] maxArrayLen b).bodyStart = 40 := by
      rw [bodyStart, wireFields_twoArrays]
      decide +kernel
    rw [wireSize, hstart, sizeAll_twoArrays 0 _ (by decide)]
    omega
  constructor
  · obtain ⟨out, hout⟩ := Outcome.isOk_iff.mp (hok maxArrayLen (Nat.le_refl _))
    refine ⟨_, out, hout, fun hsized => ?_⟩
    have hle := hsized.length_le
    rw [length_of_toBytes_eq hout, hsize] at hle
    exact absurd hle (by decide)
  · -- 48 bytes are the header and the two lengths
    have hb : maxArrayLen - 48 ≤ maxArrayLen := Nat.sub_le _ _
    obtain ⟨frame, hframe⟩ := Outcome.isOk_iff.mp (hok (maxArrayLen - 48) hb)
    have hlen : frame.length ≤ maxMessageLen := by
      rw [length_of_toBytes_eq hframe, hsize]
      decide
    have hshort : ∀ bytes, Value.encodeAll false
        (twoArrays 0 [.replySerial 1] maxArrayLen (maxArrayLen - 48)).body 0 = .ok bytes →
          bytes.length < 2 ^ 32 := by
      intro bytes hbytes
      rw [Value.length_of_encodeAll hbytes, sizeAll_twoArrays _ _ (by decide)]
      decide
    obtain ⟨n, hn⟩ := fromBytes_toBytes rfl (fitsAll_twoArrays 0 _ _ _)
      (by simp [twoArrays, HeaderField.Valid]) hshort hframe
    -- the decoded message is the same two arrays, and the stamp adds its field
    let stamped : List HeaderField := [.replySerial 1, .signature ⟨"ayay"⟩, .sender ":1.0"]
    have hvalid : ∀ f ∈ stamped, f.Valid := by
      simp only [stamped, List.forall_mem_cons, HeaderField.Valid, true_and]
      exact ⟨by decide +kernel, fun _ hf => absurd hf List.not_mem_nil⟩
    have hok' : (twoArrays (UInt32.ofNat n) stamped maxArrayLen (maxArrayLen - 48)).toBytes.isOk
        = true :=
      isOk_toBytes_twoArrays (Nat.le_refl _) hb hvalid rfl
        (by rw [wireFields_twoArrays]; decide +kernel)
        (by rw [wireFields_twoArrays]; decide +kernel)
    obtain ⟨out, hout⟩ := Outcome.isOk_iff.mp hok'
    have hstart : (twoArrays (UInt32.ofNat n) stamped maxArrayLen (maxArrayLen - 48)).bodyStart
        = 56 := by
      rw [bodyStart, wireFields_twoArrays]
      decide +kernel
    refine ⟨frame, _, out, hn, hlen, hout, ?_⟩
    rw [length_of_toBytes_eq hout, wireSize, hstart, sizeAll_twoArrays _ _ (by decide)]
    decide

end Message

end Oxibus
