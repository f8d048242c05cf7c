import Oxibus.Core.Names
import Oxibus.Core.Message

/-!
# Messages that are decoded and encoded again

A bus decodes every message it receives, stamps it with its sender, and
encodes it again for whoever it is for. Two questions come with that:
whether the encoding exists, and whether it still says the same.

The first has a definite answer, `toBytes_setSender_iff`: the encoder
insists on things the decoder does not – no zero byte in a string, the
fields each kind of message needs, room for the fields – and nothing else
can go wrong. The second is answered by `forwarded`: whatever the fields
were, the encoded message decodes to the same message, with one sender.
-/

namespace Oxibus

/-! ## Fields on the wire -/

namespace HeaderField

/-- **A field the decoder can have produced**: a path and a signature that
were checked. -/
def Valid : HeaderField → Prop
  | path p => isValidObjectPath p.text = true
  | signature sig => (parseSignature sig.text).isOk = true
  | _ => True

/-- The bytes a field takes from an aligned offset on: its code, the
signature of its value, the value. -/
def size : HeaderField → ℕ
  | path p => (asBytes p.text).length + 9
  | interface s => (asBytes s).length + 9
  | member s => (asBytes s).length + 9
  | errorName s => (asBytes s).length + 9
  | replySerial _ => 8
  | destination s => (asBytes s).length + 9
  | sender s => (asBytes s).length + 9
  | signature sig => (asBytes sig.text).length + 6
  | unixFds _ => 8

/-- The struct of a field in the array of fields. -/
def element (f : HeaderField) : Value := .struct [.byte f.code, .variant f.toValue]

/-- The bytes a list of fields takes, the first at the offset `p`. -/
def sizes : List HeaderField → ℕ → ℕ
  | [], _ => 0
  | f :: fs, p => padding p 8 + f.size + sizes fs (p + (padding p 8 + f.size))

theorem size_le_sizes {f : HeaderField} {fs : List HeaderField} (h : f ∈ fs) (p : ℕ) :
    f.size ≤ sizes fs p := by
  induction fs generalizing p with
  | nil => cases h
  | cons g fs ih =>
    rw [sizes]
    rcases List.mem_cons.mp h with rfl | h
    · omega
    · have := ih h (p + (padding p 8 + g.size))
      omega

/-- A field's struct is its padding, its code, a signature of one code, and
the value. -/
theorem encode_element_of {be : Bool} {c k : UInt8} {v : Value} {p : ℕ}
    (hsig : Value.encodeSignatureStr v.valueType.toSignatureString = .ok [1, k, 0]) :
    (Value.struct [.byte c, .variant v]).encode be p
      = (fun b => zeros p 8 ++ ([c, 1, k, 0] ++ b)) <$> v.encode be (p + padding p 8 + 4) := by
  rw [Value.encode]
  simp only [Value.encodeAll, Value.encode, hsig, Outcome.ok_bind, List.length_cons,
    List.length_nil, Nat.add_assoc, Nat.reduceAdd]
  cases v.encode be (p + (padding p 8 + 4)) with
  | ok b => simp
  | _ => rfl

/-- Four bytes into a field the offset is aligned to four. -/
theorem padding_element (p : ℕ) : padding (p + padding p 8 + 4) 4 = 0 := by
  have h := add_padding_mod (p := p) (n := 8) (by decide)
  exact padding_eq_zero (by omega)

/-- **A field can be encoded exactly where its string contains no zero**, and
takes as many bytes as its size says. -/
theorem encode_element (f : HeaderField) (hf : f.Valid) (be : Bool) (p : ℕ) :
    ((f.element.encode be p).isOk = true ↔ f.toValue.NulFree) ∧
      ∀ b, f.element.encode be p = .ok b → b.length = padding p 8 + f.size := by
  have hstring : ∀ {c : UInt8} {s : String},
      (((Value.struct [.byte c, .variant (.string s)]).encode be p).isOk = true ↔
        (Value.string s).NulFree) ∧
      ∀ b, (Value.struct [.byte c, .variant (.string s)]).encode be p = .ok b →
        b.length = padding p 8 + ((asBytes s).length + 9) := by
    intro c s
    rw [encode_element_of (k := 115) rfl, Value.encode, Value.encodeRawString]
    by_cases hnul : (asBytes s).contains 0 = true
    · rw [if_pos hnul]
      refine ⟨?_, by simp⟩
      simp only [Outcome.map_err, Outcome.isOk_err, Bool.false_eq_true, false_iff]
      intro hfree
      rw [hfree s (by simp [Value.strings])] at hnul
      cases hnul
    · rw [if_neg hnul]
      refine ⟨?_, ?_⟩
      · simpa [Value.NulFree, Value.strings] using hnul
      · intro b hb
        cases hb
        simp [padding_element]
        omega
  have hnofree : ∀ {v : Value}, v.strings = [] → v.NulFree := by
    intro v hv s hs
    rw [hv] at hs
    cases hs
  cases f with
  | path path =>
    rw [element, toValue, code, encode_element_of (k := 111) rfl, Value.encode,
      Value.encodeRawString, zero_notMem_of_isValidObjectPath hf, if_neg (by decide)]
    refine ⟨by simpa using hnofree (v := .objectPath path) rfl, ?_⟩
    intro b hb
    cases hb
    simp [padding_element, size]
    omega
  | signature sig =>
    rw [element, toValue, code, encode_element_of (k := 103) rfl, Value.encode,
      Value.encodeSignatureStr_of_parse hf]
    refine ⟨by simpa using hnofree (v := .signature sig) rfl, ?_⟩
    intro b hb
    cases hb
    simp [size]
  | replySerial v =>
    rw [element, toValue, code, encode_element_of (k := 117) rfl, Value.encode]
    refine ⟨by simpa using hnofree (v := .uint32 v) rfl, ?_⟩
    intro b hb
    cases hb
    simp [padding_element, size]
  | unixFds v =>
    rw [element, toValue, code, encode_element_of (k := 117) rfl, Value.encode]
    refine ⟨by simpa using hnofree (v := .uint32 v) rfl, ?_⟩
    intro b hb
    cases hb
    simp [padding_element, size]
  | interface s => exact hstring
  | member s => exact hstring
  | errorName s => exact hstring
  | destination s => exact hstring
  | sender s => exact hstring

/-- The same for a list of fields. -/
theorem encodeAll_elements {fs : List HeaderField} (hfs : ∀ f ∈ fs, f.Valid) (be : Bool) (p : ℕ) :
    ((Value.encodeAll be (fs.map element) p).isOk = true ↔ ∀ f ∈ fs, f.toValue.NulFree) ∧
      ∀ b, Value.encodeAll be (fs.map element) p = .ok b → b.length = sizes fs p := by
  induction fs generalizing p with
  | nil =>
    refine ⟨by simp [Value.encodeAll], ?_⟩
    intro b hb
    cases hb
    rfl
  | cons f fs ih =>
    obtain ⟨hok, hlen⟩ := encode_element f (hfs f List.mem_cons_self) be p
    have hfs' : ∀ g ∈ fs, g.Valid := fun g hg => hfs g (List.mem_cons_of_mem f hg)
    rw [List.map_cons, Value.encodeAll]
    cases hb : f.element.encode be p with
    | ok b =>
      obtain ⟨hoks, hlens⟩ := ih hfs' (p + b.length)
      rw [hb] at hok
      rw [Outcome.ok_bind]
      refine ⟨?_, ?_⟩
      · rw [List.forall_mem_cons, ← hok, ← hoks]
        cases Value.encodeAll be (fs.map element) (p + b.length) <;> simp [Outcome.isOk]
      · intro out hout
        obtain ⟨bs, hbs, hout⟩ := Outcome.bind_eq_ok.mp hout
        cases hout
        rw [List.length_append, hlens bs hbs, hlen b hb, sizes]
    | _ =>
      rw [hb] at hok
      refine ⟨?_, by simp⟩
      rw [List.forall_mem_cons, ← hok]
      simp [Outcome.isOk]

/-- The value of a field that is valid and short fits. -/
theorem fits_element {f : HeaderField} (hf : f.Valid) (hsize : f.size < 2 ^ 32) :
    f.element.Fits := by
  have hfits : f.toValue.Fits := by
    cases f with
    | path p =>
      refine ⟨hf, ?_⟩
      rw [size] at hsize
      omega
    | signature sig => exact hf
    | replySerial v => trivial
    | unixFds v => trivial
    | _ =>
      rw [size] at hsize
      show _ < _
      omega
  have hparse : parseSingleCompleteType f.toValue.valueType.toSignatureString
      = .ok f.toValue.valueType := by
    cases f <;> rfl
  exact ⟨by simp, trivial, ⟨hparse, hfits⟩, trivial⟩

end HeaderField

namespace MessageHeader

/-- **The array of fields can be encoded exactly where no string contains a
zero and the fields are not too long.** -/
theorem encode_fieldsValue {fs : List HeaderField} (hfs : ∀ f ∈ fs, f.Valid) (be : Bool) :
    ((fieldsValue fs).encode be 12).isOk = true ↔
      (∀ f ∈ fs, f.toValue.NulFree) ∧ HeaderField.sizes fs 16 ≤ maxArrayLen := by
  obtain ⟨hok, hlen⟩ := HeaderField.encodeAll_elements hfs be 16
  have hstart : Value.arrayStart (.struct [.byte, .variant]) 12 = 16 := rfl
  rw [fieldsValue, Value.encode, hstart]
  show ((Value.encodeAll be (fs.map HeaderField.element) 16 >>= _).isOk = true) ↔ _
  rw [← hok]
  cases hb : Value.encodeAll be (fs.map HeaderField.element) 16 with
  | ok b =>
    rw [Outcome.ok_bind, hlen b hb]
    by_cases hmax : HeaderField.sizes fs 16 ≤ maxArrayLen
    · simp [hmax, not_lt.mpr hmax]
    · simp [hmax, not_le.mp hmax]
  | _ => simp [Outcome.isOk]

/-- Fields whose array can be encoded fit. -/
theorem fits_fieldsValue {fs : List HeaderField} (hfs : ∀ f ∈ fs, f.Valid) {be : Bool}
    {arr : List UInt8} (h : (fieldsValue fs).encode be 12 = .ok arr) : (fieldsValue fs).Fits := by
  have hmax := ((encode_fieldsValue hfs be).mp (by rw [h]; rfl)).2
  refine ⟨?_, Value.fitsAll_iff.mpr ?_⟩
  · intro v hv
    obtain ⟨f, -, rfl⟩ := List.mem_map.mp hv
    rfl
  · intro v hv
    obtain ⟨f, hf, rfl⟩ := List.mem_map.mp hv
    refine HeaderField.fits_element (hfs f hf) ?_
    have := HeaderField.size_le_sizes hf 16
    rw [maxArrayLen] at hmax
    omega

/-- **Collecting the fields of an encoded array gives them back.** -/
theorem collectFields_elements (fs : List HeaderField) :
    collectFields (fs.map HeaderField.element) = .ok fs := by
  induction fs with
  | nil => rfl
  | cons f fs ih =>
    rw [List.map_cons, HeaderField.element, collectFields]
    simp only [variantInner, HeaderField.fromCodeAndValue_code_toValue, Outcome.ok_bind, ih]
    rfl

end MessageHeader

namespace Message

/-! ## The round trip of messages -/

/-- **The fields on the wire**: those the message keeps, the signature of its body, and
the number of its descriptors. -/
theorem wireFields_cases {m : Message} {f : HeaderField} (hf : f ∈ m.wireFields) :
    (f ∈ m.header.fields ∧ f.isBodyField = false) ∨
      (m.bodySignature ≠ "" ∧ f = .signature ⟨m.bodySignature⟩) ∨ ∃ n, f = .unixFds n := by
  rw [wireFields] at hf
  rcases List.mem_append.mp hf with hf | hf
  · rcases List.mem_append.mp hf with hf | hf
    · obtain ⟨hf, hbody⟩ := List.mem_filter.mp hf
      exact .inl ⟨hf, by simpa using hbody⟩
    · split at hf
      · cases hf
      · next hne => exact .inr (.inl ⟨hne, List.mem_singleton.mp hf⟩)
  · unfold unixFdsFields at hf
    split at hf
    · cases hf
    · exact .inr (.inr ⟨_, List.mem_singleton.mp hf⟩)

theorem valid_wireFields {m : Message} (hfields : ∀ f ∈ m.header.fields, f.Valid)
    (hsig : m.bodySignature = "" ∨ (parseSignature m.bodySignature).isOk = true) :
    ∀ f ∈ m.wireFields, f.Valid := by
  intro f hf
  rcases wireFields_cases hf with ⟨hf, -⟩ | ⟨hne, rfl⟩ | ⟨n, rfl⟩
  · exact hfields f hf
  · exact hsig.resolve_left hne
  · trivial

/-- The fields a message keeps are not about its body. -/
theorem eq_none_of_kept {β : Type} {g : HeaderField → Option β} (fields : List HeaderField)
    (hg : ∀ f, f.isBodyField = false → g f = none) :
    (fields.filter fun f : HeaderField => !f.isBodyField).findSome? g = none := by
  refine List.findSome?_eq_none_iff.mpr fun f hf => hg f ?_
  simpa using (List.mem_filter.mp hf).2

/-- The signature of an encoded message is the one of its body. -/
theorem signature_wireHeader (m : Message) (n : ℕ) :
    (m.wireHeader n).signature = m.bodySignature := by
  have hkept := eq_none_of_kept (g := HeaderField.asSignature) m.header.fields
    fun f hf => by cases f <;> first | rfl | cases hf
  have hfds : (unixFdsFields m.fds).findSome? HeaderField.asSignature = none := by
    unfold unixFdsFields
    split <;> rfl
  rw [MessageHeader.signature, wireHeader]
  simp only [wireFields]
  rw [List.findSome?_append, List.findSome?_append, hkept, hfds, Option.none_or, Option.or_none]
  split
  · next hnil =>
    rw [hnil]
    rfl
  · rfl

/-- An encoded message declares the descriptors it has. -/
theorem unixFds_wireHeader (m : Message) (n : ℕ) :
    (m.wireHeader n).unixFds = UInt32.ofNat m.fds.length := by
  have hkept := eq_none_of_kept (g := HeaderField.asUnixFds) m.header.fields
    fun f hf => by cases f <;> first | rfl | cases hf
  have hsig :
      (if m.bodySignature = "" then [] else [HeaderField.signature ⟨m.bodySignature⟩]).findSome?
      HeaderField.asUnixFds = none := by
    split <;> rfl
  rw [MessageHeader.unixFds, wireHeader]
  simp only [wireFields]
  rw [List.findSome?_append, List.findSome?_append, hkept, hsig, Option.none_or, Option.none_or,
    unixFdsFields]
  cases m.fds with
  | nil => rfl
  | cons fd fds => rfl

/-- It declares no more than that. -/
theorem unixFds_wireHeader_le (m : Message) (n : ℕ) :
    (m.wireHeader n).unixFds.toNat ≤ m.fds.length := by
  rw [unixFds_wireHeader, UInt32.toNat_ofNat']
  exact Nat.mod_le _ _

/-- **A message that was encoded decodes to itself**, with the fields and the
body length it was encoded with. -/
theorem fromBytes_toBytes {m : Message} {out : List UInt8}
    (hversion : m.header.protocolVersion = protocolVersion) (hbody : Value.FitsAll m.body)
    (hfields : ∀ f ∈ m.header.fields, f.Valid)
    (hlen : ∀ bytes, Value.encodeAll m.header.bigEndian m.body 0 = .ok bytes →
      bytes.length < 2 ^ 32)
    (h : m.toBytes = .ok out) : ∃ n, fromBytes out m.fds = .ok ⟨m.wireHeader n, m.body, m.fds⟩ := by
  obtain ⟨hsig, bodyBytes, arr, hbytes, -, harr, rfl⟩ := toBytes_eq_ok.mp h
  have hfits := MessageHeader.fits_fieldsValue (valid_wireFields hfields hsig) harr
  have hshort := hlen bodyBytes hbytes
  refine ⟨bodyBytes.length, fromBytes_eq_ok.mpr ⟨rfl, unixFds_wireHeader_le m _, hversion,
    m.wireFields.map HeaderField.element, arr, zeros (12 + arr.length) 8, bodyBytes, [], ?_, ?_,
    MessageHeader.collectFields_elements _, length_zeros .., ?_, ?_⟩⟩
  · rw [List.append_nil]
  · exact Value.layout_of_encode hfits harr
  · show _ = (UInt32.ofNat bodyBytes.length).toNat
    rw [UInt32.toNat_ofNat_of_lt' hshort]
  · show decodeBody bodyBytes (m.wireHeader bodyBytes.length).signature m.header.bigEndian
      = .ok m.body
    rw [signature_wireHeader, decodeBody]
    by_cases hnil : m.bodySignature = ""
    · rw [if_pos hnil]
      have htypes : Value.valueTypes m.body = [] := by
        have hbytes := asBytes_signatureOf (Value.valueTypes m.body)
        rw [← bodySignature, hnil] at hbytes
        exact (DType.sigBytesList_inj (hbytes.symm.trans DType.sigBytesList_nil.symm :))
      cases hm : m.body with
      | nil => rfl
      | cons v vs =>
        rw [hm, Value.valueTypes] at htypes
        cases htypes
    · rw [if_neg hnil]
      have hmarshal : marshalBody m.body m.header.bigEndian
          = .ok (bodyBytes, m.bodySignature) := by
        rw [marshalBody_eq, hbytes]
        rfl
      exact unmarshalBody_marshalBody hbody hmarshal (hsig.resolve_left hnil)

/-- **When a message with valid fields can be encoded.** -/
theorem isOk_toBytes_iff {m : Message} (hfields : ∀ f ∈ m.header.fields, f.Valid) :
    m.toBytes.isOk = true ↔
      (m.bodySignature = "" ∨ (parseSignature m.bodySignature).isOk = true) ∧
      ∃ bodyBytes, Value.encodeAll m.header.bigEndian m.body 0 = .ok bodyBytes ∧
        (m.wireHeader bodyBytes.length).validate = .ok () ∧
        (∀ f ∈ m.wireFields, f.toValue.NulFree) ∧
        HeaderField.sizes m.wireFields 16 ≤ maxArrayLen := by
  constructor
  · intro hok
    obtain ⟨out, hout⟩ := Outcome.isOk_iff.mp hok
    obtain ⟨hsig, bodyBytes, arr, hbytes, hval, harr, -⟩ := toBytes_eq_ok.mp hout
    have hencode := MessageHeader.encode_fieldsValue (valid_wireFields hfields hsig)
      m.header.bigEndian
    exact ⟨hsig, bodyBytes, hbytes, hval, hencode.mp (by rw [harr]; rfl)⟩
  · rintro ⟨hsig, bodyBytes, hbytes, hval, hnul, hsize⟩
    have hencode := MessageHeader.encode_fieldsValue (valid_wireFields hfields hsig)
      m.header.bigEndian
    obtain ⟨arr, harr⟩ := Outcome.isOk_iff.mp (hencode.mpr ⟨hnul, hsize⟩)
    exact Outcome.isOk_iff.mpr
      ⟨_, toBytes_eq_ok.mpr ⟨hsig, bodyBytes, arr, hbytes, hval, harr, rfl⟩⟩

/-! ## What the decoder returns -/

/-- A field made of a value that fits is valid. -/
theorem valid_of_fromCodeAndValue {code : UInt8} {v : Value} (hv : v.Fits) {f : HeaderField}
    (h : HeaderField.fromCodeAndValue code v = .ok (some f)) : f.Valid := by
  have hstring : ∀ {name : String} (mk : String → HeaderField), (∀ s, (mk s).Valid) →
      (do let s ← expectString v name; .ok (some (mk s))) = .ok (some f) → f.Valid := by
    intro name mk hmk h
    obtain ⟨s, -, h⟩ := Outcome.bind_eq_ok.mp h
    cases h
    exact hmk s
  unfold HeaderField.fromCodeAndValue at h
  split at h
  · split at h
    · cases h
      exact hv.1
    · cases h
  split at h
  · exact hstring .interface (fun _ => trivial) h
  split at h
  · exact hstring .member (fun _ => trivial) h
  split at h
  · exact hstring .errorName (fun _ => trivial) h
  split at h
  · split at h
    · cases h
      trivial
    · cases h
  split at h
  · exact hstring .destination (fun _ => trivial) h
  split at h
  · exact hstring .sender (fun _ => trivial) h
  split at h
  · split at h
    · cases h
      exact hv
    · cases h
  split at h
  · split at h
    · cases h
      trivial
    · cases h
  · cases h

/-- **The fields of a decoded header are valid.** -/
theorem valid_of_collectFields {elements : List Value} (helements : Value.FitsAll elements)
    {fields : List HeaderField} (h : MessageHeader.collectFields elements = .ok fields) :
    ∀ f ∈ fields, f.Valid := by
  fun_induction MessageHeader.collectFields elements generalizing fields with
  | case1 =>
    cases h
    simp
  | case2 code variant elements ih =>
    obtain ⟨field, hfield, h⟩ := Outcome.bind_eq_ok.mp h
    obtain ⟨fields', hfields, h⟩ := Outcome.bind_eq_ok.mp h
    cases h
    obtain ⟨⟨-, -, hvariant, -⟩, hrest⟩ := helements
    have hinner : (MessageHeader.variantInner variant).Fits := by
      unfold MessageHeader.variantInner
      split
      · exact hvariant.2
      · exact hvariant
    intro f hf
    rcases List.mem_append.mp hf with hf | hf
    · cases field with
      | none => cases hf
      | some g =>
        rw [List.mem_singleton.mp hf]
        exact valid_of_fromCodeAndValue hinner hfield
    · exact ih hrest hfields f hf
  | case3 element elements hne ih => exact ih helements.2 h

/-- **What is known of a decoded message.** -/
structure Decoded (m : Message) (fds : List Int32) : Prop where
  fds_eq : m.fds = fds
  version : m.header.protocolVersion = protocolVersion
  fits : Value.FitsAll m.body
  valid : ∀ f ∈ m.header.fields, f.Valid
  signature_eq : m.header.signature = m.bodySignature
  parses : m.bodySignature = "" ∨ (parseSignature m.bodySignature).isOk = true
  encodes : Value.NulFreeAll m.body →
    ∃ bytes, Value.encodeAll m.header.bigEndian m.body 0 = .ok bytes
  short : ∀ bytes, Value.encodeAll m.header.bigEndian m.body 0 = .ok bytes →
    bytes.length < 2 ^ 32

/-- The body of a decoded message has a layout that is short, unless it is
empty. -/
theorem decodeBody_eq_ok {bodyBuf : List UInt8} {sig : String} {be : Bool} {vs : List Value}
    (h : decodeBody bodyBuf sig be = .ok vs) :
    sig = signatureOf (Value.valueTypes vs) ∧ (sig = "" ∨ (parseSignature sig).isOk = true) ∧
      ∃ bs, Value.LayoutAll be vs 0 bs ∧ bs.length ≤ bodyBuf.length := by
  unfold decodeBody at h
  split at h
  · next hsig =>
    cases h
    exact ⟨hsig, Or.inl hsig, [], rfl, Nat.zero_le _⟩
  · obtain ⟨ts, hts, h⟩ := Outcome.bind_eq_ok.mp h
    obtain ⟨⟨vs', u'⟩, hvs, h⟩ := Outcome.bind_eq_ok.mp h
    cases h
    obtain ⟨rfl, bs, hbs, hcons⟩ :=
      (Unmarshaler.readValues_eq_ok (parseSignature_reads hts).2.2 (Nat.zero_le _)).mp hvs
    refine ⟨(signatureOf_of_parseSignature hts).symm, Or.inr (by rw [hts]; rfl), bs, hbs, ?_⟩
    have := hcons.1
    simpa [Unmarshaler.new] using this

theorem decoded_of_fromBytes {buf : List UInt8} {fds : List Int32} {m : Message}
    (h : fromBytes buf fds = .ok m) : m.Decoded fds := by
  obtain ⟨hfds, -, hversion, elements, arr, pad, bodyBuf, tail, -, harr, hfields, -, hlen, hbody⟩ :=
    fromBytes_eq_ok.mp h
  obtain ⟨hsig, hparse, bs, hbs, hshort⟩ := decodeBody_eq_ok hbody
  have hlt : bs.length < 2 ^ 32 := by
    have := m.header.bodyLength.toNat_lt
    omega
  refine ⟨hfds, hversion, Value.fitsAll_of_layoutAll hbs,
    valid_of_collectFields (Value.fits_of_layout harr).2 hfields, hsig, ?_, ?_, ?_⟩
  · rw [bodySignature, ← hsig]
    exact hparse
  · intro hnul
    obtain ⟨out, hout, -⟩ :=
      Value.encodeAll_of_layoutAll (q := 0) hnul hbs (Nat.zero_mod 8)
    exact ⟨out, hout⟩
  · intro bytes hbytes
    obtain ⟨out, hout, hlen⟩ :=
      Value.encodeAll_of_layoutAll (q := 0) (Value.nulFreeAll_of_encodeAll hbytes) hbs rfl
    rw [hbytes] at hout
    cases hout
    omega

/-! ## Stamping a message -/

/-- The fields looked for by something that finds neither senders nor fields
about the body are the same before and after. -/
theorem findSome?_wireFields_setSender {β : Type} {g : HeaderField → Option β}
    (hsender : ∀ f, f.isSender = true → g f = none)
    (hbody : ∀ f, f.isBodyField = true → g f = none) (m : Message) (u : String) :
    (m.setSender u).wireFields.findSome? g = m.header.fields.findSome? g := by
  have hsig : (if (m.setSender u).bodySignature = "" then []
      else [HeaderField.signature ⟨(m.setSender u).bodySignature⟩]).findSome? g = none := by
    split
    · rfl
    · rw [List.findSome?_singleton, hbody _ rfl]
  have hfds : (unixFdsFields (m.setSender u).fds).findSome? g = none := by
    unfold unixFdsFields
    split
    · rfl
    · rw [List.findSome?_singleton, hbody _ rfl]
  rw [wireFields, List.findSome?_append, List.findSome?_append, hsig, hfds, Option.or_none,
    Option.or_none, HeaderField.findSome?_filter hbody]
  show ((m.header.fields.filter fun f : HeaderField => !f.isSender) ++
    [HeaderField.sender u]).findSome? g = _
  rw [List.findSome?_append, HeaderField.findSome?_filter hsender, List.findSome?_singleton,
    hsender _ rfl, Option.or_none]

/-- **A message as it arrives**: the message that was sent, with one sender. -/
structure Forwards (m : Message) (u : String) (m' : Message) : Prop where
  bigEndian : m'.header.bigEndian = m.header.bigEndian
  messageType : m'.messageType = m.messageType
  flags : m'.header.flags = m.header.flags
  serial : m'.serial = m.serial
  body : m'.body = m.body
  path : m'.path = m.path
  interface : m'.interface = m.interface
  member : m'.member = m.member
  errorName : m'.header.errorName = m.header.errorName
  replySerial : m'.replySerial = m.replySerial
  destination : m'.destination = m.destination
  signature : m'.header.signature = m.header.signature
  fds : m'.fds = m.fds
  sender : m'.sender = some u
  senders : m'.header.fields.filter HeaderField.isSender = [.sender u]

theorem filter_isSender_wireFields (m : Message) (u : String) :
    (m.setSender u).wireFields.filter HeaderField.isSender = [.sender u] := by
  have hfields : ((m.setSender u).header.fields.filter
      fun f : HeaderField => !f.isBodyField).filter HeaderField.isSender = [.sender u] := by
    show (((m.header.fields.filter fun f : HeaderField => !f.isSender) ++
      [HeaderField.sender u]).filter _).filter _ = _
    rw [List.filter_filter, List.filter_append, List.filter_filter]
    have hnone : m.header.fields.filter
        (fun f => (f.isSender && !f.isBodyField) && !f.isSender) = [] := by
      refine List.filter_eq_nil_iff.mpr fun f _ => ?_
      cases f.isSender <;> simp
    rw [hnone]
    rfl
  rw [wireFields, List.filter_append, List.filter_append, hfields]
  have hsig : (if (m.setSender u).bodySignature = "" then []
      else [HeaderField.signature ⟨(m.setSender u).bodySignature⟩]).filter HeaderField.isSender
        = [] := by
    split <;> rfl
  have hfds : (unixFdsFields (m.setSender u).fds).filter HeaderField.isSender = [] := by
    unfold unixFdsFields
    split <;> rfl
  rw [hsig, hfds]
  rfl

/-- The first sender of a list of fields is the first of its senders. -/
theorem findSome?_asSender_of_filter {fields : List HeaderField} {u : String}
    (h : fields.filter HeaderField.isSender = [.sender u]) :
    fields.findSome? HeaderField.asSender = some u := by
  induction fields with
  | nil => cases h
  | cons f fields ih =>
    cases f with
    | sender s =>
      rw [List.filter_cons_of_pos rfl] at h
      rw [List.findSome?_cons, (List.cons.inj h).1]
      rfl
    | _ => exact ih h

/-- The header of a stamped message, encoded and decoded, says what the
message said. -/
theorem forwards_wireHeader {m : Message} {fds : List Int32} (hm : m.Decoded fds) (u : String)
    (n : ℕ) : Forwards m u ⟨(m.setSender u).wireHeader n, m.body, m.fds⟩ where
  bigEndian := rfl
  messageType := rfl
  flags := rfl
  serial := rfl
  body := rfl
  path := findSome?_wireFields_setSender (fun f hf => by cases f <;> first | rfl | cases hf)
    (fun f hf => by cases f <;> first | rfl | cases hf) m u
  interface := findSome?_wireFields_setSender (fun f hf => by cases f <;> first | rfl | cases hf)
    (fun f hf => by cases f <;> first | rfl | cases hf) m u
  member := findSome?_wireFields_setSender (fun f hf => by cases f <;> first | rfl | cases hf)
    (fun f hf => by cases f <;> first | rfl | cases hf) m u
  errorName := findSome?_wireFields_setSender (fun f hf => by cases f <;> first | rfl | cases hf)
    (fun f hf => by cases f <;> first | rfl | cases hf) m u
  replySerial := findSome?_wireFields_setSender
    (fun f hf => by cases f <;> first | rfl | cases hf)
    (fun f hf => by cases f <;> first | rfl | cases hf) m u
  destination := findSome?_wireFields_setSender
    (fun f hf => by cases f <;> first | rfl | cases hf)
    (fun f hf => by cases f <;> first | rfl | cases hf) m u
  signature := by
    show ((m.setSender u).wireHeader n).signature = m.header.signature
    rw [signature_wireHeader, hm.signature_eq]
    rfl
  fds := rfl
  sender := findSome?_asSender_of_filter (filter_isSender_wireFields m u)
  senders := filter_isSender_wireFields m u

theorem valid_setSender {m : Message} (hm : ∀ f ∈ m.header.fields, f.Valid) (u : String) :
    ∀ f ∈ (m.setSender u).header.fields, f.Valid := by
  intro f hf
  rcases List.mem_append.mp hf with hf | hf
  · exact hm f (List.mem_filter.mp hf).1
  · rw [List.mem_singleton.mp hf]
    trivial

/-- **A decoded message that is stamped and encoded decodes to the message it
was, with one sender.** -/
theorem forwarded {buf : List UInt8} {fds : List Int32} {m : Message}
    (h : fromBytes buf fds = .ok m) {u : String} {out : List UInt8}
    (hout : (m.setSender u).toBytes = .ok out) :
    ∃ m', fromBytes out fds = .ok m' ∧ Forwards m u m' := by
  have hm := decoded_of_fromBytes h
  obtain ⟨n, hn⟩ := fromBytes_toBytes (m := m.setSender u) hm.version hm.fits
    (valid_setSender hm.valid u) hm.short hout
  refine ⟨⟨(m.setSender u).wireHeader n, m.body, m.fds⟩, ?_, forwards_wireHeader hm u n⟩
  rw [← hm.fds_eq]
  exact hn

/-- Validation does not look at what stamping and encoding change. -/
theorem validate_wireHeader_setSender {m : Message} {fds : List Int32} (hm : m.Decoded fds)
    (u : String) (n : ℕ) :
    ((m.setSender u).wireHeader n).validate = .ok () ↔ m.header.validate = .ok () := by
  have hf := forwards_wireHeader hm u n
  have hpath : ((m.setSender u).wireHeader n).path = m.header.path := hf.path
  have hinterface : ((m.setSender u).wireHeader n).interface = m.header.interface := hf.interface
  have hmember : ((m.setSender u).wireHeader n).member = m.header.member := hf.member
  have herror : ((m.setSender u).wireHeader n).errorName = m.header.errorName := hf.errorName
  have hreply : ((m.setSender u).wireHeader n).replySerial = m.header.replySerial := hf.replySerial
  rw [validate_eq_ok, validate_eq_ok, hpath, hinterface, hmember, herror, hreply]
  rfl

/-- Fields about the body have no text with a zero byte. -/
theorem nulFree_of_isBodyField {f : HeaderField} (hf : f.isBodyField = true) :
    f.toValue.NulFree := by
  intro s hs
  cases f <;> first | (cases hs; done) | cases hf

/-- The new sender is on the wire. -/
theorem sender_mem_wireFields (m : Message) (u : String) :
    HeaderField.sender u ∈ (m.setSender u).wireFields := by
  have hmem : HeaderField.sender u ∈ (m.setSender u).wireFields.filter HeaderField.isSender := by
    rw [filter_isSender_wireFields m u]
    exact List.mem_singleton_self _
  exact (List.mem_filter.mp hmem).1

/-- **The texts on the wire** are the sender's and those of the fields that are
kept. -/
theorem nulFree_wireFields_setSender (m : Message) (u : String) :
    (∀ f ∈ (m.setSender u).wireFields, f.toValue.NulFree) ↔ (asBytes u).contains 0 = false ∧
      ∀ f ∈ m.header.fields, f.isSender = false → f.toValue.NulFree := by
  constructor
  · intro hall
    constructor
    · exact hall _ (sender_mem_wireFields m u) u (by simp [HeaderField.toValue, Value.strings])
    · intro f hf hsender
      cases hbody : f.isBodyField with
      | true => exact nulFree_of_isBodyField hbody
      | false =>
        refine hall f (List.mem_append_left _ (List.mem_append_left _ ?_))
        refine List.mem_filter.mpr ⟨List.mem_append_left _ ?_, by simp [hbody]⟩
        exact List.mem_filter.mpr ⟨hf, by simp [hsender]⟩
  · rintro ⟨hu, hkept⟩ f hf
    rcases wireFields_cases hf with ⟨hf, -⟩ | ⟨-, rfl⟩ | ⟨n, rfl⟩
    · rcases List.mem_append.mp hf with hf | hf
      · obtain ⟨hf, hsender⟩ := List.mem_filter.mp hf
        exact hkept f hf (by simpa using hsender)
      · rw [List.mem_singleton.mp hf]
        intro s hs
        rw [HeaderField.toValue, Value.strings] at hs
        rw [List.mem_singleton.mp hs]
        exact hu
    · exact nulFree_of_isBodyField rfl
    · exact nulFree_of_isBodyField rfl

/-- **When a decoded message can be stamped and encoded.** -/
theorem toBytes_setSender_iff {buf : List UInt8} {fds : List Int32} {m : Message}
    (h : fromBytes buf fds = .ok m) (u : String) :
    (m.setSender u).toBytes.isOk = true ↔ (asBytes u).contains 0 = false ∧
      Value.NulFreeAll m.body ∧
      (∀ f ∈ m.header.fields, f.isSender = false → f.toValue.NulFree) ∧
      m.header.validate = .ok () ∧
      HeaderField.sizes (m.setSender u).wireFields 16 ≤ maxArrayLen := by
  have hm := decoded_of_fromBytes h
  have hstrings := nulFree_wireFields_setSender m u
  have hvalidate := validate_wireHeader_setSender hm u
  rw [isOk_toBytes_iff (valid_setSender hm.valid u)]
  constructor
  · rintro ⟨-, bodyBytes, hbytes, hval, hnul, hsize⟩
    obtain ⟨hu, hkept⟩ := hstrings.mp hnul
    exact ⟨hu, Value.nulFreeAll_of_encodeAll hbytes, hkept, (hvalidate _).mp hval, hsize⟩
  · rintro ⟨hu, hnul, hkept, hval, hsize⟩
    obtain ⟨bytes, hbytes⟩ := hm.encodes hnul
    exact ⟨hm.parses, bytes, hbytes, (hvalidate _).mpr hval, hstrings.mpr ⟨hu, hkept⟩, hsize⟩

/-! ## Stamping with a unique name -/

/-- **When the bus can forward what it has accepted.** The unique name itself
never stands in the way; what the decoder let through does, where the encoder
is stricter. -/
theorem forwardable_iff {buf : List UInt8} {fds : List Int32} {m : Message}
    (h : fromBytes buf fds = .ok m) (n : ℕ) :
    (m.setSender (uniqueName n)).toBytes.isOk = true ↔ Value.NulFreeAll m.body ∧
      (∀ f ∈ m.header.fields, f.isSender = false → f.toValue.NulFree) ∧
      m.header.validate = .ok () ∧
      HeaderField.sizes (m.setSender (uniqueName n)).wireFields 16 ≤ maxArrayLen := by
  rw [toBytes_setSender_iff h]
  exact and_iff_right (nulFree_uniqueName n)

/-- A frame with a reply serial, an unknown field and two forged senders. -/
def forgedFrame : List UInt8 :=
  [108, 2, 0, 1, 0, 0, 0, 0, 9, 0, 0, 0, 42, 0, 0, 0] ++
    ([7, 1, 115, 0, 1, 0, 0, 0, 97, 0, 0, 0, 0, 0, 0, 0] ++
      ([5, 1, 117, 0, 7, 0, 0, 0] ++ ([77, 1, 121, 0, 1, 0, 0, 0] ++
        ([7, 1, 115, 0, 1, 0, 0, 0, 98, 0] ++ [0, 0, 0, 0, 0, 0]))))

theorem forwardable_reply : ∃ m, fromBytes forgedFrame [] = .ok m ∧
    ((m.setSender (uniqueName 7)).toBytes.isOk = true ↔ Value.NulFreeAll m.body ∧
      (∀ f ∈ m.header.fields, f.isSender = false → f.toValue.NulFree) ∧
      m.header.validate = .ok () ∧
      HeaderField.sizes (m.setSender (uniqueName 7)).wireFields 16 ≤ maxArrayLen) := by
  obtain ⟨m, hm⟩ := Outcome.isOk_iff.mp
    (show (fromBytes forgedFrame []).isOk = true by decide +kernel)
  exact ⟨m, hm, forwardable_iff hm 7⟩

/-- A method call with a path, a member and a signature, whose argument is a text. -/
def textCall : List UInt8 :=
  [108, 1, 0, 1, 7, 0, 0, 0, 1, 0, 0, 0, 39, 0, 0, 0] ++
    ([1, 1, 111, 0, 1, 0, 0, 0, 47, 0, 0, 0, 0, 0, 0, 0] ++
      ([3, 1, 115, 0, 1, 0, 0, 0, 77, 0, 0, 0, 0, 0, 0, 0] ++
        ([8, 1, 103, 0, 1, 115, 0] ++ ([0] ++ [2, 0, 0, 0, 104, 105, 0]))))

/-- A method call without a single field. -/
def bareCall : List UInt8 := [108, 1, 0, 1, 0, 0, 0, 0, 1, 0, 0, 0, 0, 0, 0, 0]

/-- **A frame the decoder accepts and the encoder refuses**, whoever it is
stamped with. -/
theorem bareCall_not_forwardable : ∃ m, fromBytes bareCall [] = .ok m ∧
    (m.setSender (uniqueName 1)).toBytes.isOk = false := by
  have hframe : ((fromBytes bareCall []) >>= fun m =>
      .ok (m.setSender (uniqueName 1)).toBytes.isOk) = .ok false := by decide +kernel
  obtain ⟨m, hm, hok⟩ := Outcome.bind_eq_ok.mp hframe
  exact ⟨m, hm, Outcome.ok.inj hok⟩

/-- **Forwarding is faithful.** What was decoded, stamped and encoded decodes
to a message that says the same, from its one true sender – whatever the
fields were and whoever they named. -/
theorem forwarding_faithful {buf : List UInt8} {fds : List Int32} {m : Message} {u : String}
    {out : List UInt8} (h : fromBytes buf fds = .ok m)
    (hout : (m.setSender u).toBytes = .ok out) :
    ∃ m', fromBytes out fds = .ok m' ∧ m'.header.bigEndian = m.header.bigEndian ∧
      m'.messageType = m.messageType ∧ m'.header.flags = m.header.flags ∧
      m'.serial = m.serial ∧ m'.body = m.body ∧ m'.path = m.path ∧
      m'.interface = m.interface ∧ m'.member = m.member ∧
      m'.header.errorName = m.header.errorName ∧ m'.replySerial = m.replySerial ∧
      m'.destination = m.destination ∧ m'.header.signature = m.header.signature ∧
      m'.sender = some u := by
  obtain ⟨m', hm', hf⟩ := forwarded h hout
  exact ⟨m', hm', hf.bigEndian, hf.messageType, hf.flags, hf.serial, hf.body, hf.path,
    hf.interface, hf.member, hf.errorName, hf.replySerial, hf.destination, hf.signature, hf.sender⟩

theorem forwarding_forged : ∃ m out m', fromBytes forgedFrame [] = .ok m ∧
    (m.setSender (uniqueName 7)).toBytes = .ok out ∧ fromBytes out [] = .ok m' ∧
    m'.replySerial = m.replySerial ∧ m'.sender = some (uniqueName 7) := by
  have hframe : ((fromBytes forgedFrame []) >>= fun m =>
      (m.setSender (uniqueName 7)).toBytes).isOk = true := by decide +kernel
  obtain ⟨out, hrun⟩ := Outcome.isOk_iff.mp hframe
  obtain ⟨m, hm, hout⟩ := Outcome.bind_eq_ok.mp hrun
  obtain ⟨m', hm', -, -, -, -, -, -, -, -, -, hreply, -, -, hsender⟩ := forwarding_faithful hm hout
  exact ⟨m, out, m', hm, hout, hm', hreply, hsender⟩

end Message

end Oxibus
