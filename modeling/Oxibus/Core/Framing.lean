import Oxibus.Core.Forwarding

/-!
# Where a frame ends

A reader of a stream looks at the first sixteen bytes of a frame to know its
length, and decodes the header to know how many descriptors belong to it.
What it finds there is what the encoder wrote: `peekFrameLen_of_toBytes` is
about the length, `unixFds_of_toBytes` about the descriptors.

The encoder writes paths that nobody has checked. A frame with such a path is
not accepted, so the fields of an accepted frame are the ones that were
encoded.

Of a frame that somebody else wrote the two readers of its length agree: the
arithmetic on the first sixteen bytes gives the byte at which the header that
is decoded has its body end (`boundary_agrees`).
-/

namespace Oxibus

namespace Value

/-- **Two layouts of one type that begin alike are the same**, and so are their
values. -/
theorem Layout.eq_of_append {be : Bool} {p : ℕ} {v v' : Value} {bs bs' r r' : List UInt8}
    (h : v.Layout be p bs) (h' : v'.Layout be p bs') (htype : v.valueType = v'.valueType)
    (heq : bs ++ r = bs' ++ r') : v = v' ∧ bs = bs' := by
  have hlen : (List.replicate p (0 : UInt8)).length = p := List.length_replicate
  rw [← hlen] at h h'
  have hread : Unmarshaler.readValue v.valueType
      ⟨List.replicate p 0 ++ bs ++ r, (List.replicate p (0 : UInt8)).length, be⟩ = _ :=
    readValue_of_layout h
  have hread' : Unmarshaler.readValue v'.valueType
      ⟨List.replicate p 0 ++ bs' ++ r', (List.replicate p (0 : UInt8)).length, be⟩ = _ :=
    readValue_of_layout h'
  rw [List.append_assoc, ← heq, ← List.append_assoc, ← htype, hread] at hread'
  simp only [Outcome.ok.injEq, Prod.mk.injEq, Unmarshaler.mk.injEq, List.length_append] at hread'
  obtain ⟨hv, -, hends, -⟩ := hread'
  exact ⟨hv, (List.append_inj heq (by omega)).1⟩

/-- The bytes of a string are some of the bytes it is written as. -/
theorem lt_length_of_encodeRawString {be : Bool} {s : String} {p : ℕ} {out : List UInt8}
    (h : encodeRawString be s p = .ok out) : (asBytes s).length < out.length := by
  unfold encodeRawString at h
  split at h
  · cases h
  · cases h
    simp only [List.length_append, List.length_cons, List.length_nil]
    omega

/-- A value of a struct type with two fields is a pair. -/
theorem eq_pair_of_valueType {v : Value} {s t : DType} (h : v.valueType = .struct [s, t]) :
    ∃ a b, v = .struct [a, b] ∧ a.valueType = s ∧ b.valueType = t := by
  cases v with
  | struct vs =>
    match vs, h with
    | [a, b], h =>
      rw [valueType, DType.struct.injEq] at h
      obtain ⟨ha, hb⟩ := List.cons.inj h
      exact ⟨a, b, rfl, ha, (List.cons.inj hb).1⟩
    | [], h => cases h
    | [_], h => cases h
    | _ :: _ :: _ :: _, h =>
      rw [valueType, DType.struct.injEq] at h
      cases (List.cons.inj (List.cons.inj h).2).2
  | _ => cases h

end Value

namespace HeaderField

variable {be : Bool} {p : ℕ} {r r' : List UInt8}

/-- **A code and a variant**: what follows the padding is the code, the signature of the
value, and the value. -/
theorem exists_variant_of_layout {e : Value} {b' : List UInt8}
    (htype : e.valueType = .struct [.byte, .variant]) (he : e.Layout be p b') :
    ∃ (c : UInt8) (v : Value) (pad vb : List UInt8), pad.length = padding p 8 ∧
      b' = pad ++ ([c] ++ (signatureBytes v.valueType.toSignatureString ++ vb)) ∧
      parseSingleCompleteType v.valueType.toSignatureString = .ok v.valueType ∧
      v.Layout be (p + padding p 8 + 1 + (v.valueType.sigBytes.length + 2)) vb := by
  obtain ⟨x, y, rfl, hx, hy⟩ := Value.eq_pair_of_valueType htype
  obtain ⟨c, rfl⟩ : ∃ c, x = .byte c := by
    cases x <;> cases hx
    exact ⟨_, rfl⟩
  obtain ⟨v, rfl⟩ : ∃ v, y = .variant v := by
    cases y <;> cases hy
    exact ⟨_, rfl⟩
  obtain ⟨-, pad, body, hpad, hall, rfl⟩ := he
  obtain ⟨b₁, b₂, rfl, ⟨b₃, b₄, hv, rfl, rfl⟩, rfl⟩ := hall
  obtain ⟨hparse, vb, hvb, rfl⟩ := hv
  refine ⟨c, v, pad, vb, hpad, ?_, hparse, hvb⟩
  rw [List.append_nil]

/-- **The path of an accepted field is valid**, whoever built it. -/
theorem isValidObjectPath_of_layout {path : ObjectPath} {e : Value} {b b' : List UInt8}
    (hb : (HeaderField.path path).element.encode be p = .ok b)
    (hshort : b.length < 2 ^ 32) (htype : e.valueType = .struct [.byte, .variant])
    (he : e.Layout be p b') (heq : b ++ r = b' ++ r') : isValidObjectPath path.text = true := by
  rw [element, toValue, code, encode_element_of (k := 111) rfl] at hb
  obtain ⟨str, hstr, rfl⟩ := Outcome.map_eq_ok.mp hb
  obtain ⟨c, v, pad, vb, hpad, rfl, hparse, hvb⟩ := exists_variant_of_layout htype he
  -- what follows the padding: the code, the signature, the value
  have hfield : [1] ++ ([1, 111, 0] ++ (str ++ r)) =
      [c] ++ (signatureBytes v.valueType.toSignatureString ++ (vb ++ r')) := by
    have hpadding : (zeros p 8).length = pad.length := by rw [length_zeros, hpad]
    simp only [List.append_assoc] at heq
    exact (List.append_inj heq hpadding).2
  have hsigs := (List.append_inj hfield rfl).2
  have hparse' : (parseSignature v.valueType.toSignatureString).isOk = true := by
    obtain ⟨ts, hts, -⟩ := Outcome.bind_eq_ok.mp hparse
    rw [hts]
    rfl
  have hwritten : (Value.signature ⟨"o"⟩).Layout be p [1, 111, 0] := ⟨rfl, rfl⟩
  have hread : (Value.signature ⟨v.valueType.toSignatureString⟩).Layout be p
      (signatureBytes v.valueType.toSignatureString) := ⟨hparse', rfl⟩
  obtain ⟨hsig, hbytes⟩ := hwritten.eq_of_append hread rfl hsigs
  have hname : "o" = v.valueType.toSignatureString :=
    congrArg Signature.text (Value.signature.inj hsig)
  have htype : v.valueType = .objectPath := by
    rw [← hname] at hparse
    exact Outcome.ok.inj (hparse.symm.trans rfl)
  obtain ⟨path', rfl⟩ : ∃ path', v = .objectPath path' := by
    cases v <;> cases htype
    exact ⟨_, rfl⟩
  -- the two paths are the same string
  obtain ⟨hvalid, hlayout⟩ := hvb
  have hstrings := (List.append_inj hsigs (congrArg List.length hbytes)).2
  have hwritten' : (Value.string path.text).Layout be (p + padding p 8 + 4) str := by
    refine Value.stringLayout_of_encode ?_ hstr
    have := Value.lt_length_of_encodeRawString hstr
    simp only [List.length_append] at hshort
    omega
  have hread' : (Value.string path'.text).Layout be (p + padding p 8 + 4) vb := hlayout
  have hpath := (hwritten'.eq_of_append hread' rfl hstrings).1
  rw [Value.string.inj hpath]
  exact hvalid

/-- A field is written as its code and more. -/
theorem ne_nil_of_encode_element {f : HeaderField} {b : List UInt8}
    (h : f.element.encode be p = .ok b) : b ≠ [] := by
  rw [element, Value.encode] at h
  obtain ⟨body, hbody, h⟩ := Outcome.bind_eq_ok.mp h
  cases h
  simp only [Value.encodeAll, Value.encode, Outcome.ok_bind] at hbody
  obtain ⟨bs, -, hbody⟩ := Outcome.bind_eq_ok.mp hbody
  cases hbody
  simp

/-- A field that is accepted is valid, if a signature in it is one. -/
theorem valid_of_layout {f : HeaderField} {e : Value} {b b' : List UInt8}
    (hsig : ∀ sig, f = .signature sig → (parseSignature sig.text).isOk = true)
    (hb : f.element.encode be p = .ok b) (hshort : b.length < 2 ^ 32)
    (htype : e.valueType = .struct [.byte, .variant]) (he : e.Layout be p b')
    (heq : b ++ r = b' ++ r') : f.Valid := by
  cases f with
  | path path => exact isValidObjectPath_of_layout hb hshort htype he heq
  | signature sig => exact hsig sig rfl
  | _ => trivial

/-- **The fields of an accepted array are valid.** -/
theorem valid_of_layoutAll {fs : List HeaderField} {es : List Value} {bs : List UInt8}
    (hsig : ∀ sig, .signature sig ∈ fs → (parseSignature sig.text).isOk = true)
    (hbs : Value.encodeAll be (fs.map element) p = .ok bs) (hshort : bs.length < 2 ^ 32)
    (htype : ∀ e ∈ es, e.valueType = .struct [.byte, .variant])
    (hes : Value.LayoutAll be es p bs) : ∀ f ∈ fs, f.Valid := by
  induction fs generalizing p es bs with
  | nil => exact fun f hf => absurd hf List.not_mem_nil
  | cons f fs ih =>
    obtain ⟨b, hb, hbs⟩ := Outcome.bind_eq_ok.mp hbs
    obtain ⟨bs', hbs', hbs⟩ := Outcome.bind_eq_ok.mp hbs
    cases hbs
    rw [List.length_append] at hshort
    match es, hes with
    | [], hes =>
      exact absurd (List.append_eq_nil_iff.mp hes).1 (ne_nil_of_encode_element hb)
    | e :: es, ⟨c, cs, he, hes, heq⟩ =>
      have hf : f.Valid := valid_of_layout (fun sig h => hsig sig (h ▸ List.mem_cons_self)) hb
        (by omega) (htype e List.mem_cons_self) he heq
      have hfits : f.element.Fits := by
        refine fits_element hf ?_
        have := (encode_element f hf be p).2 b hb
        omega
      -- the first field was read as it was written, so the others start where they did
      obtain ⟨-, rfl⟩ := (Value.layout_of_encode hfits hb).eq_of_append he
        (htype e List.mem_cons_self).symm heq
      obtain rfl := (List.append_inj heq rfl).2
      have hfs := ih (fun sig h => hsig sig (List.mem_cons_of_mem f h)) hbs' (by omega)
        (fun e' he' => htype e' (List.mem_cons_of_mem e he')) hes
      intro g hg
      rcases List.mem_cons.mp hg with rfl | hg
      · exact hf
      · exact hfs g hg

end HeaderField

namespace MessageHeader

/-- **Headers with the same fixed bytes differ in their fields at most.** -/
theorem eq_of_fixedBytes {h h' : MessageHeader} (heq : h.fixedBytes = h'.fixedBytes) :
    { h with fields := h'.fields } = h' := by
  obtain ⟨be, type, flags, version, bodyLength, serial, fields⟩ := h
  obtain ⟨be', type', flags', version', bodyLength', serial', fields'⟩ := h'
  simp only [fixedBytes, List.cons_append, List.nil_append, List.cons.injEq] at heq
  obtain ⟨hmarker, htype, rfl, rfl, hrest⟩ := heq
  obtain rfl : be' = be :=
    Outcome.ok.inj ((byteOrder_eq_ok.mpr hmarker).symm.trans (byteOrder_eq_ok.mpr rfl))
  obtain rfl : type' = type :=
    Outcome.ok.inj ((fromU8_eq_ok.mpr htype).symm.trans (fromU8_eq_ok.mpr rfl))
  obtain ⟨hbody, hserial⟩ := List.append_inj hrest (by simp)
  have hinj : ∀ {v v' : UInt32}, Oxibus.toBytes be' 4 v.toNat = Oxibus.toBytes be' 4 v'.toNat →
      v = v' := by
    intro v v' hv
    have := congrArg (ofBytes be') hv
    rw [ofBytes_toBytes _ v.toNat_lt, ofBytes_toBytes _ v'.toNat_lt] at this
    exact UInt32.toNat_inj.mp this
  rw [hinj hbody, hinj hserial]

/-- The array of fields is written as its length and the fields. -/
theorem exists_of_encode_fieldsValue {fs : List HeaderField} {be : Bool} {arr : List UInt8}
    (h : (fieldsValue fs).encode be 12 = .ok arr) : ∃ body,
      Value.encodeAll be (fs.map HeaderField.element) 16 = .ok body ∧ body.length ≤ maxArrayLen ∧
        arr = Oxibus.toBytes be 4 body.length ++ body := by
  rw [fieldsValue, Value.encode] at h
  obtain ⟨body, hbody, h⟩ := Outcome.bind_eq_ok.mp h
  split at h
  · cases h
  · next hmax =>
    cases h
    refine ⟨body, hbody, not_lt.mp hmax, ?_⟩
    show [] ++ Oxibus.toBytes be 4 body.length ++ [] ++ body = _
    rw [List.nil_append, List.append_nil]

/-- And it is read from its length and the fields. -/
theorem exists_of_layout {es : List Value} {be : Bool} {arr : List UInt8}
    (h : (Value.array (.struct [.byte, .variant]) es).Layout be 12 arr) : ∃ body,
      Value.LayoutAll be es 16 body ∧ body.length ≤ maxArrayLen ∧
        arr = Oxibus.toBytes be 4 body.length ++ body := by
  obtain ⟨-, pad, pad', body, hpad, hpad', hmax, hbody, rfl⟩ := h
  obtain rfl : pad = [] := List.eq_nil_of_length_eq_zero hpad
  obtain rfl : pad' = [] := List.eq_nil_of_length_eq_zero hpad'
  exact ⟨body, hbody, hmax, rfl⟩

/-! ## The two readers of a frame's length -/

variable {buf : List UInt8} {n : ℕ}

/-- What the first sixteen bytes say, they say whatever follows. -/
theorem readPrefix_append {pre : Prefix} (h : readPrefix buf = .ok pre) (rest : List UInt8) :
    readPrefix (buf ++ rest) = .ok pre := by
  obtain ⟨hversion, rest', rfl⟩ := readPrefix_eq_ok.mp h
  exact readPrefix_eq_ok.mpr ⟨hversion, rest' ++ rest, by simp only [List.append_assoc]⟩

/-- The length of a frame is told by its first sixteen bytes. -/
theorem peekFrameLen_eq_some : peekFrameLen buf = .ok (some n) ↔ ∃ pre, readPrefix buf = .ok pre ∧
    n = (16 + pre.fieldsArrayLen.toNat + 7) / 8 * 8 + pre.bodyLength.toNat := by
  unfold peekFrameLen
  constructor
  · intro h
    split at h
    · cases h
    · obtain ⟨pre, hpre, h⟩ := Outcome.bind_eq_ok.mp h
      cases h
      exact ⟨pre, hpre, rfl⟩
  · rintro ⟨pre, hpre, rfl⟩
    rw [if_neg, hpre, Outcome.ok_bind]
    intro hshort
    rw [readPrefix, if_pos hshort] at hpre
    cases hpre

theorem peekFrameLen_append (h : peekFrameLen buf = .ok (some n)) (rest : List UInt8) :
    peekFrameLen (buf ++ rest) = .ok (some n) := by
  obtain ⟨pre, hpre, hn⟩ := peekFrameLen_eq_some.mp h
  exact peekFrameLen_eq_some.mpr ⟨pre, readPrefix_append hpre rest, hn⟩

/-- **The body of a header that is decoded starts at a multiple of eight and ends where
the first sixteen bytes say.** -/
theorem peekFrameLen_of_read {h : MessageHeader} {off : ℕ} (hread : read buf = .ok (h, off)) :
    off % 8 = 0 ∧ peekFrameLen buf = .ok (some (off + h.bodyLength.toNat)) := by
  obtain ⟨hversion, es, arr, pad, tail, rfl, hlayout, -, hpad, rfl⟩ := read_eq_ok.mp hread
  obtain ⟨body, -, hmax, rfl⟩ := exists_of_layout hlayout
  have hlen : (UInt32.ofNat body.length).toNat = body.length := by
    rw [maxArrayLen] at hmax
    exact UInt32.toNat_ofNat_of_lt' (lt_of_le_of_lt hmax (by decide))
  rw [List.length_append, length_toBytes] at hpad ⊢
  have hoff : 12 + (4 + body.length) + pad.length = (16 + body.length + 7) / 8 * 8 := by
    rw [hpad, padding]
    omega
  refine ⟨by omega, peekFrameLen_eq_some.mpr ⟨⟨h.bigEndian, h.messageType, h.flags,
    h.protocolVersion, h.bodyLength, h.serial, UInt32.ofNat body.length⟩,
    readPrefix_eq_ok.mpr ⟨hversion, body ++ (pad ++ tail), ?_⟩, ?_⟩⟩
  · rw [hlen]
    simp [fixedBytes]
  · rw [hlen, hoff]

/-- **The two readers agree**: the length that is read off a frame's beginning does not
depend on what follows, and is where the body of its header ends. -/
theorem boundary_agrees (buf : List UInt8) (n : ℕ) (h : peekFrameLen buf = .ok (some n)) :
    (∀ rest, peekFrameLen (buf ++ rest) = .ok (some n)) ∧
      (n ≤ buf.length → ∀ (header : MessageHeader) (off : ℕ),
        read (buf.take n) = .ok (header, off) →
          off % 8 = 0 ∧ off + header.bodyLength.toNat = n) := by
  refine ⟨peekFrameLen_append h, fun _ header off hread => ?_⟩
  obtain ⟨hoff, hlen⟩ := peekFrameLen_of_read hread
  -- the whole buffer begins with the frame
  have hboth := peekFrameLen_append hlen (buf.drop n)
  rw [List.take_append_drop, h] at hboth
  exact ⟨hoff, (Option.some.inj (Outcome.ok.inj hboth)).symm⟩

/-- A call with fields, padding and a body, and some of what follows it. -/
theorem boundary_agrees_textCall :
    (∀ rest, peekFrameLen (Message.textCall ++ [108, 2] ++ rest) = .ok (some 63)) ∧
      ∃ header off, read ((Message.textCall ++ [108, 2]).take 63) = .ok (header, off) ∧
        off % 8 = 0 ∧ off + header.bodyLength.toNat = 63 := by
  have hlen : peekFrameLen (Message.textCall ++ [108, 2]) = .ok (some 63) := by decide +kernel
  have hread : (read ((Message.textCall ++ [108, 2]).take 63)).isOk = true := by decide +kernel
  obtain ⟨hrest, hagrees⟩ := boundary_agrees _ _ hlen
  obtain ⟨⟨header, off⟩, hheader⟩ := Outcome.isOk_iff.mp hread
  exact ⟨hrest, header, off, hheader, hagrees (by decide) header off hheader⟩

end MessageHeader

namespace Message

variable {m m' : Message} {out : List UInt8} {fds : List Int32}

/-- The signature in an encoded message is the one of its body. -/
theorem isOk_of_signature_mem {sig : Signature}
    (hsig : m.bodySignature = "" ∨ (parseSignature m.bodySignature).isOk = true)
    (h : .signature sig ∈ m.wireFields) : (parseSignature sig.text).isOk = true := by
  rcases wireFields_cases h with ⟨-, hbody⟩ | ⟨hne, heq⟩ | ⟨n, heq⟩
  · cases hbody
  · rw [HeaderField.signature.inj heq]
    exact hsig.resolve_left hne
  · cases heq

/-- **What is decoded from the bytes of a message has the header they were written
with.** -/
theorem header_of_fromBytes_toBytes (h : m.toBytes = .ok out) (h' : fromBytes out fds = .ok m') :
    ∃ n, m'.header = m.wireHeader n := by
  obtain ⟨hsig, bodyBytes, arr, -, -, harr, rfl⟩ := toBytes_eq_ok.mp h
  obtain ⟨-, -, -, es, arr', pad, bodyBuf, tail, heq, hlayout, hfields, -⟩ := fromBytes_eq_ok.mp h'
  obtain ⟨hfixed, hrest⟩ := List.append_inj heq (by simp)
  have hheader := MessageHeader.eq_of_fixedBytes hfixed
  have hbe : m.header.bigEndian = m'.header.bigEndian := by rw [← hheader]; rfl
  rw [← hbe] at hlayout
  have htype : ∀ e ∈ es, e.valueType = .struct [.byte, .variant] := hlayout.1
  obtain ⟨body, hbody, hmax, harr₁⟩ := MessageHeader.exists_of_encode_fieldsValue harr
  obtain ⟨body', hbody', hmax', harr₂⟩ := MessageHeader.exists_of_layout hlayout
  -- the two arrays have the same length, so they are the same bytes
  have hbytes : body = body' := by
    rw [harr₁, harr₂] at hrest
    simp only [List.append_assoc] at hrest
    obtain ⟨hlens, hrest⟩ := List.append_inj hrest (by simp)
    have hlen := congrArg (ofBytes m.header.bigEndian) hlens
    rw [maxArrayLen] at hmax hmax'
    rw [ofBytes_toBytes _ (by omega), ofBytes_toBytes _ (by omega)] at hlen
    exact (List.append_inj hrest hlen).1
  subst hbytes
  have hvalid : ∀ f ∈ m.wireFields, f.Valid := by
    refine HeaderField.valid_of_layoutAll (fun sig => isOk_of_signature_mem hsig) hbody ?_ htype
      hbody'
    rw [maxArrayLen] at hmax
    omega
  have hread :=
    (Value.layout_of_encode (MessageHeader.fits_fieldsValue hvalid harr) harr).eq_of_append
    hlayout rfl hrest
  have helements : m.wireFields.map HeaderField.element = es := (Value.array.inj hread.1).2
  rw [← helements, MessageHeader.collectFields_elements] at hfields
  refine ⟨bodyBytes.length, ?_⟩
  rw [← hheader, ← Outcome.ok.inj hfields]
  rfl

/-- **An accepted frame declares as many descriptors as were to be sent with it**, if
that many can be declared. -/
theorem unixFds_of_fromBytes_toBytes (h : m.toBytes = .ok out) (h' : fromBytes out fds = .ok m')
    (hfds : m.fds.length < 2 ^ 32) : m'.header.unixFds.toNat = m.fds.length := by
  obtain ⟨n, hheader⟩ := header_of_fromBytes_toBytes h h'
  rw [hheader, unixFds_wireHeader, UInt32.toNat_ofNat_of_lt' hfds]

/-- A frame has sixteen bytes at least. -/
theorem length_of_toBytes (h : m.toBytes = .ok out) : 16 ≤ out.length := by
  obtain ⟨-, bodyBytes, arr, -, -, harr, rfl⟩ := toBytes_eq_ok.mp h
  obtain ⟨fields, -, -, rfl⟩ := MessageHeader.exists_of_encode_fieldsValue harr
  simp only [List.length_append, MessageHeader.length_fixedBytes, length_toBytes]
  omega

/-- **A frame tells its length from the sixteenth byte on**, whatever follows it and
however much of it is there. -/
theorem peekFrameLen_of_toBytes {buf rest : List UInt8} (h : m.toBytes = .ok out)
    (h' : fromBytes out fds = .ok m') (hshort : out.length < 2 ^ 32) (hbuf : buf <+: out ++ rest) :
    MessageHeader.peekFrameLen buf = .ok (if buf.length < 16 then none else some out.length) := by
  unfold MessageHeader.peekFrameLen
  split
  · rfl
  · next hlong =>
    obtain ⟨-, bodyBytes, arr, -, -, harr, rfl⟩ := toBytes_eq_ok.mp h
    obtain ⟨fields, -, hmax, rfl⟩ := MessageHeader.exists_of_encode_fieldsValue harr
    have hversion : m.header.protocolVersion = protocolVersion := by
      obtain ⟨n, hheader⟩ := header_of_fromBytes_toBytes h h'
      obtain ⟨-, -, hversion, -⟩ := fromBytes_eq_ok.mp h'
      rwa [hheader] at hversion
    rw [maxArrayLen] at hmax
    have hfields : (UInt32.ofNat fields.length).toNat = fields.length :=
      UInt32.toNat_ofNat_of_lt' (lt_of_le_of_lt hmax (by decide))
    have hbody : (UInt32.ofNat bodyBytes.length).toNat = bodyBytes.length := by
      refine UInt32.toNat_ofNat_of_lt' (lt_of_le_of_lt ?_ hshort)
      simp only [List.length_append]
      omega
    -- the first sixteen bytes are in the buffer
    obtain ⟨rest', hrest'⟩ : (m.wireHeader bodyBytes.length).fixedBytes ++
        Oxibus.toBytes m.header.bigEndian 4 fields.length <+: buf := by
      refine List.prefix_of_prefix_length_le ?_ hbuf ?_
      · simp only [List.append_assoc]
        exact (List.prefix_append_right_inj _).mpr (List.prefix_append _ _)
      · simpa using not_lt.mp hlong
    have hpre : MessageHeader.readPrefix buf = .ok ⟨m.header.bigEndian, m.header.messageType,
        m.header.flags, m.header.protocolVersion, UInt32.ofNat bodyBytes.length, m.header.serial,
        UInt32.ofNat fields.length⟩ := by
      refine MessageHeader.readPrefix_eq_ok.mpr ⟨hversion, rest', ?_⟩
      rw [hfields, ← hrest']
      simp [MessageHeader.fixedBytes, wireHeader]
    rw [hpre, Outcome.ok_bind]
    simp only [hfields, hbody, List.length_append, MessageHeader.length_fixedBytes, length_toBytes,
      length_zeros, padding]
    congr 2
    omega

end Message

end Oxibus
