import Oxibus.Core.Framing

/-!
# Decoding returns

The decoder indexes and slices a buffer that somebody else filled. Each of
its readers asks `need` before it looks at a byte, and that is enough: on any
bytes, from any position within them, a value of a parsed type is read or
refused (`Unmarshaler.returns_readValue`), and so is a header
(`MessageHeader.returns_read`). That the recursion ends is part of it. A
signature is shorter after each type that is parsed, a value of an array
takes at least a byte, and what a variant contains comes after the bytes of
its signature.

One slice has nothing before it: `from_bytes` cuts the body out of the buffer
by the length that the header declares. So it returns exactly on the frames
that are whole, and on those whose header is refused
(`Message.returns_fromBytes_iff`). The reader of a stream waits for whole
frames; whoever calls `from_bytes` with less has it panic.
-/

namespace Oxibus

open Outcome

/-! ## Signatures -/

namespace Parser

variable {allow : Bool} {p q : Parser} {n : ℕ}

theorem length_sigBytes_pos (t : DType) : 0 < t.sigBytes.length := by
  rw [DType.sigBytes, List.length_map]
  exact Nat.lt_of_le_of_lt (Nat.zero_le _) t.height_lt_length

/-- A type takes at least a byte of the signature. -/
theorem length_lt_of_parseOne {t : DType} (h : parseOne n allow p = .ok (t, q)) :
    q.rest.length < p.rest.length := by
  have hpos := length_sigBytes_pos t
  rw [((parse_reads n).1 h).rest_eq, List.length_append]
  omega

theorem length_of_advance {b : UInt8} (h : p.advance = some (b, q)) :
    q.rest.length + 1 = p.rest.length := by
  rw [(advance_eq_some h).1, List.length_cons]

/-- One level of the descent returns, if both functions do one level down on what is
left. -/
theorem returns_parseOne_step
    (hOne : ∀ {allow q}, q.rest.length < p.rest.length → (parseOne n allow q).Returns)
    (hFields : ∀ {q}, q.rest.length < p.rest.length → (parseFields n q).Returns) :
    (parseOne (n + 1) allow p).Returns := by
  rw [parseOne]
  split
  · trivial
  · next b p₁ hadv =>
    have hlt : p₁.rest.length < p.rest.length := Nat.lt_of_succ_le (length_of_advance hadv).le
    split
    · trivial
    · refine returns_ite (fun _ => returns_ite (fun _ => trivial) fun _ => ?_) fun _ =>
        returns_ite (fun _ => returns_ite (fun _ => trivial) fun _ => ?_) fun _ =>
          returns_ite (fun _ => returns_ite (fun _ => trivial) fun _ =>
            returns_ite (fun _ => trivial) fun _ => ?_) fun _ =>
              returns_ite (fun _ => trivial) fun _ => trivial
      · refine Returns.bind (hOne hlt) ?_
        rintro ⟨elem, p₂⟩ -
        trivial
      · refine Returns.bind (hFields hlt) ?_
        rintro ⟨fields, p₂⟩ -
        exact returns_ite (fun _ => trivial) fun _ => trivial
      · refine Returns.bind (hOne hlt) ?_
        rintro ⟨key, p₂⟩ hkey
        refine returns_ite (fun _ => trivial) fun _ => ?_
        have hlt' := (length_lt_of_parseOne hkey).trans hlt
        refine Returns.bind (hOne hlt') ?_
        rintro ⟨val, p₃⟩ -
        simp only
        split
        · exact returns_ite (fun _ => trivial) fun _ => trivial
        · trivial

theorem returns_parseFields_step
    (hOne : (parseOne n false p).Returns)
    (hFields : ∀ {q}, q.rest.length < p.rest.length → (parseFields n q).Returns) :
    (parseFields (n + 1) p).Returns := by
  rw [parseFields]
  split
  · trivial
  · refine returns_ite (fun _ => trivial) fun _ => hOne.bind ?_
    rintro ⟨field, p₁⟩ hfield
    refine (hFields (length_lt_of_parseOne hfield)).bind ?_
    rintro ⟨fields, p₂⟩ -
    trivial

/-- **The descent ends**, with two steps for each byte. -/
theorem returns_parse (n : ℕ) :
    (∀ {allow p}, 2 * p.rest.length < n → (parseOne n allow p).Returns) ∧
      ∀ {p}, 2 * p.rest.length + 1 < n → (parseFields n p).Returns := by
  induction n with
  | zero => exact ⟨fun h => absurd h (Nat.not_lt_zero _), fun h => absurd h (Nat.not_lt_zero _)⟩
  | succ n ih =>
    constructor
    · intro allow p hn
      exact returns_parseOne_step (fun hq => ih.1 (by omega)) fun hq => ih.2 (by omega)
    · intro p hn
      exact returns_parseFields_step (ih.1 (by omega)) fun hq => ih.2 (by omega)

theorem returns_parseAll (hn : 2 * p.rest.length + 1 < n) : (parseAll n p).Returns := by
  induction n generalizing p with
  | zero => exact absurd hn (Nat.not_lt_zero _)
  | succ n ih =>
    rw [parseAll]
    split
    · trivial
    · refine ((returns_parse n).1 (by omega)).bind ?_
      rintro ⟨t, p₁⟩ ht
      have hlt := length_lt_of_parseOne ht
      exact (ih (by omega)).bind fun _ _ => trivial

end Parser

/-- **A signature is parsed or refused.** -/
theorem returns_parseSignature (s : String) : (parseSignature s).Returns := by
  unfold parseSignature
  refine returns_ite (fun _ => trivial) fun _ => returns_ite (fun _ => trivial) fun _ => ?_
  exact Parser.returns_parseAll (Nat.lt_succ_self _)

theorem returns_parseSingleCompleteType (s : String) : (parseSingleCompleteType s).Returns := by
  refine (returns_parseSignature s).bind fun types _ => ?_
  split
  · trivial
  · trivial

theorem Signature.returns_new (s : String) : (Signature.new s).Returns := by
  unfold Signature.new
  exact returns_ite (fun _ => trivial) fun _ => (returns_parseSignature s).bind fun _ _ => trivial

/-! ## Values -/

namespace Unmarshaler

variable {t : DType} {ts : List DType} {allow : Bool} {u : Unmarshaler} {i j : ℕ}

theorem returns_need (u : Unmarshaler) (n : ℕ) : (u.need n).Returns := by
  unfold need
  exact returns_ite (fun _ => trivial) fun _ => trivial

theorem returns_align (u : Unmarshaler) (n : ℕ) : (u.align n).Returns := by
  unfold align
  exact returns_ite (fun _ => (returns_need ..).bind fun _ _ => trivial) fun _ => trivial

/-- An index within the buffer. -/
theorem returns_byteAt (h : i < u.buf.length) : (u.byteAt i).Returns := by
  rw [byteAt, List.getElem?_eq_getElem h]
  trivial

/-- **A slice is cut out exactly within the buffer.** -/
theorem returns_slice_iff : (u.slice i j).Returns ↔ i ≤ j ∧ j ≤ u.buf.length := by
  unfold slice
  split
  · next h => exact ⟨fun _ => h, fun _ => trivial⟩
  · next h => exact ⟨False.elim, h⟩

theorem returns_readU8 (u : Unmarshaler) : u.readU8.Returns := by
  refine (returns_need ..).bind fun _ hneed => ?_
  exact (returns_byteAt (Nat.lt_of_succ_le (need_eq_ok.mp hneed))).bind fun _ _ => trivial

theorem returns_readUInt (u : Unmarshaler) (w : ℕ) : (u.readUInt w).Returns := by
  refine (returns_align ..).bind fun u₁ _ => (returns_need ..).bind fun _ hneed => ?_
  have hslice : (u₁.slice u₁.pos (u₁.pos + w)).Returns :=
    returns_slice_iff.mpr ⟨Nat.le_add_right _ _, need_eq_ok.mp hneed⟩
  exact hslice.bind fun _ _ => trivial

theorem returns_readU32 (u : Unmarshaler) : u.readU32.Returns := by
  refine (returns_readUInt u 4).bind ?_
  rintro ⟨n, u₁⟩ -
  trivial

theorem returns_readText (u : Unmarshaler) (len : ℕ) (reason : String) :
    (u.readText len reason).Returns := by
  refine (returns_need ..).bind fun _ hneed => ?_
  have hle := need_eq_ok.mp hneed
  have hslice : (u.slice u.pos (u.pos + len)).Returns :=
    returns_slice_iff.mpr ⟨Nat.le_add_right _ _, by omega⟩
  refine hslice.bind fun bytes _ => (returns_ofOption ..).bind fun s _ => ?_
  exact (returns_byteAt (by omega)).bind fun _ _ => returns_ite (fun _ => trivial) fun _ => trivial

theorem returns_readRawString (u : Unmarshaler) : u.readRawString.Returns := by
  refine (returns_readU32 u).bind ?_
  rintro ⟨len, u₁⟩ -
  exact returns_readText ..

theorem returns_readSignatureStr (u : Unmarshaler) : u.readSignatureStr.Returns := by
  refine (returns_readU8 u).bind ?_
  rintro ⟨len, u₁⟩ -
  exact returns_readText ..

/-- A value takes at least a byte. -/
theorem pos_lt_of_readValue {v : Value} {u' : Unmarshaler} (hwf : t.WellFormed allow)
    (hpos : u.pos ≤ u.buf.length) (h : readValue t u = .ok (v, u')) : u.pos < u'.pos := by
  obtain ⟨-, bs, hbs, hcons⟩ := (readValue_eq_ok hwf hpos).mp h
  have hlen := List.length_pos_iff.mpr hbs.ne_nil
  rw [hcons.pos_eq]
  omega

/-- The loop over a struct's fields returns, if the reads of the fields do. -/
theorem returns_readFields (hpos : u.pos ≤ u.buf.length)
    (h : ∀ t ∈ ts, ∀ u', u.Before u' → (readValue t u').Returns) :
    (readFields readValue ts u).Returns := by
  induction ts generalizing u with
  | nil => trivial
  | cons t ts ih =>
    refine Returns.bind (h t List.mem_cons_self u (Before.refl hpos)) ?_
    rintro ⟨v, u₁⟩ hv
    have h₁ := (readValue_sound hpos hv).2
    have hrest := ih h₁.le_length fun t' ht' u' hu' =>
      h t' (List.mem_cons_of_mem t ht') u' (h₁.trans hu')
    refine Returns.bind hrest ?_
    rintro ⟨vs, u₂⟩ -
    trivial

/-- The loop over an array's elements returns: it has a round for each byte. -/
theorem returns_readElements {elem : DType} {stop rounds : ℕ} (hwf : elem.WellFormed true)
    (hpos : u.pos ≤ u.buf.length) (hrounds : stop ≤ u.pos + rounds)
    (h : ∀ u', u.Before u' → (readValue elem u').Returns) :
    (readElements (readValue elem) stop rounds u).Returns := by
  induction rounds generalizing u with
  | zero =>
    rw [Nat.add_zero] at hrounds
    rw [readElements, if_neg (Nat.not_lt.mpr hrounds)]
    trivial
  | succ rounds ih =>
    rw [readElements]
    refine returns_ite (fun _ => ?_) fun _ => trivial
    refine Returns.bind (h u (Before.refl hpos)) ?_
    rintro ⟨v, u₁⟩ hv
    have h₁ := (readValue_sound hpos hv).2
    have hlt := pos_lt_of_readValue hwf hpos hv
    refine Returns.bind (ih h₁.le_length (by omega) fun u' hu' => h u' (h₁.trans hu')) ?_
    rintro ⟨vs, u₂⟩ -
    trivial

/-- **A value of a parsed type is read or refused**, whatever the bytes are. -/
theorem returns_readValue (hwf : t.WellFormed allow) (hpos : u.pos ≤ u.buf.length) :
    (readValue t u).Returns := by
  induction hn : nesting t u using Nat.strong_induction_on generalizing t allow u with
  | _ n ih =>
    -- components nest less deep, and so does what a variant contains
    have hcomponent : ∀ {t' : DType} {allow' : Bool} {u' : Unmarshaler}, t'.WellFormed allow' →
        u.Before u' → t'.height < t.height → (readValue t' u').Returns := fun hwf' hu' hlt =>
      ih _ (hn ▸ nesting_lt hu' hlt) hwf' hu'.le_length rfl
    rw [readValue_eq _ hpos]
    cases t with
    | byte =>
      refine (returns_readU8 u).bind ?_
      rintro ⟨v, u₁⟩ -
      trivial
    | boolean =>
      refine (returns_readU32 u).bind ?_
      rintro ⟨v, u₁⟩ -
      exact returns_ite (fun _ => trivial) fun _ => returns_ite (fun _ => trivial) fun _ => trivial
    | string =>
      refine (returns_readRawString u).bind ?_
      rintro ⟨s, u₁⟩ -
      trivial
    | objectPath =>
      refine (returns_readRawString u).bind ?_
      rintro ⟨s, u₁⟩ -
      exact returns_ite (fun _ => trivial) fun _ => trivial
    | signature =>
      refine (returns_readSignatureStr u).bind ?_
      rintro ⟨s, u₁⟩ -
      exact (Signature.returns_new s).bind fun _ _ => trivial
    | array elem =>
      rw [DType.WellFormed] at hwf
      refine Returns.bind (returns_readU32 u) ?_
      rintro ⟨len, u₁⟩ hlen
      refine returns_ite (fun _ => trivial) fun _ => ?_
      refine (returns_align ..).bind fun u₂ halign => (returns_need ..).bind fun _ _ => ?_
      have h₁ := before_of_readU32 hpos hlen
      have h₂ := h₁.trans (before_of_align (alignment_pos elem) h₁.le_length halign)
      refine Returns.bind (returns_readElements hwf h₂.le_length le_rfl fun u' hu' => ?_) ?_
      · exact hcomponent hwf (h₂.trans hu') (by rw [DType.height]; omega)
      · rintro ⟨vs, u₃⟩ -
        exact returns_ite (fun _ => trivial) fun _ => trivial
    | struct ts =>
      rw [DType.WellFormed, DType.fieldsWellFormed_iff] at hwf
      refine (returns_align ..).bind fun u₁ halign => ?_
      have h₁ := before_of_align (by decide) hpos halign
      have hfields := returns_readFields h₁.le_length fun t ht u' hu' => by
        refine hcomponent (hwf.2 t ht) (h₁.trans hu') ?_
        have hle := height_le_heightList ht
        rw [DType.height]
        omega
      refine Returns.bind hfields ?_
      rintro ⟨vs, u₂⟩ -
      trivial
    | dictEntry kt vt =>
      rw [DType.WellFormed] at hwf
      refine (returns_align ..).bind fun u₁ halign => ?_
      have h₁ := before_of_align (by decide) hpos halign
      have hkey : (readValue kt u₁).Returns :=
        hcomponent (wellFormed_of_isBasic hwf.2.1 false) h₁ (by rw [DType.height]; omega)
      refine hkey.bind ?_
      rintro ⟨k, u₂⟩ hk
      have h₂ := h₁.trans (readValue_sound h₁.le_length hk).2
      have hval : (readValue vt u₂).Returns :=
        hcomponent hwf.2.2 h₂ (by rw [DType.height]; omega)
      refine hval.bind ?_
      rintro ⟨v, u₃⟩ -
      trivial
    | variant =>
      refine Returns.bind (returns_readSignatureStr u) ?_
      rintro ⟨sig, u₁⟩ hsig
      refine Returns.bind (returns_parseSingleCompleteType sig) fun t ht => ?_
      have htwf := (parseSignature_reads (parseSingleCompleteType_eq_ok.mp ht)).2.2 t
        List.mem_cons_self
      have hle := (readSignatureStr_eq_ok.mp hsig).2.before.le_length
      have hinner : (readValue t u₁).Returns :=
        ih _ (hn ▸ nesting_lt_variant hsig ht) htwf hle rfl
      refine hinner.bind ?_
      rintro ⟨v, u₂⟩ -
      trivial
    | _ =>
      rw [readLayer_fixed rfl, map_eq_pure_bind]
      exact (returns_readUInt ..).bind fun _ _ => trivial

end Unmarshaler

/-- **A body is decoded or refused.** -/
theorem returns_unmarshalBody (buf : List UInt8) (sig : String) (be : Bool) :
    (unmarshalBody buf sig be).Returns := by
  refine (returns_parseSignature sig).bind fun ts hts => ?_
  have hread : (Unmarshaler.readValues ts (Unmarshaler.new buf be)).Returns :=
    Unmarshaler.returns_readFields (Nat.zero_le _) fun t ht u' hu' =>
      Unmarshaler.returns_readValue ((parseSignature_reads hts).2.2 t ht) hu'.le_length
  refine hread.bind ?_
  rintro ⟨vs, u⟩ -
  trivial

/-! ## Headers -/

namespace HeaderField

theorem returns_expectString (v : Value) (name : String) : (expectString v name).Returns := by
  unfold expectString
  split
  · trivial
  · trivial
  · trivial

theorem returns_fromCodeAndValue (code : UInt8) (v : Value) :
    (fromCodeAndValue code v).Returns := by
  have hstring : ∀ (name : String) (f : String → HeaderField), (do
      let s ← expectString v name
      .ok (some (f s)) : CoreResult (Option HeaderField)).Returns :=
    fun name f => (returns_expectString v name).bind fun _ _ => trivial
  unfold fromCodeAndValue
  refine returns_ite (fun _ => ?_) fun _ => returns_ite (fun _ => hstring ..) fun _ =>
    returns_ite (fun _ => hstring ..) fun _ => returns_ite (fun _ => hstring ..) fun _ =>
      returns_ite (fun _ => ?_) fun _ => returns_ite (fun _ => hstring ..) fun _ =>
        returns_ite (fun _ => hstring ..) fun _ => returns_ite (fun _ => ?_) fun _ =>
          returns_ite (fun _ => ?_) fun _ => trivial
  all_goals
    split
    · trivial
    · trivial

end HeaderField

namespace MessageHeader

variable {buf : List UInt8}

theorem returns_byteOrder (b : UInt8) : (byteOrder b).Returns := by
  unfold byteOrder
  exact returns_ite (fun _ => trivial) fun _ => returns_ite (fun _ => trivial) fun _ => trivial

theorem returns_fromU8 (b : UInt8) : (MessageType.fromU8 b).Returns := by
  unfold MessageType.fromU8
  exact returns_ite (fun _ => trivial) fun _ => returns_ite (fun _ => trivial) fun _ =>
    returns_ite (fun _ => trivial) fun _ => returns_ite (fun _ => trivial) fun _ => trivial

/-- **The fixed part of a header is read or refused.** -/
theorem returns_readPrefix (buf : List UInt8) : (readPrefix buf).Returns := by
  unfold readPrefix
  refine returns_ite (fun _ => trivial) fun hlen => ?_
  have hbyte : ∀ i < 4, ((Unmarshaler.new buf false).byteAt i).Returns := fun i hi =>
    Unmarshaler.returns_byteAt (show i < buf.length by omega)
  refine (hbyte 0 (by decide)).bind fun b0 _ => (returns_byteOrder b0).bind fun be _ => ?_
  refine (hbyte 1 (by decide)).bind fun b1 _ => (returns_fromU8 b1).bind fun type _ => ?_
  refine (hbyte 2 (by decide)).bind fun flags _ => (hbyte 3 (by decide)).bind fun version _ => ?_
  refine returns_ite (fun _ => trivial) fun _ => ?_
  refine Returns.bind (Unmarshaler.returns_readU32 _) ?_
  rintro ⟨bodyLength, u₁⟩ -
  refine Returns.bind (Unmarshaler.returns_readU32 u₁) ?_
  rintro ⟨serial, u₂⟩ -
  refine Returns.bind (Unmarshaler.returns_readU32 u₂) ?_
  rintro ⟨len, u₃⟩ -
  trivial

theorem returns_collectFields (elements : List Value) : (collectFields elements).Returns := by
  fun_induction collectFields elements with
  | case1 => trivial
  | case2 code variant elements ih =>
    exact (HeaderField.returns_fromCodeAndValue ..).bind fun _ _ => ih.bind fun _ _ => trivial
  | case3 _ elements _ ih => exact ih

theorem returns_fieldsOf (v : Value) : (fieldsOf v).Returns := by
  unfold fieldsOf
  split
  · exact returns_collectFields _
  · trivial

/-- **A header is decoded or refused.** -/
theorem returns_read (buf : List UInt8) : (read buf).Returns := by
  refine (returns_readPrefix buf).bind fun pre hpre => ?_
  have hlen : 4 ≤ buf.length := by
    obtain ⟨-, rest, rfl⟩ := readPrefix_eq_ok.mp hpre
    simp only [List.length_append, List.length_cons, List.length_nil]
    omega
  refine Returns.bind (Unmarshaler.returns_readU32 _) ?_
  rintro ⟨bodyLength, u₁⟩ h₁
  have b₁ := Unmarshaler.before_of_readU32 hlen h₁
  refine Returns.bind (Unmarshaler.returns_readU32 u₁) ?_
  rintro ⟨serial, u₂⟩ h₂
  have b₂ := Unmarshaler.before_of_readU32 b₁.le_length h₂
  have hvalue := Unmarshaler.returns_readValue wellFormed_fieldsType b₂.le_length
  refine hvalue.bind ?_
  rintro ⟨v, u₃⟩ -
  refine (returns_fieldsOf v).bind fun fields _ => ?_
  exact (Unmarshaler.returns_align u₃ 8).bind fun _ _ => trivial

end MessageHeader

/-! ## Messages -/

namespace Message

/-- **When `from_bytes` returns**: where the frame is whole, by the length that its first
sixteen bytes tell, and where the header is refused. -/
theorem returns_fromBytes_iff (buf : List UInt8) (fds : List Int32) :
    (fromBytes buf fds).Returns ↔ (MessageHeader.read buf).isOk = false ∨
      ∃ n, MessageHeader.peekFrameLen buf = .ok (some n) ∧ n ≤ buf.length := by
  have hheader := MessageHeader.returns_read buf
  cases hread : MessageHeader.read buf with
  | err e => simp [fromBytes, hread]
  | panic =>
    rw [hread] at hheader
    exact hheader.elim
  | diverge =>
    rw [hread] at hheader
    exact hheader.elim
  | ok x =>
    obtain ⟨header, off⟩ := x
    have hpeek := (MessageHeader.peekFrameLen_of_read hread).2
    have hslice : ((Unmarshaler.new buf false).slice off
        (off + header.bodyLength.toNat)).Returns ↔ off + header.bodyLength.toNat ≤ buf.length :=
      Unmarshaler.returns_slice_iff.trans (and_iff_right (Nat.le_add_right _ _))
    have hwhole : (∃ n, MessageHeader.peekFrameLen buf = .ok (some n) ∧ n ≤ buf.length) ↔
        off + header.bodyLength.toNat ≤ buf.length := by
      rw [hpeek]
      constructor
      · rintro ⟨n, hn, hle⟩
        cases hn
        exact hle
      · exact fun hle => ⟨_, rfl, hle⟩
    rw [hwhole, ← hslice, fromBytes, hread, Outcome.ok_bind, returns_bind_iff]
    simp only [isOk_ok, Bool.true_eq_false, false_or, and_iff_left_iff_imp]
    intro _ bodyBuf _
    -- behind the slice nothing panics
    have hbody : (decodeBody bodyBuf header.signature header.bigEndian).Returns := by
      unfold decodeBody
      exact returns_ite (fun _ => trivial) fun _ => returns_unmarshalBody ..
    exact hbody.bind fun _ _ => returns_ite (fun _ => trivial) fun _ => trivial

/-- A call that declares a body of one byte, without the byte. -/
def truncatedCall : List UInt8 := [108, 1, 0, 1, 1, 0, 0, 0, 1, 0, 0, 0, 0, 0, 0, 0]

/-- **On the first sixteen bytes of a frame of seventeen it panics.** -/
theorem fromBytes_truncatedCall : ¬ ∀ buf fds, (fromBytes buf fds).Returns := by
  intro h
  have hreturns := h truncatedCall []
  rw [show fromBytes truncatedCall [] = .panic from rfl] at hreturns
  exact hreturns

end Message

end Oxibus
