import Oxibus.Core.Forwarding
import Oxibus.Core.Sieves

/-!
# What is not checked of a body

A header says how long the body is, of which types its values are and how
many descriptors come with it. The decoder reads the values from the
beginning of the body and returns what it has read. Two things it could hold
against the body go unchecked.

It does not ask whether anything is left. The body of a decoded message is
read to its end exactly if the body is nothing but values of the declared
types (`Message.decodedWhole_iff`); bytes behind them are dropped without a
word, and so is a whole body that comes without a signature.

It counts the descriptors a message declares, and not the ones that the body
refers to. An index stands wherever a signature has an `h`, inside any number
of containers, and a variant brings its own signature. `readWithFds` is the
decoder that checks each index as it reads it. The indices of a decoded body
are in range exactly where that one accepts the message as well
(`Message.fdIndices_lt_iff`).
-/

namespace Oxibus

open Outcome

/-! ## How far a body is read -/

/-- **How many bytes of a body are consumed** by the values that are read from it; none
without a signature. -/
def bodyConsumed (bodyBuf : List UInt8) (sig : String) (bigEndian : Bool) : CoreResult ℕ :=
  if sig = "" then .ok 0
  else do
    let types ← parseSignature sig
    let (_, u) ← Unmarshaler.readValues types (Unmarshaler.new bodyBuf bigEndian)
    .ok u.pos

/-- A body whose signature is empty is one of no types. -/
theorem bodyConsumed_eq_ok {bodyBuf : List UInt8} {sig : String} {be : Bool} {n : ℕ} :
    bodyConsumed bodyBuf sig be = .ok n ↔ ∃ types vs u, parseSignature sig = .ok types ∧
      Unmarshaler.readValues types (Unmarshaler.new bodyBuf be) = .ok (vs, u) ∧ n = u.pos := by
  unfold bodyConsumed
  by_cases hsig : sig = ""
  · rw [if_pos hsig]
    subst hsig
    constructor
    · rintro h
      cases h
      exact ⟨[], [], _, rfl, rfl, rfl⟩
    · rintro ⟨types, vs, u, htypes, hvs, rfl⟩
      cases htypes
      cases hvs
      rfl
  · rw [if_neg hsig]
    constructor
    · intro h
      obtain ⟨types, htypes, h⟩ := bind_eq_ok.mp h
      obtain ⟨⟨vs, u⟩, hvs, h⟩ := bind_eq_ok.mp h
      cases h
      exact ⟨types, vs, u, htypes, hvs, rfl⟩
    · rintro ⟨types, vs, u, htypes, hvs, rfl⟩
      rw [htypes, ok_bind, hvs]
      rfl

/-- **A body is consumed to its end exactly if it is a layout of what is read.** -/
theorem bodyConsumed_eq_length_iff {bodyBuf : List UInt8} {sig : String} {be : Bool} :
    bodyConsumed bodyBuf sig be = .ok bodyBuf.length ↔
      ∃ vs, parseSignature sig = .ok (Value.valueTypes vs) ∧ Value.LayoutAll be vs 0 bodyBuf := by
  rw [bodyConsumed_eq_ok]
  constructor
  · rintro ⟨types, vs, u, htypes, hvs, hlen⟩
    obtain ⟨rfl, bs, hbs, hcons⟩ :=
      (Unmarshaler.readValues_eq_ok (parseSignature_reads htypes).2.2 (Nat.zero_le _)).mp hvs
    -- what was consumed is a prefix, and as long as the body
    have hstands : bs <+: bodyBuf := hcons.2.1
    have hbslen : bs.length = bodyBuf.length := by
      rw [hlen, hcons.pos_eq]
      exact (Nat.zero_add _).symm
    rw [hstands.eq_of_length hbslen] at hbs
    exact ⟨vs, htypes, hbs⟩
  · rintro ⟨vs, htypes, hbs⟩
    have hrest : (Unmarshaler.new bodyBuf be).rest = bodyBuf ++ [] := by
      rw [List.append_nil]
      rfl
    have hcons := Unmarshaler.consumes_of_rest (Nat.zero_le _) hrest
    have hvs := (Unmarshaler.readValues_eq_ok (parseSignature_reads htypes).2.2
      (Nat.zero_le _)).mpr ⟨rfl, bodyBuf, hbs, hcons⟩
    exact ⟨_, vs, _, htypes, hvs, by rw [hcons.pos_eq]; exact (Nat.zero_add _).symm⟩

namespace Message

variable {buf : List UInt8} {fds : List Int32} {m : Message}

/-- **The body of a message was decoded whole**: of the bytes that the header cuts out of
the buffer all were consumed. Without a signature there are none. -/
def DecodedWhole (buf : List UInt8) (m : Message) : Prop :=
  ∃ off bodyBuf, MessageHeader.read buf = .ok (m.header, off) ∧
    (Unmarshaler.new buf false).slice off (off + m.header.bodyLength.toNat) = .ok bodyBuf ∧
    bodyConsumed bodyBuf m.header.signature m.header.bigEndian = .ok m.header.bodyLength.toNat

/-- **A frame whose body is nothing but values of the declared types**, one laid out after
the other; of no types without a signature. -/
def BodyOfValues (buf : List UInt8) : Prop :=
  ∃ header off vs body rest, MessageHeader.read buf = .ok (header, off) ∧
    buf.drop off = body ++ rest ∧ body.length = header.bodyLength.toNat ∧
    parseSignature header.signature = .ok (Value.valueTypes vs) ∧
    Value.LayoutAll header.bigEndian vs 0 body

/-- What is cut out of a buffer stands in it. -/
theorem slice_eq_ok {off n : ℕ} {body : List UInt8} :
    (Unmarshaler.new buf false).slice off (off + n) = .ok body ↔
      off + n ≤ buf.length ∧ body = (buf.drop off).take n := by
  unfold Unmarshaler.slice
  rw [Nat.add_sub_cancel_left]
  split
  · next h =>
    rw [ok.injEq]
    exact ⟨fun hbody => ⟨h.2, hbody.symm⟩, fun hbody => hbody.2.symm⟩
  · next h =>
    constructor
    · intro hbody
      cases hbody
    · rintro ⟨hle, -⟩
      exact absurd ⟨Nat.le_add_right _ _, hle⟩ h

/-- **When the body of a message is decoded whole.** -/
theorem decodedWhole_iff (h : fromBytes buf fds = .ok m) :
    m.DecodedWhole buf ↔ BodyOfValues buf := by
  obtain ⟨-, -, off, bodyBuf, hread, hslice, -⟩ := fromBytes_eq_ok_steps.mp h
  obtain ⟨hle, htake⟩ := slice_eq_ok.mp hslice
  have hlen : bodyBuf.length = m.header.bodyLength.toNat := by
    rw [htake, List.length_take, List.length_drop]
    omega
  constructor
  · rintro ⟨off', bodyBuf', hread', hslice', hconsumed⟩
    rw [hread] at hread'
    cases hread'
    rw [hslice] at hslice'
    cases hslice'
    rw [← hlen] at hconsumed
    obtain ⟨vs, htypes, hbs⟩ := bodyConsumed_eq_length_iff.mp hconsumed
    refine ⟨m.header, off, vs, bodyBuf, (buf.drop off).drop m.header.bodyLength.toNat, hread, ?_,
      hlen, htypes, hbs⟩
    rw [htake, List.take_append_drop]
  · rintro ⟨header', off', vs, body', rest, hread', hdrop, hlen', htypes, hbs⟩
    rw [hread] at hread'
    cases hread'
    obtain rfl : bodyBuf = body' := by
      rw [htake, hdrop, ← hlen', List.take_left]
    refine ⟨off, bodyBuf, hread, hslice, ?_⟩
    rw [← hlen]
    exact bodyConsumed_eq_length_iff.mpr ⟨vs, htypes, hbs⟩

/-- A body that is one text is decoded whole. -/
theorem decodedWhole_textCall : ∃ m, fromBytes textCall [] = .ok m ∧ m.body = [.string "hi"] ∧
    m.DecodedWhole textCall ∧ (m.DecodedWhole textCall ↔ BodyOfValues textCall) :=
  ⟨_, rfl, rfl, ⟨56, [2, 0, 0, 0, 104, 105, 0], rfl, rfl, rfl⟩, decodedWhole_iff rfl⟩

/-- A call that has a body of one byte and no signature for it. -/
def unsignedCall : List UInt8 := [108, 1, 0, 1, 1, 0, 0, 0, 1, 0, 0, 0, 0, 0, 0, 0, 7]

/-- **Its body is dropped.** -/
theorem unsignedCall_not_decodedWhole :
    ¬ ∀ buf fds m, fromBytes buf fds = .ok m → m.DecodedWhole buf := by
  intro h
  obtain ⟨off, bodyBuf, hread, hslice, hconsumed⟩ := h unsignedCall [] _ rfl
  cases hread
  cases hslice
  cases hconsumed

end Message

/-! ## The descriptors a value refers to -/

namespace Value

mutual

/-- **The indices of descriptors in a value**, at any depth. -/
def fdIndices : Value → List UInt32
  | unixFd index => [index]
  | array _ vs => fdIndicesAll vs
  | struct vs => fdIndicesAll vs
  | dictEntry k v => fdIndices k ++ fdIndices v
  | variant inner => fdIndices inner
  | _ => []

/-- The indices in a list of values. -/
def fdIndicesAll : List Value → List UInt32
  | [] => []
  | v :: vs => fdIndices v ++ fdIndicesAll vs

end

/-- All the indices in a value are below `n`. -/
def FdsBelow (n : ℕ) (v : Value) : Prop := ∀ index ∈ v.fdIndices, index.toNat < n

theorem forall_fdIndicesAll_iff {vs : List Value} {n : ℕ} :
    (∀ index ∈ fdIndicesAll vs, index.toNat < n) ↔ ∀ v ∈ vs, v.FdsBelow n := by
  induction vs with
  | nil => simp [fdIndicesAll]
  | cons v vs ih => rw [fdIndicesAll, List.forall_mem_append, ih, List.forall_mem_cons, FdsBelow]

/-- Of the basic types only one refers to a descriptor. -/
theorem fdIndices_of_isBasic {v : Value} (h : v.valueType.isBasic = true)
    (hfd : v.valueType ≠ .unixFd) : v.fdIndices = [] := by
  cases basic_of_isBasic h with
  | unixFd _ => exact absurd rfl hfd
  | _ => rfl

end Value

/-! ## A decoder that checks the indices -/

namespace Unmarshaler

/-- **A layer of `read_value` that checks an index** when it has read it. -/
def readLayerWithFds (n : ℕ) (read : DType → Unmarshaler → CoreResult (Value × Unmarshaler)) :
    DType → Unmarshaler → CoreResult (Value × Unmarshaler)
  | .unixFd, u => do
    let (index, u) ← u.readU32
    if index.toNat < n then .ok (.unixFd index, u) else .err (.fdIndexOutOfRange index n)
  | t, u => readLayer read t u

/-- Reading with the check, with at most so many values nested in each
other. -/
def readWithFdsN (n : ℕ) : ℕ → DType → Unmarshaler → CoreResult (Value × Unmarshaler)
  | 0, _, _ => .diverge
  | rounds + 1, t, u => readLayerWithFds n (readWithFdsN n rounds) t u

/-- **Read one value of a type, for a message with `n` descriptors.** -/
def readWithFds (n : ℕ) (t : DType) (u : Unmarshaler) : CoreResult (Value × Unmarshaler) :=
  readWithFdsN n (nesting t u + 1) t u

section

variable {read read' : DType → Unmarshaler → CoreResult (Value × Unmarshaler)} {n : ℕ}

theorem composes_fdsBelow (n : ℕ) : Composes (Value.FdsBelow n) (Value.FdsBelow n) where
  array _ _ := Value.forall_fdIndicesAll_iff
  struct _ := Value.forall_fdIndicesAll_iff
  dictEntry _ _ := List.forall_mem_append
  variant _ := Iff.rfl

/-- **A layer checks what the reader below it does not**, the indices that are values
themselves. -/
theorem readLayerWithFds_sieves (hsound : Sound read') (h : Sieves (Value.FdsBelow n) read read') :
    Sieves (Value.FdsBelow n) (readLayerWithFds n read) (readLayer read') := by
  intro t u v u' hpos
  cases hbasic : t.isBasic with
  | false =>
    have heq : readLayerWithFds n read t u = readLayer read t u := by
      cases t with
      | unixFd => cases hbasic
      | _ => rfl
    rw [heq]
    exact readLayer_sieves hsound h (composes_fdsBelow n) hbasic hpos
  | true =>
    by_cases hfd : t = .unixFd
    · subst hfd
      show (do
        let (index, u) ← u.readU32
        if index.toNat < n then .ok (Value.unixFd index, u)
        else .err (.fdIndexOutOfRange index n) : CoreResult (Value × Unmarshaler)) = .ok (v, u') ↔
        (do
          let (index, u) ← u.readU32
          .ok (Value.unixFd index, u) : CoreResult (Value × Unmarshaler)) = .ok (v, u') ∧ _
      rw [Outcome.bind_eq_ok, Outcome.bind_eq_ok]
      constructor
      · rintro ⟨⟨index, u₁⟩, hindex, h⟩
        simp only at h
        split at h
        · next hlt =>
          cases h
          exact ⟨⟨_, hindex, rfl⟩, List.forall_mem_singleton.mpr hlt⟩
        · cases h
      · rintro ⟨⟨⟨index, u₁⟩, hindex, h⟩, hlt⟩
        cases h
        exact ⟨_, hindex, if_pos (List.forall_mem_singleton.mp hlt)⟩
    · -- the other basic types are read without the other function
      have heq : readLayerWithFds n read t u = readLayer read' t u := by
        cases t with
        | unixFd => exact absurd rfl hfd
        | array _ => cases hbasic
        | struct _ => cases hbasic
        | dictEntry _ _ => cases hbasic
        | variant => cases hbasic
        | _ => rfl
      rw [heq]
      refine ⟨fun hread => ⟨hread, ?_⟩, And.left⟩
      obtain ⟨rfl, -⟩ := readLayer_sound hsound hpos hread
      rw [Value.FdsBelow, Value.fdIndices_of_isBasic hbasic hfd]
      exact fun index hindex => absurd hindex List.not_mem_nil

/-- **The checking decoder reads exactly the values whose indices are in range.** -/
theorem readWithFds_sieves (n : ℕ) : Sieves (Value.FdsBelow n) (readWithFds n) readValue := by
  have hrounds :
      ∀ rounds, Sieves (Value.FdsBelow n) (readWithFdsN n rounds) (readValueN rounds) := by
    intro rounds
    induction rounds with
    | zero =>
      intro t u v u' _
      constructor
      · intro h
        cases h
      · rintro ⟨h, -⟩
        cases h
    | succ rounds ih => exact readLayerWithFds_sieves (readValueN_sound rounds) ih
  intro t u v u' hpos
  exact hrounds _ hpos

end

end Unmarshaler

namespace Message

/-- The values of a body, by the checking decoder. -/
def decodeBodyWithFds (n : ℕ) (bodyBuf : List UInt8) (sig : String) (bigEndian : Bool) :
    CoreResult (List Value) :=
  if sig = "" then .ok []
  else do
    let types ← parseSignature sig
    let (values, _) ←
      Unmarshaler.readFields (Unmarshaler.readWithFds n) types (Unmarshaler.new bodyBuf bigEndian)
    .ok values

/-- **`from_bytes` with the check**: it refuses a body that refers to a descriptor which
has not come with the message. -/
def fromBytesWithFds (buf : List UInt8) (fds : List Int32) : CoreResult Message := do
  let (header, bodyOffset) ← MessageHeader.read buf
  let bodyBuf ← (Unmarshaler.new buf false).slice bodyOffset
    (bodyOffset + header.bodyLength.toNat)
  let body ← decodeBodyWithFds fds.length bodyBuf header.signature header.bigEndian
  let declaredFds := header.unixFds.toNat
  if fds.length < declaredFds then
    .err (.fdIndexOutOfRange (UInt32.ofNat declaredFds) fds.length)
  else .ok ⟨header, body, fds⟩

variable {buf : List UInt8} {fds : List Int32} {m : Message}

theorem decodeBodyWithFds_eq_ok {n : ℕ} {bodyBuf : List UInt8} {sig : String} {be : Bool}
    {vs : List Value} : decodeBodyWithFds n bodyBuf sig be = .ok vs ↔
      decodeBody bodyBuf sig be = .ok vs ∧ ∀ v ∈ vs, v.FdsBelow n := by
  have hfields : ∀ {ts u'}, Unmarshaler.readFields (Unmarshaler.readWithFds n) ts
      (Unmarshaler.new bodyBuf be) = .ok (vs, u') ↔
      Unmarshaler.readValues ts (Unmarshaler.new bodyBuf be) = .ok (vs, u') ∧
        ∀ v ∈ vs, v.FdsBelow n :=
    Unmarshaler.readFields_sieves Unmarshaler.readValue_sound
      (Unmarshaler.readWithFds_sieves n) (Nat.zero_le _)
  unfold decodeBodyWithFds decodeBody
  split
  · refine ⟨fun h => ⟨h, ?_⟩, And.left⟩
    cases h
    exact fun v hv => absurd hv List.not_mem_nil
  · rw [unmarshalBody]
    constructor
    · intro h
      obtain ⟨ts, hts, h⟩ := bind_eq_ok.mp h
      obtain ⟨⟨vs', u'⟩, hvs, h⟩ := bind_eq_ok.mp h
      cases h
      obtain ⟨hvs', hbelow⟩ := hfields.mp hvs
      rw [hts, ok_bind, hvs']
      exact ⟨rfl, hbelow⟩
    · rintro ⟨h, hbelow⟩
      obtain ⟨ts, hts, h⟩ := bind_eq_ok.mp h
      obtain ⟨⟨vs', u'⟩, hvs, h⟩ := bind_eq_ok.mp h
      cases h
      rw [hts, ok_bind, hfields.mpr ⟨hvs, hbelow⟩]
      rfl

/-- **The indices of a decoded body are in range exactly where the decoder that checks
them accepts the message.** -/
theorem fdIndices_lt_iff (h : fromBytes buf fds = .ok m) :
    (∀ index ∈ Value.fdIndicesAll m.body, index.toNat < m.fds.length) ↔
      (fromBytesWithFds buf fds).isOk = true := by
  obtain ⟨rfl, hfds, off, bodyBuf, hread, hslice, hbody⟩ := fromBytes_eq_ok_steps.mp h
  rw [Value.forall_fdIndicesAll_iff, isOk_iff, fromBytesWithFds, hread, ok_bind]
  simp only [hslice, ok_bind]
  constructor
  · intro hbelow
    rw [decodeBodyWithFds_eq_ok.mpr ⟨hbody, hbelow⟩, ok_bind, if_neg (not_lt.mpr hfds)]
    exact ⟨_, rfl⟩
  · rintro ⟨m', h'⟩
    obtain ⟨body', hbody', -⟩ := bind_eq_ok.mp h'
    obtain ⟨hbody'', hbelow⟩ := decodeBodyWithFds_eq_ok.mp hbody'
    rw [hbody] at hbody''
    cases hbody''
    exact hbelow

/-- A call that lends two descriptors, one in an array and the other one in a variant. -/
def lendingCall : List UInt8 :=
  [108, 1, 0, 1, 16, 0, 0, 0, 1, 0, 0, 0, 17, 0, 0, 0] ++
    ([9, 1, 117, 0, 2, 0, 0, 0] ++ ([8, 1, 103, 0, 3, 97, 104, 118, 0] ++ ([0, 0, 0, 0, 0, 0, 0] ++
      ([4, 0, 0, 0, 0, 0, 0, 0] ++ [1, 104, 0, 0, 1, 0, 0, 0]))))

/-- Both come with it. -/
theorem fdIndices_lt_lendingCall : ∃ m, fromBytes lendingCall [7, 8] = .ok m ∧
    Value.fdIndicesAll m.body = [0, 1] ∧
    ((∀ index ∈ Value.fdIndicesAll m.body, index.toNat < m.fds.length) ↔
      (fromBytesWithFds lendingCall [7, 8]).isOk = true) :=
  ⟨_, rfl, rfl, fdIndices_lt_iff rfl⟩

/-- A call whose body is the index zero of a descriptor, in a variant; it declares no
descriptors. -/
def fdlessCall : List UInt8 :=
  [108, 1, 0, 1, 8, 0, 0, 0, 1, 0, 0, 0, 7, 0, 0, 0, 8, 1, 103, 0, 1, 118, 0, 0,
    1, 104, 0, 0, 0, 0, 0, 0]

/-- **It is accepted without a descriptor.** -/
theorem fdlessCall_not_fdIndices_lt : ¬ ∀ buf fds m, fromBytes buf fds = .ok m →
    ∀ index ∈ Value.fdIndicesAll m.body, index.toNat < m.fds.length := by
  intro h
  have hlt := h fdlessCall [] _ rfl 0 List.mem_cons_self
  cases hlt

end Message

end Oxibus
