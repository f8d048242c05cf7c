import Oxibus.Core.Totality

/-!
# Decoding makes progress

A value of a parsed type takes at least a byte: a string and a container take
their length, a struct has a field, a variant has its signature. So a read that
succeeds ends further on than it began, and within the buffer. The loop over an
array ends for that reason. It has as many bytes as the array declares, each of
its rounds takes one of them, and there are no more rounds than bytes.

A read may also start where the buffer has ended already. There every check
fails, and so does the read.
-/

namespace Oxibus

open Outcome

/-! ## The parts of a type -/

/-- **The types that occur in a type**, itself among them. -/
inductive DType.PartOf : DType → DType → Prop
  | refl (t : DType) : PartOf t t
  | array {t elem : DType} : PartOf t elem → PartOf t (.array elem)
  | struct {t field : DType} {fields : List DType} : field ∈ fields → PartOf t field →
      PartOf t (.struct fields)
  | key {t k v : DType} : PartOf t k → PartOf t (.dictEntry k v)
  | val {t k v : DType} : PartOf t v → PartOf t (.dictEntry k v)

/-- What occurs in a parsed type could have been parsed. -/
theorem DType.PartOf.wellFormed {t t' : DType} (h : t'.PartOf t) {allow : Bool}
    (hwf : t.WellFormed allow) : ∃ allow', t'.WellFormed allow' := by
  induction h generalizing allow with
  | refl => exact ⟨allow, hwf⟩
  | array _ ih =>
    rw [DType.WellFormed] at hwf
    exact ih hwf
  | struct hmem _ ih =>
    rw [DType.WellFormed, DType.fieldsWellFormed_iff] at hwf
    exact ih (hwf.2 _ hmem)
  | key _ ih =>
    rw [DType.WellFormed] at hwf
    exact ih (Unmarshaler.wellFormed_of_isBasic hwf.2.1 false)
  | val _ ih =>
    rw [DType.WellFormed] at hwf
    exact ih hwf.2.2

namespace Unmarshaler

variable {t : DType} {allow : Bool} {u : Unmarshaler}

/-! ## Past the end -/

theorem need_past (h : u.buf.length < u.pos) (n : ℕ) :
    u.need n = .err (.unexpectedEof n (u.buf.length - u.pos)) :=
  if_pos (by omega)

theorem align_past (h : u.buf.length < u.pos) (n : ℕ) :
    u.align n = .ok u ∨ ∃ e, u.align n = .err e := by
  unfold align
  dsimp only
  split
  · rw [need_past h]
    exact .inr ⟨_, rfl⟩
  · exact .inl rfl

theorem readU8_past (h : u.buf.length < u.pos) : ∃ e, u.readU8 = .err e := by
  rw [readU8, need_past h]
  exact ⟨_, rfl⟩

theorem readUInt_past (h : u.buf.length < u.pos) (w : ℕ) : ∃ e, u.readUInt w = .err e := by
  unfold readUInt
  rcases align_past h w with halign | ⟨e, halign⟩
  · rw [halign, ok_bind, need_past h]
    exact ⟨_, rfl⟩
  · rw [halign]
    exact ⟨e, rfl⟩

theorem readU32_past (h : u.buf.length < u.pos) : ∃ e, u.readU32 = .err e := by
  obtain ⟨e, he⟩ := readUInt_past h 4
  rw [readU32, he]
  exact ⟨e, rfl⟩

/-- **Past the end, a layer fails**, whatever function it calls, if that fails on the
components. -/
theorem readLayer_past {read read' : DType → Unmarshaler → CoreResult (Value × Unmarshaler)}
    (hwf : t.WellFormed allow) (hpast : u.buf.length < u.pos)
    (h : ∀ {t' allow'}, t'.WellFormed allow' → t'.height < t.height →
      read t' u = read' t' u ∧ ∃ e, read t' u = .err e) :
    readLayer read t u = readLayer read' t u ∧ ∃ e, readLayer read t u = .err e := by
  obtain ⟨e₁, h₁⟩ := readU8_past hpast
  obtain ⟨e₄, h₄⟩ := readU32_past hpast
  cases t with
  | byte =>
    simp only [readLayer, h₁, err_bind]
    exact ⟨trivial, e₁, rfl⟩
  | boolean =>
    simp only [readLayer, h₄, err_bind]
    exact ⟨trivial, e₄, rfl⟩
  | string =>
    simp only [readLayer, readRawString, h₄, err_bind]
    exact ⟨trivial, e₄, rfl⟩
  | objectPath =>
    simp only [readLayer, readRawString, h₄, err_bind]
    exact ⟨trivial, e₄, rfl⟩
  | signature =>
    simp only [readLayer, readSignatureStr, h₁, err_bind]
    exact ⟨trivial, e₁, rfl⟩
  | array elem =>
    simp only [readLayer, h₄, err_bind]
    exact ⟨trivial, e₄, rfl⟩
  | struct ts =>
    rw [DType.WellFormed, DType.fieldsWellFormed_iff] at hwf
    simp only [readLayer]
    rcases align_past hpast 8 with halign | ⟨e, halign⟩
    · obtain ⟨field, fields, rfl⟩ := List.exists_cons_of_ne_nil hwf.1
      have hlt : field.height < (DType.struct (field :: fields)).height := by
        have hle := height_le_heightList (List.mem_cons_self (a := field) (l := fields))
        rw [DType.height]
        omega
      obtain ⟨heq, e, he⟩ := h (hwf.2 field List.mem_cons_self) hlt
      simp only [halign, ok_bind, readFields, ← heq, he, err_bind]
      exact ⟨trivial, e, rfl⟩
    · simp only [halign, err_bind]
      exact ⟨trivial, e, rfl⟩
  | dictEntry kt vt =>
    rw [DType.WellFormed] at hwf
    simp only [readLayer]
    rcases align_past hpast 8 with halign | ⟨e, halign⟩
    · obtain ⟨heq, e, he⟩ :=
        h (wellFormed_of_isBasic hwf.2.1 false) (by rw [DType.height]; omega : kt.height < _)
      simp only [halign, ok_bind, ← heq, he, err_bind]
      exact ⟨trivial, e, rfl⟩
    · simp only [halign, err_bind]
      exact ⟨trivial, e, rfl⟩
  | variant =>
    simp only [readLayer, readSignatureStr, h₁, err_bind]
    exact ⟨trivial, e₁, rfl⟩
  | _ =>
    rw [readLayer_fixed rfl, readLayer_fixed rfl]
    obtain ⟨e, he⟩ := readUInt_past hpast _
    rw [he]
    exact ⟨rfl, e, rfl⟩

/-- **Past the end, a read fails**, with any bound that the type does not exceed. -/
theorem readValueN_past {n m : ℕ} (hwf : t.WellFormed allow) (hpast : u.buf.length < u.pos)
    (hn : t.height < n) (hm : t.height < m) :
    readValueN n t u = readValueN m t u ∧ ∃ e, readValueN n t u = .err e := by
  induction n generalizing m t allow with
  | zero => exact absurd hn (Nat.not_lt_zero _)
  | succ n ih =>
    obtain ⟨m, rfl⟩ := Nat.exists_eq_succ_of_ne_zero (Nat.ne_zero_of_lt hm)
    exact readLayer_past hwf hpast fun hwf' hlt => ih hwf' (by omega) (by omega)

/-! ## Every read makes progress -/

/-- **A read that succeeds ends further on, within the buffer**, wherever it began. -/
theorem progress_of_readValue {v : Value} {u' : Unmarshaler} (hwf : t.WellFormed allow)
    (h : readValue t u = .ok (v, u')) :
    u'.buf = u.buf ∧ u.pos < u'.pos ∧ u'.pos ≤ u.buf.length := by
  rcases Nat.lt_or_ge u.buf.length u.pos with hpast | hpos
  · obtain ⟨-, e, he⟩ := readValueN_past (n := nesting t u + 1) (m := nesting t u + 1) hwf hpast
      (by unfold nesting; omega) (by unfold nesting; omega)
    rw [readValue, he] at h
    cases h
  · have hbefore := (readValue_sound hpos h).2
    exact ⟨hbefore.buf_eq, pos_lt_of_readValue hwf hpos h, hbefore.buf_eq ▸ hbefore.le_length⟩

/-- A read returns, and no bound on the nesting matters to it that exceeds the one of the
value and the buffer. -/
theorem readValueN_returns (hwf : t.WellFormed allow) {n : ℕ} (hn : nesting t u < n) :
    readValueN n t u = readValue t u ∧ (readValue t u).Returns := by
  rcases Nat.lt_or_ge u.buf.length u.pos with hpast | hpos
  · have hheight : t.height < n := by
      unfold nesting at hn
      omega
    obtain ⟨heq, e, he⟩ := readValueN_past (m := nesting t u + 1) hwf hpast hheight
      (by unfold nesting; omega)
    rw [readValue, ← heq, he]
    exact ⟨rfl, trivial⟩
  · exact ⟨readValueN_eq hpos hn (Nat.lt_succ_self _), returns_readValue hwf hpos⟩

/-! ## The rounds of a loop -/

/-- **The loop over an array after `k` rounds**, if it gets that far: the decoder at the
next look at the condition. -/
def afterRounds (read : Unmarshaler → CoreResult (Value × Unmarshaler)) (stop : ℕ) :
    ℕ → Unmarshaler → Option Unmarshaler
  | 0, u => some u
  | k + 1, u =>
    if u.pos < stop then
      match read u with
      | .ok (_, u') => afterRounds read stop k u'
      | _ => none
    else none

/-- A loop that gets to its next look has taken a byte a round. -/
theorem pos_of_afterRounds (hwf : t.WellFormed allow) {stop k : ℕ} {u' : Unmarshaler}
    (h : afterRounds (readValue t) stop k u = some u') : u.pos + k ≤ u'.pos := by
  induction k generalizing u with
  | zero =>
    rw [afterRounds] at h
    exact (Option.some.inj h ▸ Nat.le_refl _)
  | succ k ih =>
    rw [afterRounds] at h
    split at h
    · split at h
      · next v u₁ hv =>
        have hlt := (progress_of_readValue hwf hv).2.1
        have hrest := ih h
        omega
      · cases h
    · cases h

/-- More rounds than bytes change nothing. -/
theorem readElements_rounds (hwf : t.WellFormed allow) {stop m n : ℕ} (hm : stop ≤ u.pos + m)
    (hn : stop ≤ u.pos + n) :
    readElements (readValue t) stop m u = readElements (readValue t) stop n u := by
  induction m generalizing n u with
  | zero =>
    have hend : ¬ u.pos < stop := by omega
    cases n with
    | zero => rfl
    | succ n => rw [readElements, readElements, if_neg hend, if_neg hend]
  | succ m ih =>
    by_cases hlt : u.pos < stop
    · obtain ⟨n, rfl⟩ : ∃ k, n = k + 1 := ⟨n - 1, by omega⟩
      rw [readElements, readElements, if_pos hlt, if_pos hlt]
      cases hv : readValue t u with
      | ok r =>
        obtain ⟨v, u'⟩ := r
        have hprogress := (progress_of_readValue hwf hv).2.1
        simp only [ok_bind]
        rw [ih (n := n) (by omega) (by omega)]
      | _ => rfl
    · cases n with
      | zero => rw [readElements, readElements, if_neg hlt, if_neg hlt]
      | succ n => rw [readElements, readElements, if_neg hlt, if_neg hlt]

/-- **Decoding makes progress and ends.** A read of a parsed type returns, whatever the
buffer is and wherever it starts: no bound on the nesting cuts it short. If it succeeds, it
ends further on and within the buffer. And every loop over an array, of the type or of one
in it, has at most as many rounds as the array declares bytes: the round after `k` others
begins only if `k` is less. -/
theorem readValue_progress {s : String} {ts : List DType} (hs : parseSignature s = .ok ts)
    (ht : t ∈ ts) (u : Unmarshaler) :
    (readValue t u).Returns ∧
    (∀ n, nesting t u < n → readValueN n t u = readValue t u) ∧
    (∀ v u', readValue t u = .ok (v, u') →
      u'.buf = u.buf ∧ u.pos < u'.pos ∧ u'.pos ≤ u.buf.length) ∧
    ∀ elem, (DType.array elem).PartOf t → ∀ (u₁ : Unmarshaler) (len : ℕ),
      (∀ k u', afterRounds (readValue elem) (u₁.pos + len) k u₁ = some u' →
        u'.pos < u₁.pos + len → k < len) ∧
      ∀ rounds, len ≤ rounds → readElements (readValue elem) (u₁.pos + len) rounds u₁
        = readElements (readValue elem) (u₁.pos + len) len u₁ := by
  have hwf := (parseSignature_reads hs).2.2 t ht
  refine ⟨(readValueN_returns hwf (Nat.lt_succ_self _)).2,
    fun n hn => (readValueN_returns hwf hn).1, fun v u' h => progress_of_readValue hwf h, ?_⟩
  intro elem hpart u₁ len
  obtain ⟨allow, harray⟩ := hpart.wellFormed hwf
  rw [DType.WellFormed] at harray
  constructor
  · intro k u' hk hlt
    have hpos := pos_of_afterRounds harray hk
    omega
  · intro rounds hrounds
    exact readElements_rounds harray (by omega) le_rfl

/-- Three bytes in an array. -/
theorem readValue_progress_ay :
    (readValue (.array .byte) ⟨[3, 0, 0, 0, 7, 8, 9], 0, false⟩).Returns := by
  have hparse : parseSignature "ay" = .ok [.array .byte] := rfl
  exact (readValue_progress hparse List.mem_cons_self _).1

end Unmarshaler

end Oxibus
