import Oxibus.Core.Decoding

/-!
# Decoders that refuse more

A reader of values may check something of a value while it reads it, and
refuse what fails the check. It `Sieves` another reader with a predicate when
it reads exactly what the other one reads and the predicate holds of. If the
predicate is one of the parts of a container, the layer that `read_value` is
made of hands it on (`readLayer_sieves`): checking the parts is checking the
whole.
-/

namespace Oxibus

namespace Unmarshaler

variable {read read' : DType → Unmarshaler → CoreResult (Value × Unmarshaler)} {P Q : Value → Prop}
  {t : DType} {ts : List DType} {u u' : Unmarshaler} {v : Value} {vs : List Value}

/-- **A reader that reads what another one reads, where the value satisfies `P`.** -/
def Sieves (P : Value → Prop)
    (read read' : DType → Unmarshaler → CoreResult (Value × Unmarshaler)) :
    Prop :=
  ∀ {t u v u'}, u.pos ≤ u.buf.length → (read t u = .ok (v, u') ↔ read' t u = .ok (v, u') ∧ P v)

/-- **A predicate of containers that is one of their parts.** -/
structure Composes (P Q : Value → Prop) : Prop where
  array : ∀ t vs, P (.array t vs) ↔ ∀ v ∈ vs, Q v
  struct : ∀ vs, P (.struct vs) ↔ ∀ v ∈ vs, Q v
  dictEntry : ∀ k v, P (.dictEntry k v) ↔ Q k ∧ Q v
  variant : ∀ inner, P (.variant inner) ↔ Q inner

theorem readFields_sieves (hsound : Sound read') (h : Sieves Q read read')
    (hpos : u.pos ≤ u.buf.length) : readFields read ts u = .ok (vs, u') ↔
      readFields read' ts u = .ok (vs, u') ∧ ∀ v ∈ vs, Q v := by
  induction ts generalizing u vs with
  | nil =>
    refine ⟨fun hread => ⟨hread, ?_⟩, And.left⟩
    cases hread
    exact fun v hv => absurd hv List.not_mem_nil
  | cons t ts ih =>
    rw [readFields_cons_eq_ok, readFields_cons_eq_ok]
    constructor
    · rintro ⟨v, u₁, vs', hv, hvs, rfl⟩
      obtain ⟨hv', hq⟩ := (h hpos).mp hv
      obtain ⟨hvs', hqs⟩ := (ih (hsound hpos hv').2.le_length).mp hvs
      exact ⟨⟨v, u₁, vs', hv', hvs', rfl⟩, List.forall_mem_cons.mpr ⟨hq, hqs⟩⟩
    · rintro ⟨⟨v, u₁, vs', hv, hvs, rfl⟩, hqs⟩
      obtain ⟨hq, hqs⟩ := List.forall_mem_cons.mp hqs
      exact ⟨v, u₁, vs', (h hpos).mpr ⟨hv, hq⟩,
        (ih (hsound hpos hv).2.le_length).mpr ⟨hvs, hqs⟩, rfl⟩

theorem readElements_sieves (hsound : Sound read') (h : Sieves Q read read') {stop rounds : ℕ}
    (hpos : u.pos ≤ u.buf.length) : readElements (read t) stop rounds u = .ok (vs, u') ↔
      readElements (read' t) stop rounds u = .ok (vs, u') ∧ ∀ v ∈ vs, Q v := by
  induction rounds generalizing u vs with
  | zero =>
    refine ⟨fun hread => ⟨hread, ?_⟩, And.left⟩
    rw [readElements] at hread
    split at hread
    · cases hread
    · cases hread
      exact fun v hv => absurd hv List.not_mem_nil
  | succ rounds ih =>
    rw [readElements_succ_eq_ok, readElements_succ_eq_ok]
    constructor
    · rintro (⟨hstop, rfl, rfl⟩ | ⟨hstop, v, u₁, vs', hv, hvs, rfl⟩)
      · exact ⟨.inl ⟨hstop, rfl, rfl⟩, fun v hv => absurd hv List.not_mem_nil⟩
      · obtain ⟨hv', hq⟩ := (h hpos).mp hv
        obtain ⟨hvs', hqs⟩ := (ih (hsound hpos hv').2.le_length).mp hvs
        exact ⟨.inr ⟨hstop, v, u₁, vs', hv', hvs', rfl⟩, List.forall_mem_cons.mpr ⟨hq, hqs⟩⟩
    · rintro ⟨⟨hstop, rfl, rfl⟩ | ⟨hstop, v, u₁, vs', hv, hvs, rfl⟩, hqs⟩
      · exact .inl ⟨hstop, rfl, rfl⟩
      · obtain ⟨hq, hqs⟩ := List.forall_mem_cons.mp hqs
        exact .inr ⟨hstop, v, u₁, vs', (h hpos).mpr ⟨hv, hq⟩,
          (ih (hsound hpos hv).2.le_length).mpr ⟨hvs, hqs⟩, rfl⟩

/-- **A layer over a reader that checks the parts checks the whole.** -/
theorem readLayer_sieves (hsound : Sound read') (h : Sieves Q read read') (hPQ : Composes P Q)
    (ht : t.isBasic = false) (hpos : u.pos ≤ u.buf.length) :
    readLayer read t u = .ok (v, u') ↔ readLayer read' t u = .ok (v, u') ∧ P v := by
  cases t with
  | array elem =>
    rw [readLayer_array_eq_ok, readLayer_array_eq_ok]
    constructor
    · rintro ⟨len, u₁, u₂, vs, hlen, hmax, halign, hneed, hvs, hstop, rfl⟩
      have h₁ := before_of_readU32 hpos hlen
      have h₂ := before_of_align (alignment_pos elem) h₁.le_length halign
      obtain ⟨hvs', hqs⟩ := (readElements_sieves hsound h h₂.le_length).mp hvs
      exact ⟨⟨len, u₁, u₂, vs, hlen, hmax, halign, hneed, hvs', hstop, rfl⟩,
        (hPQ.array elem vs).mpr hqs⟩
    · rintro ⟨⟨len, u₁, u₂, vs, hlen, hmax, halign, hneed, hvs, hstop, rfl⟩, hp⟩
      have h₁ := before_of_readU32 hpos hlen
      have h₂ := before_of_align (alignment_pos elem) h₁.le_length halign
      have hvs' := (readElements_sieves hsound h h₂.le_length).mpr
        ⟨hvs, (hPQ.array elem vs).mp hp⟩
      exact ⟨len, u₁, u₂, vs, hlen, hmax, halign, hneed, hvs', hstop, rfl⟩
  | struct ts =>
    rw [readLayer_struct_eq_ok, readLayer_struct_eq_ok]
    constructor
    · rintro ⟨u₁, vs, halign, hvs, rfl⟩
      have h₁ := before_of_align (by decide) hpos halign
      obtain ⟨hvs', hqs⟩ := (readFields_sieves hsound h h₁.le_length).mp hvs
      exact ⟨⟨u₁, vs, halign, hvs', rfl⟩, (hPQ.struct vs).mpr hqs⟩
    · rintro ⟨⟨u₁, vs, halign, hvs, rfl⟩, hp⟩
      have h₁ := before_of_align (by decide) hpos halign
      have hvs' := (readFields_sieves hsound h h₁.le_length).mpr ⟨hvs, (hPQ.struct vs).mp hp⟩
      exact ⟨u₁, vs, halign, hvs', rfl⟩
  | dictEntry kt vt =>
    rw [readLayer_dictEntry_eq_ok, readLayer_dictEntry_eq_ok]
    constructor
    · rintro ⟨u₁, k, u₂, w, halign, hk, hw, rfl⟩
      have h₁ := before_of_align (by decide) hpos halign
      obtain ⟨hk', hqk⟩ := (h h₁.le_length).mp hk
      obtain ⟨hw', hqw⟩ := (h (hsound h₁.le_length hk').2.le_length).mp hw
      exact ⟨⟨u₁, k, u₂, w, halign, hk', hw', rfl⟩, (hPQ.dictEntry k w).mpr ⟨hqk, hqw⟩⟩
    · rintro ⟨⟨u₁, k, u₂, w, halign, hk, hw, rfl⟩, hp⟩
      have h₁ := before_of_align (by decide) hpos halign
      obtain ⟨hqk, hqw⟩ := (hPQ.dictEntry k w).mp hp
      exact ⟨u₁, k, u₂, w, halign, (h h₁.le_length).mpr ⟨hk, hqk⟩,
        (h (hsound h₁.le_length hk).2.le_length).mpr ⟨hw, hqw⟩, rfl⟩
  | variant =>
    rw [readLayer_variant_eq_ok, readLayer_variant_eq_ok]
    constructor
    · rintro ⟨sig, u₁, t, inner, hsig, ht, hinner, rfl⟩
      have h₁ := (readSignatureStr_eq_ok.mp hsig).2.before
      obtain ⟨hinner', hq⟩ := (h h₁.le_length).mp hinner
      exact ⟨⟨sig, u₁, t, inner, hsig, ht, hinner', rfl⟩, (hPQ.variant inner).mpr hq⟩
    · rintro ⟨⟨sig, u₁, t, inner, hsig, ht, hinner, rfl⟩, hp⟩
      have h₁ := (readSignatureStr_eq_ok.mp hsig).2.before
      exact ⟨sig, u₁, t, inner, hsig, ht,
        (h h₁.le_length).mpr ⟨hinner, (hPQ.variant inner).mp hp⟩, rfl⟩
  | _ => cases ht

end Unmarshaler

end Oxibus
