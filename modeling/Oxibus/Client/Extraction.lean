import Oxibus.Client.Descriptors

/-!
# Descriptors come back

What `extractFds` takes out of some values stands in the list of descriptors, and
each place that it leaves behind says where. So the values can be put together
again. This is as good as the numbers of the places are: they are of 32 bits, and
the place of a descriptor that has 2 ^ 32 others in front of it is written as
another one (`extractFds_lossless_iff`).
-/

namespace Oxibus

namespace Value

/-! ## The descriptors of a value -/

mutual

/-- The descriptors in a value, from left to right. -/
def leafFds : Value → List UInt32
  | unixFd fd => [fd]
  | array _ elements => leafFdsAll elements
  | struct fields => leafFdsAll fields
  | dictEntry k v => leafFds k ++ leafFds v
  | variant inner => leafFds inner
  | _ => []

/-- The descriptors in some values. -/
def leafFdsAll : List Value → List UInt32
  | [] => []
  | v :: vs => leafFds v ++ leafFdsAll vs

end

mutual

/-- A value with other numbers for its descriptors. -/
def mapFds (f : UInt32 → UInt32) : Value → Value
  | unixFd fd => unixFd (f fd)
  | array elementType elements => array elementType (mapFdsAll f elements)
  | struct fields => struct (mapFdsAll f fields)
  | dictEntry k v => dictEntry (mapFds f k) (mapFds f v)
  | variant inner => variant (mapFds f inner)
  | v => v

/-- Values with other numbers for their descriptors. -/
def mapFdsAll (f : UInt32 → UInt32) : List Value → List Value
  | [] => []
  | v :: vs => mapFds f v :: mapFdsAll f vs

end

/-- The descriptor at a place. -/
def fdAt (fds : List Int32) (index : UInt32) : UInt32 := (fds.getD index.toNat 0).toUInt32

/-- The numbers of `n` places from a place on. -/
def places (start n : ℕ) : List UInt32 := (List.range' start n).map UInt32.ofNat

theorem length_places (start n : ℕ) : (places start n).length = n := by
  rw [places, List.length_map, List.length_range']

theorem places_append (start m n : ℕ) :
    places start (m + n) = places start m ++ places (start + m) n := by
  rw [places, places, places, ← List.map_append, List.range'_append_1]

/-! ## The walk -/

/-- **What a walk makes of descriptors**: `leaves` are those it finds, `leaves'` what it puts
there, `fds` is the list before it and `fds'` the list after it. -/
structure Walked (leaves leaves' : List UInt32) (fds fds' : List Int32) : Prop where
  /-- The descriptors are put at the end, in their order. -/
  appended : fds' = fds ++ leaves.map UInt32.toInt32
  /-- Each leaves its place behind. -/
  placed : leaves' = places fds.length leaves.length

theorem Walked.nil (fds : List Int32) : Walked [] [] fds fds := ⟨by simp, rfl⟩

/-- One walk after another one. -/
theorem Walked.append {l₁ l₂ l₁' l₂' : List UInt32} {fds fds₁ fds₂ : List Int32}
    (h₁ : Walked l₁ l₁' fds fds₁) (h₂ : Walked l₂ l₂' fds₁ fds₂) :
    Walked (l₁ ++ l₂) (l₁' ++ l₂') fds fds₂ := by
  constructor
  · rw [h₂.appended, h₁.appended, List.map_append, List.append_assoc]
  · rw [h₁.placed, h₂.placed, h₁.appended, List.length_append, List.length_append, places_append,
      List.length_map]

/-- **The walk takes the descriptors from left to right.** -/
theorem walked :
    (∀ v fds, Walked (leafFds v) (leafFds (walkFds v fds).1) fds (walkFds v fds).2) ∧
      ∀ vs fds, Walked (leafFdsAll vs) (leafFdsAll (extractFds vs fds).1) fds
        (extractFds vs fds).2 := by
  apply walkFds.mutual_induct
  case case1 => exact fun fd fds => ⟨rfl, rfl⟩
  case case2 => exact fun t vs fds ih => ih
  case case3 => exact fun vs fds ih => ih
  case case4 => exact fun k v fds ihk ihv => ihk.append ihv
  case case5 => exact fun inner fds ih => ih
  case case6 =>
    -- a value without parts, and no descriptor
    intro v fds hfd harray hstruct hdict hvariant
    cases v with
    | unixFd fd => exact (hfd fd rfl).elim
    | array t vs => exact (harray t vs rfl).elim
    | struct vs => exact (hstruct vs rfl).elim
    | dictEntry k v => exact (hdict k v rfl).elim
    | variant inner => exact (hvariant inner rfl).elim
    | _ => exact .nil fds
  case case7 => exact fun fds => .nil fds
  case case8 => exact fun v vs fds ihv ihvs => ihv.append ihvs

theorem length_leafFds_walkFds (v : Value) (fds : List Int32) :
    (leafFds (walkFds v fds).1).length = (leafFds v).length := by
  rw [(walked.1 v fds).placed, length_places]

/-- **Nothing but the descriptors changes**: with the same numbers for them, what the walk
leaves is what it found. -/
theorem mapFds_walkFds (f g : UInt32 → UInt32) :
    (∀ v fds, (leafFds (walkFds v fds).1).map f = (leafFds v).map g →
        mapFds f (walkFds v fds).1 = mapFds g v) ∧
      ∀ vs fds, (leafFdsAll (extractFds vs fds).1).map f = (leafFdsAll vs).map g →
        mapFdsAll f (extractFds vs fds).1 = mapFdsAll g vs := by
  have hparts : ∀ {l₁ l₂ l₁' l₂' : List UInt32}, l₁'.length = l₁.length →
      (l₁' ++ l₂').map f = (l₁ ++ l₂).map g → l₁'.map f = l₁.map g ∧ l₂'.map f = l₂.map g := by
    intro l₁ l₂ l₁' l₂' hlen h
    rw [List.map_append, List.map_append] at h
    exact List.append_inj h (by rw [List.length_map, List.length_map, hlen])
  apply walkFds.mutual_induct
  case case1 => exact fun fd fds h => congrArg unixFd (List.cons.inj h).1
  case case2 => exact fun t vs fds ih h => congrArg (array t) (ih h)
  case case3 => exact fun vs fds ih h => congrArg struct (ih h)
  case case4 =>
    intro k v fds key ihk ihv h
    obtain ⟨hk, hv⟩ := hparts (length_leafFds_walkFds k fds) h
    exact congrArg₂ dictEntry (ihk hk) (ihv hv)
  case case5 => exact fun inner fds ih h => congrArg variant (ih h)
  case case6 =>
    intro v fds hfd harray hstruct hdict hvariant _
    cases v with
    | unixFd fd => exact (hfd fd rfl).elim
    | array t vs => exact (harray t vs rfl).elim
    | struct vs => exact (hstruct vs rfl).elim
    | dictEntry k v => exact (hdict k v rfl).elim
    | variant inner => exact (hvariant inner rfl).elim
    | _ => rfl
  case case7 => exact fun fds _ => rfl
  case case8 =>
    intro v vs fds head ihv ihvs h
    obtain ⟨hv, hvs⟩ := hparts (length_leafFds_walkFds v fds) h
    exact congrArg₂ List.cons (ihv hv) (ihvs hvs)

theorem mapFds_id : (∀ v, mapFds id v = v) ∧ ∀ vs, mapFdsAll id vs = vs := by
  apply mapFds.mutual_induct
  case case1 => exact fun _ => rfl
  case case2 => exact fun t vs ih => congrArg (array t) ih
  case case3 => exact fun vs ih => congrArg struct ih
  case case4 => exact fun k v ihk ihv => congrArg₂ dictEntry ihk ihv
  case case5 => exact fun inner ih => congrArg variant ih
  case case6 =>
    intro v hfd harray hstruct hdict hvariant
    rw [mapFds] <;> assumption
  case case7 => rfl
  case case8 => exact fun v vs ihv ihvs => congrArg₂ List.cons ihv ihvs

/-! ## Nothing is lost -/

/-- The places of some descriptors say which they are. -/
theorem map_fdAt_places {fds : List Int32} {leaves : List UInt32}
    (h : fds.length + leaves.length ≤ 2 ^ 32) :
    (places fds.length leaves.length).map (fdAt (fds ++ leaves.map UInt32.toInt32)) = leaves := by
  refine List.ext_getElem (by rw [List.length_map, length_places]) fun j hj hj' => ?_
  have hindex : (UInt32.ofNat (fds.length + j)).toNat = fds.length + j :=
    UInt32.toNat_ofNat_of_lt' (by rw [UInt32.size]; omega)
  rw [List.getElem_map]
  simp only [places, List.getElem_map, List.getElem_range', Nat.one_mul, fdAt, hindex]
  rw [List.getD_eq_getElem?_getD, List.getElem?_append_right (Nat.le_add_right _ _),
    Nat.add_sub_cancel_left, List.getElem?_map, List.getElem?_eq_getElem hj']
  simp

/-- The numbers of places, if there are enough of them. -/
theorem map_toNat_places {start n : ℕ} (h : start + n ≤ 2 ^ 32) :
    (places start n).map UInt32.toNat = List.range' start n := by
  rw [places, List.map_map]
  refine (List.map_congr_left fun i hi => ?_).trans (List.map_id _)
  obtain ⟨j, hj, rfl⟩ := List.mem_range'.mp hi
  exact UInt32.toNat_ofNat_of_lt' (by rw [UInt32.size]; omega)

/-- **Taking the descriptors out of some values loses nothing.** -/
structure Lossless (vs : List Value) (fds : List Int32) : Prop where
  /-- They are put at the end of the list, from left to right. -/
  appended : (extractFds vs fds).2 = fds ++ (leafFdsAll vs).map UInt32.toInt32
  /-- Only they have changed. -/
  elsewhere : mapFdsAll (fun _ => 0) (extractFds vs fds).1 = mapFdsAll (fun _ => 0) vs
  /-- Each has its place in the list instead. -/
  placed : (leafFdsAll (extractFds vs fds).1).map UInt32.toNat
    = List.range' fds.length (leafFdsAll vs).length
  /-- With the descriptor of its place for each, the values are those from before. -/
  restored : mapFdsAll (fdAt (extractFds vs fds).2) (extractFds vs fds).1 = vs

/-- **Nothing is lost exactly if the places can be numbered**: there is no descriptor in the
values, or there are at most 2 ^ 32 in the list afterwards. -/
theorem extractFds_lossless_iff (vs : List Value) (fds : List Int32) :
    Lossless vs fds ↔ leafFdsAll vs = [] ∨ fds.length + (leafFdsAll vs).length ≤ 2 ^ 32 := by
  have hwalked := walked.2 vs fds
  constructor
  · intro h
    by_contra hfar
    rw [not_or, not_le] at hfar
    have hpos := List.length_pos_of_ne_nil hfar.1
    -- the last place has no number
    have hlast : fds.length + ((leafFdsAll vs).length - 1) ∈
        List.range' fds.length (leafFdsAll vs).length :=
      List.mem_range'.mpr ⟨(leafFdsAll vs).length - 1, by omega, by omega⟩
    rw [← h.placed] at hlast
    obtain ⟨i, -, hi⟩ := List.mem_map.mp hlast
    have hlt := i.toNat_lt
    omega
  · intro h
    have hplaced : (leafFdsAll (extractFds vs fds).1).map UInt32.toNat
          = List.range' fds.length (leafFdsAll vs).length ∧
        (leafFdsAll (extractFds vs fds).1).map (fdAt (extractFds vs fds).2) = leafFdsAll vs := by
      rw [hwalked.placed, hwalked.appended]
      rcases h with hnone | hroom
      · rw [hnone]
        exact ⟨rfl, rfl⟩
      · exact ⟨map_toNat_places hroom, map_fdAt_places hroom⟩
    refine ⟨hwalked.appended, (mapFds_walkFds _ _).2 vs fds ?_, hplaced.1, ?_⟩
    · have hlen : (leafFdsAll (extractFds vs fds).1).length = (leafFdsAll vs).length := by
        rw [hwalked.placed, length_places]
      rw [List.map_const', List.map_const', hlen]
    · refine ((mapFds_walkFds _ id).2 vs fds ?_).trans (mapFds_id.2 vs)
      rw [hplaced.2, List.map_id]

/-- A descriptor with 2 ^ 32 others in front of it has the place of the first of them. -/
theorem extractFds_not_lossless : ¬ ∀ vs fds, Lossless vs fds := by
  intro h
  have hplaced := (h [.unixFd 5] (List.replicate (2 ^ 32) 0)).placed
  have hone : (leafFdsAll [.unixFd 5]).length = 1 := rfl
  rw [List.length_replicate, hone] at hplaced
  have hmem : 2 ^ 32 ∈ List.range' (2 ^ 32) 1 := List.mem_range'.mpr ⟨0, Nat.one_pos, rfl⟩
  rw [← hplaced] at hmem
  obtain ⟨i, -, hi⟩ := List.mem_map.mp hmem
  have hlt := i.toNat_lt
  omega

end Value

end Oxibus
