import Oxibus.Core.Signature
import Oxibus.Lib.Text

/-!
# The segments of an object path

An object path is a path in a tree: a slash is the root, and each segment leads
to a child. The check of the source looks at bytes; what it accepts are the texts
of lists of segments (`exists_pathText_of_isValid`), and the segments are found
again in the text (`segmentsOf_pathText`).
-/

namespace Oxibus

/-- A segment of a path: some text without a slash. -/
def IsSegment (s : String) : Prop := s ≠ "" ∧ '/' ∉ s.toList

/-- Some segments, each behind a slash. -/
def pathChars (segments : List String) : List Char :=
  segments.flatMap fun segment => '/' :: segment.toList

/-- **The path that some segments are.** -/
def pathText (segments : List String) : String :=
  if segments = [] then "/" else String.ofList (pathChars segments)

/-- **The segments of a path.** -/
def segmentsOf (path : String) : List String :=
  (split '/' path).filter fun segment => decide (segment ≠ "")

theorem toList_pathText {segments : List String} (h : segments ≠ []) :
    (pathText segments).toList = pathChars segments := by
  unfold pathText
  rw [if_neg h, String.toList_ofList]

theorem pathChars_append (segments segments' : List String) :
    pathChars (segments ++ segments') = pathChars segments ++ pathChars segments' :=
  List.flatMap_append

/-- The first segment, at the slash behind it or at the end. -/
theorem splitOn_segment_append {segment : String} (h : '/' ∉ segment.toList)
    (segments : List String) :
    (segment.toList ++ pathChars segments).splitOn '/' =
      segment.toList :: ((pathChars segments).splitOn '/').tail := by
  cases segments with
  | nil =>
    show (segment.toList ++ []).splitOn '/' = _
    rw [List.append_nil, List.splitOn_eq_singleton h]
    rfl
  | cons next rest =>
    have hslash : pathChars (next :: rest) = [] ++ '/' :: (next.toList ++ pathChars rest) := by
      unfold pathChars
      rw [List.flatMap_cons, List.nil_append, List.cons_append]
    rw [hslash, List.splitOn_append_cons_self, List.nil_append,
      List.splitOn_append_cons_self_of_not_mem h]
    rfl

/-- **The segments are found again.** -/
theorem segmentsOf_pathText {segments : List String} (h : ∀ s ∈ segments, IsSegment s) :
    segmentsOf (pathText segments) = segments := by
  have hpieces : ∀ segments : List String, (∀ s ∈ segments, IsSegment s) →
      (pathChars segments).splitOn '/' = [] :: segments.map String.toList := by
    intro segments hsegments
    induction segments with
    | nil => rfl
    | cons segment segments ih =>
      have hslash : pathChars (segment :: segments)
          = [] ++ '/' :: (segment.toList ++ pathChars segments) := by
        unfold pathChars
        rw [List.flatMap_cons, List.nil_append, List.cons_append]
      have hrest := ih fun s hs => hsegments s (List.mem_cons_of_mem _ hs)
      rw [hslash, List.splitOn_append_cons_self,
        splitOn_segment_append (hsegments segment List.mem_cons_self).2, hrest]
      rfl
  by_cases hnil : segments = []
  · rw [hnil]
    decide
  · have hall : segments.filter (fun segment => decide (segment ≠ "")) = segments :=
      List.filter_eq_self.mpr fun s hs => decide_eq_true (h s hs).1
    unfold segmentsOf split
    rw [toList_pathText hnil, hpieces segments h, List.map_cons, List.map_map]
    simp only [Function.comp_def, String.ofList_toList, List.map_id']
    rw [List.filter_cons_of_neg (by decide)]
    exact hall

/-! ## What the source accepts -/

/-- The byte of a segment is an ASCII character and no slash. -/
theorem isPathByte_spec {b : UInt8} (h : isPathByte b = true) :
    b.toNat < 128 ∧ byteChar b ≠ '/' := by
  have hall : ∀ n < 256, isPathByte (UInt8.ofNat n) = true →
      (UInt8.ofNat n).toNat < 128 ∧ byteChar (UInt8.ofNat n) ≠ '/' := by
    decide +kernel
  have hb := hall b.toNat b.toNat_lt
  rw [UInt8.ofNat_toNat] at hb
  exact hb h

/-- The text of a segment. -/
def segmentText (bytes : List UInt8) : String := String.ofList (bytes.map byteChar)

theorem isSegment_segmentText {bytes : List UInt8} (hne : bytes ≠ [])
    (h : ∀ b ∈ bytes, isPathByte b = true) : IsSegment (segmentText bytes) := by
  constructor
  · unfold segmentText
    rw [← String.toList_inj.ne, String.toList_ofList]
    exact fun hnil => hne (List.map_eq_nil_iff.mp hnil)
  · unfold segmentText
    rw [String.toList_ofList, List.mem_map]
    rintro ⟨b, hb, hslash⟩
    exact (isPathByte_spec (h b hb)).2 hslash

/-- The characters of some segments between slashes. -/
theorem pathChars_segmentText {pieces : List (List UInt8)} (hne : pieces ≠ []) :
    pathChars (pieces.map segmentText) = '/' :: ([47].intercalate pieces).map byteChar := by
  induction pieces with
  | nil => exact absurd rfl hne
  | cons piece pieces ih =>
    have hfirst : pathChars ((piece :: pieces).map segmentText)
        = '/' :: (piece.map byteChar ++ pathChars (pieces.map segmentText)) := by
      unfold pathChars
      rw [List.map_cons, List.flatMap_cons, List.cons_append]
      unfold segmentText
      rw [String.toList_ofList]
    rw [hfirst]
    cases pieces with
    | nil =>
      rw [List.intercalate_singleton]
      exact congrArg _ (List.append_nil _)
    | cons next rest =>
      rw [ih (List.cons_ne_nil _ _), List.intercalate_cons_cons, List.map_append, List.map_append,
        List.append_assoc]
      rfl

/-- **What the source accepts is the text of some segments.** -/
theorem exists_pathText_of_isValid {text : String} (h : isValidObjectPath text = true) :
    ∃ segments, (∀ s ∈ segments, IsSegment s) ∧ text = pathText segments := by
  unfold isValidObjectPath at h
  split at h
  · next rest hbytes =>
    split at h
    · next hempty =>
      rw [List.isEmpty_iff.mp hempty] at hbytes
      refine ⟨[], List.forall_mem_nil _, ?_⟩
      rw [← asBytes_inj, hbytes]
      rfl
    · split at h
      · cases h
      · have hpieces : ∀ piece ∈ rest.splitOn 47,
            piece ≠ [] ∧ ∀ b ∈ piece, isPathByte b = true := by
          intro piece hpiece
          have hchecked := List.all_eq_true.mp h piece hpiece
          rw [Bool.and_eq_true, Bool.not_eq_true', List.isEmpty_eq_false_iff] at hchecked
          exact ⟨hchecked.1, List.all_eq_true.mp hchecked.2⟩
        have hascii : ∀ b ∈ asBytes text, b.toNat < 128 := by
          intro b hb
          by_cases hslash : b = 47
          · rw [hslash]
            decide
          · rw [hbytes, List.mem_cons] at hb
            obtain ⟨piece, hpiece, hmem⟩ := exists_mem_splitOn_iff.mpr
              ⟨hb.resolve_left hslash, hslash⟩
            exact (isPathByte_spec ((hpieces piece hpiece).2 b hmem)).1
        have hne : rest.splitOn 47 ≠ [] := List.splitOn_ne_nil 47 rest
        refine ⟨(rest.splitOn 47).map segmentText, List.forall_mem_map.mpr fun piece hpiece =>
          isSegment_segmentText (hpieces piece hpiece).1 (hpieces piece hpiece).2, ?_⟩
        rw [← String.toList_inj, toList_pathText fun hnil => hne (List.map_eq_nil_iff.mp hnil),
          pathChars_segmentText hne, List.intercalate_splitOn, toList_of_ascii hascii, hbytes]
        rfl
  · cases h

end Oxibus
