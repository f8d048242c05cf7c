import Oxibus.Lib.Utf8
import Oxibus.Transport.Reader

/-!
# Lines in chunks

Before the first frame the peers exchange lines. A call of `read_line` takes
the bytes up to the next CR LF from what it has received, and receives more if
there is none – unless it has more than `MAX_AUTH_LINE_BYTES` already: then the
line is too long.

A peer cannot choose the chunks in which its lines arrive. Whether a line is
too long should be in its bytes, but the reader looks for the end of the line
first. A line that is longer than the limit is taken if its end arrives before
the reader finds that it has too much, that is, if no chunk ends beyond the
limit and within the line. Between the lines that are always taken and those
that never are, there are 65536 lengths of which neither is true, one for each
byte there is room for in a call of `recvmsg` (`lines_independent_iff`).
-/

namespace Oxibus

/-- How long a line may be. -/
def maxAuthLineBytes : ℕ := 16 * 1024

/-- The bytes there is room for in one call of `recvmsg`. -/
def recvSize : ℕ := 65536

/-- **The place of the first CR LF.** -/
def findCrlf : List UInt8 → Option ℕ
  | [] => none
  | [_] => none
  | a :: b :: bs => if a = 13 ∧ b = 10 then some 0 else (findCrlf (b :: bs)).map (· + 1)

namespace Crlf

variable {w held : List UInt8} {pos : ℕ}

theorem findCrlf_cons_cons (a b : UInt8) (bs : List UInt8) : findCrlf (a :: b :: bs)
    = if a = 13 ∧ b = 10 then some 0 else (findCrlf (b :: bs)).map (· + 1) := rfl

/-- A CR LF lies within what is searched. -/
theorem add_two_le_length (h : findCrlf w = some pos) : pos + 2 ≤ w.length := by
  induction w generalizing pos with
  | nil => cases h
  | cons a w ih =>
    cases w with
    | nil => cases h
    | cons b bs =>
      rw [findCrlf_cons_cons] at h
      split at h
      · cases h
        simp
      · obtain ⟨pos, hpos, rfl⟩ := Option.map_eq_some_iff.mp h
        have hle := ih hpos
        simp only [List.length_cons] at hle ⊢
        omega

/-- The end of a line without CR is found. -/
theorem findCrlf_line (h : 13 ∉ w) : findCrlf (w ++ [13, 10]) = some w.length := by
  induction w with
  | nil => rfl
  | cons a w ih =>
    have hfound := ih (List.not_mem_of_not_mem_cons h)
    have ha : ¬ a = 13 := fun heq => h (heq ▸ List.mem_cons_self)
    obtain ⟨b, bs, hrest⟩ : ∃ b bs, w ++ [13, 10] = b :: bs :=
      List.exists_cons_of_ne_nil (by simp)
    rw [List.cons_append, hrest, findCrlf_cons_cons, if_neg fun hcrlf => ha hcrlf.1, ← hrest,
      hfound]
    rfl

/-- What is searched is a line, its end, and the rest. -/
theorem eq_take_append (h : findCrlf w = some pos) :
    w = w.take pos ++ ([13, 10] ++ w.drop (pos + 2)) := by
  induction w generalizing pos with
  | nil => cases h
  | cons a w ih =>
    cases w with
    | nil => cases h
    | cons b bs =>
      rw [findCrlf_cons_cons] at h
      split at h
      · next hcrlf =>
        cases h
        rw [hcrlf.1, hcrlf.2]
        rfl
      · obtain ⟨pos, hpos, rfl⟩ := Option.map_eq_some_iff.mp h
        exact congrArg (List.cons a) (ih hpos)

/-- **In a part of a stream the first CR LF is found when it is there.** -/
theorem findCrlf_of_part (hpart : held <+: w) (h : findCrlf w = some pos) :
    findCrlf held = if held.length < pos + 2 then none else some pos := by
  induction w generalizing held pos with
  | nil => cases h
  | cons a w ih =>
    cases w with
    | nil => cases h
    | cons b bs =>
      match held with
      | [] => rw [if_pos (by simp), findCrlf]
      | [_] => rw [if_pos (by simp), findCrlf]
      | c :: d :: held =>
        obtain ⟨rfl, htail⟩ := List.cons_prefix_cons.mp hpart
        obtain ⟨rfl, -⟩ := List.cons_prefix_cons.mp htail
        rw [findCrlf_cons_cons] at h ⊢
        split at h
        · next hcrlf =>
          cases h
          rw [if_pos hcrlf, if_neg (by simp)]
        · next hcrlf =>
          obtain ⟨pos, hpos, rfl⟩ := Option.map_eq_some_iff.mp h
          rw [if_neg hcrlf, ih htail hpos]
          simp only [List.length_cons]
          split
          · rw [if_pos (by omega), Option.map_none]
          · rw [if_neg (by omega), Option.map_some]

/-- A line is found without what comes after its end. -/
theorem findCrlf_take (h : findCrlf w = some pos) :
    findCrlf (w.take pos ++ [13, 10]) = some pos := by
  have htake : (w.take pos).length = pos :=
    List.length_take_of_le (Nat.le_of_add_right_le (add_two_le_length h))
  have hpart : w.take pos ++ [13, 10] <+: w := by
    refine ⟨w.drop (pos + 2), ?_⟩
    rw [List.append_assoc]
    exact (eq_take_append h).symm
  rw [findCrlf_of_part hpart h, if_neg (by simp [htake])]

/-- A CR LF that was found is found again when there is more. -/
theorem findCrlf_append (h : findCrlf held = some pos) (more : List UInt8) :
    findCrlf (held ++ more) = some pos := by
  induction held generalizing pos with
  | nil => cases h
  | cons a held ih =>
    cases held with
    | nil => cases h
    | cons b bs =>
      rw [findCrlf_cons_cons] at h
      rw [List.cons_append, List.cons_append, findCrlf_cons_cons]
      split at h
      · next hcrlf => rw [if_pos hcrlf, h]
      · next hcrlf =>
        obtain ⟨pos, hpos, rfl⟩ := Option.map_eq_some_iff.mp h
        rw [if_neg hcrlf, ← List.cons_append, ih hpos, Option.map_some]

/-- Where there is none, there is none in a part. -/
theorem findCrlf_eq_none_of_part (hpart : held <+: w) (h : findCrlf w = none) :
    findCrlf held = none := by
  obtain ⟨more, rfl⟩ := hpart
  cases hheld : findCrlf held with
  | none => rfl
  | some pos => cases (findCrlf_append hheld more).symm.trans h

end Crlf

namespace Transport

/-- The loop of `read_line` ends when there is a CR LF, or too much else. -/
def lineEnd (t : Transport) : Option (Outcome ReadError ℕ) :=
  match findCrlf t.readBuf with
  | some pos => some (.ok pos)
  | none => if maxAuthLineBytes < t.readBuf.length then some (.err .lineTooLong) else none

/-- The text of a line. -/
def lineText (line : List UInt8) : Outcome ReadError String :=
  match fromUtf8 line with
  | some s => .ok s
  | none => .err .lineNotUtf8

/-- **A call of `read_line`.** -/
def readLine (t : Transport) (incoming : List Recv) : ReadResult String :=
  (fillUntil lineEnd t incoming).bind fun pos t incoming =>
    .done (lineText (t.readBuf.take pos)) { t with readBuf := t.readBuf.drop (pos + 2) } incoming

/-- **The results of so many calls of `read_line`**, one after the other. There are fewer of
them if a call waits for more. -/
def lineResults (t : Transport) (incoming : List Recv) : ℕ → List (Outcome ReadError String)
  | 0 => []
  | n + 1 =>
    match t.readLine incoming with
    | .done x t incoming => x :: t.lineResults incoming n
    | .pending _ => []

end Transport

/-! ## Chunks -/

/-- **A chunk is received**, in as many calls of `recvmsg` as it takes. -/
def received (chunk : List UInt8) : List Recv :=
  if chunk = [] then []
  else .received (chunk.take recvSize) [] :: received (chunk.drop recvSize)
termination_by chunk.length
decreasing_by
  have hpos := List.length_pos_iff.mpr ‹¬ chunk = []›
  rw [List.length_drop]
  have hroom : 0 < recvSize := by decide
  omega

/-- **A partition of a stream into chunks.** -/
structure Chunks (s : List UInt8) where
  chunks : List (List UInt8)
  nonempty : ∀ chunk ∈ chunks, chunk ≠ []
  flatten_eq : chunks.flatten = s

/-- What is received if a stream arrives in these chunks. -/
def Chunks.incoming {s : List UInt8} (c : Chunks s) : List Recv := c.chunks.flatMap received

/-- The lines of a stream that come to an end. -/
def terminatedLines (s : List UInt8) : List (List UInt8) :=
  match h : findCrlf s with
  | none => []
  | some pos => s.take pos :: terminatedLines (s.drop (pos + 2))
termination_by s.length
decreasing_by
  have hle := Crlf.add_two_le_length h
  rw [List.length_drop]
  omega

theorem terminatedLines_of_some {s : List UInt8} {pos : ℕ} (h : findCrlf s = some pos) :
    terminatedLines s = s.take pos :: terminatedLines (s.drop (pos + 2)) := by
  rw [terminatedLines]
  split
  · next hnone => cases h.symm.trans hnone
  · next hsome =>
    cases h.symm.trans hsome
    rfl

/-! ## Pieces that fit -/

/-- What is received if a stream arrives in pieces that there is room for. -/
def arriving (pieces : List (List UInt8)) : List Recv := pieces.map (.received · [])

/-- A partition of a stream, cut in some places; there is no chunk between two cuts in one
place. -/
def Chunks.cut {s : List UInt8} (parts : List (List UInt8)) (h : parts.flatten = s) : Chunks s where
  chunks := parts.filter (· ≠ [])
  nonempty := fun _ hmem => of_decide_eq_true (List.mem_filter.mp hmem).2
  flatten_eq := List.flatten_filter_ne_nil.trans h

theorem Chunks.incoming_cut {s : List UInt8} (parts : List (List UInt8)) (h : parts.flatten = s) :
    (Chunks.cut parts h).incoming = parts.flatMap received := by
  show (parts.filter (· ≠ [])).flatMap received = _
  clear h
  induction parts with
  | nil => rfl
  | cons part parts ih =>
    by_cases hpart : part = []
    · rw [List.filter_cons_of_neg (by simpa using hpart), ih, hpart, List.flatMap_cons, received,
        if_pos rfl, List.nil_append]
    · rw [List.filter_cons_of_pos (by simpa using hpart), List.flatMap_cons, ih, List.flatMap_cons]

/-- **The reader receives a stream**: it has a part of it, and the rest arrives in pieces. -/
structure Receiving (t : Transport) (pieces : List (List UInt8)) (s : List UInt8) : Prop where
  stream : t.readBuf ++ pieces.flatten = s
  fit : ∀ p ∈ pieces, p ≠ [] ∧ p.length ≤ recvSize

/-- **Between two lines** it has less than it has room for. -/
structure Between (t : Transport) (pieces : List (List UInt8)) (s : List UInt8) : Prop extends
    Receiving t pieces s where
  held : t.readBuf.length < recvSize

theorem received_of_le {chunk : List UInt8} (hne : chunk ≠ []) (hle : chunk.length ≤ recvSize) :
    received chunk = [.received chunk []] := by
  rw [received, if_neg hne, List.take_of_length_le hle, List.drop_eq_nil_of_le hle, received,
    if_pos rfl]

/-- A chunk arrives in pieces that fit. -/
theorem received_eq_arriving (chunk : List UInt8) : ∃ pieces, received chunk = arriving pieces ∧
    pieces.flatten = chunk ∧ ∀ p ∈ pieces, p ≠ [] ∧ p.length ≤ recvSize := by
  fun_induction received chunk with
  | case1 => exact ⟨[], rfl, rfl, fun p hp => nomatch hp⟩
  | case2 chunk hne ih =>
    obtain ⟨pieces, heq, hflatten, hfit⟩ := ih
    refine ⟨chunk.take recvSize :: pieces, by rw [heq]; rfl, ?_, fun p hp => ?_⟩
    · rw [List.flatten_cons, hflatten, List.take_append_drop]
    · rcases List.mem_cons.mp hp with rfl | hp
      · refine ⟨fun hnil => ?_, List.length_take_le _ _⟩
        rcases List.take_eq_nil_iff.mp hnil with hzero | hnil
        · cases hzero
        · exact hne hnil
      · exact hfit p hp

/-- **Chunks arrive in pieces that fit.** -/
theorem flatMap_received (chunks : List (List UInt8)) : ∃ pieces,
    chunks.flatMap received = arriving pieces ∧ pieces.flatten = chunks.flatten ∧
    ∀ p ∈ pieces, p ≠ [] ∧ p.length ≤ recvSize := by
  induction chunks with
  | nil => exact ⟨[], rfl, rfl, fun p hp => nomatch hp⟩
  | cons chunk chunks ih =>
    obtain ⟨pieces, heq, hflatten, hfit⟩ := received_eq_arriving chunk
    obtain ⟨pieces', heq', hflatten', hfit'⟩ := ih
    refine ⟨pieces ++ pieces', ?_, ?_, fun p hp => ?_⟩
    · rw [List.flatMap_cons, heq, heq', arriving, arriving, arriving, List.map_append]
    · rw [List.flatten_append, List.flatten_cons, hflatten, hflatten']
    · rcases List.mem_append.mp hp with hp | hp
      · exact hfit p hp
      · exact hfit' p hp

theorem between_new {pieces : List (List UInt8)} {s : List UInt8} (h : pieces.flatten = s)
    (hfit : ∀ p ∈ pieces, p ≠ [] ∧ p.length ≤ recvSize) : Between .new pieces s :=
  ⟨⟨h, hfit⟩, by decide⟩

namespace Receiving

open Transport

variable {t : Transport} {pieces : List (List UInt8)} {s : List UInt8} {β : Type}
  {stop : Transport → Option (Outcome ReadError β)} {n : ℕ} {x : Outcome ReadError β}

theorem fillMore_received (t : Transport) {p : List UInt8} (hp : p ≠ []) (more : List Recv) :
    t.fillMore (.received p [] :: more) = .done (.ok ())
      { t with readBuf := t.readBuf ++ p, pendingFds := t.pendingFds ++ [] } more := by
  rw [fillMore, if_neg (by decide), if_neg hp]

theorem fillUntil_of_stop {incoming : List Recv} (h : stop t = some x) :
    fillUntil stop t incoming = .done x t incoming := by
  rw [fillUntil, h]

/-- The next piece is received. -/
theorem fillMore {p : List UInt8} (h : Receiving t (p :: pieces) s) (more : List Recv) :
    ∃ t' : Transport, t.fillMore (arriving (p :: pieces) ++ more)
        = .done (.ok ()) t' (arriving pieces ++ more) ∧ Receiving t' pieces s ∧
      t'.readBuf.length ≤ t.readBuf.length + recvSize := by
  obtain ⟨hne, hlen⟩ := h.fit p List.mem_cons_self
  refine ⟨_, fillMore_received t hne _, ⟨?_, fun q hq => h.fit q (List.mem_cons_of_mem _ hq)⟩, ?_⟩
  · rw [← h.stream, List.flatten_cons, List.append_assoc]
  · rw [List.length_append]
    omega

/-- **A loop that waits for a number of bytes ends when they are there**, and not with more
than one piece beyond them. -/
theorem fillUntil (h : Receiving t pieces s) (more : List Recv) (hn : n ≤ s.length)
    (hheld : t.readBuf.length < n + recvSize)
    (hwait : ∀ t' : Transport, t'.readBuf <+: s → t'.readBuf.length < n → stop t' = none)
    (hstop : ∀ t' : Transport, t'.readBuf <+: s → n ≤ t'.readBuf.length →
      t'.readBuf.length < n + recvSize → stop t' = some x) :
    ∃ (t' : Transport) (rest : List (List UInt8)), Receiving t' rest s ∧
      Transport.fillUntil stop t (arriving pieces ++ more) = .done x t' (arriving rest ++ more) ∧
      n ≤ t'.readBuf.length ∧ t'.readBuf.length < n + recvSize := by
  induction pieces generalizing t with
  | nil =>
    have hall := h.stream
    rw [List.flatten_nil, List.append_nil] at hall
    rw [← hall] at hn
    exact ⟨t, [], h, fillUntil_of_stop (hstop t ⟨_, h.stream⟩ hn hheld), hn, hheld⟩
  | cons p pieces ih =>
    by_cases hlen : n ≤ t.readBuf.length
    · exact ⟨t, p :: pieces, h, fillUntil_of_stop (hstop t ⟨_, h.stream⟩ hlen hheld), hlen, hheld⟩
    · obtain ⟨t₁, hfill, hnext, hroom⟩ := h.fillMore more
      rw [fillUntil_of_fillMore (hwait t ⟨_, h.stream⟩ (not_le.mp hlen)) hfill]
      exact ih hnext (by omega)

/-- A loop that waits for something else receives it all. -/
theorem fillUntil_more (h : Receiving t pieces s) (more : List Recv)
    (hwait : ∀ t' : Transport, t'.readBuf <+: s → stop t' = none) :
    ∃ t' : Transport, t'.readBuf = s ∧
      Transport.fillUntil stop t (arriving pieces ++ more) = Transport.fillUntil stop t' more := by
  induction pieces generalizing t with
  | nil =>
    have hall := h.stream
    rw [List.flatten_nil, List.append_nil] at hall
    exact ⟨t, hall, rfl⟩
  | cons p pieces ih =>
    obtain ⟨t₁, hfill, hnext, -⟩ := h.fillMore more
    rw [fillUntil_of_fillMore (hwait t ⟨_, h.stream⟩) hfill]
    exact ih hnext

end Receiving

/-! ## A line -/

namespace Transport

variable {t : Transport} {pieces : List (List UInt8)} {s : List UInt8} {pos n : ℕ}
  {incoming : List Recv}

theorem lineEnd_eq_some (h : findCrlf t.readBuf = some pos) : lineEnd t = some (.ok pos) := by
  rw [lineEnd, h]

theorem lineEnd_eq_none (h : findCrlf t.readBuf = none)
    (hlen : t.readBuf.length ≤ maxAuthLineBytes) : lineEnd t = none := by
  rw [lineEnd, h]
  exact if_neg (not_lt.mpr hlen)

theorem lineEnd_eq_tooLong (h : findCrlf t.readBuf = none)
    (hlen : maxAuthLineBytes < t.readBuf.length) : lineEnd t = some (.err .lineTooLong) := by
  rw [lineEnd, h]
  exact if_pos hlen

theorem lineText_ne (line : List UInt8) : lineText line ≠ .err .lineTooLong := by
  unfold lineText
  split
  · exact fun h => nomatch h
  · exact fun h => nomatch h

/-- **A line below the limit is read**, in whatever pieces it arrives. -/
theorem readLine_of_short (h : Between t pieces s) (hpos : findCrlf s = some pos)
    (hshort : pos < maxAuthLineBytes) (more : List Recv) :
    ∃ (t' : Transport) (rest : List (List UInt8)), Between t' rest (s.drop (pos + 2)) ∧
      t.readLine (arriving pieces ++ more)
        = .done (lineText (s.take pos)) t' (arriving rest ++ more) := by
  have hheld := h.held
  have hwait : ∀ t' : Transport, t'.readBuf <+: s → t'.readBuf.length < pos + 2 →
      lineEnd t' = none := by
    intro t' hpart hlen
    exact lineEnd_eq_none ((Crlf.findCrlf_of_part hpart hpos).trans (if_pos hlen)) (by omega)
  have hstop : ∀ t' : Transport, t'.readBuf <+: s → pos + 2 ≤ t'.readBuf.length →
      t'.readBuf.length < pos + 2 + recvSize → lineEnd t' = some (.ok pos) := by
    intro t' hpart hlen _
    exact lineEnd_eq_some
      ((Crlf.findCrlf_of_part hpart hpos).trans (if_neg (not_lt.mpr hlen)))
  obtain ⟨t', rest, hreceiving, hfill, hlen, hroom⟩ :=
    h.fillUntil more (Crlf.add_two_le_length hpos) (by omega) hwait hstop
  refine ⟨{ t' with readBuf := t'.readBuf.drop (pos + 2) }, rest,
    ⟨⟨?_, hreceiving.fit⟩, ?_⟩, ?_⟩
  · rw [← hreceiving.stream, List.drop_append_of_le_length hlen]
  · rw [List.length_drop]
    omega
  · rw [readLine, hfill, ReadResult.ok_bind, ← hreceiving.stream,
      List.take_append_of_le_length (by omega)]

/-- A line that is too long stays there, and is too long for the next call as well. -/
theorem lineResults_of_tooLong (h : lineEnd t = some (.err .lineTooLong)) (n : ℕ) :
    t.lineResults incoming n = List.replicate n (.err .lineTooLong) := by
  induction n with
  | zero => rfl
  | succ n ih =>
    rw [lineResults, readLine, Receiving.fillUntil_of_stop h]
    exact congrArg (List.cons _) ih

/-- **A line is too long** if there is too much, and no end of it in what there may be by
then. -/
theorem lineResults_of_long (h : Between t pieces s)
    (hnone : findCrlf (s.take (maxAuthLineBytes + recvSize)) = none)
    (hlong : maxAuthLineBytes < s.length) (more : List Recv) (n : ℕ) :
    t.lineResults (arriving pieces ++ more) n = List.replicate n (.err .lineTooLong) := by
  have hheld := h.held
  have hopen : ∀ t' : Transport, t'.readBuf <+: s →
      t'.readBuf.length < maxAuthLineBytes + 1 + recvSize → findCrlf t'.readBuf = none := by
    intro t' hpart hlen
    exact Crlf.findCrlf_eq_none_of_part (List.prefix_take_iff.mpr ⟨hpart, by omega⟩) hnone
  have hwait : ∀ t' : Transport, t'.readBuf <+: s → t'.readBuf.length < maxAuthLineBytes + 1 →
      lineEnd t' = none := by
    intro t' hpart hlen
    exact lineEnd_eq_none (hopen t' hpart (by omega)) (by omega)
  have hstop : ∀ t' : Transport, t'.readBuf <+: s → maxAuthLineBytes + 1 ≤ t'.readBuf.length →
      t'.readBuf.length < maxAuthLineBytes + 1 + recvSize →
      lineEnd t' = some (.err .lineTooLong) := by
    intro t' hpart hlen hroom
    exact lineEnd_eq_tooLong (hopen t' hpart hroom) hlen
  obtain ⟨t', rest, hreceiving, hfill, hlen, hroom⟩ :=
    h.fillUntil more hlong (by omega) hwait hstop
  have hstuck := hstop t' ⟨_, hreceiving.stream⟩ hlen hroom
  cases n with
  | zero => rfl
  | succ n =>
    rw [lineResults, readLine, hfill]
    exact congrArg (List.cons _) (lineResults_of_tooLong hstuck n)

/-- **Without an end there is no line**, as long as there is not too much. -/
theorem lineResults_of_open (h : Between t pieces s) (hnone : findCrlf s = none)
    (hshort : s.length ≤ maxAuthLineBytes) (n : ℕ) : t.lineResults (arriving pieces) n = [] := by
  have hwait : ∀ t' : Transport, t'.readBuf <+: s → lineEnd t' = none := by
    intro t' hpart
    exact lineEnd_eq_none (Crlf.findCrlf_eq_none_of_part hpart hnone)
      (hpart.length_le.trans hshort)
  obtain ⟨t', hall, hfill⟩ := h.fillUntil_more [] hwait
  have hend : t'.readBuf <+: s := hall ▸ List.prefix_rfl
  have hpending : fillUntil lineEnd t' [] = .pending t' := by
    rw [fillUntil, hwait t' hend]
    rfl
  rw [List.append_nil, hpending] at hfill
  cases n with
  | zero => rfl
  | succ n =>
    rw [lineResults, readLine, hfill]
    rfl

/-- **A line is read that is too long**, if its end arrives with what goes beyond the
limit. -/
theorem lineResults_of_late {line : List UInt8} (h : Between t pieces (line.take maxAuthLineBytes))
    (hpos : findCrlf (line ++ [13, 10]) = some line.length)
    (hfit : line.length + 2 ≤ maxAuthLineBytes + recvSize) (incoming : List Recv) :
    t.lineResults (arriving pieces ++
      (received (line.drop maxAuthLineBytes ++ [13, 10]) ++ incoming)) 1 = [lineText line] := by
  have hopen : line.take maxAuthLineBytes <+: line ++ [13, 10] :=
    (List.take_prefix _ _).trans (List.prefix_append _ _)
  have hshort : (line.take maxAuthLineBytes).length ≤ maxAuthLineBytes := List.length_take_le _ _
  have hwait : ∀ t' : Transport, t'.readBuf <+: line.take maxAuthLineBytes →
      lineEnd t' = none := by
    intro t' hpart
    have hnone := Crlf.findCrlf_of_part (hpart.trans hopen) hpos
    have hle := hpart.length_le
    rw [List.length_take] at hle
    rw [if_pos (by omega)] at hnone
    exact lineEnd_eq_none hnone (by omega)
  obtain ⟨t', hall, hfill⟩ := h.fillUntil_more
    (received (line.drop maxAuthLineBytes ++ [13, 10]) ++ incoming) hwait
  have hne : line.drop maxAuthLineBytes ++ [13, 10] ≠ [] := by simp
  have hchunk : (line.drop maxAuthLineBytes ++ [13, 10]).length ≤ recvSize := by
    rw [List.length_append, List.length_drop, List.length_cons, List.length_singleton]
    unfold recvSize at hfit ⊢
    omega
  have hend : lineEnd { t' with
      readBuf := t'.readBuf ++ (line.drop maxAuthLineBytes ++ [13, 10])
      pendingFds := t'.pendingFds ++ [] } = some (.ok line.length) := by
    refine lineEnd_eq_some ?_
    dsimp only
    rw [hall, ← List.append_assoc, List.take_append_drop, hpos]
  rw [received_of_le hne hchunk, List.singleton_append] at hfill ⊢
  rw [fillUntil_of_fillMore (hwait t' (hall ▸ List.prefix_rfl))
    (Receiving.fillMore_received t' hne incoming), Receiving.fillUntil_of_stop hend] at hfill
  rw [lineResults, readLine, hfill, ReadResult.ok_bind]
  dsimp only
  rw [hall, ← List.append_assoc, List.take_append_drop, List.take_left]
  rfl

/-! ## A stream -/

/-- **The results of so many calls**, by the lines of the stream. -/
def expectedResults (s : List UInt8) : ℕ → List (Outcome ReadError String)
  | 0 => []
  | n + 1 =>
    match findCrlf s with
    | some pos =>
      if pos < maxAuthLineBytes then
        lineText (s.take pos) :: expectedResults (s.drop (pos + 2)) n
      else List.replicate (n + 1) (.err .lineTooLong)
    | none =>
      if maxAuthLineBytes < s.length then List.replicate (n + 1) (.err .lineTooLong) else []

/-- Whether the first of the lines that may be too long is so long that it is. -/
def Predictable (s : List UInt8) : Prop :=
  ∀ line, (terminatedLines s).find? (maxAuthLineBytes ≤ ·.length) = some line →
    maxAuthLineBytes + recvSize < line.length + 2

/-- **The results are those expected**, in whatever pieces the stream arrives. -/
theorem lineResults_eq_expected (h : Between t pieces s) (hs : Predictable s) (n : ℕ) :
    t.lineResults (arriving pieces) n = expectedResults s n := by
  induction n generalizing t pieces s with
  | zero => rfl
  | succ n ih =>
    cases hpos : findCrlf s with
    | none =>
      rw [expectedResults, hpos]
      dsimp only
      split
      · next hlong =>
        have hnone : findCrlf (s.take (maxAuthLineBytes + recvSize)) = none :=
          Crlf.findCrlf_eq_none_of_part (List.take_prefix _ _) hpos
        simpa using lineResults_of_long h hnone hlong [] (n + 1)
      · next hshort => exact lineResults_of_open h hpos (not_lt.mp hshort) (n + 1)
    | some pos =>
      have hle := Crlf.add_two_le_length hpos
      have hlines := terminatedLines_of_some hpos
      have htake : (s.take pos).length = pos := List.length_take_of_le (by omega)
      rw [expectedResults, hpos]
      dsimp only
      split
      · next hshort =>
        obtain ⟨t', rest, hbetween, hread⟩ := readLine_of_short h hpos hshort []
        rw [List.append_nil, List.append_nil] at hread
        have hrest : Predictable (s.drop (pos + 2)) := by
          intro line hline
          refine hs line ?_
          rw [hlines, List.find?_cons_of_neg (by simpa [htake] using hshort), hline]
        rw [lineResults, hread]
        exact congrArg (List.cons _) (ih hbetween hrest)
      · next hlong =>
        have hfar := hs (s.take pos) (by
          rw [hlines, List.find?_cons_of_pos (by simpa [htake] using hlong)])
        rw [htake] at hfar
        have hnone : findCrlf (s.take (maxAuthLineBytes + recvSize)) = none := by
          rw [Crlf.findCrlf_of_part (List.take_prefix _ _) hpos, if_pos]
          exact (List.length_take_le _ _).trans_lt hfar
        simpa using lineResults_of_long h hnone (by omega) [] (n + 1)

/-- **The results for the beginning of a stream**, whatever comes after it. -/
def ReadsFirst (before : List UInt8) (results : List (Outcome ReadError String)) : Prop :=
  ∀ (t : Transport) (pieces : List (List UInt8)) (tail : List UInt8) (more : List Recv),
    Between t pieces (before ++ tail) →
    ∃ (t' : Transport) (pieces' : List (List UInt8)), Between t' pieces' tail ∧
      t.lineResults (arriving pieces ++ more) (results.length + 1)
        = results ++ t'.lineResults (arriving pieces' ++ more) 1

theorem readsFirst_nil : ReadsFirst [] [] := fun t pieces _ _ h => ⟨t, pieces, h, rfl⟩

/-- **One line more in front**, below the limit. -/
theorem ReadsFirst.cons {line before : List UInt8} {results : List (Outcome ReadError String)}
    (h : ReadsFirst before results) (hend : findCrlf (line ++ [13, 10]) = some line.length)
    (hshort : line.length < maxAuthLineBytes) :
    ReadsFirst (line ++ [13, 10] ++ before) (lineText line :: results) := by
  intro t pieces tail more hbetween
  have hfirst : findCrlf (line ++ [13, 10] ++ before ++ tail) = some line.length := by
    rw [List.append_assoc]
    exact Crlf.findCrlf_append hend _
  obtain ⟨t₁, pieces₁, hbetween₁, hread⟩ := readLine_of_short hbetween hfirst hshort more
  have hdrop : (line ++ [13, 10] ++ before ++ tail).drop (line.length + 2) = before ++ tail := by
    rw [List.append_assoc]
    exact List.drop_left' (by simp)
  rw [hdrop] at hbetween₁
  obtain ⟨t', pieces', hbetween', hresults⟩ := h t₁ pieces₁ tail more hbetween₁
  refine ⟨t', pieces', hbetween', ?_⟩
  rw [List.length_cons, Nat.add_right_comm, lineResults, hread]
  dsimp only
  rw [hresults, List.append_assoc, List.append_assoc, List.take_left]
  rfl

/-- **The lines before the first that may be too long** are read in any case. -/
theorem exists_readsFirst {line : List UInt8}
    (hline : (terminatedLines s).find? (maxAuthLineBytes ≤ ·.length) = some line) :
    ∃ (before rest : List UInt8) (results : List (Outcome ReadError String)),
      s = before ++ (line ++ ([13, 10] ++ rest)) ∧ ReadsFirst before results ∧
      findCrlf (line ++ [13, 10]) = some line.length ∧ maxAuthLineBytes ≤ line.length := by
  fun_induction terminatedLines s with
  | case1 s hnone => cases hline
  | case2 s pos hpos ih =>
    have hsplit := Crlf.eq_take_append hpos
    have hend := Crlf.findCrlf_take hpos
    have hle := Crlf.add_two_le_length hpos
    have htake : (s.take pos).length = pos := List.length_take_of_le (by omega)
    by_cases hlong : maxAuthLineBytes ≤ pos
    · rw [List.find?_cons_of_pos (by simpa [htake] using hlong)] at hline
      obtain rfl := Option.some.inj hline
      exact ⟨[], s.drop (pos + 2), [], hsplit, readsFirst_nil, by rw [hend, htake],
        htake.symm ▸ hlong⟩
    · rw [List.find?_cons_of_neg (by simpa [htake] using hlong)] at hline
      obtain ⟨before, rest, results, hrest, hreads, hfound, hlen⟩ := ih hline
      refine ⟨s.take pos ++ [13, 10] ++ before, rest, lineText (s.take pos) :: results, ?_,
        hreads.cons (by rw [hend, htake]) (by omega), hfound, hlen⟩
      rw [List.append_assoc, ← hrest, List.append_assoc]
      exact hsplit

/-! ## Two partitions -/

namespace ReadsFirst

variable {before line : List UInt8} {results : List (Outcome ReadError String)}

/-- **A line that may be too long is so**, if the stream is cut after one byte too many. -/
theorem exists_rejected (h : ReadsFirst before results)
    (hend : findCrlf (line ++ [13, 10]) = some line.length)
    (hlong : maxAuthLineBytes ≤ line.length) (rest : List UInt8) :
    ∃ c : Chunks (before ++ (line ++ ([13, 10] ++ rest))),
      Transport.new.lineResults c.incoming (results.length + 1)
        = results ++ [.err .lineTooLong] := by
  let body := line ++ ([13, 10] ++ rest)
  have hparts : [before ++ body.take (maxAuthLineBytes + 1),
      body.drop (maxAuthLineBytes + 1)].flatten = before ++ body := by simp
  obtain ⟨pieces, heq, hflatten, hpieces⟩ :=
    received_eq_arriving (before ++ body.take (maxAuthLineBytes + 1))
  obtain ⟨t', pieces', hbetween, hresults⟩ := h .new pieces _
    (received (body.drop (maxAuthLineBytes + 1))) (between_new hflatten hpieces)
  have hlength : (body.take (maxAuthLineBytes + 1)).length = maxAuthLineBytes + 1 :=
    List.length_take_of_le (by simp [body]; omega)
  -- the end of the line is not there yet
  have hpart : body.take (maxAuthLineBytes + 1) <+: line ++ [13, 10] := by
    refine List.prefix_of_prefix_length_le (List.take_prefix _ body) ⟨rest, ?_⟩ ?_
    · rw [List.append_assoc]
    · rw [hlength, List.length_append]
      simp only [List.length_cons, List.length_nil]
      omega
  have hopen : findCrlf (body.take (maxAuthLineBytes + 1)) = none :=
    (Crlf.findCrlf_of_part hpart hend).trans (if_pos (by omega))
  have hnone : findCrlf ((body.take (maxAuthLineBytes + 1)).take (maxAuthLineBytes + recvSize))
      = none := Crlf.findCrlf_eq_none_of_part (List.take_prefix _ _) hopen
  refine ⟨Chunks.cut _ hparts, ?_⟩
  rw [Chunks.incoming_cut, List.flatMap_cons, List.flatMap_singleton, heq, hresults,
    lineResults_of_long hbetween hnone (by omega)]
  rfl

/-- **And it is read**, if the stream is cut at the limit and after the end of the line. -/
theorem exists_read (h : ReadsFirst before results)
    (hend : findCrlf (line ++ [13, 10]) = some line.length)
    (hfit : line.length + 2 ≤ maxAuthLineBytes + recvSize) (rest : List UInt8) :
    ∃ c : Chunks (before ++ (line ++ ([13, 10] ++ rest))),
      Transport.new.lineResults c.incoming (results.length + 1) = results ++ [lineText line] := by
  have hparts : [before ++ line.take maxAuthLineBytes, line.drop maxAuthLineBytes ++ [13, 10],
      rest].flatten = before ++ (line ++ ([13, 10] ++ rest)) := by
    simp only [List.flatten_cons, List.flatten_nil, List.append_nil, List.append_assoc]
    rw [← List.append_assoc (line.take _), List.take_append_drop]
  obtain ⟨pieces, heq, hflatten, hpieces⟩ :=
    received_eq_arriving (before ++ line.take maxAuthLineBytes)
  obtain ⟨t', pieces', hbetween, hresults⟩ := h .new pieces _
    (received (line.drop maxAuthLineBytes ++ [13, 10]) ++ received rest)
    (between_new hflatten hpieces)
  refine ⟨Chunks.cut _ hparts, ?_⟩
  rw [Chunks.incoming_cut, List.flatMap_cons, List.flatMap_cons, List.flatMap_singleton, heq,
    hresults, lineResults_of_late hbetween hend hfit]

end ReadsFirst

end Transport

open Transport

/-- A text that is not below the limit is read in one partition and too long in another, if
there is room for what goes beyond the limit and its end. -/
theorem exists_lineResults_ne {text : String} (hcr : 13 ∉ asBytes text)
    (hlong : maxAuthLineBytes ≤ (asBytes text).length)
    (hfit : (asBytes text).length + 2 ≤ maxAuthLineBytes + recvSize) :
    ∃ c c' : Chunks (asBytes text ++ [13, 10]),
      Transport.new.lineResults c.incoming 1 = [.ok text] ∧
      Transport.new.lineResults c'.incoming 1 = [.err .lineTooLong] := by
  have hend := Crlf.findCrlf_line hcr
  obtain ⟨c, hread⟩ := readsFirst_nil.exists_read hend hfit []
  obtain ⟨c', hrejected⟩ := readsFirst_nil.exists_rejected hend hlong []
  rw [lineText, fromUtf8_asBytes] at hread
  exact ⟨c, c', hread, hrejected⟩

/-- A text of 16385 letters, for one. -/
theorem exists_lineResults_ne_letters :
    ∃ c c' : Chunks (asBytes (String.ofList (List.replicate 16385 'a')) ++ [13, 10]),
      Transport.new.lineResults c.incoming 1 = [.ok (String.ofList (List.replicate 16385 'a'))] ∧
      Transport.new.lineResults c'.incoming 1 = [.err .lineTooLong] := by
  have hbytes : asBytes (String.ofList (List.replicate 16385 'a')) = List.replicate 16385 97 := by
    rw [asBytes_ofList fun c hc => List.eq_of_mem_replicate hc ▸ rfl, List.map_replicate]
    rfl
  refine exists_lineResults_ne (fun hmem => ?_) ?_ ?_
  · rw [hbytes] at hmem
    exact absurd (List.eq_of_mem_replicate hmem) (by decide)
  · rw [hbytes, List.length_replicate]
    decide
  · rw [hbytes, List.length_replicate]
    decide

/-- **The results do not depend on the partition** exactly if the first of the lines that are
not below the limit, if there is one, is so long that it is never read: what goes beyond the
limit and its end cannot be received at once. -/
theorem lines_independent_iff (s : List UInt8) :
    (∀ (c c' : Chunks s) (n : ℕ),
      Transport.new.lineResults c.incoming n = Transport.new.lineResults c'.incoming n) ↔
    ∀ line, (terminatedLines s).find? (maxAuthLineBytes ≤ ·.length) = some line →
      maxAuthLineBytes + recvSize < line.length + 2 := by
  constructor
  · intro h line hline
    by_contra hfit
    obtain ⟨before, rest, results, rfl, hreads, hend, hlong⟩ := exists_readsFirst hline
    obtain ⟨c, hrejected⟩ := hreads.exists_rejected hend hlong rest
    obtain ⟨c', hread⟩ := hreads.exists_read hend (not_lt.mp hfit) rest
    have heq := h c c' (results.length + 1)
    rw [hrejected, hread] at heq
    exact lineText_ne line (List.cons.inj (List.append_cancel_left heq)).1.symm
  · intro hs
    have hexpected : ∀ (c : Chunks s) (n : ℕ),
        Transport.new.lineResults c.incoming n = expectedResults s n := by
      intro c n
      obtain ⟨pieces, heq, hflatten, hfit⟩ := flatMap_received c.chunks
      rw [Chunks.incoming, heq]
      exact lineResults_eq_expected (between_new (hflatten.trans c.flatten_eq) hfit) hs n
    intro c c' n
    rw [hexpected, hexpected]

end Oxibus
