import Oxibus.Core.Message

/-!
# Reading frames from a stream

A reader keeps what it has received and not used: bytes, and the descriptors
that came with them. A call of `read_message` receives until the length of
the next frame is known, then until the frame is there, cuts it off, and
takes as many descriptors as its header declares.

What the kernel hands out is a list, one entry for each call of `recvmsg`;
a read uses up a part of it, or all of it and still waits.
`fillUntil_of_arrives` is the rule for the two loops of `read_message`: where
a loop ends as soon as a certain number of bytes is there, the chunks in
which they arrive do not matter.
-/

namespace Oxibus

/-- The descriptors there is room for in one call of `recvmsg`. -/
def maxFdsPerCall : ℕ := 1024

/-- **What a call of `recvmsg` comes back with.** -/
inductive Recv where
  /-- Bytes, and the descriptors attached to them. No bytes means that the peer has closed
  the stream. -/
  | received (bytes : List UInt8) (fds : List Int32)
  /-- There is nothing to be had yet. -/
  | wouldBlock
  /-- Another error. -/
  | failed
  deriving DecidableEq, Repr

/-- **The errors of a read.** -/
inductive ReadError where
  /-- `peer closed` -/
  | peerClosed
  /-- `SCM_RIGHTS ancillary data truncated (too many fds in one message)` -/
  | fdsTruncated
  /-- The error of the system call. -/
  | os
  /-- `message of {frame_len} bytes exceeds max_message_size ({max})` -/
  | tooLong (frameLen : ℕ) (max : UInt32)
  /-- Invalid data, with the text of the error. -/
  | invalid (e : CoreError)
  /-- `non-UTF8 SASL line` -/
  | lineNotUtf8
  /-- `SASL line too long` -/
  | lineTooLong
  deriving DecidableEq, Repr

/-- **The receiving half of a stream.** -/
structure Transport where
  /-- The bytes that were received and are not used. -/
  readBuf : List UInt8
  /-- The descriptors that were received and are not used. -/
  pendingFds : List Int32
  /-- The length up to which frames are accepted. -/
  maxMessageSize : UInt32
  deriving DecidableEq, Repr

/-- **How a read ends**, with the reader after it and what is left to be
received: with a result, or not, as long as nothing more arrives. -/
inductive ReadResult (α : Type) where
  | done (x : Outcome ReadError α) (t : Transport) (rest : List Recv)
  | pending (t : Transport)

namespace ReadResult

variable {α β : Type}

/-- Go on with what was read; an error ends the call. -/
def bind (x : ReadResult α) (f : α → Transport → List Recv → ReadResult β) : ReadResult β :=
  match x with
  | done (.ok a) t rest => f a t rest
  | done (.err e) t rest => done (.err e) t rest
  | done .panic t rest => done .panic t rest
  | done .diverge t rest => done .diverge t rest
  | pending t => pending t

@[simp] theorem ok_bind (a : α) (t : Transport) (rest : List Recv)
    (f : α → Transport → List Recv → ReadResult β) :
    (done (.ok a) t rest).bind f = f a t rest := rfl

end ReadResult

namespace Transport

/-- A reader that has received nothing. -/
def new : Transport := ⟨[], [], 134217728⟩

def setMaxMessageSize (t : Transport) (max : UInt32) : Transport := { t with maxMessageSize := max }

/-- **Receive one chunk more.** -/
def fillMore (t : Transport) : List Recv → ReadResult Unit
  | [] => .pending t
  | .wouldBlock :: rest => t.fillMore rest
  | .failed :: rest => .done (.err .os) t rest
  | .received bytes fds :: rest =>
    if maxFdsPerCall < fds.length then .done (.err .fdsTruncated) t rest
    else if bytes = [] then .done (.err .peerClosed) t rest
    else
      let t := { t with
        readBuf := t.readBuf ++ bytes
        pendingFds := t.pendingFds ++ fds }
      .done (.ok ()) t rest

/-- Receiving uses up what is received. -/
theorem length_of_fillMore {t t' : Transport} {incoming rest : List Recv}
    {x : Outcome ReadError Unit}
    (h : t.fillMore incoming = .done x t' rest) : rest.length < incoming.length := by
  induction incoming with
  | nil => cases h
  | cons r incoming ih =>
    cases r with
    | wouldBlock => exact (ih h).trans (Nat.lt_succ_self _)
    | failed =>
      cases h
      exact Nat.lt_succ_self _
    | received bytes fds =>
      have hrest : rest = incoming := by
        rw [fillMore] at h
        split at h
        · cases h
          rfl
        · split at h
          · cases h
            rfl
          · cases h
            rfl
      rw [hrest]
      exact Nat.lt_succ_self _

variable {β : Type}

/-- **The loop of a read**: receive more until it is clear how the read goes on. -/
def fillUntil (stop : Transport → Option (Outcome ReadError β)) (t : Transport)
    (incoming : List Recv) : ReadResult β :=
  match stop t with
  | some x => .done x t incoming
  | none =>
    match _h : t.fillMore incoming with
    | .done (.ok _) t' rest => fillUntil stop t' rest
    | .done (.err e) t' rest => .done (.err e) t' rest
    | .done .panic t' rest => .done .panic t' rest
    | .done .diverge t' rest => .done .diverge t' rest
    | .pending t' => .pending t'
termination_by incoming.length
decreasing_by exact length_of_fillMore _h

/-- The first loop of `read_message` ends when the length of the frame is known, or
the frame is wrong. -/
def frameLen (t : Transport) : Option (Outcome ReadError ℕ) :=
  match MessageHeader.peekFrameLen t.readBuf with
  | .ok (some len) => some (.ok len)
  | .ok none => none
  | .err e => some (.err (.invalid e))
  | .panic => some .panic
  | .diverge => some .diverge

/-- The second loop ends when the frame is there. -/
def hasBytes (len : ℕ) (t : Transport) : Option (Outcome ReadError Unit) :=
  if t.readBuf.length < len then none else some (.ok ())

/-- **The frame that is there**, cut off and decoded with the descriptors its header
declares. -/
def takeFrame (t : Transport) (len : ℕ) (incoming : List Recv) : ReadResult Message :=
  let frame := t.readBuf.take len
  let t := { t with readBuf := t.readBuf.drop len }
  match MessageHeader.read frame with
  | .ok (header, _) =>
    let declaredFds := header.unixFds.toNat
    let taken := if 0 < declaredFds then min declaredFds t.pendingFds.length else 0
    .done ((Message.fromBytes frame (t.pendingFds.take taken)).mapErr .invalid)
      { t with pendingFds := t.pendingFds.drop taken } incoming
  | .err e => .done (.err (.invalid e)) t incoming
  | .panic => .done .panic t incoming
  | .diverge => .done .diverge t incoming

/-- **A call of `read_message`.** -/
def readMessage (t : Transport) (incoming : List Recv) : ReadResult Message :=
  (fillUntil frameLen t incoming).bind fun len t incoming =>
    if t.maxMessageSize.toNat < len then
      .done (.err (.tooLong len t.maxMessageSize)) t incoming
    else (fillUntil (hasBytes len) t incoming).bind fun _ t incoming => t.takeFrame len incoming

/-- Calls of `read_message` one after the other. -/
def readMessages (t : Transport) (incoming : List Recv) : ℕ → ReadResult (List Message)
  | 0 => .done (.ok []) t incoming
  | n + 1 => (t.readMessage incoming).bind fun m t incoming =>
      (t.readMessages incoming n).bind fun ms t incoming => .done (.ok (m :: ms)) t incoming

end Transport

/-! ## Streams that arrive in chunks -/

/-- **A byte of a stream**, with the descriptors that are attached to it. -/
structure WireByte where
  /-- The byte. -/
  byte : UInt8
  /-- The descriptors that arrive with it. -/
  fds : List Int32
  deriving DecidableEq, Repr

namespace WireByte

/-- Bytes sent together, with descriptors attached to the first of them. -/
def attach : List UInt8 → List Int32 → List WireByte
  | [], _ => []
  | b :: bs, fds => ⟨b, fds⟩ :: bs.map fun b => ⟨b, []⟩

/-- The bytes of a piece of a stream. -/
def bytes (s : List WireByte) : List UInt8 := s.map byte

/-- The descriptors of a piece of a stream. -/
def fdsOf (s : List WireByte) : List Int32 := s.flatMap fds

variable (s s' : List WireByte) (bs bs' : List UInt8) (fds : List Int32)

@[simp] theorem length_bytes : (bytes s).length = s.length := List.length_map ..

@[simp] theorem bytes_append : bytes (s ++ s') = bytes s ++ bytes s' := List.map_append

@[simp] theorem fdsOf_append : fdsOf (s ++ s') = fdsOf s ++ fdsOf s' := List.flatMap_append

theorem attach_nil : attach bs [] = bs.map fun b => ⟨b, []⟩ := by
  cases bs <;> rfl

@[simp] theorem bytes_attach : bytes (attach bs fds) = bs := by
  cases bs with
  | nil => rfl
  | cons b bs => simp [attach, bytes, Function.comp_def]

@[simp] theorem length_attach : (attach bs fds).length = bs.length := by
  rw [← length_bytes, bytes_attach]

variable {bs bs'}

theorem fdsOf_attach (h : bs ≠ []) : fdsOf (attach bs fds) = fds := by
  cases bs with
  | nil => exact absurd rfl h
  | cons b bs => simp [attach, fdsOf]

end WireByte

open WireByte

/-- **A stream arrives**, in chunks that are not empty and have no more descriptors than
can be received at once. -/
inductive Arrives : List WireByte → List Recv → Prop where
  | nil : Arrives [] []
  | wouldBlock {s rest} (h : Arrives s rest) : Arrives s (.wouldBlock :: rest)
  | chunk {s rest} (c : List WireByte) (hne : c ≠ []) (hfds : (fdsOf c).length ≤ maxFdsPerCall)
      (h : Arrives s rest) : Arrives (c ++ s) (.received (bytes c) (fdsOf c) :: rest)

/-- No more descriptors are attached to a byte than can be received at once. -/
theorem Arrives.length_fds_le {s : List WireByte} {incoming : List Recv} (h : Arrives s incoming)
    {x : WireByte} (hx : x ∈ s) : x.fds.length ≤ maxFdsPerCall := by
  induction h with
  | nil => cases hx
  | wouldBlock h ih => exact ih hx
  | chunk c hne hfds h ih =>
    rcases List.mem_append.mp hx with hx | hx
    · exact (List.sublist_flatten_of_mem (List.mem_map_of_mem hx)).length_le.trans hfds
    · exact ih hx

namespace Transport

/-- **The reader holds a piece of the stream**: its bytes, and its descriptors. -/
structure Holds (t : Transport) (held : List WireByte) : Prop where
  readBuf : t.readBuf = bytes held
  pendingFds : t.pendingFds = fdsOf held

variable {t t' : Transport} {held s w : List WireByte} {incoming rest : List Recv} {β : Type}

/-- **As long as the stream goes on, there is a chunk more.** -/
theorem fillMore_of_arrives (hheld : t.Holds held) (harrives : Arrives s incoming) (hne : s ≠ []) :
    ∃ (t' : Transport) (held' s' : List WireByte) (rest : List Recv),
      t.fillMore incoming = .done (.ok ()) t' rest ∧ t'.Holds held' ∧ Arrives s' rest ∧
      held' ++ s' = held ++ s ∧ t'.maxMessageSize = t.maxMessageSize := by
  induction harrives with
  | nil => exact absurd rfl hne
  | wouldBlock h ih => exact ih hne
  | @chunk s rest c hc hfds h ih =>
    refine ⟨{ t with
      readBuf := t.readBuf ++ bytes c
      pendingFds := t.pendingFds ++ fdsOf c }, held ++ c, s, rest, ?_, ⟨?_, ?_⟩, h,
      List.append_assoc .., rfl⟩
    · have hbytes : bytes c ≠ [] := by
        rw [← List.length_pos_iff, length_bytes]
        exact List.length_pos_iff.mpr hc
      rw [fillMore, if_neg (not_lt.mpr hfds), if_neg hbytes]
    · rw [hheld.readBuf, bytes_append]
    · rw [hheld.pendingFds, fdsOf_append]

/-- The loop goes on with what it has received. -/
theorem fillUntil_of_fillMore {stop : Transport → Option (Outcome ReadError β)}
    (hstop : stop t = none) (hfill : t.fillMore incoming = .done (.ok ()) t' rest) :
    fillUntil stop t incoming = fillUntil stop t' rest := by
  rw [fillUntil, hstop]
  simp only
  split
  · next heq =>
    cases hfill.symm.trans heq
    rfl
  all_goals
    next heq => cases hfill.symm.trans heq

/-- **A loop that waits for a number of bytes ends when they are there**, in whatever
chunks they arrive. -/
theorem fillUntil_of_arrives {stop : Transport → Option (Outcome ReadError β)} {n : ℕ}
    {x : Outcome ReadError β} (hn : n ≤ w.length)
    (hstop : ∀ (t : Transport) (held : List WireByte), t.Holds held → held <+: w →
      stop t = if held.length < n then none else some x)
    (hheld : t.Holds held) (harrives : Arrives s incoming) (hw : held ++ s = w) :
    ∃ (t' : Transport) (held' s' : List WireByte) (rest : List Recv),
      fillUntil stop t incoming = .done x t' rest ∧ t'.Holds held' ∧ Arrives s' rest ∧
      held' ++ s' = w ∧ n ≤ held'.length ∧ t'.maxMessageSize = t.maxMessageSize := by
  induction hk : incoming.length using Nat.strong_induction_on generalizing t held s incoming with
  | _ k ih =>
    have hnow := hstop t held hheld (hw ▸ List.prefix_append held s)
    by_cases hlen : held.length < n
    · rw [if_pos hlen] at hnow
      have hne : s ≠ [] := by
        rintro rfl
        rw [List.append_nil] at hw
        rw [hw] at hlen
        omega
      obtain ⟨t₁, held₁, s₁, rest₁, hfill, hheld₁, harrives₁, hw₁, hmax₁⟩ :=
        fillMore_of_arrives hheld harrives hne
      obtain ⟨t', held', s', rest, hrun, hheld', harrives', hw', hlen', hmax'⟩ :=
        ih rest₁.length (hk ▸ length_of_fillMore hfill) hheld₁ harrives₁ (hw₁.trans hw) rfl
      exact ⟨t', held', s', rest, (fillUntil_of_fillMore hnow hfill).trans hrun, hheld', harrives',
        hw', hlen', hmax'.trans hmax₁⟩
    · rw [if_neg hlen] at hnow
      refine ⟨t, held, s, incoming, ?_, hheld, harrives, hw, not_lt.mp hlen, rfl⟩
      rw [fillUntil, hnow]

end Transport

end Oxibus
