import Mathlib.Data.List.Induction
import Oxibus.Lib.Slots
import Oxibus.Core.Message

/-!
# Writing frames to a shared stream

Every clone of a writer is a handle on the same stream, and nothing else is
shared: a call of `write_message` encodes its message and then sends what is
left of the frame, again and again, until nothing is left. Between two sends
it waits for the stream to be writable, and whoever else holds a clone may
send meanwhile.

A run of such calls is a list of events – a call begins, a send accepts some
bytes, a send finds the stream full, a send fails – and the state keeps what
went over the wire with the call each chunk came from. `framed_iff` says
which runs keep every frame in one piece: those in which no call sends while
another is in the middle of its frame. Nothing in the writer enforces it.
-/

namespace Oxibus

/-- What became of a call of `write_message`. -/
inductive WriteResult where
  /-- The call is still sending. -/
  | pending
  /-- It returned `Ok`. -/
  | ok
  /-- It returned an error. -/
  | err
  deriving DecidableEq, Repr

/-- **A call of `write_message`**: its frame, what it has still to send, and
whether the descriptors are still to go with the first chunk. -/
structure WriteCall where
  /-- The bytes of the message; none if it could not be encoded. -/
  frame : List UInt8
  /-- The descriptors of the message. -/
  outFds : List Int32
  /-- What is left to send. -/
  buf : List UInt8
  /-- Whether nothing has been sent yet. -/
  first : Bool
  /-- What became of the call. -/
  result : WriteResult
  deriving DecidableEq, Repr

/-- A chunk the stream accepted, and the call it came from. -/
structure Chunk where
  /-- The number of the call. -/
  call : ℕ
  /-- The bytes. -/
  bytes : List UInt8
  /-- The descriptors sent with them. -/
  fds : List Int32
  deriving DecidableEq, Repr

namespace WriteCall

/-- The call of `write_all_with_fds` on a frame: the loop is not entered
without a byte to send. -/
def writeAllWithFds (buf : List UInt8) (outFds : List Int32) : WriteCall where
  frame := buf
  outFds := outFds
  buf := buf
  first := true
  result := if buf = [] then .ok else .pending

/-- **A call of `write_message` as it begins.** A message that cannot be
encoded ends the call at once. -/
def writeMessage (msg : Message) : WriteCall :=
  match msg.toBytes with
  | .ok bytes => writeAllWithFds bytes msg.fds
  | _ => ⟨[], msg.fds, [], true, .err⟩

/-- The descriptors that go with the next chunk. -/
def attach (c : WriteCall) : List Int32 := if c.first then c.outFds else []

/-- The call after a send that accepted `n` bytes. -/
def advance (c : WriteCall) (n : ℕ) : WriteCall :=
  { c with
    first := false
    buf := c.buf.drop n
    result := if c.buf.drop n = [] then .ok else .pending }

/-- **A call in the middle of its frame**: part of it is sent and part of it
is not. -/
def MidFrame (c : WriteCall) : Prop := c.first = false ∧ c.buf ≠ []

instance (c : WriteCall) : Decidable c.MidFrame :=
  inferInstanceAs (Decidable (c.first = false ∧ c.buf ≠ []))

/-- What a call has sent so far. -/
def sent (c : WriteCall) : List UInt8 := c.frame.take (c.frame.length - c.buf.length)

/-- **What holds of a call at any time.** -/
structure Valid (c : WriteCall) : Prop where
  /-- What is sent and what is left make up the frame. -/
  split : c.sent ++ c.buf = c.frame
  /-- Nothing is sent before the first chunk. -/
  first : c.first = true → c.buf = c.frame
  /-- A call that still runs has something to send. -/
  pending : c.result = .pending → c.buf ≠ []
  /-- A call that returned `Ok` has sent its frame, which is not empty. -/
  ok : c.result = .ok → c.buf = [] ∧ c.first = false
  /-- A call that has sent its frame returned `Ok`. -/
  done : c.buf = [] → c.first = false → c.result = .ok

end WriteCall

/-- **The stream of a writer**: the calls on all of its clones in the order
they began, and the chunks that went over the wire. -/
structure Wire where
  /-- The calls. -/
  calls : List WriteCall
  /-- The chunks, the first one first. -/
  chunks : List Chunk
  deriving DecidableEq, Repr

/-- What can happen on a stream. -/
inductive WireEvent where
  /-- A task calls `write_message`. -/
  | call (msg : Message)
  /-- A send of a call accepts some of the bytes that are left. -/
  | accepted (call n : ℕ)
  /-- A send finds the stream full; the call waits again. -/
  | wouldBlock (call : ℕ)
  /-- A send fails; the call returns the error. -/
  | failed (call : ℕ)

namespace Wire

/-- A stream nobody has written to. -/
def start : Wire := ⟨[], []⟩

/-- The call with a number, while it still runs. -/
def running (w : Wire) (i : ℕ) : Option WriteCall :=
  w.calls[i]?.filter fun c => c.result = .pending

/-- **One event**, if it can happen: a send belongs to a call that runs and
accepts at least one byte and at most what is left. -/
def step (w : Wire) : WireEvent → Option Wire
  | .call msg => some { w with calls := w.calls ++ [WriteCall.writeMessage msg] }
  | .accepted i n =>
    match w.running i with
    | some c =>
      if 0 < n ∧ n ≤ c.buf.length then
        some ⟨w.calls.set i (c.advance n), w.chunks ++ [⟨i, c.buf.take n, c.attach⟩]⟩
      else none
    | none => none
  | .wouldBlock i =>
    match w.running i with
    | some _ => some w
    | none => none
  | .failed i =>
    match w.running i with
    | some c => some { w with calls := w.calls.set i { c with result := .err } }
    | none => none

/-- **A run**: its events one after the other. -/
def run (w : Wire) : List WireEvent → Option Wire
  | [] => some w
  | e :: es => (w.step e).bind fun w' => w'.run es

/-- The bytes the peer receives. -/
def received (w : Wire) : List UInt8 := w.chunks.flatMap Chunk.bytes

/-- The bytes the peer receives, each with the call that sent it. -/
def tagged (w : Wire) : List (ℕ × UInt8) :=
  w.chunks.flatMap fun ch => ch.bytes.map fun b => (ch.call, b)

/-- The frame of a call; a call that never was has none. -/
def frameOf (w : Wire) (i : ℕ) : List UInt8 :=
  match w.calls[i]? with
  | some c => c.frame
  | none => []

/-- A call that returned `Ok`. -/
def Complete (w : Wire) (i : ℕ) : Prop := ∃ c, w.calls[i]? = some c ∧ c.result = .ok

/-- The frame of a call, each byte with the number of the call. -/
def taggedFrame (w : Wire) (i : ℕ) : List (ℕ × UInt8) := (w.frameOf i).map fun b => (i, b)

/-- **No frame is split.** The peer has received the frames of the calls that
are complete, each once and in one piece, and after them a beginning of the
frame of at most one call that is not. -/
def Framed (w : Wire) : Prop :=
  ∃ (order : List ℕ) (last k : ℕ), order.Nodup ∧ (∀ i, i ∈ order ↔ w.Complete i) ∧
    last ∉ order ∧
    w.tagged = order.flatMap w.taggedFrame ++ (w.taggedFrame last).take k

/-- Some call other than the one numbered `i` is in the middle of its frame. -/
def OtherMidFrame (w : Wire) (i : ℕ) : Prop :=
  ∃ j c, j ≠ i ∧ w.calls[j]? = some c ∧ c.MidFrame

/-- **The condition on a step**: a send is taken only while no other call is
in the middle of its frame. -/
def Exclusive (w : Wire) : WireEvent → Prop
  | .accepted i _ => ¬ w.OtherMidFrame i
  | _ => True

/-- **The peer receives complete frames**, those of the calls that returned
`Ok`, one after the other in some order. -/
def Concatenation (w : Wire) : Prop :=
  ∃ order : List ℕ, order.Nodup ∧ (∀ i, i ∈ order ↔ w.Complete i) ∧
    w.received = order.flatMap w.frameOf

end Wire

/-! ## A call, from its first send to its last -/

namespace WriteCall

variable {c : WriteCall} {n : ℕ}

theorem Valid.length (h : c.Valid) : c.sent.length + c.buf.length = c.frame.length := by
  rw [← List.length_append, h.split]

/-- A send moves bytes from what is left to what is sent. -/
theorem sent_advance (h : c.Valid) (n : ℕ) (hn : n ≤ c.buf.length) :
    (c.advance n).sent = c.sent ++ c.buf.take n := by
  have hlen := h.length
  have hk : c.frame.length - (c.buf.drop n).length = c.sent.length + n := by
    rw [List.length_drop]
    omega
  show c.frame.take (c.frame.length - (c.buf.drop n).length) = _
  rw [hk, ← h.split, List.take_length_add_append]

theorem valid_advance (h : c.Valid) (hn : n ≤ c.buf.length) : (c.advance n).Valid where
  split := by
    rw [sent_advance h n hn, List.append_assoc]
    show c.sent ++ (c.buf.take n ++ c.buf.drop n) = c.frame
    rw [List.take_append_drop, h.split]
  first := by
    intro hf
    cases hf
  pending := by
    show (if c.buf.drop n = [] then WriteResult.ok else .pending) = .pending → c.buf.drop n ≠ []
    intro hp hnil
    rw [if_pos hnil] at hp
    cases hp
  ok := by
    show (if c.buf.drop n = [] then WriteResult.ok else .pending) = .ok → c.buf.drop n = [] ∧ _
    intro hok
    by_cases hnil : c.buf.drop n = []
    · exact ⟨hnil, rfl⟩
    · rw [if_neg hnil] at hok
      cases hok
  done := fun hnil _ => if_pos hnil

theorem valid_failed (h : c.Valid) (hp : c.result = .pending) :
    ({ c with result := .err } : WriteCall).Valid where
  split := h.split
  first := h.first
  pending := by
    intro hc
    cases hc
  ok := by
    intro hc
    cases hc
  done := fun hnil _ => absurd hnil (h.pending hp)

/-- A call that has sent nothing is before its first chunk. -/
theorem Valid.sent_of_first (h : c.Valid) (hf : c.first = true) : c.sent = [] := by
  have hlen := h.length
  rw [h.first hf] at hlen
  exact List.eq_nil_of_length_eq_zero (by omega)

/-- A call that has sent its frame and nothing else. -/
theorem Valid.sent_of_nil (h : c.Valid) (hnil : c.buf = []) : c.sent = c.frame := by
  have := h.split
  rwa [hnil, List.append_nil] at this

end WriteCall

/-- A message never encodes to nothing: there are the fixed bytes of its
header. -/
theorem Message.ne_nil_of_toBytes {m : Message} {out : List UInt8} (h : m.toBytes = .ok out) :
    out ≠ [] := by
  obtain ⟨-, bodyBytes, arr, -, -, -, rfl⟩ := Message.toBytes_eq_ok.mp h
  intro hnil
  have hlen := congrArg List.length hnil
  simp only [List.length_append, MessageHeader.length_fixedBytes, List.length_nil] at hlen
  omega

namespace WriteCall

/-- **A call begins**: it has sent nothing, and it has a frame to send unless
its message cannot be encoded. -/
theorem writeMessage_cases (msg : Message) :
    (∃ bytes, msg.toBytes = .ok bytes ∧ bytes ≠ [] ∧
      writeMessage msg = ⟨bytes, msg.fds, bytes, true, .pending⟩) ∨
    writeMessage msg = ⟨[], msg.fds, [], true, .err⟩ := by
  unfold writeMessage
  cases h : msg.toBytes with
  | ok bytes =>
    have hne := Message.ne_nil_of_toBytes h
    refine Or.inl ⟨bytes, rfl, hne, ?_⟩
    show writeAllWithFds bytes msg.fds = _
    unfold writeAllWithFds
    rw [if_neg hne]
  | err _ => exact Or.inr rfl
  | panic => exact Or.inr rfl
  | diverge => exact Or.inr rfl

theorem first_writeMessage (msg : Message) : (writeMessage msg).first = true := by
  rcases writeMessage_cases msg with ⟨bytes, -, -, h⟩ | h <;> rw [h]

theorem result_writeMessage (msg : Message) : (writeMessage msg).result ≠ .ok := by
  rcases writeMessage_cases msg with ⟨bytes, -, -, h⟩ | h <;> rw [h] <;> exact nofun

theorem valid_writeMessage (msg : Message) : (writeMessage msg).Valid := by
  rcases writeMessage_cases msg with ⟨bytes, -, hne, h⟩ | h
  · rw [h]
    exact ⟨by simp [sent], fun _ => rfl, fun _ => hne, nofun, fun _ => nofun⟩
  · rw [h]
    exact ⟨rfl, fun _ => rfl, nofun, nofun, fun _ => nofun⟩

end WriteCall

/-! ## The stream, event by event -/

namespace Wire

variable {w w' : Wire}

theorem running_eq_some {i : ℕ} {c : WriteCall} :
    w.running i = some c ↔ w.calls[i]? = some c ∧ c.result = .pending := by
  unfold running
  rw [Option.filter_eq_some_iff, decide_eq_true_iff]

/-- **What one event does.** -/
theorem step_cases {e : WireEvent} (h : w.step e = some w') :
    (∃ msg, e = .call msg ∧
      w' = { w with calls := w.calls ++ [WriteCall.writeMessage msg] }) ∨
    (∃ i n c, e = .accepted i n ∧ w.calls[i]? = some c ∧ c.result = .pending ∧ 0 < n ∧
      n ≤ c.buf.length ∧
      w' = ⟨w.calls.set i (c.advance n), w.chunks ++ [⟨i, c.buf.take n, c.attach⟩]⟩) ∨
    (∃ i, e = .wouldBlock i ∧ w' = w) ∨
    (∃ i c, e = .failed i ∧ w.calls[i]? = some c ∧ c.result = .pending ∧
      w' = { w with calls := w.calls.set i { c with result := .err } }) := by
  cases e with
  | call msg => exact Or.inl ⟨msg, rfl, (Option.some.inj h).symm⟩
  | accepted i n =>
    simp only [step] at h
    split at h
    · next c hc =>
      split at h
      · next hn =>
        have hrun := running_eq_some.mp hc
        exact Or.inr (Or.inl ⟨i, n, c, rfl, hrun.1, hrun.2, hn.1, hn.2, (Option.some.inj h).symm⟩)
      · cases h
    · cases h
  | wouldBlock i =>
    simp only [step] at h
    split at h
    · exact Or.inr (Or.inr (Or.inl ⟨i, rfl, (Option.some.inj h).symm⟩))
    · cases h
  | failed i =>
    simp only [step] at h
    split at h
    · next c hc =>
      have hrun := running_eq_some.mp hc
      exact Or.inr (Or.inr (Or.inr ⟨i, c, rfl, hrun.1, hrun.2, (Option.some.inj h).symm⟩))
    · cases h

/-- What the call with a number has sent. -/
def sentOf (w : Wire) (i : ℕ) : List (ℕ × UInt8) :=
  match w.calls[i]? with
  | some c => c.sent.map fun b => (i, b)
  | none => []

theorem sentOf_of_getElem? {i : ℕ} {c : WriteCall} (h : w.calls[i]? = some c) :
    w.sentOf i = c.sent.map fun b => (i, b) := by
  unfold sentOf
  rw [h]

theorem sentOf_of_le {i : ℕ} (h : w.calls.length ≤ i) : w.sentOf i = [] := by
  unfold sentOf
  rw [List.getElem?_eq_none h]

theorem frameOf_of_getElem? {i : ℕ} {c : WriteCall} (h : w.calls[i]? = some c) :
    w.frameOf i = c.frame := by
  unfold frameOf
  rw [h]

/-- What a call has sent is a beginning of its frame. -/
theorem sentOf_eq_take (w : Wire) (i : ℕ) : ∃ k, w.sentOf i = (w.taggedFrame i).take k := by
  unfold sentOf taggedFrame frameOf
  cases w.calls[i]? with
  | none => exact ⟨0, rfl⟩
  | some c => exact ⟨_, List.map_take⟩

/-- **What holds on the stream whoever sends when**: every call is in order,
and a call past its first chunk has a byte on the wire. -/
structure Valid (w : Wire) : Prop where
  /-- Every call is in order. -/
  calls : ∀ (i : ℕ) (c : WriteCall), w.calls[i]? = some c → c.Valid
  /-- A call past its first chunk has a byte on the wire. -/
  wire : ∀ (i : ℕ) (c : WriteCall), w.calls[i]? = some c → c.first = false →
    ∃ b, (i, b) ∈ w.tagged

theorem valid_start : start.Valid := ⟨nofun, nofun⟩

theorem tagged_append (calls calls' : List WriteCall) (chunks : List Chunk) (ch : Chunk) :
    (Wire.mk calls (chunks ++ [ch])).tagged
      = (Wire.mk calls' chunks).tagged ++ ch.bytes.map fun b => (ch.call, b) := by
  unfold tagged
  rw [List.flatMap_append, List.flatMap_singleton]

theorem Valid.step {e : WireEvent} (hv : w.Valid) (h : w.step e = some w') : w'.Valid := by
  rcases step_cases h with ⟨msg, -, rfl⟩ | ⟨i, n, c, -, hc, -, hn0, hn, rfl⟩ | ⟨i, -, rfl⟩ |
    ⟨i, c, -, hc, hp, rfl⟩
  · constructor
    · intro j d hd
      rcases Slots.getElem?_concat_eq_some.mp hd with hd | ⟨-, rfl⟩
      · exact hv.calls j d hd
      · exact WriteCall.valid_writeMessage msg
    · intro j d hd hfirst
      rcases Slots.getElem?_concat_eq_some.mp hd with hd | ⟨-, rfl⟩
      · exact hv.wire j d hd hfirst
      · rw [WriteCall.first_writeMessage] at hfirst
        cases hfirst
  · have htagged : ∀ x ∈ w.tagged,
        x ∈ (Wire.mk (w.calls.set i (c.advance n))
          (w.chunks ++ [⟨i, c.buf.take n, c.attach⟩])).tagged := by
      intro x hx
      rw [tagged_append _ w.calls]
      exact List.mem_append_left _ hx
    constructor
    · intro j d hd
      rcases Slots.getElem?_set_eq_some.mp hd with ⟨rfl, -, rfl⟩ | ⟨-, hd⟩
      · exact WriteCall.valid_advance (hv.calls _ c hc) hn
      · exact hv.calls j d hd
    · intro j d hd hfirst
      rcases Slots.getElem?_set_eq_some.mp hd with ⟨rfl, -, rfl⟩ | ⟨-, hd⟩
      · obtain ⟨b, hb⟩ := List.exists_mem_of_ne_nil (c.buf.take n) (by
          intro hnil
          have := congrArg List.length hnil
          rw [List.length_take] at this
          simp only [List.length_nil] at this
          omega)
        refine ⟨b, ?_⟩
        rw [tagged_append _ w.calls]
        exact List.mem_append_right _ (List.mem_map.mpr ⟨b, hb, rfl⟩)
      · obtain ⟨b, hb⟩ := hv.wire j d hd hfirst
        exact ⟨b, htagged _ hb⟩
  · exact hv
  · constructor
    · intro j d hd
      rcases Slots.getElem?_set_eq_some.mp hd with ⟨rfl, -, rfl⟩ | ⟨-, hd⟩
      · exact WriteCall.valid_failed (hv.calls _ c hc) hp
      · exact hv.calls j d hd
    · intro j d hd hfirst
      rcases Slots.getElem?_set_eq_some.mp hd with ⟨rfl, -, rfl⟩ | ⟨-, hd⟩
      · exact hv.wire _ c hc hfirst
      · exact hv.wire j d hd hfirst

theorem not_complete_of_pending {i : ℕ} {c : WriteCall} (hc : w.calls[i]? = some c)
    (hp : c.result = .pending) : ¬ w.Complete i := by
  rintro ⟨d, hd, hok⟩
  rw [hc] at hd
  cases hd
  rw [hp] at hok
  cases hok

theorem Complete.lt_length {i : ℕ} (h : w.Complete i) : i < w.calls.length := by
  obtain ⟨c, hc, -⟩ := h
  exact Slots.lt_length_of_getElem? hc

/-! ### A call begins -/

theorem complete_call (w : Wire) (msg : Message) (i : ℕ) :
    Complete { w with calls := w.calls ++ [WriteCall.writeMessage msg] } i ↔ w.Complete i := by
  constructor
  · rintro ⟨c, hc, hok⟩
    rcases Slots.getElem?_concat_eq_some.mp hc with hc | ⟨-, rfl⟩
    · exact ⟨c, hc, hok⟩
    · exact absurd hok (WriteCall.result_writeMessage msg)
  · rintro ⟨c, hc, hok⟩
    exact ⟨c, Slots.getElem?_concat_eq_some.mpr (Or.inl hc), hok⟩

theorem sentOf_call (w : Wire) (msg : Message) (i : ℕ) :
    sentOf { w with calls := w.calls ++ [WriteCall.writeMessage msg] } i = w.sentOf i := by
  rcases lt_trichotomy i w.calls.length with hlt | rfl | hgt
  · unfold sentOf
    simp only [List.getElem?_append_left hlt]
  · rw [sentOf_of_le (w := w) le_rfl,
      sentOf_of_getElem? (c := WriteCall.writeMessage msg) (by simp),
      (WriteCall.valid_writeMessage msg).sent_of_first (WriteCall.first_writeMessage msg)]
    rfl
  · rw [sentOf_of_le (w := w) hgt.le, sentOf_of_le]
    rw [List.length_append]
    exact hgt

theorem taggedFrame_call (w : Wire) (msg : Message) {i : ℕ} (hi : i < w.calls.length) :
    taggedFrame { w with calls := w.calls ++ [WriteCall.writeMessage msg] } i
      = w.taggedFrame i := by
  unfold taggedFrame frameOf
  simp only [List.getElem?_append_left hi]

/-! ### A call is replaced by a later state of its own -/

theorem complete_set {i : ℕ} {c d : WriteCall} (hc : w.calls[i]? = some c) (chunks : List Chunk)
    (j : ℕ) : Complete ⟨w.calls.set i d, chunks⟩ j ↔
      (i = j ∧ d.result = .ok) ∨ (i ≠ j ∧ w.Complete j) := by
  constructor
  · rintro ⟨e, he, hok⟩
    rcases Slots.getElem?_set_eq_some.mp he with ⟨hij, -, rfl⟩ | ⟨hij, he⟩
    · exact Or.inl ⟨hij, hok⟩
    · exact Or.inr ⟨hij, e, he, hok⟩
  · rintro (⟨hij, hok⟩ | ⟨hij, e, he, hok⟩)
    · exact ⟨d, Slots.getElem?_set_eq_some.mpr (Or.inl ⟨hij, Slots.lt_length_of_getElem? hc, rfl⟩),
        hok⟩
    · exact ⟨e, Slots.getElem?_set_eq_some.mpr (Or.inr ⟨hij, he⟩), hok⟩

theorem frameOf_set {i : ℕ} {c d : WriteCall} (hc : w.calls[i]? = some c)
    (hframe : d.frame = c.frame) (chunks : List Chunk) :
    frameOf ⟨w.calls.set i d, chunks⟩ = w.frameOf := by
  funext j
  by_cases hij : i = j
  · rw [← hij, frameOf_of_getElem? hc, ← hframe]
    refine frameOf_of_getElem? (Slots.getElem?_set_eq_some.mpr (Or.inl ⟨rfl, ?_, rfl⟩))
    exact Slots.lt_length_of_getElem? hc
  · unfold frameOf
    simp only [List.getElem?_set_ne hij]

theorem taggedFrame_set {i : ℕ} {c d : WriteCall} (hc : w.calls[i]? = some c)
    (hframe : d.frame = c.frame) (chunks : List Chunk) :
    taggedFrame ⟨w.calls.set i d, chunks⟩ = w.taggedFrame := by
  funext j
  unfold taggedFrame
  rw [frameOf_set hc hframe]

theorem sentOf_set_self {i : ℕ} {c d : WriteCall} (hc : w.calls[i]? = some c)
    (chunks : List Chunk) :
    sentOf ⟨w.calls.set i d, chunks⟩ i = d.sent.map fun b => (i, b) := by
  refine sentOf_of_getElem? (Slots.getElem?_set_eq_some.mpr (Or.inl ⟨rfl, ?_, rfl⟩))
  exact Slots.lt_length_of_getElem? hc

/-! ### The order in which frames are completed -/

/-- **The peer's stream is in order**: the frames of the complete calls, and
what the call `last` has sent; no other call is in the middle of its
frame. -/
structure InOrder (w : Wire) (order : List ℕ) (last : ℕ) : Prop where
  /-- Every call has its place once. -/
  nodup : order.Nodup
  /-- The calls in the order are the complete ones. -/
  complete : ∀ i, i ∈ order ↔ w.Complete i
  /-- The last call is not one of them. -/
  fresh : last ∉ order
  /-- What the peer has received. -/
  tagged : w.tagged = order.flatMap w.taggedFrame ++ w.sentOf last
  /-- Only the last call can be in the middle of its frame. -/
  only : ∀ (j : ℕ) (c : WriteCall), w.calls[j]? = some c → c.MidFrame → j = last

theorem InOrder.framed {order : List ℕ} {last : ℕ} (h : w.InOrder order last) : w.Framed := by
  obtain ⟨k, hk⟩ := sentOf_eq_take w last
  exact ⟨order, last, k, h.nodup, h.complete, h.fresh, by rw [h.tagged, hk]⟩

theorem inOrder_start : start.InOrder [] 0 where
  nodup := List.nodup_nil
  complete := fun _ => ⟨nofun, fun ⟨_, hc, _⟩ => absurd hc nofun⟩
  fresh := nofun
  tagged := rfl
  only := nofun

/-- Where no other call is in the middle of its frame, the call about to send
can be taken for the last. -/
theorem InOrder.tagged_of_exclusive {order : List ℕ} {last i : ℕ} {c : WriteCall}
    (h : w.InOrder order last) (hv : w.Valid) (hc : w.calls[i]? = some c)
    (hp : c.result = .pending) (hex : ¬ w.OtherMidFrame i) :
    w.tagged = order.flatMap w.taggedFrame ++ w.sentOf i := by
  by_cases hlast : last = i
  · rw [← hlast]
    exact h.tagged
  · have hnil : w.sentOf last = [] := by
      unfold sentOf
      cases hd : w.calls[last]? with
      | none => rfl
      | some d =>
        have hdv := hv.calls last d hd
        have hfirst : d.first = true := by
          by_contra hfirst
          rw [Bool.not_eq_true] at hfirst
          have hbuf : d.buf = [] := by
            by_contra hbuf
            exact hex ⟨last, d, hlast, hd, hfirst, hbuf⟩
          exact h.fresh ((h.complete last).mpr ⟨d, hd, hdv.done hbuf hfirst⟩)
        show d.sent.map _ = []
        rw [hdv.sent_of_first hfirst, List.map_nil]
    have hnil' : w.sentOf i = [] := by
      have hcv := hv.calls i c hc
      have hfirst : c.first = true := by
        by_contra hfirst
        rw [Bool.not_eq_true] at hfirst
        exact hlast (h.only i c hc ⟨hfirst, hcv.pending hp⟩).symm
      rw [sentOf_of_getElem? hc, hcv.sent_of_first hfirst, List.map_nil]
    rw [h.tagged, hnil, hnil']

/-- **A send of a call that no other call waits for keeps the order.** -/
theorem InOrder.accepted {order : List ℕ} {last i n : ℕ} {c : WriteCall}
    (h : w.InOrder order last) (hv : w.Valid) (hc : w.calls[i]? = some c)
    (hp : c.result = .pending) (hn : n ≤ c.buf.length) (hex : ¬ w.OtherMidFrame i) :
    ∃ order' last', InOrder
      ⟨w.calls.set i (c.advance n), w.chunks ++ [⟨i, c.buf.take n, c.attach⟩]⟩ order' last' := by
  have hcv := hv.calls i c hc
  have hi : i ∉ order := fun hi => not_complete_of_pending hc hp ((h.complete i).mp hi)
  -- what the peer has now ends with all that this call has sent
  have htagged : Wire.tagged
      ⟨w.calls.set i (c.advance n), w.chunks ++ [⟨i, c.buf.take n, c.attach⟩]⟩
        = order.flatMap w.taggedFrame ++ (c.advance n).sent.map fun b => (i, b) := by
    rw [tagged_append _ w.calls, h.tagged_of_exclusive hv hc hp hex, sentOf_of_getElem? hc,
      WriteCall.sent_advance hcv n hn, List.map_append, List.append_assoc]
  -- nobody else is in the middle of a frame
  have honly : ∀ (j : ℕ) (d : WriteCall), (w.calls.set i (c.advance n))[j]? = some d →
      d.MidFrame → i = j ∧ c.advance n = d := by
    intro j d hd hmid
    rcases Slots.getElem?_set_eq_some.mp hd with ⟨hij, -, hcd⟩ | ⟨hij, hd⟩
    · exact ⟨hij, hcd⟩
    · exact absurd ⟨j, d, Ne.symm hij, hd, hmid⟩ hex
  by_cases hdone : c.buf.drop n = []
  · refine ⟨order ++ [i], w.calls.length, ?_, ?_, ?_, ?_, ?_⟩
    · exact List.nodup_append.mpr ⟨h.nodup, List.pairwise_singleton _ i, by
        rintro a ha b hb rfl
        exact hi (List.mem_singleton.mp hb ▸ ha)⟩
    · intro j
      rw [complete_set hc, List.mem_append, List.mem_singleton, h.complete]
      have hok : (c.advance n).result = .ok := if_pos hdone
      constructor
      · rintro (hj | rfl)
        · refine Or.inr ⟨?_, hj⟩
          rintro rfl
          exact not_complete_of_pending hc hp hj
        · exact Or.inl ⟨rfl, hok⟩
      · rintro (⟨rfl, -⟩ | ⟨-, hj⟩)
        · exact Or.inr rfl
        · exact Or.inl hj
    · rw [List.mem_append, List.mem_singleton]
      rintro (hlen | hlen)
      · exact absurd ((h.complete _).mp hlen).lt_length (lt_irrefl _)
      · exact absurd (Slots.lt_length_of_getElem? hc) (by omega)
    · have hframe : (c.advance n).sent = (c.advance n).frame :=
        (WriteCall.valid_advance hcv hn).sent_of_nil hdone
      rw [htagged, taggedFrame_set (d := c.advance n) hc rfl, List.flatMap_append,
        List.flatMap_singleton, hframe,
        sentOf_of_le (by simp), List.append_nil]
      show _ = order.flatMap w.taggedFrame ++ (w.frameOf i).map _
      rw [frameOf_of_getElem? hc]
      rfl
    · intro j d hd hmid
      obtain ⟨-, rfl⟩ := honly j d hd hmid
      exact absurd hdone hmid.2
  · refine ⟨order, i, h.nodup, ?_, hi, ?_, ?_⟩
    · intro j
      have hpending : (c.advance n).result = .pending := if_neg hdone
      rw [complete_set hc, h.complete, hpending]
      constructor
      · intro hj
        refine Or.inr ⟨?_, hj⟩
        rintro rfl
        exact not_complete_of_pending hc hp hj
      · rintro (⟨-, hj⟩ | ⟨-, hj⟩)
        · cases hj
        · exact hj
    · rw [htagged, taggedFrame_set (d := c.advance n) hc rfl, sentOf_set_self hc]
    · intro j d hd hmid
      exact (honly j d hd hmid).1.symm

/-- **Every event that meets the condition keeps the order.** -/
theorem InOrder.step {order : List ℕ} {last : ℕ} {e : WireEvent} (h : w.InOrder order last)
    (hv : w.Valid) (hstep : w.step e = some w') (hex : w.Exclusive e) :
    ∃ order' last', w'.InOrder order' last' := by
  rcases step_cases hstep with ⟨msg, rfl, rfl⟩ | ⟨i, n, c, rfl, hc, hp, -, hn, rfl⟩ |
    ⟨i, rfl, rfl⟩ | ⟨i, c, rfl, hc, hp, rfl⟩
  · refine ⟨order, last, h.nodup, ?_, h.fresh, ?_, ?_⟩
    · intro i
      rw [complete_call, h.complete]
    · rw [sentOf_call]
      show w.tagged = _
      rw [h.tagged]
      congr 1
      refine List.flatMap_congr fun i hi => ?_
      exact (taggedFrame_call w msg ((h.complete i).mp hi).lt_length).symm
    · intro j c hc hmid
      rcases Slots.getElem?_concat_eq_some.mp hc with hc | ⟨-, rfl⟩
      · exact h.only j c hc hmid
      · exact absurd (WriteCall.first_writeMessage msg) (by simp [hmid.1])
  · exact h.accepted hv hc hp hn hex
  · exact ⟨order, last, h⟩
  · refine ⟨order, last, h.nodup, ?_, h.fresh, ?_, ?_⟩
    · intro j
      rw [complete_set hc, h.complete]
      constructor
      · intro hj
        refine Or.inr ⟨?_, hj⟩
        rintro rfl
        exact not_complete_of_pending hc hp hj
      · rintro (⟨-, hj⟩ | ⟨-, hj⟩)
        · cases hj
        · exact hj
    · have hsent : sentOf ⟨w.calls.set i { c with result := .err }, w.chunks⟩ last
          = w.sentOf last := by
        by_cases hlast : i = last
        · rw [← hlast, sentOf_set_self hc, sentOf_of_getElem? hc]
          rfl
        · unfold sentOf
          simp only [List.getElem?_set_ne hlast]
      rw [taggedFrame_set (d := { c with result := .err }) hc rfl, hsent]
      exact h.tagged
    · intro j d hd hmid
      rcases Slots.getElem?_set_eq_some.mp hd with ⟨rfl, -, rfl⟩ | ⟨-, hd⟩
      · exact h.only i c hc hmid
      · exact h.only j d hd hmid

theorem fst_of_mem_taggedFrame {i : ℕ} {x : ℕ × UInt8} (h : x ∈ w.taggedFrame i) : x.1 = i := by
  obtain ⟨b, -, rfl⟩ := List.mem_map.mp h
  rfl

/-- The last byte on the wire is from the call that sent last. -/
theorem tagged_of_accepted {i n : ℕ} (h : w.step (.accepted i n) = some w') :
    ∃ pre b, w'.tagged = pre ++ [(i, b)] := by
  rcases step_cases h with ⟨msg, he, -⟩ | ⟨i, n, c, he, hc, -, hn0, hn, rfl⟩ | ⟨i, he, -⟩ |
    ⟨i, c, he, -⟩
  · cases he
  · cases he
    have hne : c.buf.take n ≠ [] := by
      intro hnil
      have := congrArg List.length hnil
      rw [List.length_take, Nat.min_eq_left hn, List.length_nil] at this
      omega
    rw [tagged_append _ w.calls, ← List.dropLast_append_getLast hne, List.map_append,
      ← List.append_assoc]
    exact ⟨_, _, rfl⟩
  · cases he
  · cases he

theorem getElem?_calls_of_accepted {i n j : ℕ} (h : w.step (.accepted i n) = some w')
    (hij : i ≠ j) : w'.calls[j]? = w.calls[j]? := by
  rcases step_cases h with ⟨msg, he, -⟩ | ⟨i, n, c, he, hc, -, hn0, hn, rfl⟩ | ⟨i, he, -⟩ |
    ⟨i, c, he, -⟩
  · cases he
  · cases he
    exact List.getElem?_set_ne hij
  · cases he
  · cases he

/-- **A send that breaks into another call's frame leaves a split frame.** -/
theorem not_framed_of_otherMidFrame {i n : ℕ} (hv : w.Valid)
    (h : w.step (.accepted i n) = some w') (hother : w.OtherMidFrame i) : ¬ w'.Framed := by
  have hv' := hv.step h
  obtain ⟨j, d, hji, hd, hmid⟩ := hother
  rw [← getElem?_calls_of_accepted h hji.symm] at hd
  obtain ⟨b, hb⟩ := hv'.wire j d hd hmid.1
  obtain ⟨pre, b', hlast⟩ := tagged_of_accepted h
  rintro ⟨order, last, k, -, hcomplete, -, htagged⟩
  -- the frame of `j` is not complete, so its bytes are in the unfinished frame
  have hj : (j, b) ∈ (w'.taggedFrame last).take k := by
    rw [htagged] at hb
    rcases List.mem_append.mp hb with hb | hb
    · obtain ⟨l, hl, hb⟩ := List.mem_flatMap.mp hb
      obtain ⟨e, he, hok⟩ := (hcomplete l).mp hl
      rw [← show j = l from fst_of_mem_taggedFrame hb, hd] at he
      cases he
      exact absurd ((hv'.calls j d hd).ok hok).1 hmid.2
    · exact hb
  -- and so is the last byte on the wire, which is from `i`
  have hi : (i, b') ∈ (w'.taggedFrame last).take k := by
    have hne := List.ne_nil_of_mem hj
    rw [htagged, ← List.dropLast_append_getLast hne, ← List.append_assoc] at hlast
    rw [← List.head_eq_of_cons_eq (List.append_inj' hlast rfl).2]
    exact List.getLast_mem hne
  have hjl : j = last := fst_of_mem_taggedFrame (List.mem_of_mem_take hj)
  have hil : i = last := fst_of_mem_taggedFrame (List.mem_of_mem_take hi)
  exact hji (hjl.trans hil.symm)

/-! ## Whole runs -/

theorem run_append (w : Wire) (es fs : List WireEvent) :
    w.run (es ++ fs) = (w.run es).bind fun w' => w'.run fs := by
  induction es generalizing w with
  | nil => rfl
  | cons e es ih =>
    show ((w.step e).bind fun w' => w'.run (es ++ fs)) = _
    rw [run, Option.bind_assoc]
    congr 1
    funext w'
    exact ih w'

/-- A run and one more event. -/
theorem run_concat_eq_some {es : List WireEvent} {e : WireEvent} :
    w.run (es ++ [e]) = some w' ↔ ∃ w₀, w.run es = some w₀ ∧ w₀.step e = some w' := by
  rw [run_append, Option.bind_eq_some_iff]
  simp [run]

theorem valid_of_run {es : List WireEvent} (h : start.run es = some w) : w.Valid := by
  induction es using List.reverseRecOn generalizing w with
  | nil =>
    rw [← Option.some.inj h]
    exact valid_start
  | append_singleton es e ih =>
    obtain ⟨w₀, h₀, hstep⟩ := run_concat_eq_some.mp h
    exact (ih h₀).step hstep

/-- **A run in which every send meets the condition is in order.** -/
theorem inOrder_of_run {es : List WireEvent} (h : start.run es = some w)
    (hex : ∀ (p : List WireEvent) (e : WireEvent) (w₀ w₁ : Wire), p ++ [e] <+: es →
      start.run p = some w₀ → w₀.step e = some w₁ → w₀.Exclusive e) :
    ∃ order last, w.InOrder order last := by
  induction es using List.reverseRecOn generalizing w with
  | nil =>
    rw [← Option.some.inj h]
    exact ⟨[], 0, inOrder_start⟩
  | append_singleton es e ih =>
    obtain ⟨w₀, h₀, hstep⟩ := run_concat_eq_some.mp h
    obtain ⟨order, last, hord⟩ := ih h₀ fun p e w₀ w₁ hp =>
      hex p e w₀ w₁ (hp.trans (List.prefix_append _ _))
    exact hord.step (valid_of_run h₀) hstep (hex es e w₀ w (List.prefix_refl _) h₀ hstep)

/-- Once every call that had a frame to send has returned `Ok`, the peer has
received whole frames only. -/
theorem Framed.concatenation (h : w.Framed)
    (hdone : ∀ c ∈ w.calls, c.result = .ok ∨ c.frame = []) : w.Concatenation := by
  obtain ⟨order, last, k, hnodup, hcomplete, hlast, htagged⟩ := h
  have hnil : w.taggedFrame last = [] := by
    unfold taggedFrame frameOf
    cases hc : w.calls[last]? with
    | none => rfl
    | some c =>
      rcases hdone c (List.mem_of_getElem? hc) with hok | hframe
      · exact absurd ((hcomplete last).mpr ⟨c, hc, hok⟩) hlast
      · show c.frame.map _ = []
        rw [hframe, List.map_nil]
  rw [hnil, List.take_nil, List.append_nil] at htagged
  refine ⟨order, hnodup, hcomplete, ?_⟩
  have hbytes : w.tagged.map Prod.snd = w.received := by
    unfold tagged received
    rw [List.map_flatMap]
    congr 1
    funext ch
    simp [Function.comp_def]
  rw [← hbytes, htagged, List.map_flatMap]
  congr 1
  funext i
  unfold taggedFrame
  simp [Function.comp_def]

/-- **Frames stay in one piece exactly in the runs in which no call sends
while another is in the middle of its frame.** Once all calls are done, the
peer has then received their frames, one after the other. -/
theorem framed_iff (events : List WireEvent) :
    ((∀ (p : List WireEvent) (w : Wire), p <+: events → start.run p = some w → w.Framed) ↔
      ∀ (p : List WireEvent) (e : WireEvent) (w w' : Wire), p ++ [e] <+: events →
        start.run p = some w → w.step e = some w' → w.Exclusive e) ∧
    ∀ w, start.run events = some w → w.Framed →
      (∀ c ∈ w.calls, c.result = .ok ∨ c.frame = []) → w.Concatenation := by
  refine ⟨⟨?_, ?_⟩, fun w _ hframed hdone => hframed.concatenation hdone⟩
  · intro hframed p e w w' hp hrun hstep
    cases e with
    | accepted i n =>
      intro hother
      refine not_framed_of_otherMidFrame (valid_of_run hrun) hstep hother ?_
      exact hframed _ w' hp (run_concat_eq_some.mpr ⟨w, hrun, hstep⟩)
    | call msg => trivial
    | wouldBlock i => trivial
    | failed i => trivial
  · intro hex p w hp hrun
    obtain ⟨order, last, h⟩ := inOrder_of_run hrun fun q e w₀ w₁ hq =>
      hex q e w₀ w₁ (hq.trans hp)
    exact h.framed

/-- A reply without a body. -/
def reply (n : UInt32) : Message := (Message.Builder.methodReturn n).build n

/-- The bytes of such a reply after the serial number. -/
def replyTail (n : UInt8) : List UInt8 := [0, 0, 0, 8, 0, 0, 0, 5, 1, 117, 0, n, 0, 0, 0]

/-- **Two calls whose frames mix**: the first call sends one byte, the
second call its whole frame, the first call the rest. Both return `Ok`, and
the peer has received neither frame. -/
theorem frames_mix : ∃ w, start.run [.call (reply 1), .call (reply 2), .accepted 0 1,
      .accepted 1 24, .accepted 0 23] = some w ∧
    (∀ c ∈ w.calls, c.result = .ok) ∧ ¬ w.Concatenation := by
  have hrun : start.run [.call (reply 1), .call (reply 2), .accepted 0 1, .accepted 1 24,
      .accepted 0 23] = some
        ⟨[⟨[108, 2, 0, 1, 0, 0, 0, 0, 1] ++ replyTail 1, [], [], false, .ok⟩,
            ⟨[108, 2, 0, 1, 0, 0, 0, 0, 2] ++ replyTail 2, [], [], false, .ok⟩],
          [⟨0, [108], []⟩, ⟨1, [108, 2, 0, 1, 0, 0, 0, 0, 2] ++ replyTail 2, []⟩,
            ⟨0, [2, 0, 1, 0, 0, 0, 0, 1] ++ replyTail 1, []⟩]⟩ := by decide +kernel
  refine ⟨_, hrun, by decide, ?_⟩
  rintro ⟨order, -, hcomplete, hreceived⟩
  cases order with
  | nil => exact absurd ((hcomplete 0).mpr ⟨_, rfl, rfl⟩) nofun
  | cons a order =>
    -- whichever frame comes first, its second byte is not the first byte again
    have ha := ((hcomplete a).mp List.mem_cons_self).lt_length
    have hbyte := congrArg (fun l : List UInt8 => l[1]?) hreceived
    match a, ha with
    | 0, _ => cases hbyte
    | 1, _ => cases hbyte

end Wire

end Oxibus
