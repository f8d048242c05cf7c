import Oxibus.Core.Framing
import Oxibus.Transport.Writer
import Oxibus.Transport.Reader

/-!
# From the writer to the reader

The writer sends a frame in as many pieces as the stream accepts, the
descriptors with the first of them; the kernel hands the stream out in other
pieces. `Transport.readMessages_of_inTurn` puts the two halves together: if
every call of `write_message` begins when the one before it has returned, the
calls of `read_message` return the messages that were sent, each with its own
descriptors, and nothing is left over.
-/

namespace Oxibus

open WireByte

/-! ## One frame -/

namespace Transport

variable {t : Transport} {held s w tail : List WireByte} {incoming : List Recv} {m m' : Message}
  {frame : List UInt8}

/-- **A frame that is there is cut off**, with its descriptors. -/
theorem takeFrame_of_holds (incoming : List Recv) (hframe : m.toBytes = .ok frame)
    (haccepted : Message.fromBytes frame m.fds = .ok m') (hfds : m.fds.length < 2 ^ 32)
    (hheld : t.Holds (attach frame m.fds ++ held)) :
    ∃ t' : Transport, t.takeFrame frame.length incoming = .done (.ok m') t' incoming ∧
      t'.Holds held ∧ t'.maxMessageSize = t.maxMessageSize := by
  obtain ⟨-, -, off, -, hread, -, -⟩ := Message.fromBytes_eq_ok_steps.mp haccepted
  have hdeclared : m'.header.unixFds.toNat = m.fds.length :=
    Message.unixFds_of_fromBytes_toBytes hframe haccepted hfds
  have hbuf : t.readBuf = frame ++ bytes held := by
    rw [hheld.readBuf, bytes_append, bytes_attach]
  have hpending : t.pendingFds = m.fds ++ fdsOf held := by
    rw [hheld.pendingFds, fdsOf_append, fdsOf_attach _ (Message.ne_nil_of_toBytes hframe)]
  have htaken : (if 0 < m.fds.length then min m.fds.length t.pendingFds.length else 0)
      = m.fds.length := by
    rw [hpending, List.length_append]
    split
    · omega
    · omega
  refine ⟨⟨bytes held, fdsOf held, t.maxMessageSize⟩, ?_, ⟨rfl, rfl⟩, rfl⟩
  unfold takeFrame
  simp only [hbuf, List.take_left, List.drop_left, hread, hdeclared, htaken]
  simp only [hpending, List.take_left, List.drop_left, haccepted]
  rfl

/-- **A frame at the head of the stream is read**, with its descriptors, whatever follows
it and however much of both has arrived already. -/
theorem readMessage_of_frame (hframe : m.toBytes = .ok frame)
    (haccepted : Message.fromBytes frame m.fds = .ok m')
    (hmax : frame.length ≤ t.maxMessageSize.toNat) (hfds : m.fds.length < 2 ^ 32)
    (hheld : t.Holds held) (harrives : Arrives s incoming)
    (hw : held ++ s = attach frame m.fds ++ tail) :
    ∃ (t' : Transport) (held' s' : List WireByte) (rest : List Recv),
      t.readMessage incoming = .done (.ok m') t' rest ∧ t'.Holds held' ∧ Arrives s' rest ∧
      held' ++ s' = tail ∧ t'.maxMessageSize = t.maxMessageSize := by
  have hlen : frame.length ≤ (attach frame m.fds ++ tail).length := by simp
  have hshort : frame.length < 2 ^ 32 := hmax.trans_lt t.maxMessageSize.toNat_lt
  -- the length is known when sixteen bytes are there
  have hpeek : ∀ (t : Transport) (held : List WireByte), t.Holds held →
      held <+: attach frame m.fds ++ tail →
      frameLen t = if held.length < 16 then none else some (.ok frame.length) := by
    intro t held hheld hprefix
    have hbuf : t.readBuf <+: frame ++ bytes tail := by
      rw [hheld.readBuf, ← bytes_attach frame m.fds, ← bytes_append]
      exact hprefix.map byte
    have hknown := Message.peekFrameLen_of_toBytes hframe haccepted hshort hbuf
    rw [hheld.readBuf, length_bytes] at hknown
    rw [frameLen, hheld.readBuf, hknown]
    by_cases hlong : held.length < 16
    · rw [if_pos hlong, if_pos hlong]
    · rw [if_neg hlong, if_neg hlong]
  obtain ⟨t₁, held₁, s₁, rest₁, hrun₁, hheld₁, harrives₁, hw₁, -, hmax₁⟩ :=
    fillUntil_of_arrives ((Message.length_of_toBytes hframe).trans hlen) hpeek hheld harrives hw
  -- and the frame is there when its bytes are
  have hbytes : ∀ (t : Transport) (held : List WireByte), t.Holds held →
      held <+: attach frame m.fds ++ tail →
      hasBytes frame.length t = if held.length < frame.length then none else some (.ok ()) := by
    intro t held hheld _
    rw [hasBytes, hheld.readBuf, length_bytes]
  obtain ⟨t₂, held₂, s₂, rest₂, hrun₂, hheld₂, harrives₂, hw₂, hlen₂, hmax₂⟩ :=
    fillUntil_of_arrives hlen hbytes hheld₁ harrives₁ hw₁
  obtain ⟨held', rfl⟩ : attach frame m.fds <+: held₂ := by
    refine List.prefix_of_prefix_length_le ?_ (hw₂ ▸ List.prefix_append held₂ s₂)
      (by simpa using hlen₂)
    exact List.prefix_append _ _
  obtain ⟨t', htake, hheld', hmax'⟩ :=
    takeFrame_of_holds rest₂ hframe haccepted hfds hheld₂
  refine ⟨t', held', s₂, rest₂, ?_, hheld', harrives₂, ?_, hmax'.trans (hmax₂.trans hmax₁)⟩
  · rw [readMessage, hrun₁, ReadResult.ok_bind, if_neg (by rw [hmax₁]; omega), hrun₂,
      ReadResult.ok_bind, htake]
  · rw [List.append_assoc] at hw₂
    exact List.append_cancel_left hw₂

end Transport

/-! ## What the writer puts on the stream -/

namespace WireByte

variable (bs : List UInt8) (fds : List Int32) (n : ℕ)

theorem take_attach : (attach bs fds).take n = attach (bs.take n) fds := by
  cases bs with
  | nil => simp [attach]
  | cons b bs =>
    cases n with
    | zero => rfl
    | succ n => simp [attach]

theorem drop_attach (hn : 0 < n) : (attach bs fds).drop n = attach (bs.drop n) [] := by
  cases bs with
  | nil => simp [attach]
  | cons b bs =>
    obtain ⟨n, rfl⟩ := Nat.exists_eq_succ_of_ne_zero hn.ne'
    rw [attach_nil]
    simp [attach]

end WireByte

/-- The part of the stream a call has sent. -/
def WriteCall.carried (c : WriteCall) : List WireByte :=
  (WireByte.attach c.frame c.outFds).take c.sent.length

/-- **A send adds its chunk to what the call has sent.** -/
theorem WriteCall.carried_advance {c : WriteCall} (h : c.Valid) {n : ℕ} (hn : n ≤ c.buf.length)
    (hstarted : c.first = false → c.sent ≠ []) :
    (c.advance n).carried = c.carried ++ WireByte.attach (c.buf.take n) c.attach := by
  have hbuf : c.buf = c.frame.drop c.sent.length := by
    conv_rhs => rw [← h.split]
    rw [List.drop_left]
  show (WireByte.attach c.frame c.outFds).take (c.advance n).sent.length = _
  rw [sent_advance h n hn, List.length_append, List.length_take_of_le hn, carried, List.take_add]
  congr 1
  unfold WriteCall.attach
  cases hfirst : c.first with
  | true =>
    rw [h.sent_of_first hfirst, h.first hfirst]
    exact take_attach ..
  | false =>
    rw [drop_attach _ _ _ (List.length_pos_iff.mpr (hstarted hfirst)), take_attach, ← hbuf]
    rfl

/-- Whether the event is the beginning of a call. -/
def WireEvent.isCall : WireEvent → Bool
  | .call _ => true
  | _ => false

namespace Wire

variable {w w' : Wire}

/-- **The stream**, each byte with the descriptors sent with it. -/
def stream (w : Wire) : List WireByte := w.chunks.flatMap fun ch => attach ch.bytes ch.fds

/-- **One call after the other**: each begins when those before it have returned `Ok`. -/
def inTurn (w : Wire) : List WireEvent → Bool
  | [] => true
  | e :: events =>
    (!e.isCall || w.calls.all fun c => c.result = .ok) &&
      (w.step e).all fun w' => w'.inTurn events

/-- **What holds while one call goes after the other**: only the last call is not over,
and the stream is what the calls have sent. -/
structure Turns (w : Wire) : Prop where
  /-- Every call is in order. -/
  valid : ∀ c ∈ w.calls, c.Valid
  /-- A call past its first chunk has sent something. -/
  started : ∀ c ∈ w.calls, c.first = false → c.sent ≠ []
  /-- A call that has not failed sends the frame of a message. -/
  written : ∀ c ∈ w.calls, c.result ≠ .err → ∃ msg, Message.toBytes msg = .ok c.frame ∧
    msg.fds = c.outFds
  /-- The calls before the last one are over. -/
  ended : ∀ c ∈ w.calls.dropLast, c.result = .ok
  /-- The stream is what they have sent. -/
  stream : w.stream = w.calls.flatMap WriteCall.carried

theorem turns_start : start.Turns := ⟨nofun, nofun, nofun, nofun, rfl⟩

/-- A call that is not over is the last one. -/
theorem Turns.eq_concat (h : w.Turns) {i : ℕ} {c : WriteCall} (hc : w.calls[i]? = some c)
    (hp : c.result ≠ .ok) : ∃ calls, w.calls = calls ++ [c] ∧ i = calls.length := by
  have hne : w.calls ≠ [] := List.ne_nil_of_mem (List.mem_of_getElem? hc)
  have hlast := List.dropLast_append_getLast hne
  rw [← hlast] at hc
  rcases Slots.getElem?_concat_eq_some.mp hc with hc | ⟨hi, hc⟩
  · exact absurd (h.ended c (List.mem_of_getElem? hc)) hp
  · refine ⟨w.calls.dropLast, ?_, hi⟩
    rw [← hc]
    exact hlast.symm

/-- The last call moves on, and sends some more. -/
theorem Turns.advance (h : w.Turns) {calls : List WriteCall} {c c' : WriteCall}
    {chunks : List Chunk}
    {more : List WireByte} (hcalls : w.calls = calls ++ [c]) (hvalid : c'.Valid)
    (hstarted : c'.first = false → c'.sent ≠ [])
    (hwritten : ∃ msg, Message.toBytes msg = .ok c'.frame ∧ msg.fds = c'.outFds)
    (hcarried : c'.carried = c.carried ++ more)
    (hstream : Wire.stream ⟨calls ++ [c'], chunks⟩ = w.stream ++ more) :
    Turns ⟨calls ++ [c'], chunks⟩ := by
  have hmem : ∀ d ∈ calls, d ∈ w.calls := fun d hd => hcalls ▸ List.mem_append_left [c] hd
  have hall : ∀ {P : WriteCall → Prop}, (∀ d ∈ calls, P d) → P c' → ∀ d ∈ calls ++ [c'], P d := by
    intro P hold hnew d hd
    rcases List.mem_append.mp hd with hd | hd
    · exact hold d hd
    · exact List.mem_singleton.mp hd ▸ hnew
  constructor
  · exact hall (fun d hd => h.valid d (hmem d hd)) hvalid
  · exact hall (fun d hd => h.started d (hmem d hd)) hstarted
  · exact hall (fun d hd => h.written d (hmem d hd)) fun _ => hwritten
  · intro d hd
    rw [List.dropLast_concat] at hd
    refine h.ended d ?_
    rw [hcalls, List.dropLast_concat]
    exact hd
  · rw [hstream, h.stream, hcalls]
    simp [hcarried]

/-- A call begins when the others are over. -/
theorem Turns.begin (h : w.Turns) (msg : Message) (hover : ∀ c ∈ w.calls, c.result = .ok) :
    Turns ⟨w.calls ++ [WriteCall.writeMessage msg], w.chunks⟩ := by
  have hsent : (WriteCall.writeMessage msg).sent = [] :=
    (WriteCall.valid_writeMessage msg).sent_of_first (WriteCall.first_writeMessage msg)
  constructor
  · intro d hd
    rcases List.mem_append.mp hd with hd | hd
    · exact h.valid d hd
    · exact List.mem_singleton.mp hd ▸ WriteCall.valid_writeMessage msg
  · intro d hd hfirst
    rcases List.mem_append.mp hd with hd | hd
    · exact h.started d hd hfirst
    · rw [List.mem_singleton.mp hd, WriteCall.first_writeMessage] at hfirst
      cases hfirst
  · intro d hd hres
    rcases List.mem_append.mp hd with hd | hd
    · exact h.written d hd hres
    · rw [List.mem_singleton.mp hd] at hres ⊢
      rcases WriteCall.writeMessage_cases msg with ⟨bytes, hbytes, -, heq⟩ | heq
      · rw [heq]
        exact ⟨msg, hbytes, rfl⟩
      · rw [heq] at hres
        exact absurd rfl hres
  · intro d hd
    rw [List.dropLast_concat] at hd
    exact hover d hd
  · show w.stream = _
    rw [List.flatMap_append, List.flatMap_singleton, WriteCall.carried, hsent, List.length_nil,
      List.take_zero, List.append_nil, h.stream]

/-- **Every event keeps the calls in turn**, if a call begins only when the others are
over. -/
theorem Turns.step {e : WireEvent} (h : w.Turns) (hstep : w.step e = some w')
    (hturn : e.isCall = true → ∀ c ∈ w.calls, c.result = .ok) : w'.Turns := by
  rcases step_cases hstep with ⟨msg, rfl, rfl⟩ | ⟨i, n, c, rfl, hc, hp, hn0, hn, rfl⟩ |
    ⟨i, rfl, rfl⟩ | ⟨i, c, rfl, hc, hp, rfl⟩
  · exact h.begin msg (hturn rfl)
  · obtain ⟨calls, hcalls, rfl⟩ := h.eq_concat hc (by rw [hp]; exact nofun)
    have hmem := List.mem_of_getElem? hc
    have hvalid := h.valid c hmem
    have hset : w.calls.set calls.length (c.advance n) = calls ++ [c.advance n] := by
      rw [hcalls]
      simp
    rw [hset]
    refine h.advance hcalls (WriteCall.valid_advance hvalid hn) ?_ ?_
      (WriteCall.carried_advance hvalid hn (h.started c hmem)) ?_
    · intro _ hnil
      have hlen := congrArg List.length hnil
      rw [WriteCall.sent_advance hvalid n hn, List.length_append, List.length_take_of_le hn,
        List.length_nil] at hlen
      omega
    · exact h.written c hmem (by rw [hp]; exact nofun)
    · show (w.chunks ++ [_]).flatMap _ = w.chunks.flatMap _ ++ _
      rw [List.flatMap_append, List.flatMap_singleton]
  · exact h
  · obtain ⟨calls, hcalls, rfl⟩ := h.eq_concat hc (by rw [hp]; exact nofun)
    have hmem := List.mem_of_getElem? hc
    have hset : w.calls.set calls.length { c with result := .err } =
        calls ++ [{ c with result := .err }] := by
      rw [hcalls]
      simp
    rw [hset]
    exact h.advance hcalls (WriteCall.valid_failed (h.valid c hmem) hp)
      (h.started c hmem) (h.written c hmem (by rw [hp]; exact nofun)) (List.append_nil _).symm
      (List.append_nil _).symm

/-- **A run in which one call goes after the other.** -/
theorem Turns.run {events : List WireEvent} (h : w.Turns) (hrun : w.run events = some w')
    (hturn : w.inTurn events = true) : w'.Turns := by
  induction events generalizing w with
  | nil =>
    rw [← Option.some.inj hrun]
    exact h
  | cons e events ih =>
    obtain ⟨w₁, hstep, hrun⟩ := Option.bind_eq_some_iff.mp hrun
    rw [inTurn, hstep, Bool.and_eq_true] at hturn
    refine ih (h.step hstep fun hcall c hc => ?_) hrun hturn.2
    have hall := hturn.1
    rw [hcall, Bool.not_true, Bool.false_or, List.all_eq_true] at hall
    exact of_decide_eq_true (hall c hc)

/-- **Once the calls are over, the stream is their frames**, each with its
descriptors. -/
theorem Turns.stream_of_ok (h : w.Turns) (hok : ∀ c ∈ w.calls, c.result = .ok) :
    w.stream = w.calls.flatMap fun c => attach c.frame c.outFds := by
  rw [h.stream]
  refine List.flatMap_congr fun c hc => ?_
  have hvalid := h.valid c hc
  rw [WriteCall.carried, hvalid.sent_of_nil (hvalid.ok (hok c hc)).1]
  exact List.take_of_length_le (length_attach _ _).le

end Wire

/-! ## Whole streams -/

namespace Transport

/-- **Frames at the head of the stream are read one after the other.** -/
theorem readMessages_of_frames {calls : List WriteCall} {t : Transport}
    {held s tail : List WireByte}
    {incoming : List Recv}
    (hframes : ∀ c ∈ calls, ∃ msg, Message.toBytes msg = .ok c.frame ∧ msg.fds = c.outFds)
    (haccepted : ∀ c ∈ calls, (Message.fromBytes c.frame c.outFds).isOk = true)
    (hmax : ∀ c ∈ calls, c.frame.length ≤ t.maxMessageSize.toNat)
    (hfds : ∀ c ∈ calls, c.outFds.length < 2 ^ 32)
    (hheld : t.Holds held) (harrives : Arrives s incoming)
    (hw : held ++ s = (calls.flatMap fun c => attach c.frame c.outFds) ++ tail) :
    ∃ (msgs : List Message) (t' : Transport) (held' s' : List WireByte) (rest : List Recv),
      t.readMessages incoming calls.length = .done (.ok msgs) t' rest ∧
      List.Forall₂ (fun c msg => Message.fromBytes c.frame c.outFds = .ok msg) calls msgs ∧
      t'.Holds held' ∧ Arrives s' rest ∧ held' ++ s' = tail ∧
      t'.maxMessageSize = t.maxMessageSize := by
  induction calls generalizing t held s incoming with
  | nil => exact ⟨[], t, held, s, incoming, rfl, .nil, hheld, harrives, hw, rfl⟩
  | cons c calls ih =>
    obtain ⟨m, hm, hmfds⟩ := hframes c List.mem_cons_self
    obtain ⟨m', hm'⟩ := Outcome.isOk_iff.mp (haccepted c List.mem_cons_self)
    rw [List.flatMap_cons, List.append_assoc, ← hmfds] at hw
    obtain ⟨t₁, held₁, s₁, rest₁, hread, hheld₁, harrives₁, hw₁, hmax₁⟩ :=
      readMessage_of_frame hm (hmfds ▸ hm') (hmax c List.mem_cons_self)
        (hmfds ▸ hfds c List.mem_cons_self) hheld harrives hw
    obtain ⟨msgs, t', held', s', rest, hreads, hmsgs, hheld', harrives', hw', hmax'⟩ :=
      ih (fun d hd => hframes d (List.mem_cons_of_mem c hd))
        (fun d hd => haccepted d (List.mem_cons_of_mem c hd))
        (fun d hd => hmax₁ ▸ hmax d (List.mem_cons_of_mem c hd))
        (fun d hd => hfds d (List.mem_cons_of_mem c hd)) hheld₁ harrives₁ hw₁
    refine ⟨m' :: msgs, t', held', s', rest, ?_, .cons hm' hmsgs, hheld', harrives', hw',
      hmax'.trans hmax₁⟩
    rw [List.length_cons, readMessages, hread, ReadResult.ok_bind, hreads, ReadResult.ok_bind]

/-- **What is written in turn is read in turn.** In whatever pieces the writer sends
and the kernel delivers, the calls of `read_message` return what is decoded
from each frame with its own descriptors, and nothing is left over. -/
theorem readMessages_of_inTurn {events : List WireEvent} {w : Wire} {max : UInt32}
    {incoming : List Recv} (hrun : Wire.start.run events = some w)
    (hturn : Wire.start.inTurn events = true)
    (hok : ∀ c ∈ w.calls, c.result = .ok) (hmax : ∀ c ∈ w.calls, c.frame.length ≤ max.toNat)
    (haccepted : ∀ c ∈ w.calls, (Message.fromBytes c.frame c.outFds).isOk = true)
    (harrives : Arrives w.stream incoming) :
    ∃ (msgs : List Message) (rest : List Recv),
      (new.setMaxMessageSize max).readMessages incoming w.calls.length
        = .done (.ok msgs) (new.setMaxMessageSize max) rest ∧
      List.Forall₂ (fun c msg => Message.fromBytes c.frame c.outFds = .ok msg) w.calls msgs ∧
      Arrives [] rest := by
  have hturns := Wire.turns_start.run hrun hturn
  have hframes : ∀ c ∈ w.calls, ∃ msg, Message.toBytes msg = .ok c.frame ∧ msg.fds = c.outFds :=
    fun c hc => hturns.written c hc (by rw [hok c hc]; exact nofun)
  have hstream := hturns.stream_of_ok hok
  -- the descriptors of a message arrive with one byte, so there are not too many
  have hfds : ∀ c ∈ w.calls, c.outFds.length < 2 ^ 32 := by
    intro c hc
    obtain ⟨msg, hmsg, -⟩ := hframes c hc
    obtain ⟨b, bs, hcons⟩ := List.exists_cons_of_ne_nil (Message.ne_nil_of_toBytes hmsg)
    have hmem : (⟨b, c.outFds⟩ : WireByte) ∈ w.stream := by
      rw [hstream]
      refine List.mem_flatMap.mpr ⟨c, hc, ?_⟩
      rw [hcons]
      exact List.mem_cons_self
    exact (harrives.length_fds_le hmem).trans_lt (by decide)
  have hnew : (new.setMaxMessageSize max).Holds [] := ⟨rfl, rfl⟩
  have hw : [] ++ w.stream = (w.calls.flatMap fun c => attach c.frame c.outFds) ++ [] := by
    rw [hstream, List.nil_append, List.append_nil]
  obtain ⟨msgs, t', held, s, rest, hread, hmsgs, hheld, hrest, hnil, hmax'⟩ :=
    readMessages_of_frames hframes haccepted hmax hfds hnew harrives hw
  obtain ⟨rfl, rfl⟩ := List.append_eq_nil_iff.mp hnil
  have ht' : t' = new.setMaxMessageSize max := by
    obtain ⟨buf, fds, size⟩ := t'
    obtain ⟨rfl, rfl⟩ := hheld
    obtain rfl : size = max := hmax'
    rfl
  exact ⟨msgs, rest, ht' ▸ hread, hmsgs, hrest⟩

/-- A reply that carries a descriptor. -/
def replyWithFd : Message := ((Message.Builder.methodReturn 2).fd 7).build 2

/-- A reply is sent in one piece, and one with a descriptor in two. -/
def twoReplies : List WireEvent :=
  [.call (Wire.reply 1), .accepted 0 24, .call replyWithFd, .accepted 1 1, .accepted 1 31]

/-- The kernel delivers them in two other pieces. -/
theorem readMessages_of_inTurn_twoReplies : ∃ (w : Wire) (incoming : List Recv)
    (msgs : List Message) (rest : List Recv), Wire.start.run twoReplies = some w ∧
      (new.setMaxMessageSize 64).readMessages incoming w.calls.length
        = .done (.ok msgs) (new.setMaxMessageSize 64) rest ∧
      List.Forall₂ (fun c msg => Message.fromBytes c.frame c.outFds = .ok msg) w.calls msgs ∧
      Arrives [] rest := by
  have hall : (Wire.start.run twoReplies).any (fun w =>
      (w.calls.all fun c => decide (c.result = .ok) && decide (c.frame.length ≤ 64) &&
        (Message.fromBytes c.frame c.outFds).isOk) &&
      (decide (w.stream.take 30 ≠ []) && decide (w.stream.drop 30 ≠ []) &&
        decide ((fdsOf (w.stream.take 30)).length ≤ maxFdsPerCall) &&
        decide ((fdsOf (w.stream.drop 30)).length ≤ maxFdsPerCall))) = true := by decide +kernel
  obtain ⟨w, hrun, hall⟩ := (Option.any_eq_true _ _).mp hall
  simp only [Bool.and_eq_true, List.all_eq_true, decide_eq_true_eq] at hall
  obtain ⟨hcalls, ⟨⟨hne₁, hne₂⟩, hfds₁⟩, hfds₂⟩ := hall
  have harrives : Arrives (w.stream.take 30 ++ (w.stream.drop 30 ++ [])) _ :=
    .chunk _ hne₁ hfds₁ (.wouldBlock (.chunk _ hne₂ hfds₂ .nil))
  rw [List.append_nil, List.take_append_drop] at harrives
  have hmax : ∀ c ∈ w.calls, c.frame.length ≤ (64 : UInt32).toNat :=
    fun c hc => (hcalls c hc).1.2
  obtain ⟨msgs, rest, hread, hmsgs, hrest⟩ := readMessages_of_inTurn hrun (by decide +kernel)
    (fun c hc => (hcalls c hc).1.1) hmax (fun c hc => (hcalls c hc).2) harrives
  exact ⟨w, _, msgs, rest, hrun, hread, hmsgs, hrest⟩

end Transport

end Oxibus
