import Oxibus.Lib.Pieces
import Oxibus.Core.Forwarding
import Oxibus.Transport.Reader

/-!
# Whose descriptors a message carries

The reader keeps two queues that know nothing of each other, bytes and
descriptors. A call of `read_message` cuts a frame off the one, as long as the
frame says, and takes from the other as many descriptors as the frame
declares. It never looks at which bytes they came with.

So the descriptors of a message are a piece of the descriptors of the stream,
as its frame is a piece of the bytes (`readMessage_uses`), and the message
carries its own exactly if the one piece lies within what is attached to the
other. `Receipt.InOrder` says when: the frame declares none, or all that came
with earlier bytes have been taken before and enough are left of those that
came with the frame. Anything else is up to the peer. A descriptor that a
frame brings and does not declare goes to the next message that declares one.
-/

namespace Oxibus

open WireByte

/-! ## What is yet to be used -/

/-- **What a call of `recvmsg` adds to what the reader holds**: bytes and
descriptors. -/
def Recv.accepted : Recv → List UInt8 × List Int32
  | .received bytes fds =>
    if maxFdsPerCall < fds.length ∨ bytes = [] then ([], []) else (bytes, fds)
  | _ => ([], [])

namespace Transport

/-- The bytes the reader has not cut off, those that are yet to be received
included. -/
def unreadBytes (t : Transport) (incoming : List Recv) : List UInt8 :=
  t.readBuf ++ incoming.flatMap fun r => r.accepted.1

/-- The descriptors the reader has not given away. -/
def unreadFds (t : Transport) (incoming : List Recv) : List Int32 :=
  t.pendingFds ++ incoming.flatMap fun r => r.accepted.2

section

variable {t t' : Transport} {incoming rest : List Recv} {β : Type}

/-- **Receiving changes nothing of what is yet to be used.** -/
theorem fillMore_unread {x : Outcome ReadError Unit} (h : t.fillMore incoming = .done x t' rest) :
    t'.unreadBytes rest = t.unreadBytes incoming ∧ t'.unreadFds rest = t.unreadFds incoming := by
  induction incoming with
  | nil => cases h
  | cons r incoming ih =>
    cases r with
    | wouldBlock => exact ih h
    | failed =>
      cases h
      exact ⟨rfl, rfl⟩
    | received bytes fds =>
      have haccepted : ∀ {a : List UInt8 × List Int32}, (Recv.received bytes fds).accepted = a →
          t.unreadBytes (.received bytes fds :: incoming)
            = t.readBuf ++ (a.1 ++ incoming.flatMap fun r => r.accepted.1) ∧
          t.unreadFds (.received bytes fds :: incoming)
            = t.pendingFds ++ (a.2 ++ incoming.flatMap fun r => r.accepted.2) := by
        rintro a rfl
        exact ⟨rfl, rfl⟩
      rw [fillMore] at h
      split at h
      · next hfds =>
        cases h
        obtain ⟨hbytes, hfds⟩ := haccepted (if_pos (.inl hfds))
        exact ⟨hbytes.symm, hfds.symm⟩
      · next hfds =>
        split at h
        · next hnil =>
          cases h
          obtain ⟨hbytes, hfds⟩ := haccepted (if_pos (.inr hnil))
          exact ⟨hbytes.symm, hfds.symm⟩
        · next hnil =>
          cases h
          obtain ⟨hbytes, hfds⟩ := haccepted (if_neg (not_or.mpr ⟨hfds, hnil⟩))
          rw [hbytes, hfds]
          exact ⟨List.append_assoc .., List.append_assoc ..⟩

theorem fillUntil_unread {stop : Transport → Option (Outcome ReadError β)}
    {x : Outcome ReadError β} (h : fillUntil stop t incoming = .done x t' rest) :
    t'.unreadBytes rest = t.unreadBytes incoming ∧ t'.unreadFds rest = t.unreadFds incoming := by
  induction hk : incoming.length using Nat.strong_induction_on generalizing t incoming with
  | _ k ih =>
    rw [fillUntil] at h
    split at h
    · cases h
      exact ⟨rfl, rfl⟩
    · split at h
      · next t₁ rest₁ hfill =>
        obtain ⟨hbytes, hfds⟩ := ih rest₁.length (hk ▸ length_of_fillMore hfill) h rfl
        obtain ⟨hbytes₁, hfds₁⟩ := fillMore_unread hfill
        exact ⟨hbytes.trans hbytes₁, hfds.trans hfds₁⟩
      · next hfill =>
        cases h
        exact fillMore_unread hfill
      · next hfill =>
        cases h
        exact fillMore_unread hfill
      · next hfill =>
        cases h
        exact fillMore_unread hfill
      · cases h

/-- **What a call has used**: a frame, and the descriptors that go with it if it returns
a message. -/
structure Uses (t : Transport) (incoming : List Recv) (x : Outcome ReadError Message)
    (t' : Transport) (rest : List Recv) (frame : List UInt8) (fds : List Int32) : Prop where
  bytes_eq : t.unreadBytes incoming = frame ++ t'.unreadBytes rest
  fds_eq : t.unreadFds incoming = fds ++ t'.unreadFds rest
  decodes : ∀ m, x = .ok m → Message.fromBytes frame fds = .ok m ∧
    fds.length = m.header.unixFds.toNat

/-- **A frame that is cut off takes what it declares from the descriptors**, whatever
bytes they came with. -/
theorem takeFrame_uses {len : ℕ} {x : Outcome ReadError Message}
    (h : t.takeFrame len incoming = .done x t' rest) :
    ∃ frame fds, Uses t incoming x t' rest frame fds := by
  have hbytes : ∀ pending : List Int32, t.unreadBytes incoming = t.readBuf.take len ++
      unreadBytes { t with readBuf := t.readBuf.drop len, pendingFds := pending } incoming := by
    intro pending
    show t.readBuf ++ _ = _ ++ (t.readBuf.drop len ++ _)
    rw [← List.append_assoc, List.take_append_drop]
  unfold takeFrame at h
  simp only at h
  split at h
  · next header off hread =>
    cases h
    generalize htaken : (if 0 < header.unixFds.toNat then
      min header.unixFds.toNat t.pendingFds.length else 0) = taken
    refine ⟨t.readBuf.take len, t.pendingFds.take taken, hbytes _, ?_, fun m hm => ?_⟩
    · show t.pendingFds ++ _ = _ ++ (t.pendingFds.drop taken ++ _)
      rw [← List.append_assoc, List.take_append_drop]
    · have hfrom : Message.fromBytes (t.readBuf.take len) (t.pendingFds.take taken) = .ok m := by
        cases hdec : Message.fromBytes (t.readBuf.take len) (t.pendingFds.take taken) with
        | ok m' =>
          rw [hdec] at hm
          cases hm
          rfl
        | _ =>
          rw [hdec] at hm
          cases hm
      obtain ⟨-, hdeclared, off', -, hread', -, -⟩ := Message.fromBytes_eq_ok_steps.mp hfrom
      obtain ⟨rfl, rfl⟩ := Prod.mk.inj (Outcome.ok.inj (hread.symm.trans hread'))
      refine ⟨hfrom, ?_⟩
      -- no more are taken, and with fewer the frame is refused
      rw [List.length_take] at hdeclared ⊢
      split at htaken
      · omega
      · omega
  all_goals
    cases h
    exact ⟨t.readBuf.take len, [], hbytes t.pendingFds, rfl, fun m hm => nomatch hm⟩

/-- **What a call of `read_message` uses** is the beginning of both queues. -/
theorem readMessage_uses {x : Outcome ReadError Message}
    (h : t.readMessage incoming = .done x t' rest) :
    ∃ frame fds, Uses t incoming x t' rest frame fds := by
  have hnothing : ∀ {t₁ : Transport} {rest₁ : List Recv} {x : Outcome ReadError Message},
      t₁.unreadBytes rest₁ = t.unreadBytes incoming → t₁.unreadFds rest₁ = t.unreadFds incoming →
      (∀ m, x ≠ .ok m) → ∃ frame fds, Uses t incoming x t₁ rest₁ frame fds :=
    fun hbytes hfds hx => ⟨[], [], hbytes.symm, hfds.symm, fun m hm => absurd hm (hx m)⟩
  unfold readMessage at h
  cases hlen : fillUntil frameLen t incoming with
  | pending t₁ =>
    rw [hlen] at h
    cases h
  | done y t₁ rest₁ =>
    obtain ⟨hbytes₁, hfds₁⟩ := fillUntil_unread hlen
    rw [hlen] at h
    cases y with
    | ok len =>
      rw [ReadResult.ok_bind] at h
      split at h
      · cases h
        exact hnothing hbytes₁ hfds₁ (fun m hm => nomatch hm)
      · cases hhas : fillUntil (hasBytes len) t₁ rest₁ with
        | pending t₂ =>
          rw [hhas] at h
          cases h
        | done z t₂ rest₂ =>
          obtain ⟨hbytes₂, hfds₂⟩ := fillUntil_unread hhas
          rw [hhas] at h
          cases z with
          | ok _ =>
            obtain ⟨frame, fds, huses⟩ := takeFrame_uses h
            exact ⟨frame, fds, (hbytes₂.trans hbytes₁).symm.trans huses.bytes_eq,
              (hfds₂.trans hfds₁).symm.trans huses.fds_eq, huses.decodes⟩
          | _ =>
            cases h
            exact hnothing (hbytes₂.trans hbytes₁) (hfds₂.trans hfds₁) (fun m hm => nomatch hm)
    | _ =>
      cases h
      exact hnothing hbytes₁ hfds₁ (fun m hm => nomatch hm)

end

/-! ## Calls over a stream -/

/-- **The reader is somewhere in a stream**: what it has yet to use is the end of it, of
the bytes and of the descriptors. -/
structure Within (t : Transport) (incoming : List Recv) (s : List WireByte) : Prop where
  bytes_suffix : t.unreadBytes incoming <:+ bytes s
  fds_suffix : t.unreadFds incoming <:+ fdsOf s

/-- **A call that has ended**, and what it has used of the stream. -/
structure Receipt where
  /-- The bytes that were cut off before, with the descriptors attached to them. -/
  before : List WireByte
  /-- How many descriptors were given away before. -/
  taken : ℕ
  /-- The bytes that the call has cut off. -/
  frame : List WireByte
  /-- What it has returned. -/
  result : Outcome ReadError Message

/-- **Calls of `read_message` one after the other**, whatever they return, over the
stream `s`. -/
def receipts (s : List WireByte) (t : Transport) (incoming : List Recv) : ℕ → List Receipt
  | 0 => []
  | n + 1 =>
    match t.readMessage incoming with
    | .done result t' rest =>
      let start := s.length - (t.unreadBytes incoming).length
      let stop := s.length - (t'.unreadBytes rest).length
      ⟨s.take start, (fdsOf s).length - (t.unreadFds incoming).length,
        piece s start (stop - start), result⟩ :: receipts s t' rest n
    | .pending _ => []

/-- **The frame takes what came with it**: it declares no descriptor, or those that came
with earlier bytes have all been taken before, and of those attached to its own bytes as
many are left as it declares. -/
def Receipt.InOrder (r : Receipt) : Prop :=
  ∀ header off, MessageHeader.read (bytes r.frame) = .ok (header, off) →
    header.unixFds.toNat = 0 ∨ ((fdsOf r.before).length ≤ r.taken ∧
      r.taken + header.unixFds.toNat ≤ (fdsOf r.before).length + (fdsOf r.frame).length)

section

variable {t t' : Transport} {incoming rest : List Recv} {s : List WireByte}

/-- A reader that has received nothing is at the beginning of the stream that arrives. -/
theorem within_new {max : UInt32} (h : Arrives s incoming) :
    (new.setMaxMessageSize max).Within incoming s := by
  have hwhole : (incoming.flatMap fun r => r.accepted.1) = bytes s ∧
      (incoming.flatMap fun r => r.accepted.2) = fdsOf s := by
    induction h with
    | nil => exact ⟨rfl, rfl⟩
    | wouldBlock h ih => exact ih
    | @chunk s rest c hne hfds h ih =>
      have haccepted : (Recv.received (bytes c) (fdsOf c)).accepted = (bytes c, fdsOf c) := by
        exact if_neg (not_or.mpr ⟨not_lt.mpr hfds, fun hnil => hne (List.map_eq_nil_iff.mp hnil)⟩)
      rw [List.flatMap_cons, List.flatMap_cons, haccepted, ih.1, ih.2, bytes_append, fdsOf_append]
      exact ⟨rfl, rfl⟩
  exact ⟨⟨[], hwhole.1⟩, ⟨[], hwhole.2⟩⟩

/-- **Every call leaves the reader somewhere in the stream.** -/
theorem Within.step {x : Outcome ReadError Message} (h : t.Within incoming s)
    (hread : t.readMessage incoming = .done x t' rest) : t'.Within rest s := by
  obtain ⟨frame, fds, huses⟩ := readMessage_uses hread
  have hbytes : t'.unreadBytes rest <:+ t.unreadBytes incoming := ⟨frame, huses.bytes_eq.symm⟩
  have hfds : t'.unreadFds rest <:+ t.unreadFds incoming := ⟨fds, huses.fds_eq.symm⟩
  exact ⟨hbytes.trans h.bytes_suffix, hfds.trans h.fds_suffix⟩

/-- What is used of a list is the piece of it between what was left before and after. -/
theorem piece_of_suffix {α : Type} {l used left left' : List α} (h : left <:+ l)
    (hused : left = used ++ left') :
    piece l (l.length - left.length) used.length = used ∧
      l.length - left.length + used.length = l.length - left'.length := by
  obtain ⟨as, rfl⟩ := h
  subst hused
  have hlen : (as ++ (used ++ left')).length - (used ++ left').length = as.length := by
    rw [List.length_append, Nat.add_sub_cancel]
  refine ⟨by rw [hlen, Piece.piece_append], ?_⟩
  rw [hlen, List.length_append, List.length_append]
  omega

theorem bytes_piece (s : List WireByte) (k d : ℕ) : bytes (piece s k d) = piece (bytes s) k d := by
  rw [piece, piece, bytes, bytes, List.map_take, List.map_drop]

/-- The descriptors of a piece of the stream are a piece of its descriptors. -/
theorem fdsOf_piece (s : List WireByte) (k d : ℕ) :
    fdsOf (piece s k d) =
      piece (fdsOf s) (fdsOf (s.take k)).length (fdsOf (piece s k d)).length := by
  have hsplit : s = s.take k ++ (piece s k d ++ (s.drop k).drop d) := by
    rw [piece, List.take_append_drop, List.take_append_drop]
  have hfds : fdsOf s
      = fdsOf (s.take k) ++ (fdsOf (piece s k d) ++ fdsOf ((s.drop k).drop d)) := by
    rw [← fdsOf_append, ← fdsOf_append, ← hsplit]
  rw [hfds, Piece.piece_append]

/-- **What the receipt of a call says**, if it returns a message. -/
theorem Within.receipt {m : Message} (h : t.Within incoming s)
    (hread : t.readMessage incoming = .done (.ok m) t' rest) {start stop taken : ℕ}
    (hstart : start = s.length - (t.unreadBytes incoming).length)
    (hstop : stop = s.length - (t'.unreadBytes rest).length)
    (htaken : taken = (fdsOf s).length - (t.unreadFds incoming).length) :
    Message.fromBytes (bytes (piece s start (stop - start))) m.fds = .ok m ∧
      m.fds.length = m.header.unixFds.toNat ∧ m.fds = piece (fdsOf s) taken m.fds.length ∧
      taken + m.fds.length ≤ (fdsOf s).length := by
  obtain ⟨frame, fds, huses⟩ := readMessage_uses hread
  obtain ⟨hfrom, hlen⟩ := huses.decodes m rfl
  obtain rfl : m.fds = fds := (Message.fromBytes_eq_ok_steps.mp hfrom).1
  obtain ⟨hframe, hcut⟩ := piece_of_suffix h.bytes_suffix huses.bytes_eq
  obtain ⟨hfds, hgiven⟩ := piece_of_suffix h.fds_suffix huses.fds_eq
  rw [length_bytes, ← hstart] at hframe hcut
  rw [← hstop] at hcut
  have hbytes : bytes (piece s start (stop - start)) = frame := by
    rw [bytes_piece, ← hcut, Nat.add_sub_cancel_left, hframe]
  rw [htaken]
  refine ⟨hbytes ▸ hfrom, hlen, hfds.symm, ?_⟩
  rw [hgiven]
  exact Nat.sub_le _ _

/-- **A message carries what was attached to its own frame exactly if its frame is in
order**, for each of any number of calls on any stream. If it is in order the descriptors
are its own whatever they are; for the other direction they must be told apart. -/
theorem ownFds_of_inOrder (h : t.Within incoming s) (n : ℕ) :
    ∀ r ∈ receipts s t incoming n, ∀ m, r.result = .ok m →
      Message.fromBytes (bytes r.frame) m.fds = .ok m ∧
      (r.InOrder → ∀ fd ∈ m.fds, fd ∈ fdsOf r.frame) ∧
      ((fdsOf s).Nodup → (∀ fd ∈ m.fds, fd ∈ fdsOf r.frame) → r.InOrder) := by
  induction n generalizing t incoming with
  | zero => exact fun r hr => absurd hr List.not_mem_nil
  | succ n ih =>
    intro r hr m hm
    rw [receipts] at hr
    split at hr
    · next result t' rest hread =>
      rcases List.mem_cons.mp hr with rfl | hr
      · obtain rfl : result = .ok m := hm
        obtain ⟨hfrom, hlen, hfds, hle⟩ := h.receipt hread rfl rfl rfl
        obtain ⟨-, -, off, -, hheader, -, -⟩ := Message.fromBytes_eq_ok_steps.mp hfrom
        refine ⟨hfrom, fun horder fd hfd => ?_, fun hnodup hown header' off' hheader' => ?_⟩
        · have hwithin := horder m.header off hheader
          rw [← hlen] at hwithin
          rw [hfds] at hfd
          rcases hwithin with hzero | ⟨hfirst, hlast⟩
          · rw [hzero, piece, List.take_zero] at hfd
            cases hfd
          · show fd ∈ fdsOf (piece s _ _)
            rw [fdsOf_piece]
            exact Piece.mem_piece_of_within hfirst hlast hfd
        · obtain ⟨rfl, -⟩ := Prod.mk.inj (Outcome.ok.inj (hheader.symm.trans hheader'))
          rw [← hlen]
          refine (Piece.forall_mem_piece_iff hnodup hle).mp fun fd hfd => ?_
          rw [← hfds] at hfd
          have hmem : fd ∈ fdsOf (piece s _ _) := hown fd hfd
          rw [fdsOf_piece] at hmem
          exact hmem
      · exact ih (h.step hread) r hr m hm
    · exact absurd hr List.not_mem_nil

end

/-- A reply that declares a descriptor. -/
def borrowingReply : List UInt8 :=
  [108, 2, 0, 1, 0, 0, 0, 0, 2, 0, 0, 0, 16, 0, 0, 0, 5, 1, 117, 0, 2, 0, 0, 0, 9, 1, 117, 0,
    1, 0, 0, 0]

/-- It comes without one, behind a call that brings one and does not declare it. -/
def lent : List WireByte := attach Message.bareCall [7] ++ attach borrowingReply []

/-- Each in a chunk of its own. -/
def lentChunks : List Recv := [.received Message.bareCall [7], .received borrowingReply []]

theorem arrives_lent : Arrives lent lentChunks := by
  have hreply : Arrives (attach borrowingReply []) [.received borrowingReply []] := by
    have h := Arrives.chunk (attach borrowingReply []) (by decide) (by decide) .nil
    rwa [List.append_nil, bytes_attach] at h
  exact .chunk (attach Message.bareCall [7]) (by decide) (by decide) hreply

/-- The first of the two is in order. -/
theorem ownFds_of_inOrder_lent :
    ∃ r ∈ receipts lent (new.setMaxMessageSize 64) lentChunks 1, ∃ m, r.result = .ok m ∧
      Message.fromBytes (bytes r.frame) m.fds = .ok m ∧
      (r.InOrder → ∀ fd ∈ m.fds, fd ∈ fdsOf r.frame) ∧
      ((fdsOf lent).Nodup → (∀ fd ∈ m.fds, fd ∈ fdsOf r.frame) → r.InOrder) := by
  have hreturns : ((receipts lent (new.setMaxMessageSize 64) lentChunks 1).any fun r =>
      r.result.isOk) = true := by decide +kernel
  obtain ⟨r, hr, hok⟩ := List.any_eq_true.mp hreturns
  obtain ⟨m, hm⟩ := Outcome.isOk_iff.mp hok
  exact ⟨r, hr, m, hm, ownFds_of_inOrder (within_new arrives_lent) 1 r hr m hm⟩

/-- Whether a message carries a descriptor that did not come with its bytes. -/
def Receipt.strays (r : Receipt) : Bool :=
  match r.result with
  | .ok m => m.fds.any fun fd => decide (fd ∉ fdsOf r.frame)
  | _ => false

theorem Receipt.exists_of_strays {r : Receipt} (h : r.strays = true) :
    ∃ m, r.result = .ok m ∧ ∃ fd ∈ m.fds, fd ∉ fdsOf r.frame := by
  unfold strays at h
  split at h
  · next m hm =>
    obtain ⟨fd, hfd, hnot⟩ := List.any_eq_true.mp h
    exact ⟨m, hm, fd, hfd, of_decide_eq_true hnot⟩
  · cases h

/-- **The second carries what came with the first.** -/
theorem lent_not_ownFds : ¬ ∀ (s : List WireByte) (max : UInt32) (incoming : List Recv) (n : ℕ),
    Arrives s incoming → ∀ r ∈ receipts s (new.setMaxMessageSize max) incoming n,
      ∀ m, r.result = .ok m → ∀ fd ∈ m.fds, fd ∈ fdsOf r.frame := by
  intro h
  have hstray :
      (receipts lent (new.setMaxMessageSize 64) lentChunks 2).any Receipt.strays = true := by
    decide +kernel
  obtain ⟨r, hr, hstrays⟩ := List.any_eq_true.mp hstray
  obtain ⟨m, hm, fd, hfd, hnot⟩ := Receipt.exists_of_strays hstrays
  exact hnot (h lent 64 lentChunks 2 arrives_lent r hr m hm fd hfd)

end Transport

end Oxibus
