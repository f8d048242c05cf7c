import Oxibus.Auth.Server
import Oxibus.Transport.Attribution
import Oxibus.Transport.Lines
import Oxibus.Transport.Stream

/-!
# The opening of a connection

A connection begins with a NUL byte, then come lines, and when the client has
said BEGIN the bytes that follow are messages. All of it is one stream, that
arrives in whatever chunks: the end of a chunk may fall into a line, and a
chunk that ends the lines may bring the first messages as well.

The conversation itself knows nothing of chunks. `Conversation.talk` says what
becomes of it if whole lines are spoken, one after the other, and is the
specification of what the daemon does with the bytes. Both directions hold:

* a handshake that comes to an end well has used a NUL byte and lines, and
  nothing else of the stream (`serve_uses`), whatever arrives and however the
  calls of `recvmsg` come out;
* a stream that begins with lines which lead to the end of the conversation is
  taken as far as they go, in any chunks (`serve_of_arrives`), and what the
  client says next is read as messages, with the descriptors that belong to
  them (`messages_of_opening`).
-/

namespace Oxibus

open WireByte

/-! ## What the daemon does with the lines -/

/-- **How a call of `write_line` comes out.** -/
inductive Written where
  | ok
  | failed (text : String)
  /-- The peer does not read, and the call does not return. -/
  | pending
  deriving DecidableEq, Repr

/-- **What goes on around a handshake**: what the machine gives while a line is handled,
what others have done to the disk by then, and how each call of `write_line` comes
out. -/
structure Surroundings where
  machine : ℕ → Machine
  others : ℕ → Disk → Disk
  written : ℕ → Written

/-- The errors of a handshake. -/
inductive HandshakeError where
  /-- `no leading NUL byte: {e}` -/
  | noLeadingNul (e : ReadError)
  /-- `no leading NUL byte: expected leading NUL byte` -/
  | otherByte (text : String)
  /-- `SASL read error: {e}` -/
  | read (e : ReadError)
  /-- `SASL write error: {e}` -/
  | write (text : String)
  /-- The reason that the server's side gives. -/
  | disconnected (reason : String)
  deriving DecidableEq, Repr

/-- **How far a conversation is**, with the lines that were handled and those that were
written. -/
structure Conversation where
  auth : ServerAuth
  disk : Disk
  fed : List ServerInput
  sent : List String

/-- **How a handshake ends**, or where it waits. -/
inductive HandshakeResult where
  | done (x : Outcome HandshakeError Unit) (c : Conversation) (t : Transport) (rest : List Recv)
  | pending (c : Conversation) (t : Transport)

namespace Conversation

/-- At the start. -/
def new (auth : ServerAuth) (disk : Disk) : Conversation := ⟨auth, disk, [], []⟩

/-- A line that is handled next, with what it meets. -/
def input (around : Surroundings) (c : Conversation) (line : String) : ServerInput :=
  ⟨around.machine c.fed.length, around.others c.fed.length c.disk, line⟩

/-- **A line is handled.** -/
def feed (sha1 : Digest) (around : Surroundings) (c : Conversation) (line : String) :
    ServerAction × Conversation :=
  let input := c.input around line
  let served := c.auth.feedLine sha1 input.machine input.disk input.line
  (served.action, ⟨served.auth, served.disk, c.fed ++ [input], c.sent⟩)

/-- **Lines are written**, one after the other, as long as that goes well. -/
def writeLines (around : Surroundings) (c : Conversation) : List String → Written × Conversation
  | [] => (.ok, c)
  | line :: lines =>
    match around.written c.sent.length with
    | .ok => writeLines around { c with sent := c.sent ++ [line] } lines
    | .failed text => (.failed text, c)
    | .pending => (.pending, c)

/-- **What becomes of a conversation if these lines are spoken**: it goes on after each line
that is answered, and ends well with the last. -/
def talk (sha1 : Digest) (around : Surroundings) (c : Conversation) :
    List String → Option Conversation
  | [] => none
  | line :: lines =>
    match c.feed sha1 around line with
    | (.send answers, c) =>
      match c.writeLines around answers with
      | (.ok, c) => c.talk sha1 around lines
      | _ => none
    | (.begin _, c) => if lines = [] then some c else none
    | (.disconnect _, _) => none

end Conversation

namespace Transport

/-- The loop of `read_initial_nul` ends when there is a byte. -/
def anyByte (t : Transport) : Option (Outcome ReadError Unit) :=
  if t.readBuf = [] then none else some (.ok ())

/-- **A call of `read_initial_nul`.** -/
def readInitialNul (t : Transport) (incoming : List Recv) : ReadResult (Except String Unit) :=
  (fillUntil anyByte t incoming).bind fun _ t incoming =>
    if t.readBuf.head? ≠ some 0 then
      .done (.ok (.error "expected leading NUL byte")) t incoming
    else .done (.ok (.ok ())) { t with readBuf := t.readBuf.drop 1 } incoming

section Using

variable {t t' : Transport} {incoming rest : List Recv} {β : Type}

/-- A loop that ends well ends where it was to end. -/
theorem stop_of_fillUntil {stop : Transport → Option (Outcome ReadError β)} {b : β}
    (h : fillUntil stop t incoming = .done (.ok b) t' rest) : stop t' = some (.ok b) := by
  induction hk : incoming.length using Nat.strong_induction_on generalizing t incoming with
  | _ k ih =>
    rw [fillUntil] at h
    split at h
    · next hstop =>
      cases h
      exact hstop
    · split at h
      · next hfill => exact ih _ (hk ▸ length_of_fillMore hfill) h rfl
      all_goals cases h

/-- **What a call of `read_line` uses** is a line and its end. -/
theorem readLine_uses {line : String} (h : t.readLine incoming = .done (.ok line) t' rest) :
    t.unreadBytes incoming = asBytes line ++ [13, 10] ++ t'.unreadBytes rest ∧
      t.unreadFds incoming = t'.unreadFds rest := by
  unfold readLine at h
  cases hfill : fillUntil lineEnd t incoming with
  | pending t₁ =>
    rw [hfill] at h
    cases h
  | done x t₁ rest₁ =>
    obtain ⟨hbytes, hfds⟩ := fillUntil_unread hfill
    rw [hfill] at h
    cases x with
    | ok pos =>
      have hend := stop_of_fillUntil hfill
      have hfound : findCrlf t₁.readBuf = some pos := by
        unfold lineEnd at hend
        split at hend
        · next pos' hpos =>
          cases hend
          exact hpos
        · split at hend
          all_goals cases hend
      rw [ReadResult.ok_bind] at h
      obtain ⟨htext, rfl, rfl⟩ := ReadResult.done.inj h
      have hline : asBytes line = t₁.readBuf.take pos := by
        unfold lineText at htext
        split at htext
        · next s hs =>
          cases htext
          exact asBytes_of_fromUtf8 hs
        · cases htext
      refine ⟨?_, hfds.symm⟩
      rw [← hbytes, hline]
      show t₁.readBuf ++ _ = _ ++ (t₁.readBuf.drop (pos + 2) ++ _)
      conv_lhs => rw [Crlf.eq_take_append hfound]
      simp only [List.append_assoc]
    | _ => cases h

/-- A line is not nothing: after it there is less to be read. -/
theorem length_of_readLine {line : String} (h : t.readLine incoming = .done (.ok line) t' rest) :
    (t'.unreadBytes rest).length < (t.unreadBytes incoming).length := by
  obtain ⟨hbytes, -⟩ := readLine_uses h
  rw [hbytes]
  simp only [List.length_append, List.length_cons]
  omega

/-- **What a call of `read_initial_nul` uses** is a NUL byte. -/
theorem readInitialNul_uses
    (h : t.readInitialNul incoming = .done (.ok (.ok ())) t' rest) :
    t.unreadBytes incoming = 0 :: t'.unreadBytes rest ∧
      t.unreadFds incoming = t'.unreadFds rest := by
  unfold readInitialNul at h
  cases hfill : fillUntil anyByte t incoming with
  | pending t₁ =>
    rw [hfill] at h
    cases h
  | done x t₁ rest₁ =>
    obtain ⟨hbytes, hfds⟩ := fillUntil_unread hfill
    rw [hfill] at h
    cases x with
    | ok u =>
      rw [ReadResult.ok_bind] at h
      split at h
      · cases h
      · next hnul =>
        cases h
        obtain ⟨bs, hbs⟩ : ∃ bs, t₁.readBuf = 0 :: bs := by
          cases hbuf : t₁.readBuf with
          | nil =>
            rw [hbuf] at hnul
            exact absurd nofun hnul
          | cons b bs =>
            rw [hbuf, List.head?_cons, ne_eq, not_not] at hnul
            exact ⟨bs, Option.some.inj hnul ▸ rfl⟩
        refine ⟨?_, hfds.symm⟩
        rw [← hbytes]
        show t₁.readBuf ++ _ = 0 :: (t₁.readBuf.drop 1 ++ _)
        rw [hbs]
        rfl
    | _ => cases h

end Using

end Transport

namespace Conversation

open Transport

variable (sha1 : Digest) (around : Surroundings)

/-- **The loop of `run_sasl_handshake`**: a line is read and handled, and the answers are
written. -/
def serve (c : Conversation) (t : Transport) (incoming : List Recv) : HandshakeResult :=
  match _h : t.readLine incoming with
  | .pending t => .pending c t
  | .done (.err e) t rest => .done (.err (.read e)) c t rest
  | .done .panic t rest => .done .panic c t rest
  | .done .diverge t rest => .done .diverge c t rest
  | .done (.ok line) t rest =>
    match c.feed sha1 around line with
    | (.send answers, c) =>
      match c.writeLines around answers with
      | (.ok, c) => serve c t rest
      | (.failed text, c) => .done (.err (.write text)) c t rest
      | (.pending, c) => .pending c t
    | (.begin _, c) => .done (.ok ()) c t rest
    | (.disconnect reason, c) => .done (.err (.disconnected reason)) c t rest
termination_by (t.unreadBytes incoming).length
decreasing_by exact length_of_readLine _h

/-- **`run_sasl_handshake`**, of a connection from a peer. -/
def runSaslHandshake (c : Conversation) (t : Transport) (incoming : List Recv) :
    HandshakeResult :=
  match t.readInitialNul incoming with
  | .pending t => .pending c t
  | .done (.err e) t rest => .done (.err (.noLeadingNul e)) c t rest
  | .done .panic t rest => .done .panic c t rest
  | .done .diverge t rest => .done .diverge c t rest
  | .done (.ok (.error text)) t rest => .done (.err (.otherByte text)) c t rest
  | .done (.ok (.ok _)) t rest => c.serve sha1 around t rest

/-! ## Nothing but lines is used -/

/-- The bytes of some lines. -/
def linesBytes (lines : List String) : List UInt8 :=
  lines.flatMap fun line => asBytes line ++ [13, 10]

theorem linesBytes_cons (line : String) (lines : List String) :
    linesBytes (line :: lines) = asBytes line ++ [13, 10] ++ linesBytes lines := List.flatMap_cons

variable {sha1 around} {c c' : Conversation} {t t' : Transport} {incoming rest : List Recv}

/-- **A loop that ends well has heard lines**, and used nothing else. -/
theorem serve_uses (h : c.serve sha1 around t incoming = .done (.ok ()) c' t' rest) :
    ∃ lines, c.talk sha1 around lines = some c' ∧
      t.unreadBytes incoming = linesBytes lines ++ t'.unreadBytes rest ∧
      t.unreadFds incoming = t'.unreadFds rest := by
  fun_induction serve sha1 around c t incoming with
  | case5 c t incoming line t₁ rest₁ hread answers c₁ hfeed c₂ hwritten ih =>
    obtain ⟨lines, htalk, hbytes, hfds⟩ := ih h
    obtain ⟨hused, hsame⟩ := readLine_uses hread
    refine ⟨line :: lines, ?_, ?_, hsame.trans hfds⟩
    · rw [talk, hfeed]
      show (match c₁.writeLines around answers with
        | (.ok, c) => c.talk sha1 around lines
        | _ => none) = some c'
      rw [hwritten]
      exact htalk
    · rw [hused, hbytes, linesBytes_cons, List.append_assoc _ (linesBytes lines)]
  | case8 c t incoming line t₁ rest₁ hread uid c₁ hfeed =>
    cases h
    obtain ⟨hused, hsame⟩ := readLine_uses hread
    refine ⟨[line], ?_, ?_, hsame⟩
    · rw [talk, hfeed]
      rfl
    · rw [hused, linesBytes, List.flatMap_singleton]
  | _ => cases h

/-- What the server's side makes of a line in a conversation. -/
def served (sha1 : Digest) (around : Surroundings) (c : Conversation) (line : String) : Served :=
  c.auth.feedLine sha1 (c.input around line).machine (c.input around line).disk line

theorem feed_eq {line : String} {action : ServerAction}
    (h : c.feed sha1 around line = (action, c')) :
    (c.served sha1 around line).action = action ∧ c'.auth = (c.served sha1 around line).auth ∧
      c'.fed = c.fed ++ [c.input around line] ∧ c'.sent = c.sent := by
  obtain ⟨haction, rfl⟩ := Prod.mk.inj h
  exact ⟨haction, rfl, rfl, rfl⟩

/-- Lines that are all written have been sent. -/
theorem writeLines_ok {lines : List String} (h : c.writeLines around lines = (.ok, c')) :
    c'.auth = c.auth ∧ c'.fed = c.fed ∧ c'.sent = c.sent ++ lines := by
  induction lines generalizing c with
  | nil =>
    obtain rfl := (Prod.mk.inj h).2
    exact ⟨rfl, rfl, (List.append_nil _).symm⟩
  | cons line lines ih =>
    rw [writeLines] at h
    cases hw : around.written c.sent.length with
    | ok =>
      rw [hw] at h
      obtain ⟨hauth, hfed, hsent⟩ := ih h
      exact ⟨hauth, hfed, hsent.trans (List.append_assoc ..)⟩
    | failed text =>
      rw [hw] at h
      cases h
    | pending =>
      rw [hw] at h
      cases h

/-- **What was said in a conversation that ends well**: the server has answered every line
but the last, and sent these answers; with the last it begins. -/
theorem feedLines_of_talk {lines : List String} (h : c.talk sha1 around lines = some c') :
    ∃ inputs actions uid, c'.fed = c.fed ++ inputs ∧ inputs.map (·.line) = lines ∧
      feedLines sha1 c.auth inputs = actions ++ [.begin uid] ∧
      (∀ a ∈ actions, ∃ answers, a = .send answers) ∧ c'.sent = c.sent ++ sentLines actions := by
  induction lines generalizing c with
  | nil => cases h
  | cons line lines ih =>
    rw [talk] at h
    split at h
    · next answers c₁ hfeed =>
      obtain ⟨haction, hauth₁, hfed₁, hsent₁⟩ := feed_eq hfeed
      split at h
      · next c₂ hwritten =>
        obtain ⟨hauth₂, hfed₂, hsent₂⟩ := writeLines_ok hwritten
        obtain ⟨inputs, actions, uid, hfed, hlines, hactions, hsends, hsent⟩ := ih h
        refine ⟨c.input around line :: inputs, .send answers :: actions, uid, ?_, ?_, ?_, ?_, ?_⟩
        · rw [hfed, hfed₂, hfed₁, List.append_assoc]
          rfl
        · rw [List.map_cons, hlines]
          rfl
        · rw [hauth₂, hauth₁] at hactions
          show (c.served sha1 around line).action
            :: feedLines sha1 (c.served sha1 around line).auth inputs = _
          rw [hactions, haction]
          rfl
        · exact List.forall_mem_cons.mpr ⟨⟨answers, rfl⟩, hsends⟩
        · rw [hsent, hsent₂, hsent₁, List.append_assoc]
          rfl
      · cases h
    · next uid c₁ hfeed =>
      obtain ⟨haction, -, hfed₁, hsent₁⟩ := feed_eq hfeed
      split at h
      · next hlast =>
        obtain rfl := Option.some.inj h
        refine ⟨[c.input around line], [], uid, hfed₁, ?_, ?_, List.forall_mem_nil _, ?_⟩
        · rw [hlast]
          rfl
        · exact congrArg (· :: []) haction
        · exact hsent₁.trans (List.append_nil _).symm
      · cases h
    · cases h

/-! ## Lines are heard in any chunks -/

section Arriving

variable {held s tail : List WireByte}

/-- **A line that can be read**: its end is the first in it, and it is below the limit. -/
def Readable (line : String) : Prop :=
  findCrlf (asBytes line ++ [13, 10]) = some (asBytes line).length ∧
    (asBytes line).length < maxAuthLineBytes

instance (line : String) : Decidable (Readable line) := inferInstanceAs (Decidable (_ ∧ _))

/-- A reader that holds no more than a part of a stream finds the end of a line when it is
there. -/
theorem readLine_of_arrives {line : String} (hreadable : Readable line) (hheld : t.Holds held)
    (harrives : Arrives s incoming)
    (hw : held ++ s = attach (asBytes line ++ [13, 10]) [] ++ tail) :
    ∃ (t' : Transport) (held' s' : List WireByte) (rest : List Recv),
      t.readLine incoming = .done (.ok line) t' rest ∧ t'.Holds held' ∧ Arrives s' rest ∧
      held' ++ s' = tail ∧ t'.maxMessageSize = t.maxMessageSize := by
  obtain ⟨hend, hshort⟩ := hreadable
  have hlen :
      (asBytes line).length + 2 ≤ (attach (asBytes line ++ [13, 10]) [] ++ tail).length := by
    rw [List.length_append, length_attach, List.length_append]
    exact Nat.le_add_right _ _
  have hfound : findCrlf (bytes (attach (asBytes line ++ [13, 10]) [] ++ tail))
      = some (asBytes line).length := by
    rw [bytes_append, bytes_attach]
    exact Crlf.findCrlf_append hend _
  have hstop : ∀ (t : Transport) (held : List WireByte), t.Holds held →
      held <+: attach (asBytes line ++ [13, 10]) [] ++ tail →
      lineEnd t = if held.length < (asBytes line).length + 2 then none
        else some (.ok (asBytes line).length) := by
    intro t held hheld hpart
    have hcrlf := Crlf.findCrlf_of_part (hpart.map byte) hfound
    have hbuf : t.readBuf = held.map byte := hheld.readBuf
    rw [List.length_map] at hcrlf
    split
    · next hopen =>
      rw [if_pos hopen] at hcrlf
      refine lineEnd_eq_none (hbuf ▸ hcrlf) ?_
      rw [hbuf, List.length_map]
      omega
    · next hthere =>
      rw [if_neg hthere] at hcrlf
      exact lineEnd_eq_some (hbuf ▸ hcrlf)
  obtain ⟨t₁, held₁, s₁, rest₁, hfill, hheld₁, harrives₁, hw₁, hlen₁, hmax₁⟩ :=
    fillUntil_of_arrives hlen hstop hheld harrives hw
  -- the line, and what was received after it
  obtain ⟨held', rfl⟩ : attach (asBytes line ++ [13, 10]) [] <+: held₁ := by
    refine List.prefix_of_prefix_length_le ?_ (hw₁ ▸ List.prefix_append held₁ s₁) ?_
    · exact List.prefix_append _ _
    · rw [length_attach, List.length_append]
      exact hlen₁
  have hbuf : t₁.readBuf = asBytes line ++ ([13, 10] ++ bytes held') := by
    rw [hheld₁.readBuf, bytes_append, bytes_attach, List.append_assoc]
  have hpending : t₁.pendingFds = fdsOf held' := by
    rw [hheld₁.pendingFds, fdsOf_append, fdsOf_attach _ (by simp), List.nil_append]
  refine ⟨{ t₁ with readBuf := t₁.readBuf.drop ((asBytes line).length + 2) }, held', s₁, rest₁,
    ?_, ⟨?_, hpending⟩, harrives₁, ?_, hmax₁⟩
  · rw [readLine, hfill, ReadResult.ok_bind, hbuf, List.take_left, lineText, fromUtf8_asBytes]
  · show t₁.readBuf.drop _ = _
    rw [hbuf, ← List.append_assoc]
    exact List.drop_left' (by simp)
  · rw [List.append_assoc] at hw₁
    exact List.append_cancel_left hw₁

/-- The NUL byte is found. -/
theorem readInitialNul_of_arrives (hheld : t.Holds held) (harrives : Arrives s incoming)
    (hw : held ++ s = attach [0] [] ++ tail) :
    ∃ (t' : Transport) (held' s' : List WireByte) (rest : List Recv),
      t.readInitialNul incoming = .done (.ok (.ok ())) t' rest ∧ t'.Holds held' ∧
      Arrives s' rest ∧ held' ++ s' = tail ∧ t'.maxMessageSize = t.maxMessageSize := by
  have hstop : ∀ (t : Transport) (held : List WireByte), t.Holds held →
      held <+: attach [0] [] ++ tail →
      anyByte t = if held.length < 1 then none else some (.ok ()) := by
    intro t held hheld _
    rw [anyByte, hheld.readBuf]
    cases held with
    | nil => rfl
    | cons x held => rfl
  obtain ⟨t₁, held₁, s₁, rest₁, hfill, hheld₁, harrives₁, hw₁, hlen₁, hmax₁⟩ :=
    fillUntil_of_arrives (Nat.le_add_left 1 tail.length) hstop hheld harrives hw
  cases held₁ with
  | nil => cases hlen₁
  | cons x held' =>
    obtain ⟨rfl, htail⟩ := List.cons.inj hw₁
    have hbuf : t₁.readBuf = 0 :: bytes held' := hheld₁.readBuf
    refine ⟨{ t₁ with readBuf := t₁.readBuf.drop 1 }, held', s₁, rest₁, ?_, ⟨?_, ?_⟩, harrives₁,
      htail, hmax₁⟩
    · rw [readInitialNul, hfill, ReadResult.ok_bind, hbuf, List.head?_cons,
        if_neg (not_not.mpr rfl)]
    · show t₁.readBuf.drop 1 = _
      rw [hbuf]
      rfl
    · exact hheld₁.pendingFds

/-- The loop goes on after a line that is answered. -/
theorem serve_of_send {line : String} {answers : List String} {c₁ c₂ : Conversation}
    (hread : t.readLine incoming = .done (.ok line) t' rest)
    (hfeed : c.feed sha1 around line = (.send answers, c₁))
    (hwritten : c₁.writeLines around answers = (.ok, c₂)) :
    c.serve sha1 around t incoming = c₂.serve sha1 around t' rest := by
  rw [serve]
  split
  · next heq => cases hread.symm.trans heq
  · next heq => cases hread.symm.trans heq
  · next heq => cases hread.symm.trans heq
  · next heq => cases hread.symm.trans heq
  · next heq =>
    cases hread.symm.trans heq
    rw [hfeed]
    dsimp only
    rw [hwritten]

theorem serve_of_begin {line : String} {uid : Option UInt32} {c₁ : Conversation}
    (hread : t.readLine incoming = .done (.ok line) t' rest)
    (hfeed : c.feed sha1 around line = (.begin uid, c₁)) :
    c.serve sha1 around t incoming = .done (.ok ()) c₁ t' rest := by
  rw [serve]
  split
  · next heq => cases hread.symm.trans heq
  · next heq => cases hread.symm.trans heq
  · next heq => cases hread.symm.trans heq
  · next heq => cases hread.symm.trans heq
  · next heq =>
    cases hread.symm.trans heq
    rw [hfeed]

/-- **Lines that lead to the end of a conversation are heard**, in whatever chunks they
arrive, and what comes after them is left. -/
theorem serve_of_arrives {lines : List String} (htalk : c.talk sha1 around lines = some c')
    (hreadable : ∀ line ∈ lines, Readable line) (hheld : t.Holds held)
    (harrives : Arrives s incoming)
    (hw : held ++ s = (lines.flatMap fun line => attach (asBytes line ++ [13, 10]) []) ++ tail) :
    ∃ (t' : Transport) (held' s' : List WireByte) (rest : List Recv),
      c.serve sha1 around t incoming = .done (.ok ()) c' t' rest ∧ t'.Holds held' ∧
      Arrives s' rest ∧ held' ++ s' = tail ∧ t'.maxMessageSize = t.maxMessageSize := by
  induction lines generalizing c t held s incoming with
  | nil => cases htalk
  | cons line lines ih =>
    obtain ⟨hline, hlines⟩ := List.forall_mem_cons.mp hreadable
    rw [List.flatMap_cons, List.append_assoc] at hw
    obtain ⟨t₁, held₁, s₁, rest₁, hread, hheld₁, harrives₁, hw₁, hmax₁⟩ :=
      readLine_of_arrives hline hheld harrives hw
    rw [talk] at htalk
    split at htalk
    · next answers c₁ hfeed =>
      split at htalk
      · next c₂ hwritten =>
        obtain ⟨t', held', s', rest, hserve, hheld', harrives', hw', hmax'⟩ :=
          ih htalk hlines hheld₁ harrives₁ hw₁
        exact ⟨t', held', s', rest, (serve_of_send hread hfeed hwritten).trans hserve, hheld',
          harrives', hw', hmax'.trans hmax₁⟩
      · cases htalk
    · next uid c₁ hfeed =>
      split at htalk
      · next hlast =>
        obtain rfl := Option.some.inj htalk
        rw [hlast, List.flatMap_nil, List.nil_append] at hw₁
        exact ⟨t₁, held₁, s₁, rest₁, serve_of_begin hread hfeed, hheld₁, harrives₁, hw₁, hmax₁⟩
      · cases htalk
    · cases htalk

end Arriving

/-! ## The whole opening -/

/-- **What a client writes before its first message**: a NUL byte, and lines, none of it with
descriptors. -/
def openingBytes (lines : List String) : List WireByte :=
  attach [0] [] ++ lines.flatMap fun line => attach (asBytes line ++ [13, 10]) []

/-- Surroundings in which everything goes well. -/
def calmSurroundings : Surroundings where
  machine := fun _ => ⟨1000, fun _ => 0, none, none, none, [], 0, .replicate 24 0, .replicate 16 0⟩
  others := fun _ disk => disk
  written := fun _ => .ok

/-- The server's side of a bus for users who are known. -/
def usualAuth : ServerAuth :=
  .new ⟨1000, 1000, 4711⟩ [.external, .dbusCookieSha1] false "0123456789abcdef0123456789abcdef" none

/-- A user asks for descriptors, and begins. -/
def usualLines : List String := ["AUTH EXTERNAL 31303030", "NEGOTIATE_UNIX_FD", "BEGIN"]

theorem talk_usual : ∃ c', (new usualAuth fun _ _ => .absent).talk (fun _ => .replicate 20 0)
    calmSurroundings usualLines = some c' := by
  refine Option.isSome_iff_exists.mp ?_
  decide +kernel

/-- A handshake whose lines lead to its end does so in any chunks. -/
theorem runSaslHandshake_of_arrives {held s tail : List WireByte} {lines : List String}
    (htalk : c.talk sha1 around lines = some c') (hreadable : ∀ line ∈ lines, Readable line)
    (hheld : t.Holds held) (harrives : Arrives s incoming)
    (hw : held ++ s = openingBytes lines ++ tail) :
    ∃ (t' : Transport) (held' s' : List WireByte) (rest : List Recv),
      c.runSaslHandshake sha1 around t incoming = .done (.ok ()) c' t' rest ∧ t'.Holds held' ∧
      Arrives s' rest ∧ held' ++ s' = tail ∧ t'.maxMessageSize = t.maxMessageSize := by
  rw [openingBytes, List.append_assoc] at hw
  obtain ⟨t₁, held₁, s₁, rest₁, hnul, hheld₁, harrives₁, hw₁, hmax₁⟩ :=
    readInitialNul_of_arrives hheld harrives hw
  obtain ⟨t', held', s', rest, hserve, hheld', harrives', hw', hmax'⟩ :=
    serve_of_arrives htalk hreadable hheld₁ harrives₁ hw₁
  refine ⟨t', held', s', rest, ?_, hheld', harrives', hw', hmax'.trans hmax₁⟩
  rw [runSaslHandshake, hnul]
  exact hserve

/-- **Whoever gets to the messages has been let in.** If a handshake ends well, whatever
arrives, the stream began with a NUL byte and lines; these, and no more, were used and handled
one after the other, and no descriptor was taken. The server answered them until the last, that
the client is who the socket says, or nobody where nobody may be let in, was said and not
taken back, and what was sent are these answers. -/
theorem runSaslHandshake_uses {peer : PeerCredentials} {allowed : List Mechanism}
    {allowAnonymous : Bool} {guidHex : String} {homeDir : Option String} {disk : Disk}
    (h : (new (.new peer allowed allowAnonymous guidHex homeDir) disk).runSaslHandshake sha1 around
      t incoming = .done (.ok ()) c' t' rest) :
    ∃ lines actions uid,
      t.unreadBytes incoming = 0 :: (linesBytes lines ++ t'.unreadBytes rest) ∧
      t.unreadFds incoming = t'.unreadFds rest ∧ c'.fed.map (·.line) = lines ∧
      feedLines sha1 (.new peer allowed allowAnonymous guidHex homeDir) c'.fed
        = actions ++ [.begin uid] ∧
      (∀ a ∈ actions, ∃ answers, a = .send answers) ∧ c'.sent = sentLines actions ∧
      (ServerAuth.new peer allowed allowAnonymous guidHex homeDir).Authorized uid ∧
      OkStands c'.sent := by
  unfold runSaslHandshake at h
  split at h
  · cases h
  · cases h
  · cases h
  · cases h
  · cases h
  · next t₁ rest₁ hnul =>
    obtain ⟨hbytes₁, hfds₁⟩ := readInitialNul_uses hnul
    obtain ⟨lines, htalk, hbytes, hfds⟩ := serve_uses h
    obtain ⟨inputs, actions, uid, hfed, hlines, hactions, hsends, hsent⟩ := feedLines_of_talk htalk
    have hinputs : c'.fed = inputs := hfed
    have hanswers : c'.sent = sentLines actions := hsent
    -- what is known of the server before the last line
    obtain ⟨auth, last, htold, hlast⟩ :=
      (told_new peer allowed allowAnonymous guidHex homeDir).run hactions
    rw [List.nil_append] at htold
    cases last with
    | nil => cases hlast
    | cons input last =>
      obtain ⟨haction, -⟩ := List.cons.inj hlast
      obtain ⟨hauthorized, hstands⟩ := htold.begin_authorized
        (ServerAuth.feedLine_reaction htold.sound input.line) haction.symm
      refine ⟨lines, actions, uid, ?_, hfds₁.trans hfds, ?_, ?_, hsends, hanswers, hauthorized, ?_⟩
      · rw [hbytes₁, hbytes]
      · rw [hinputs, hlines]
      · rw [hinputs]
        exact hactions
      · rw [hanswers]
        exact hstands

/-- A user is let in, whose lines are cut in the middle of the first. -/
theorem runSaslHandshake_uses_usual : ∃ c' t' rest lines actions uid,
    (new usualAuth fun _ _ => .absent).runSaslHandshake (fun _ => .replicate 20 0) calmSurroundings
        .new [.received (bytes ((openingBytes usualLines).take 10)) [], .wouldBlock,
          .received (bytes ((openingBytes usualLines).drop 10)) []]
        = .done (.ok ()) c' t' rest ∧
      c'.fed.map (·.line) = lines ∧ c'.sent = sentLines actions ∧ usualAuth.Authorized uid := by
  obtain ⟨c', htalk⟩ := talk_usual
  have harrives :
      Arrives (openingBytes usualLines) [.received (bytes ((openingBytes usualLines).take
      10)) [], .wouldBlock, .received (bytes ((openingBytes usualLines).drop 10)) []] := by
    have h := Arrives.chunk ((openingBytes usualLines).take 10) (by decide +kernel)
      (by decide +kernel) (.wouldBlock (.chunk ((openingBytes usualLines).drop 10)
        (by decide +kernel) (by decide +kernel) .nil))
    rw [List.append_nil, List.take_append_drop] at h
    exact h
  have hreadable : ∀ line ∈ usualLines, Readable line := by decide +kernel
  obtain ⟨t', held, s, rest, hhandshake, -⟩ := runSaslHandshake_of_arrives htalk hreadable
    (⟨rfl, rfl⟩ : Transport.new.Holds []) harrives (List.append_nil _).symm
  obtain ⟨lines, actions, uid, -, -, hlines, -, -, hsent, hauthorized, -⟩ :=
    runSaslHandshake_uses hhandshake
  exact ⟨c', t', rest, lines, actions, uid, hhandshake, hlines, hsent, hauthorized⟩

/-- **A client that has been let in is heard.** It writes a NUL byte, lines that lead to the
end of the conversation, and messages, one after the other and each in as many pieces as the
stream accepts; all of it arrives in any chunks. Then the handshake ends with these lines, and
the calls of `read_message` return what is decoded from each frame with its own descriptors:
nothing of the messages is lost to the lines, and nothing is left over. -/
theorem messages_of_opening {auth : ServerAuth} {disk : Disk} {lines : List String}
    {events : List WireEvent} {w : Wire} {max : UInt32}
    (htalk : (new auth disk).talk sha1 around lines = some c')
    (hreadable : ∀ line ∈ lines, Readable line) (hrun : Wire.start.run events = some w)
    (hturn : Wire.start.inTurn events = true) (hok : ∀ c ∈ w.calls, c.result = .ok)
    (hmax : ∀ c ∈ w.calls, c.frame.length ≤ max.toNat)
    (haccepted : ∀ c ∈ w.calls, (Message.fromBytes c.frame c.outFds).isOk = true)
    (harrives : Arrives (openingBytes lines ++ w.stream) incoming) :
    ∃ (t' : Transport) (rest : List Recv) (msgs : List Message) (rest' : List Recv),
      (new auth disk).runSaslHandshake sha1 around (Transport.new.setMaxMessageSize max) incoming
        = .done (.ok ()) c' t' rest ∧
      t'.readMessages rest w.calls.length
        = .done (.ok msgs) (Transport.new.setMaxMessageSize max) rest' ∧
      List.Forall₂ (fun c msg => Message.fromBytes c.frame c.outFds = .ok msg) w.calls msgs ∧
      Arrives [] rest' := by
  have hturns := Wire.turns_start.run hrun hturn
  have hframes : ∀ c ∈ w.calls, ∃ msg, Message.toBytes msg = .ok c.frame ∧ msg.fds = c.outFds :=
    fun c hc => hturns.written c hc (by rw [hok c hc]; exact nofun)
  have hstream := hturns.stream_of_ok hok
  have hfds : ∀ c ∈ w.calls, c.outFds.length < 2 ^ 32 := by
    intro c hc
    obtain ⟨msg, hmsg, -⟩ := hframes c hc
    obtain ⟨b, bs, hcons⟩ := List.exists_cons_of_ne_nil (Message.ne_nil_of_toBytes hmsg)
    have hmem : (⟨b, c.outFds⟩ : WireByte) ∈ w.stream := by
      rw [hstream]
      refine List.mem_flatMap.mpr ⟨c, hc, ?_⟩
      rw [hcons]
      exact List.mem_cons_self
    exact (harrives.length_fds_le (List.mem_append_right _ hmem)).trans_lt (by decide)
  have hnew : (Transport.new.setMaxMessageSize max).Holds [] := ⟨rfl, rfl⟩
  obtain ⟨t', held, s, rest, hhandshake, hheld, hrest, hw, hmax'⟩ :=
    runSaslHandshake_of_arrives htalk hreadable hnew harrives (List.nil_append _)
  rw [hstream, ← List.append_nil (List.flatMap _ _)] at hw
  have hlimit : t'.maxMessageSize = max := hmax'
  obtain ⟨msgs, t'', held', s', rest', hread, hmsgs, hheld', hrest', hnil, hmax''⟩ :=
    readMessages_of_frames hframes haccepted (fun c hc => hlimit ▸ hmax c hc) hfds hheld hrest hw
  obtain ⟨rfl, rfl⟩ := List.append_eq_nil_iff.mp hnil
  have hend : t'' = Transport.new.setMaxMessageSize max := by
    obtain ⟨buf, fds, size⟩ := t''
    obtain ⟨rfl, rfl⟩ := hheld'
    obtain rfl : size = max := hmax''.trans hlimit
    rfl
  exact ⟨t', rest, msgs, rest', hhandshake, hend ▸ hread, hmsgs, hrest'⟩

/-- A user is let in and sends two replies; the end of the lines and the beginning of the first
reply arrive together. -/
theorem messages_of_opening_usual : ∃ (c' : Conversation) (w : Wire) (incoming : List Recv)
    (t' : Transport) (rest : List Recv) (msgs : List Message) (rest' : List Recv),
    Wire.start.run twoReplies = some w ∧
      (new usualAuth fun _ _ => .absent).runSaslHandshake (fun _ => .replicate 20 0)
        calmSurroundings (Transport.new.setMaxMessageSize 64) incoming = .done (.ok ()) c' t' rest ∧
      t'.readMessages rest w.calls.length
        = .done (.ok msgs) (Transport.new.setMaxMessageSize 64) rest' ∧
      List.Forall₂ (fun c msg => Message.fromBytes c.frame c.outFds = .ok msg) w.calls msgs ∧
      Arrives [] rest' := by
  have hall : (Wire.start.run twoReplies).any (fun w =>
      (w.calls.all fun c => decide (c.result = .ok) && decide (c.frame.length ≤ 64) &&
        (Message.fromBytes c.frame c.outFds).isOk) &&
      (decide ((openingBytes usualLines ++ w.stream).take 50 ≠ []) &&
        decide ((openingBytes usualLines ++ w.stream).drop 50 ≠ []) &&
        decide ((fdsOf ((openingBytes usualLines ++ w.stream).take 50)).length ≤ maxFdsPerCall) &&
        decide ((fdsOf ((openingBytes usualLines ++ w.stream).drop 50)).length
          ≤ maxFdsPerCall))) = true := by decide +kernel
  obtain ⟨w, hrun, hall⟩ := (Option.any_eq_true _ _).mp hall
  simp only [Bool.and_eq_true, List.all_eq_true, decide_eq_true_eq] at hall
  obtain ⟨hcalls, ⟨⟨hne₁, hne₂⟩, hfds₁⟩, hfds₂⟩ := hall
  obtain ⟨c', htalk⟩ := talk_usual
  have harrives : Arrives (_ ++ (_ ++ [])) _ :=
    .chunk _ hne₁ hfds₁ (.wouldBlock (.chunk _ hne₂ hfds₂ .nil))
  rw [List.append_nil, List.take_append_drop] at harrives
  have hmax : ∀ c ∈ w.calls, c.frame.length ≤ (64 : UInt32).toNat := fun c hc => (hcalls c hc).1.2
  obtain ⟨t', rest, msgs, rest', hhandshake, hread, hmsgs, hrest⟩ :=
    messages_of_opening htalk (by decide +kernel) hrun (by decide +kernel)
      (fun c hc => (hcalls c hc).1.1) hmax (fun c hc => (hcalls c hc).2) harrives
  exact ⟨c', w, _, t', rest, msgs, rest', hrun, hhandshake, hread, hmsgs, hrest⟩

end Conversation

end Oxibus
