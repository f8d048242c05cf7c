import Mathlib.Logic.Relation
import Oxibus.Auth.Utterances

/-!
# The handshake in bytes

Two sides that authenticate exchange lines, and a line is a step of their
conversation. What they really have is a stream of bytes in either direction. A
line is written in as many pieces as the stream takes, and received in others;
there may be half a line in a buffer, or two, and behind the last line of a
client there may be its first messages.

Here both sides go on byte by byte, in any order (`Streams.Step`). The bytes of a
direction are the lines under way, the part of a line that is being written, and
what was said after the last line (`Conveys`), whether they have been received
or not. So a reader that looks for a line finds the first one under way, when
all of it is there, and nothing else (`Conveys.take`).

The client's NUL byte is one call of its own before anything else, and has been
written when all this begins.
-/

namespace Oxibus

open Conversation

/-! ## Reading -/

/-- The bytes of a line. -/
def lineBytes (line : String) : List UInt8 := asBytes line ++ [13, 10]

namespace Transport

/-- **What `read_line` returns from what has been received**, or nothing if it must wait. -/
def takeLine (t : Transport) : Option (Outcome ReadError String × Transport) :=
  (lineEnd t).map fun
    | .ok pos => (lineText (t.readBuf.take pos), { t with readBuf := t.readBuf.drop (pos + 2) })
    | .err e => (.err e, t)
    | .panic => (.panic, t)
    | .diverge => (.diverge, t)

/-- A chunk is received. -/
def receive (t : Transport) (chunk : List UInt8) : Transport :=
  { t with readBuf := t.readBuf ++ chunk }

variable {t t' : Transport} {x : Outcome ReadError String} {chunk : List UInt8}

/-- A call of `read_line` returns what there is. -/
theorem readLine_of_takeLine (h : t.takeLine = some (x, t')) (incoming : List Recv) :
    t.readLine incoming = .done x t' incoming := by
  obtain ⟨stop, hstop, heq⟩ := Option.map_eq_some_iff.mp h
  rw [readLine, Receiving.fillUntil_of_stop hstop]
  cases stop with
  | ok pos =>
    obtain ⟨rfl, rfl⟩ := Prod.mk.inj heq
    rfl
  | err e =>
    obtain ⟨rfl, rfl⟩ := Prod.mk.inj heq
    rfl
  | panic =>
    obtain ⟨rfl, rfl⟩ := Prod.mk.inj heq
    rfl
  | diverge =>
    obtain ⟨rfl, rfl⟩ := Prod.mk.inj heq
    rfl

/-- Or it receives a chunk, and goes on. -/
theorem readLine_of_receive (h : t.takeLine = none) (hchunk : chunk ≠ []) (incoming : List Recv) :
    t.readLine (.received chunk [] :: incoming) = (t.receive chunk).readLine incoming := by
  have hfill := Receiving.fillMore_received t hchunk incoming
  rw [List.append_nil] at hfill
  rw [readLine, fillUntil_of_fillMore (Option.map_eq_none_iff.mp h) hfill]
  rfl

/-- **A line that can be read is taken when all of it is there**, and waited for until then. -/
theorem takeLine_of_part {line : String} {more : List UInt8} (hreadable : Readable line)
    (hpart : t.readBuf <+: lineBytes line ++ more) : t.takeLine =
      if t.readBuf.length < (lineBytes line).length then none
      else some (.ok line, { t with readBuf := t.readBuf.drop (lineBytes line).length }) := by
  obtain ⟨hend, hshort⟩ := hreadable
  have hlength : (lineBytes line).length = (asBytes line).length + 2 := List.length_append
  have hfound : findCrlf (lineBytes line ++ more) = some (asBytes line).length :=
    Crlf.findCrlf_append hend more
  have hcrlf := Crlf.findCrlf_of_part hpart hfound
  rw [hlength]
  unfold takeLine
  split
  · next hopen =>
    rw [if_pos hopen] at hcrlf
    rw [lineEnd_eq_none hcrlf (by omega)]
    rfl
  · next hthere =>
    rw [if_neg hthere] at hcrlf
    have htake : t.readBuf.take (asBytes line).length = asBytes line := by
      have hprefix : asBytes line <+: t.readBuf := by
        refine List.prefix_of_prefix_length_le ?_ hpart (by omega)
        exact (List.prefix_append _ _).trans (List.prefix_append _ _)
      exact (List.prefix_iff_eq_take.mp hprefix).symm
    rw [lineEnd_eq_some hcrlf]
    show some (lineText _, _) = _
    rw [htake, lineText, fromUtf8_asBytes]

end Transport

/-! ## One direction -/

/-- How much of the first of some lines has been written. -/
def partOf (writing : List String) (written : ℕ) : List UInt8 :=
  match writing with
  | [] => []
  | line :: _ => (lineBytes line).take written

/-- **What a direction carries**: some bytes before the lines, the lines under way, a part of the
first of the lines that are being written, and what was said after the last. -/
structure Conveys (reader : Transport) (wire before : List UInt8) (lines writing : List String)
    (written : ℕ) (said : List UInt8) : Prop where
  bytes : reader.readBuf ++ wire =
    before ++ (linesBytes lines ++ (partOf writing written ++ said))
  readable : ∀ line ∈ lines, Readable line
  writable : ∀ line ∈ writing, Readable line
  /-- The line that is being written is not all written. -/
  part : written = 0 ∨ ∃ line, writing.head? = some line ∧ written < (lineBytes line).length

namespace Conveys

variable {reader : Transport} {wire before said : List UInt8} {lines writing rest : List String}
  {written n : ℕ} {line : String} {chunk more : List UInt8}

/-- A part of a line is written. -/
theorem write (h : Conveys reader wire before lines (line :: rest) written [])
    (hn : written + n < (lineBytes line).length) :
    Conveys reader (wire ++ ((lineBytes line).drop written).take n) before lines (line :: rest)
      (written + n) [] := by
  refine ⟨?_, h.readable, h.writable, .inr ⟨line, rfl, hn⟩⟩
  have hbytes := h.bytes
  rw [List.append_nil] at hbytes ⊢
  show reader.readBuf ++ (wire ++ _) = before ++ (linesBytes lines ++ (lineBytes line).take _)
  rw [← List.append_assoc, hbytes, List.take_add, List.append_assoc, List.append_assoc]
  rfl

/-- **A line is written to its end**, and is under way. -/
theorem finish (h : Conveys reader wire before lines (line :: rest) written []) :
    Conveys reader (wire ++ (lineBytes line).drop written) before (lines ++ [line]) rest 0 [] := by
  obtain ⟨hline, hrest⟩ := List.forall_mem_cons.mp h.writable
  refine ⟨?_, ?_, hrest, .inl rfl⟩
  · have hbytes := h.bytes
    have hnone : partOf rest 0 = [] := by
      cases rest <;> rfl
    have hlast : linesBytes (lines ++ [line]) = linesBytes lines ++ lineBytes line := by
      unfold linesBytes
      rw [List.flatMap_append, List.flatMap_singleton]
      rfl
    rw [List.append_nil] at hbytes
    have hwhole : partOf (line :: rest) written ++ (lineBytes line).drop written = lineBytes line :=
      List.take_append_drop written (lineBytes line)
    rw [hnone, hlast, List.append_nil, List.append_nil, ← List.append_assoc, hbytes,
      List.append_assoc, List.append_assoc, hwhole]
  · exact List.forall_mem_append.mpr ⟨h.readable, List.forall_mem_singleton.mpr hline⟩

/-- Something is said after the last line. -/
theorem say (h : Conveys reader wire before lines [] written said) (more : List UInt8) :
    Conveys reader (wire ++ more) before lines [] written (said ++ more) := by
  refine ⟨?_, h.readable, h.writable, h.part⟩
  show _ = before ++ (linesBytes lines ++ (said ++ more))
  have hbytes : reader.readBuf ++ wire = before ++ (linesBytes lines ++ said) := h.bytes
  rw [← List.append_assoc, hbytes]
  simp only [List.append_assoc]

/-- A chunk is received. -/
theorem receive (h : Conveys reader (chunk ++ wire) before lines writing written said) :
    Conveys (reader.receive chunk) wire before lines writing written said := by
  refine ⟨?_, h.readable, h.writable, h.part⟩
  rw [← h.bytes]
  exact List.append_assoc ..

/-- A side that has nothing to write has lines to write next. -/
theorem turn (h : Conveys reader wire before lines [] written said)
    (hnext : ∀ line ∈ writing, Readable line) :
    Conveys reader wire before lines writing written said ∧ written = 0 := by
  have hzero : written = 0 := by
    rcases h.part with hzero | ⟨line, hline, -⟩
    · exact hzero
    · cases hline
  have hnone : partOf writing written = [] := by
    rw [hzero]
    cases writing <;> rfl
  refine ⟨⟨?_, h.readable, hnext, .inl hzero⟩, hzero⟩
  rw [hnone]
  exact h.bytes

/-- What the reader holds is a part of the first line and of what comes after it. -/
theorem part_of_cons (h : Conveys reader wire [] (line :: lines) writing written said) :
    reader.readBuf <+: lineBytes line ++
      (linesBytes lines ++ (partOf writing written ++ said)) := by
  refine ⟨wire, ?_⟩
  rw [h.bytes, List.nil_append, linesBytes_cons]
  exact List.append_assoc ..

/-- **Where no line is under way, there is none to be taken.** -/
theorem takeLine_of_nil (h : Conveys reader wire [] [] writing written []) :
    reader.takeLine = none := by
  have hbytes : reader.readBuf ++ wire = partOf writing written := by
    rw [h.bytes, List.append_nil]
    rfl
  have hpart : reader.readBuf <+: partOf writing written := ⟨wire, hbytes⟩
  cases writing with
  | nil =>
    have hnil : reader.readBuf = [] := List.prefix_nil.mp hpart
    have hempty : Readable "" := by decide
    have hstart : reader.readBuf <+: lineBytes "" ++ [] := hnil ▸ List.nil_prefix
    rw [Transport.takeLine_of_part hempty hstart, hnil]
    rfl
  | cons line rest =>
    have hline := h.writable line List.mem_cons_self
    have hlt : reader.readBuf.length < (lineBytes line).length := by
      refine Nat.lt_of_le_of_lt hpart.length_le ?_
      show ((lineBytes line).take written).length < _
      rw [List.length_take]
      rcases h.part with hzero | ⟨line', hline', hwritten⟩
      · rw [hzero, Nat.zero_min, lineBytes, List.length_append]
        exact Nat.succ_pos _
      · obtain rfl := Option.some.inj hline'
        exact (min_le_left _ _).trans_lt hwritten
    have hstart : reader.readBuf <+: lineBytes line ++ [] := by
      rw [List.append_nil]
      exact hpart.trans (List.take_prefix _ _)
    rw [Transport.takeLine_of_part hline hstart, if_pos hlt]

/-- **What is taken is the first line under way.** -/
theorem take (h : Conveys reader wire [] lines writing written said)
    (hsaid : lines = [] → said = []) {x : Outcome ReadError String} {t : Transport}
    (htaken : reader.takeLine = some (x, t)) :
    ∃ line rest, lines = line :: rest ∧ x = .ok line ∧
      Conveys t wire [] rest writing written said := by
  cases lines with
  | nil =>
    rw [hsaid rfl] at h
    cases h.takeLine_of_nil.symm.trans htaken
  | cons line rest =>
    obtain ⟨hline, hrest⟩ := List.forall_mem_cons.mp h.readable
    have hpart := h.part_of_cons
    rw [Transport.takeLine_of_part hline hpart] at htaken
    split at htaken
    · cases htaken
    · next hthere =>
      obtain ⟨rfl, rfl⟩ := Prod.mk.inj (Option.some.inj htaken)
      refine ⟨line, rest, rfl, rfl, ?_, hrest, h.writable, h.part⟩
      have hprefix : lineBytes line <+: reader.readBuf :=
        List.prefix_of_prefix_length_le (List.prefix_append _ _) hpart (not_lt.mp hthere)
      obtain ⟨held, hheld⟩ := hprefix
      show reader.readBuf.drop _ ++ wire = [] ++ _
      have hbytes := h.bytes
      rw [← hheld, List.drop_left]
      rw [← hheld, List.nil_append, linesBytes_cons, List.append_assoc] at hbytes
      rw [List.nil_append]
      refine List.append_cancel_left (hbytes.trans ?_)
      exact List.append_assoc ..

/-- **A line under way is taken, or some of it is still to be received.** -/
theorem waiting (h : Conveys reader wire [] (line :: lines) writing written said)
    (hwaits : reader.takeLine = none) : wire ≠ [] := by
  intro hnil
  have hline := h.readable line List.mem_cons_self
  rw [Transport.takeLine_of_part hline h.part_of_cons] at hwaits
  split at hwaits
  · next hopen =>
    have hlength := congrArg List.length h.bytes
    rw [hnil, List.append_nil, List.nil_append, linesBytes_cons] at hlength
    simp only [List.length_append] at hlength
    rw [hlength, lineBytes, List.length_append] at hopen
    omega
  · cases hwaits

end Conveys

/-! ## Both sides -/

namespace ClientPhase

/-- Whether a client waits for a line. -/
def hears : ClientPhase → Bool
  | .reading _ => true
  | .awaiting => true
  | _ => false

/-- A client that has written a line. -/
def wrote : ClientPhase → ClientPhase
  | .writing auth _ => .reading auth
  | .finishing (_ :: lines) expectReply => clientFinishing expectReply lines
  | phase => phase

/-- A client that has read a line. -/
def heard (sha1 : Digest) (machine : Machine) (disk : Disk) (line : String) :
    ClientPhase → ClientPhase
  | .reading auth => clientAfter machine.uid (auth.feedLine sha1 machine disk line)
  | .awaiting => .succeeded
  | phase => phase

end ClientPhase

namespace ServerPhase

/-- A server that has written a line. -/
def wrote : ServerPhase → ServerPhase
  | .writing auth (_ :: lines) => serverSending auth lines
  | phase => phase

end ServerPhase

/-- **Both sides, and the streams between them.** -/
structure Streams where
  client : ClientPhase
  server : ServerPhase
  disk : Disk
  /-- How much has been written of the line that the client writes. -/
  clientWritten : ℕ
  serverWritten : ℕ
  /-- What has been written to the server and not received. -/
  toServer : List UInt8
  toClient : List UInt8
  serverReader : Transport
  clientReader : Transport
  /-- Whether the server has found the NUL byte. -/
  greeted : Bool
  /-- What the client has written since it succeeded. -/
  clientSaid : List UInt8
  /-- What the server has written since it began. -/
  serverSaid : List UInt8

namespace Streams

/-- The start: the client's NUL byte is under way. -/
def initial (S : Setup) : Streams where
  client := S.initial.client
  server := S.initial.server
  disk := S.disk
  clientWritten := 0
  serverWritten := 0
  toServer := [0]
  toClient := []
  serverReader := .new
  clientReader := .new
  greeted := false
  clientSaid := []
  serverSaid := []

/-- Whether the server has to receive something before it can go on. -/
def serverWaits (W : Streams) : Bool :=
  if W.greeted then W.serverReader.takeLine.isNone else W.serverReader.readBuf.isEmpty

/-- **One step of either side**: it writes some bytes of a line, or all that is left of it, it
receives a chunk, or takes a line from what it has. A side whose peer has given up reads the end
of the stream, and can fail to write. -/
inductive Step (sha1 : Digest) (S : Setup) (W : Streams) : Streams → Prop
  | clientWrites (line : String) (n : ℕ) (next : W.client.lines.head? = some line) (pos : 0 < n)
      (lt : W.clientWritten + n < (lineBytes line).length) :
      Step sha1 S W { W with
        toServer := W.toServer ++ ((lineBytes line).drop W.clientWritten).take n
        clientWritten := W.clientWritten + n }
  | clientEnds (line : String) (next : W.client.lines.head? = some line) :
      Step sha1 S W { W with
        toServer := W.toServer ++ (lineBytes line).drop W.clientWritten
        clientWritten := 0
        client := W.client.wrote }
  | clientReceives (chunk rest : List UInt8) (hears : W.client.hears = true)
      (waits : W.clientReader.takeLine = none) (arrived : W.toClient = chunk ++ rest)
      (ne : chunk ≠ []) (room : chunk.length ≤ recvSize) :
      Step sha1 S W { W with toClient := rest, clientReader := W.clientReader.receive chunk }
  | clientHears (machine : Machine) (fits : S.Fits machine) (line : String) (t : Transport)
      (hears : W.client.hears = true) (taken : W.clientReader.takeLine = some (.ok line, t)) :
      Step sha1 S W { W with
        client := W.client.heard sha1 machine W.disk line
        clientReader := t }
  | clientBalks (x : Outcome ReadError String) (t : Transport) (text : String)
      (hears : W.client.hears = true) (taken : W.clientReader.takeLine = some (x, t))
      (bad : ∀ line, x ≠ .ok line) :
      Step sha1 S W { W with client := .failed text, clientReader := t }
  | clientReadsEnd (reason : String) (hears : W.client.hears = true)
      (waits : W.clientReader.takeLine = none) (gone : W.server = .failed reason)
      (empty : W.toClient = []) :
      Step sha1 S W { W with client := .failed "peer closed" }
  | clientCannotWrite (line reason text : String) (next : W.client.lines.head? = some line)
      (gone : W.server = .failed reason) :
      Step sha1 S W { W with client := .failed text, clientWritten := 0 }
  | serverWrites (line : String) (n : ℕ) (next : W.server.lines.head? = some line) (pos : 0 < n)
      (lt : W.serverWritten + n < (lineBytes line).length) :
      Step sha1 S W { W with
        toClient := W.toClient ++ ((lineBytes line).drop W.serverWritten).take n
        serverWritten := W.serverWritten + n }
  | serverEnds (line : String) (next : W.server.lines.head? = some line) :
      Step sha1 S W { W with
        toClient := W.toClient ++ (lineBytes line).drop W.serverWritten
        serverWritten := 0
        server := W.server.wrote }
  | serverReceives (auth : ServerAuth) (chunk rest : List UInt8) (hears : W.server = .reading auth)
      (waits : W.serverWaits = true) (arrived : W.toServer = chunk ++ rest) (ne : chunk ≠ [])
      (room : chunk.length ≤ recvSize) :
      Step sha1 S W { W with toServer := rest, serverReader := W.serverReader.receive chunk }
  | serverGreeted (auth : ServerAuth) (bs : List UInt8) (hears : W.server = .reading auth)
      (early : W.greeted = false) (found : W.serverReader.readBuf = 0 :: bs) :
      Step sha1 S W { W with
        greeted := true
        serverReader := { W.serverReader with readBuf := bs } }
  | serverNotGreeted (auth : ServerAuth) (b : UInt8) (bs : List UInt8)
      (hears : W.server = .reading auth) (early : W.greeted = false)
      (found : W.serverReader.readBuf = b :: bs) (other : b ≠ 0) :
      Step sha1 S W { W with
        server := .failed "no leading NUL byte: expected leading NUL byte" }
  | serverHears (machine : Machine) (fits : S.Fits machine) (auth : ServerAuth) (line : String)
      (t : Transport) (hears : W.server = .reading auth) (late : W.greeted = true)
      (taken : W.serverReader.takeLine = some (.ok line, t)) :
      Step sha1 S W { W with
        server := serverAfter (auth.feedLine sha1 machine W.disk line)
        disk := (auth.feedLine sha1 machine W.disk line).disk
        serverReader := t }
  | serverBalks (auth : ServerAuth) (x : Outcome ReadError String) (t : Transport) (text : String)
      (hears : W.server = .reading auth) (late : W.greeted = true)
      (taken : W.serverReader.takeLine = some (x, t)) (bad : ∀ line, x ≠ .ok line) :
      Step sha1 S W { W with
        server := .failed ("SASL read error: " ++ text)
        serverReader := t }
  | serverReadsEnd (auth : ServerAuth) (reason : String) (hears : W.server = .reading auth)
      (waits : W.serverWaits = true) (gone : W.client = .failed reason) (empty : W.toServer = []) :
      Step sha1 S W { W with
        server := .failed (if W.greeted then "SASL read error: peer closed"
          else "no leading NUL byte: peer closed") }
  | serverCannotWrite (line reason text : String) (next : W.server.lines.head? = some line)
      (gone : W.client = .failed reason) :
      Step sha1 S W { W with
        server := .failed ("SASL write error: " ++ text)
        serverWritten := 0 }

/-- **A side that is through says more**, whatever the other one does. -/
inductive Talks (W : Streams) : Streams → Prop
  | client (bs : List UInt8) (through : W.client = .succeeded) :
      Talks W { W with toServer := W.toServer ++ bs, clientSaid := W.clientSaid ++ bs }
  | server (auth : ServerAuth) (bs : List UInt8) (through : W.server = .begun auth) :
      Talks W { W with toClient := W.toClient ++ bs, serverSaid := W.serverSaid ++ bs }

/-- **What either side can come to**, in any order of steps. -/
def Reachable (sha1 : Digest) (S : Setup) (W : Streams) : Prop :=
  Relation.ReflTransGen (fun W W' => Step sha1 S W W' ∨ Talks W W') (initial S) W

/-! ## What is left to do -/

/-- How much is left to write of the first of some lines. -/
def unwritten (writing : List String) (written : ℕ) : ℕ :=
  match writing with
  | [] => 0
  | line :: _ => (lineBytes line).length - written

/-- **What is left to do before the conversation goes on**: bytes to be written, bytes to be
received, and the NUL byte to be found. -/
def left (W : Streams) : ℕ :=
  2 * unwritten W.client.lines W.clientWritten + 2 * unwritten W.server.lines W.serverWritten +
    W.toServer.length + W.toClient.length + if W.greeted then 0 else 1

end Streams

end Oxibus
