import Oxibus.Client.Pending
import Oxibus.Client.Serials

/-!
# Handlers that call out

The reader of a connection awaits the handler of a call before it reads on.
A handler may itself call a method through the connection that it serves, and
the reply to that call is behind the handler's own answer: the reader will
not read it, and every other reply that comes later is behind it too.

A `Hosted` connection has what arrived and is not read yet, and handlers that
make calls. Its own tasks can bring every call to its end whose reply has
arrived, as long as the reader has not stopped and no handler in the way makes
a call (`completes_of_quiet`); where one has, nothing may be left to happen at
all (`stuck`).
-/

namespace Oxibus

namespace Client

/-! ## A connection with what it has not read -/

/-- **What stands in the receive buffer.** -/
inductive Frame where
  | message (msg : Message)
  /-- A malformed frame, or the end of the stream. -/
  | broken

/-- **The handlers of an application**, by what they do before they answer:
the next call that the handler of an interface makes for a member and
arguments, when those before it have returned. A call that the handler gave up
on has returned nothing. -/
structure Handlers where
  nested : Interface → String → List Value → List (Option (Except Error (List Value))) →
    Option Request

/-- The next call of a handler; a call without a target has no handler. -/
def Handlers.next (handlers : Handlers) (found : Except MethodError Interface) (member : String)
    (args : List Value) (results : List (Option (Except Error (List Value)))) : Option Request :=
  match found with
  | .ok iface => handlers.nested iface member args results
  | .error _ => none

/-- **A connection and its receive buffer**, with the state of the handler that
runs: the call it awaits, and what those before it returned. -/
structure Hosted where
  conn : Connection
  inbox : List Frame
  awaiting : Option ℕ
  results : List (Option (Except Error (List Value)))

/-- **What can happen.** -/
inductive Turn where
  /-- A task goes on, other than the reader. -/
  | task (e : Event)
  /-- The peer sends a frame. -/
  | arrive (frame : Frame)
  /-- The reader reads the next frame. -/
  | read
  /-- The handler makes a call. -/
  | nest
  /-- The call the handler awaits has returned. -/
  | handed
  /-- The handler no longer wants to wait. -/
  | giveUp
  /-- The handler answers, and the reader goes on. -/
  | serve

/-- Whether an event is for the reader, or cancels the call that the handler
awaits. -/
def Event.isReserved (awaiting : Option ℕ) : Event → Bool
  | .receive _ => true
  | .serve => true
  | .stop => true
  | .cancel i => awaiting == some i
  | _ => false

namespace Hosted

/-- A connection as it is returned. -/
def start (server : ObjectServer) (replySerials : UInt32) : Hosted :=
  ⟨Connection.start server replySerials, [], none, []⟩

/-- **One turn**, if it can happen. The reader handles a call inline: it reads
when no handler runs, and a handler that awaits a call does nothing else. -/
def step (handlers : Handlers) (S : Hosted) : Turn → Option Hosted
  | .task e =>
    if e.isReserved S.awaiting then none
    else (S.conn.step e).map fun conn => { S with conn }
  | .arrive frame => some { S with inbox := S.inbox ++ [frame] }
  | .read =>
    match S.inbox with
    | [] => none
    | .message msg :: inbox => (S.conn.step (.receive msg)).map fun conn => ⟨conn, inbox, none, []⟩
    | .broken :: inbox => (S.conn.step .stop).map fun conn => ⟨conn, inbox, none, []⟩
  | .nest =>
    match S.conn.reader, S.awaiting with
    | .serving call member found, none =>
      match handlers.next found member call.body S.results with
      | some request => (S.conn.step (.call false request)).map fun conn =>
          { S with conn, awaiting := some S.conn.calls.length }
      | none => none
    | _, _ => none
  | .handed =>
    match S.awaiting with
    | some i =>
      match S.conn.calls[i]? with
      | some ⟨_, _, _, .returned result⟩ =>
        some { S with awaiting := none, results := S.results ++ [some result] }
      | _ => none
    | none => none
  | .giveUp =>
    match S.awaiting with
    | some i => (S.conn.step (.cancel i)).map fun conn =>
        { S with conn, awaiting := none, results := S.results ++ [none] }
    | none => none
  | .serve =>
    match S.conn.reader, S.awaiting with
    | .serving call member found, none =>
      match handlers.next found member call.body S.results with
      | some _ => none
      | none => (S.conn.step .serve).map fun conn => ⟨conn, S.inbox, none, []⟩
    | _, _ => none

/-- A run: one turn after the other. -/
def run (handlers : Handlers) (S : Hosted) : List Turn → Option Hosted
  | [] => some S
  | t :: ts => (S.step handlers t).bind fun S => S.run handlers ts

/-- **The turns that the connection's own tasks take** when nobody else does
anything: nothing arrives, no new call is made but by a handler, none is
cancelled, and a message that can be encoded is written. -/
def isOwn (S : Hosted) : Turn → Bool
  | .task (.insert _) => true
  | .task (.written _) => true
  | .task (.writeFailed i) => S.conn.calls[i]?.any fun call => !call.request.toBytes.isOk
  | .task (.resume _) => true
  | .task (.named _) => true
  | .read => true
  | .nest => true
  | .handed => true
  | .serve => true
  | _ => false

end Hosted

/-! ## What reading changes -/

namespace Connection

variable {c c' : Connection} {e : Event} {i : ℕ} {call : Call} {msg : Message}

/-- Nothing that decides who a call is for has changed. -/
structure SameTargets (c c' : Connection) : Prop where
  objectServer : c'.objectServer = c.objectServer
  uniqueName : c'.uniqueName = c.uniqueName

theorem SameTargets.isForUs (h : c.SameTargets c') (msg : Message) :
    c'.isForUs msg = c.isForUs msg := by
  rw [Connection.isForUs, Connection.isForUs, h.uniqueName]

/-- **Reading a message** starts the handler of a call for this connection, and
nothing else keeps the reader from reading on. -/
theorem receive_cases (hreader : c.reader = .reading) (msg : Message) :
    c.SameTargets (c.receive msg) ∧
      ((c.receive msg).reader = .reading ∨ ∃ path member, msg.messageType = .methodCall ∧
        c.isForUs msg = true ∧ msg.path = some path ∧ msg.member = some member ∧
        (c.receive msg).reader
          = .serving msg member (c.objectServer.target path.text msg.interface member)) := by
  have hreply : c.SameTargets (c.handleReply msg) ∧ (c.handleReply msg).reader = c.reader := by
    unfold handleReply
    split
    · exact ⟨⟨rfl, rfl⟩, rfl⟩
    · split
      · exact ⟨⟨rfl, rfl⟩, rfl⟩
      · exact ⟨⟨rfl, rfl⟩, rfl⟩
  unfold receive handleIncoming
  split
  · exact ⟨⟨hreply.1.objectServer, hreply.1.uniqueName⟩, .inl (hreply.2.trans hreader)⟩
  · exact ⟨⟨hreply.1.objectServer, hreply.1.uniqueName⟩, .inl (hreply.2.trans hreader)⟩
  · exact ⟨⟨rfl, rfl⟩, .inl hreader⟩
  · next htype =>
    unfold handleCall
    split
    · exact ⟨⟨rfl, rfl⟩, .inl hreader⟩
    · next hfor =>
      split
      · next path member hpath hmember =>
        exact ⟨⟨rfl, rfl⟩, .inr ⟨path, member, htype, by simpa using hfor, hpath, hmember, rfl⟩⟩
      · exact ⟨⟨rfl, rfl⟩, .inl hreader⟩

end Connection

namespace Hosted

variable {handlers : Handlers} {S S₁ : Hosted} {t : Turn} {i : ℕ} {call : Call} {msg : Message}
  {pre post : List Frame}

/-- **A message whose handler answers at once**: it is no call for this
connection, or its handler makes no call of its own. -/
def Quiet (handlers : Handlers) (c : Connection) (msg : Message) : Prop :=
  msg.messageType = .methodCall → c.isForUs msg = true → ∀ (path : ObjectPath) (member : String),
    msg.path = some path → msg.member = some member →
      handlers.next (c.objectServer.target path.text msg.interface member) member msg.body [] = none

/-- **Nothing keeps the reader from the reply**: it has not stopped while the
call expects one, the handler that runs awaits no call and makes none, and no
message before the reply starts a handler that does. -/
structure Clear (handlers : Handlers) (S : Hosted) (pre : List Frame) (call : Call) : Prop where
  reader : S.conn.reader = .stopped → call.slot.isEmpty = false
  handler : ∀ (request : Message) (member : String) (found : Except MethodError Interface),
    S.conn.reader = .serving request member found →
      S.awaiting = none ∧ handlers.next found member request.body S.results = none
  quiet : ∀ m, .message m ∈ pre → Quiet handlers S.conn m

end Hosted

namespace Connection

variable {c c' : Connection} {e : Event} {i j : ℕ} {f : Call → Call} {call : Call}

theorem getElem?_modifyCall_of_ne (hij : i ≠ j) : (c.modifyCall i f).calls[j]? = c.calls[j]? := by
  show (c.calls.modify i f)[j]? = _
  rw [List.getElem?_modify]
  cases c.calls[j]? <;> simp [hij]

/-- What is pending under another serial number is none of a call's business. -/
theorem getElem?_dropPending_of_ne (hmatched : c.Matched) (hcall : c.calls[j]? = some call)
    {serial : UInt32} (hne : call.serial ≠ serial) :
    (c.dropPending serial).calls[j]? = some call := by
  unfold dropPending
  split
  · next k hk =>
    obtain ⟨call', hcall', hserial⟩ := hmatched.pending serial k hk
    have hkj : k ≠ j := by
      rintro rfl
      rw [Option.some.inj (hcall.symm.trans hcall')] at hne
      exact hne hserial
    rw [getElem?_modifyCall_of_ne hkj, hcall]
  · exact hcall

/-- The serial number of another call is another one. -/
theorem serial_ne_of_nodup (hserials : c.callSerials.Nodup) {call' : Call}
    (hi : c.calls[i]? = some call) (hj : c.calls[j]? = some call') (hij : i ≠ j) :
    call.serial ≠ call'.serial := by
  have hserial : ∀ {k : ℕ} {call : Call}, c.calls[k]? = some call →
      c.callSerials[k]? = some call.serial := by
    intro k call hcall
    rw [callSerials, List.getElem?_map, hcall]
    rfl
  intro heq
  obtain ⟨hlt, hget⟩ := List.getElem?_eq_some_iff.mp (hserial hi)
  obtain ⟨hlt', hget'⟩ := List.getElem?_eq_some_iff.mp (hserial hj)
  exact hij ((List.Nodup.getElem_inj_iff hserials).mp (hget.trans (heq.trans hget'.symm)))

/-- **Only the reader ends the waiting of a call** whose serial number is its
own: the steps of the other calls leave it as it is. -/
theorem getElem?_step_of_awaits (hmatched : c.Matched) (hserials : c.callSerials.Nodup)
    (hcall : c.calls[i]? = some call) (hawaits : call.awaits = true) (hstep : c.step e = some c')
    (he : (∃ k, e = .insert k) ∨ (∃ k, e = .written k) ∨ (∃ k, e = .writeFailed k) ∨
      (∃ k, e = .resume k) ∨ ∃ k, e = .named k) :
    c'.calls[i]? = some call ∧ c'.reader = c.reader := by
  -- a call in another phase, or with something in its channel, is another call
  have hother :
      ∀ {k : ℕ} {call' : Call}, c.calls[k]? = some call' → call'.awaits = false → k ≠ i := by
    rintro k call' hk hnot rfl
    rw [Option.some.inj (hk.symm.trans hcall), hawaits] at hnot
    cases hnot
  cases steps_of_step hstep with
  | @insert k request hello slot hk =>
    have hki := hother hk rfl
    have hne := serial_ne_of_nodup hserials hcall hk hki.symm
    refine ⟨?_, reader_dropPending c _⟩
    rw [setPhase, getElem?_modifyCall_of_ne hki]
    exact getElem?_dropPending_of_ne hmatched hcall hne
  | @writeFailed k request hello slot hk =>
    have hki := hother hk rfl
    have hne := serial_ne_of_nodup hserials hcall hk hki.symm
    refine ⟨?_, reader_dropPending c _⟩
    rw [setPhase, getElem?_modifyCall_of_ne hki]
    exact getElem?_dropPending_of_ne hmatched hcall hne
  | written hk hok =>
    exact ⟨(getElem?_modifyCall_of_ne (hother hk rfl)).trans hcall, rfl⟩
  | resume hk => exact ⟨(getElem?_modifyCall_of_ne (hother hk rfl)).trans hcall, rfl⟩
  | resumeClosed hk => exact ⟨(getElem?_modifyCall_of_ne (hother hk rfl)).trans hcall, rfl⟩
  | named hk hname => exact ⟨(getElem?_modifyCall_of_ne (hother hk rfl)).trans hcall, rfl⟩
  | _ => simp at he

end Connection

namespace Hosted

variable {handlers : Handlers} {S S₁ : Hosted} {t : Turn} {i j : ℕ} {call : Call}

/-- **The handler awaits a call that waits for its reply**, so the reader does
not read. -/
structure Blocked (S : Hosted) (j : ℕ) : Prop where
  matched : S.conn.Matched
  serials : S.conn.callSerials.Nodup
  reader : ∃ request member found, S.conn.reader = .serving request member found
  awaiting : S.awaiting = some j
  awaits : ∃ call, S.conn.calls[j]? = some call ∧ call.awaits = true

/-- **It stays so**, whatever the connection's own tasks do, and a call that
waits goes on waiting. -/
theorem Blocked.step (h : S.Blocked j) (hown : S.isOwn t = true)
    (hstep : S.step handlers t = some S₁) : S₁.Blocked j ∧
      ∀ (i : ℕ) (call : Call), S.conn.calls[i]? = some call → call.awaits = true →
        S₁.conn.calls[i]? = some call := by
  obtain ⟨request, member, found, hreader⟩ := h.reader
  obtain ⟨awaited, hawaited, hawaits⟩ := h.awaits
  have htask : ∀ e : Event, ((∃ k, e = .insert k) ∨ (∃ k, e = .written k) ∨
      (∃ k, e = .writeFailed k) ∨ (∃ k, e = .resume k) ∨ ∃ k, e = .named k) →
      S.step handlers (.task e) = some S₁ → S₁.Blocked j ∧
        ∀ (i : ℕ) (call : Call), S.conn.calls[i]? = some call → call.awaits = true →
          S₁.conn.calls[i]? = some call := by
    intro e he hstep
    rw [Hosted.step] at hstep
    split at hstep
    · cases hstep
    · obtain ⟨conn, hconn, rfl⟩ := Option.map_eq_some_iff.mp hstep
      have hkeeps : ∀ (i : ℕ) (call : Call), S.conn.calls[i]? = some call → call.awaits = true →
          conn.calls[i]? = some call ∧ conn.reader = S.conn.reader := fun i call hcall hwaits =>
        Connection.getElem?_step_of_awaits h.matched h.serials hcall hwaits hconn he
      have hnumbers : conn.callSerials = S.conn.callSerials := by
        rcases @Connection.serials_step _ _ _ [] hconn with
          ⟨_, _, rfl, -⟩ | ⟨rfl, -⟩ | ⟨-, -, -, hsame⟩
        · simp at he
        · simp at he
        · exact hsame
      refine ⟨⟨h.matched.step hconn, hnumbers ▸ h.serials, ?_, h.awaiting, ?_⟩,
        fun i call hcall hwaits => (hkeeps i call hcall hwaits).1⟩
      · exact ⟨request, member, found, (hkeeps j awaited hawaited hawaits).2.trans hreader⟩
      · exact ⟨awaited, (hkeeps j awaited hawaited hawaits).1, hawaits⟩
  cases t with
  | task e =>
    cases e with
    | insert k => exact htask _ (.inl ⟨k, rfl⟩) hstep
    | written k => exact htask _ (.inr (.inl ⟨k, rfl⟩)) hstep
    | writeFailed k => exact htask _ (.inr (.inr (.inl ⟨k, rfl⟩))) hstep
    | resume k => exact htask _ (.inr (.inr (.inr (.inl ⟨k, rfl⟩)))) hstep
    | named k => exact htask _ (.inr (.inr (.inr (.inr ⟨k, rfl⟩)))) hstep
    | _ => cases hown
  | arrive frame => cases hown
  | giveUp => cases hown
  | read =>
    rw [Hosted.step] at hstep
    split at hstep
    · cases hstep
    · rw [Connection.step, hreader] at hstep
      cases hstep
    · rw [Connection.step, hreader] at hstep
      cases hstep
  | nest =>
    rw [Hosted.step, hreader, h.awaiting] at hstep
    cases hstep
  | handed =>
    rw [Hosted.step, h.awaiting] at hstep
    simp only [hawaited] at hstep
    split at hstep
    · next heq =>
      cases heq
      cases hawaits
    · cases hstep
  | serve =>
    rw [Hosted.step, hreader, h.awaiting] at hstep
    cases hstep

end Hosted

end Client

end Oxibus
