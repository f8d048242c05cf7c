import Oxibus.Core.Message
import Oxibus.Client.Descriptors
import Oxibus.Client.ObjectServer

/-!
# The connection of a client

Any number of tasks call methods through clones of one connection. A call
draws a serial number, leaves the sender of a channel in the table of pending
calls under it, writes its message and waits for what comes out of the
channel. One task reads: a reply goes to the call that is pending under its
serial, a call from elsewhere to the object it names, and the reader writes
the answer before it reads on. When it stops, the table is cleared.

Between two points where a task waits, another one may run. A run of a
connection is a list of such stretches, and `Connection.step` says what each
does and when it can happen. The writing of one frame is one stretch here;
how the frames of several writers share the stream is another matter.
-/

namespace Oxibus

namespace Client

/-- Why a call fails. -/
inductive Error where
  | io
  | protocol (reason : String)
  | callError (name message : String)
  | closed
  deriving DecidableEq, Repr

/-! ## Calls -/

/-- What a call asks for: the arguments of `call_method`. -/
structure Request where
  destination : Option String
  path : ObjectPath
  interface : Option String
  member : String
  args : List Value

/-- Let descriptors travel with a message. -/
def addFds (b : Message.Builder) (fds : List Int32) : Message.Builder :=
  fds.foldl Message.Builder.fd b

/-- **The message of a call.** -/
def Request.build (r : Request) (serial : UInt32) : Message :=
  let b := Message.Builder.methodCall r.path r.member
  let b := match r.interface with
    | some i => b.interface i
    | none => b
  let b := match r.destination with
    | some d => b.destination d
    | none => b
  let extracted := Value.extractFds r.args []
  ((addFds b extracted.2).args extracted.1).build serial

/-- A call of a method of the driver. -/
def busRequest (member : String) (args : List Value) : Request :=
  ⟨some WellKnown.busName, WellKnown.busPath, some WellKnown.busInterface, member, args⟩

/-- The call by which `bus_hello` registers the connection. -/
def helloRequest : Request := busRequest "Hello" []

/-- The call by which `request_name` asks for a name. -/
def nameRequest (name : String) (flags : UInt32) : Request :=
  busRequest "RequestName" [.string name, .uint32 flags]

/-- What a call returns when it gets a reply. -/
def outcome (reply : Message) : Except Error (List Value) :=
  match reply.messageType with
  | .methodReturn => .ok reply.body
  | .error => .error (.callError (reply.header.errorName.getD "")
      ((reply.body.head?.bind Value.asStr).getD ""))
  | _ => .error (.protocol "unexpected reply message type")

/-- **The channel of a call**, seen from the end that waits. -/
inductive Slot where
  /-- Nothing has been sent. -/
  | empty
  /-- A reply has been sent: the message that was read when `n` others had
  been. -/
  | filled (n : ℕ) (reply : Message)
  /-- The sender is gone. -/
  | dropped

/-- **How far a call has come.** -/
inductive Phase where
  /-- It has its serial number. -/
  | started
  /-- It is pending, and its message is being written. -/
  | writing
  /-- Its message is written. -/
  | waiting
  | returned (result : Except Error (List Value))
  /-- The task was cancelled while it waited. -/
  | cancelled

/-- **A call of `call_method`.** -/
structure Call where
  /-- Its message. -/
  request : Message
  /-- Whether `bus_hello` waits for it. -/
  hello : Bool
  slot : Slot
  phase : Phase

namespace Call

def serial (call : Call) : UInt32 := call.request.serial

/-- The sender of the channel is dropped. -/
def drop (call : Call) : Call :=
  match call.slot with
  | .empty => { call with slot := .dropped }
  | _ => call

/-- A reply is sent into the channel. -/
def fill (n : ℕ) (reply : Message) (call : Call) : Call :=
  match call.slot with
  | .empty => { call with slot := .filled n reply }
  | _ => call

end Call

/-! ## The connection -/

/-- **What the reader is doing.** -/
inductive Reader where
  | reading
  /-- A call is being answered: its target was looked up. -/
  | serving (call : Message) (member : String) (found : Except MethodError Interface)
  | stopped

/-- Whether the reader serves a call. -/
def Reader.isServing : Reader → Bool
  | serving _ _ _ => true
  | _ => false

/-- Whether the reader waits for a message. -/
def Reader.isReading : Reader → Bool
  | reading => true
  | _ => false

theorem Reader.eq_reading {r : Reader} (h : r.isReading = true) : r = .reading := by
  cases r with
  | reading => rfl
  | _ => cases h

/-- **A connection.** -/
structure Connection where
  /-- The name that the reply to Hello gave. -/
  uniqueName : Option String
  objectServer : ObjectServer
  /-- The pending calls, by their serial numbers. -/
  pending : AList fun _ : UInt32 => ℕ
  /-- The counter of serial numbers. -/
  serials : UInt32
  /-- The counter for replies, which all connections of the process share. -/
  replySerials : UInt32
  /-- The calls, in the order they began. -/
  calls : List Call
  reader : Reader
  /-- What was read, in order. -/
  received : List Message
  /-- What the reader has written, in order. -/
  replies : List Message

/-- **What can happen to a connection.** -/
inductive Event where
  /-- A call begins, of `bus_hello` or of another task. -/
  | call (hello : Bool) (request : Request)
  /-- A call enters the table of pending calls. -/
  | insert (i : ℕ)
  /-- The message of a call is written. -/
  | written (i : ℕ)
  /-- The message of a call cannot be written. -/
  | writeFailed (i : ℕ)
  /-- A call that waits goes on. -/
  | resume (i : ℕ)
  /-- A call that waits is cancelled. -/
  | cancel (i : ℕ)
  /-- `bus_hello` takes the name it was given. -/
  | named (i : ℕ)
  /-- A serial number goes to a message that expects no reply. -/
  | drawSerial
  /-- Another connection of the process numbers a reply. -/
  | drawReplySerial
  /-- The application exports other objects. -/
  | exported (server : ObjectServer)
  /-- The reader reads a message. -/
  | receive (msg : Message)
  /-- The handler has answered, and the reader goes on. -/
  | serve
  /-- The stream ends, or a frame is malformed. -/
  | stop

namespace Connection

/-- A connection as `connect_with` returns it. -/
def start (server : ObjectServer) (replySerials : UInt32) : Connection :=
  ⟨none, server, ∅, 1, replySerials, [], .reading, [], []⟩

def modifyCall (c : Connection) (i : ℕ) (f : Call → Call) : Connection :=
  { c with calls := c.calls.modify i f }

def setPhase (c : Connection) (i : ℕ) (phase : Phase) : Connection :=
  c.modifyCall i fun call => { call with phase }

/-- The sender that is pending under a serial number is dropped, if there is
one. -/
def dropPending (c : Connection) (serial : UInt32) : Connection :=
  match c.pending.lookup serial with
  | some i => c.modifyCall i Call.drop
  | none => c

/-- A call enters the table. -/
def insertPending (c : Connection) (serial : UInt32) (i : ℕ) : Connection :=
  { c.dropPending serial with pending := c.pending.insert serial i }

/-- What is pending under a serial number leaves the table. -/
def removePending (c : Connection) (serial : UInt32) : Connection :=
  { c.dropPending serial with pending := c.pending.erase serial }

/-! ### The reader -/

/-- A reply: the call that is pending under its serial gets it. -/
def handleReply (c : Connection) (msg : Message) : Connection :=
  match msg.replySerial with
  | none => c
  | some serial =>
    match c.pending.lookup serial with
    | none => c
    | some i =>
      { c.modifyCall i (Call.fill c.received.length msg) with pending := c.pending.erase serial }

/-- Whether a call is for this connection: it is addressed to nobody, or to
the name the connection knows to be its own. -/
def isForUs (c : Connection) (msg : Message) : Bool :=
  match msg.destination with
  | none => true
  | some dest => c.uniqueName == some dest

/-- A call from elsewhere: its target is looked up. -/
def handleCall (c : Connection) (msg : Message) : Connection :=
  if !c.isForUs msg then c
  else
    match msg.path, msg.member with
    | some path, some member =>
      { c with
        reader := .serving msg member (c.objectServer.target path.text msg.interface member) }
    | _, _ => c

/-- **The reader handles a message.** -/
def handleIncoming (c : Connection) (msg : Message) : Connection :=
  match msg.messageType with
  | .methodReturn => c.handleReply msg
  | .error => c.handleReply msg
  | .signal => c
  | .methodCall => c.handleCall msg

/-- A message was read. -/
def receive (c : Connection) (msg : Message) : Connection :=
  { c.handleIncoming msg with received := c.received ++ [msg] }

/-- **The reply to a call.** -/
def reply (call : Message) (result : MethodResult) : Message.Builder :=
  match result with
  | .ok values =>
    let extracted := Value.extractFds values []
    (addFds (Message.replyTo call none) extracted.2).args extracted.1
  | .error e => (Message.replyTo call (some e.name)).arg (.string e.message)

/-- What goes over the wire of a message: nothing, if it cannot be encoded. -/
def written (msg : Message) : List Message := if msg.toBytes.isOk then [msg] else []

/-- The handler has answered; the reader replies, if a reply is wanted, and
reads on. -/
def serve (c : Connection) (call : Message) (member : String)
    (found : Except MethodError Interface) : Connection :=
  let result := ObjectServer.answer found member call.body
  if call.noReplyExpected then { c with reader := .reading }
  else { c with
    reader := .reading
    replySerials := (nextSerial c.replySerials).2
    replies := c.replies ++ written ((reply call result).build (nextSerial c.replySerials).1) }

/-- Whether the table holds the sender of a call. -/
def isPending (c : Connection) (i : ℕ) : Bool := c.pending.entries.any fun e => e.2 == i

/-- The reader stops: the table is cleared. -/
def stop (c : Connection) : Connection :=
  { c with
    reader := .stopped
    pending := ∅
    calls := c.calls.mapIdx fun i call => if c.isPending i then call.drop else call }

/-! ### Steps and runs -/

/-- **One event**, if it can happen. -/
def step (c : Connection) : Event → Option Connection
  | .call hello request =>
    let serial := nextSerial c.serials
    some { c with
      serials := serial.2
      calls := c.calls ++ [⟨request.build serial.1, hello, .empty, .started⟩] }
  | .insert i =>
    match c.calls[i]? with
    | some ⟨request, _, _, .started⟩ =>
      some ((c.insertPending request.serial i).setPhase i .writing)
    | _ => none
  | .written i =>
    match c.calls[i]? with
    | some ⟨request, _, _, .writing⟩ =>
      if request.toBytes.isOk then some (c.setPhase i .waiting) else none
    | _ => none
  | .writeFailed i =>
    match c.calls[i]? with
    | some ⟨request, _, _, .writing⟩ =>
      some ((c.removePending request.serial).setPhase i (.returned (.error .io)))
    | _ => none
  | .resume i =>
    match c.calls[i]? with
    | some ⟨_, _, .filled _ reply, .waiting⟩ =>
      some (c.setPhase i (.returned (outcome reply)))
    | some ⟨_, _, .dropped, .waiting⟩ => some (c.setPhase i (.returned (.error .closed)))
    | _ => none
  | .cancel i =>
    match c.calls[i]? with
    | some ⟨_, _, _, .writing⟩ => some (c.setPhase i .cancelled)
    | some ⟨_, _, _, .waiting⟩ => some (c.setPhase i .cancelled)
    | _ => none
  | .named i =>
    match c.calls[i]? with
    | some ⟨_, true, _, .returned (.ok values)⟩ =>
      match values.head?.bind Value.asStr with
      | some name =>
        some { c.modifyCall i (fun call => { call with hello := false }) with
          uniqueName := some name }
      | none => none
    | _ => none
  | .drawSerial => some { c with serials := (nextSerial c.serials).2 }
  | .drawReplySerial => some { c with replySerials := (nextSerial c.replySerials).2 }
  | .exported server => some { c with objectServer := server }
  | .receive msg =>
    match c.reader with
    | .reading => some (c.receive msg)
    | _ => none
  | .serve =>
    match c.reader with
    | .serving call member found => some (c.serve call member found)
    | _ => none
  | .stop =>
    match c.reader with
    | .reading => some c.stop
    | _ => none

/-- **What each event does**, where it can happen. -/
inductive Steps (c : Connection) : Event → Connection → Prop where
  | call (hello : Bool) (request : Request) :
    Steps c (.call hello request) { c with
      serials := (nextSerial c.serials).2
      calls := c.calls ++ [⟨request.build (nextSerial c.serials).1, hello, .empty, .started⟩] }
  | insert {i : ℕ} {request : Message} {hello : Bool} {slot : Slot}
    (hcall : c.calls[i]? = some ⟨request, hello, slot, .started⟩) :
    Steps c (.insert i) ((c.insertPending request.serial i).setPhase i .writing)
  | written {i : ℕ} {request : Message} {hello : Bool} {slot : Slot}
    (hcall : c.calls[i]? = some ⟨request, hello, slot, .writing⟩)
    (hok : request.toBytes.isOk = true) : Steps c (.written i) (c.setPhase i .waiting)
  | writeFailed {i : ℕ} {request : Message} {hello : Bool} {slot : Slot}
    (hcall : c.calls[i]? = some ⟨request, hello, slot, .writing⟩) :
    Steps c (.writeFailed i)
      ((c.removePending request.serial).setPhase i (.returned (.error .io)))
  | resume {i n : ℕ} {request reply : Message} {hello : Bool}
    (hcall : c.calls[i]? = some ⟨request, hello, .filled n reply, .waiting⟩) :
    Steps c (.resume i) (c.setPhase i (.returned (outcome reply)))
  | resumeClosed {i : ℕ} {request : Message} {hello : Bool}
    (hcall : c.calls[i]? = some ⟨request, hello, .dropped, .waiting⟩) :
    Steps c (.resume i) (c.setPhase i (.returned (.error .closed)))
  | cancel {i : ℕ} {request : Message} {hello : Bool} {slot : Slot} {phase : Phase}
    (hcall : c.calls[i]? = some ⟨request, hello, slot, phase⟩)
    (hphase : phase = .writing ∨ phase = .waiting) :
    Steps c (.cancel i) (c.setPhase i .cancelled)
  | named {i : ℕ} {request : Message} {slot : Slot} {values : List Value} {name : String}
    (hcall : c.calls[i]? = some ⟨request, true, slot, .returned (.ok values)⟩)
    (hname : values.head?.bind Value.asStr = some name) :
    Steps c (.named i) { c.modifyCall i (fun call => { call with hello := false }) with
      uniqueName := some name }
  | drawSerial : Steps c .drawSerial { c with serials := (nextSerial c.serials).2 }
  | drawReplySerial :
    Steps c .drawReplySerial { c with replySerials := (nextSerial c.replySerials).2 }
  | exported (server : ObjectServer) : Steps c (.exported server) { c with objectServer := server }
  | receive (msg : Message) (hreader : c.reader = .reading) : Steps c (.receive msg) (c.receive msg)
  | serve {call : Message} {member : String} {found : Except MethodError Interface}
    (hreader : c.reader = .serving call member found) :
    Steps c .serve (c.serve call member found)
  | stop (hreader : c.reader = .reading) : Steps c .stop c.stop

/-- An event does nothing else. -/
theorem steps_of_step {c c' : Connection} {e : Event} (h : c.step e = some c') : Steps c e c' := by
  cases e with
  | call hello request =>
    cases h
    exact .call hello request
  | insert i =>
    simp only [step] at h
    split at h
    · next hcall =>
      cases h
      exact .insert hcall
    · cases h
  | written i =>
    simp only [step] at h
    split at h
    · next hcall =>
      split at h
      · next hok =>
        cases h
        exact .written hcall hok
      · cases h
    · cases h
  | writeFailed i =>
    simp only [step] at h
    split at h
    · next hcall =>
      cases h
      exact .writeFailed hcall
    · cases h
  | resume i =>
    simp only [step] at h
    split at h
    · next hcall =>
      cases h
      exact .resume hcall
    · next hcall =>
      cases h
      exact .resumeClosed hcall
    · cases h
  | cancel i =>
    simp only [step] at h
    split at h
    · next hcall =>
      cases h
      exact .cancel hcall (.inl rfl)
    · next hcall =>
      cases h
      exact .cancel hcall (.inr rfl)
    · cases h
  | named i =>
    simp only [step] at h
    split at h
    · next hcall =>
      split at h
      · next hname =>
        cases h
        exact .named hcall hname
      · cases h
    · cases h
  | drawSerial =>
    cases h
    exact .drawSerial
  | drawReplySerial =>
    cases h
    exact .drawReplySerial
  | exported server =>
    cases h
    exact .exported server
  | receive msg =>
    simp only [step] at h
    split at h
    · next hreader =>
      cases h
      exact .receive msg hreader
    · cases h
  | serve =>
    simp only [step] at h
    split at h
    · next hreader =>
      cases h
      exact .serve hreader
    · cases h
  | stop =>
    simp only [step] at h
    split at h
    · next hreader =>
      cases h
      exact .stop hreader
    · cases h

/-- **A run**: one event after the other. -/
def run (c : Connection) : List Event → Option Connection
  | [] => some c
  | e :: es => (c.step e).bind fun c => c.run es

variable {c c' : Connection} {e : Event} {es : List Event}

theorem run_cons : c.run (e :: es) = some c' ↔ ∃ c₁, c.step e = some c₁ ∧ c₁.run es = some c' :=
  Option.bind_eq_some_iff

theorem run_append {es₁ es₂ : List Event} :
    c.run (es₁ ++ es₂) = (c.run es₁).bind fun c => c.run es₂ := by
  induction es₁ generalizing c with
  | nil => rfl
  | cons e es₁ ih =>
    show (c.step e).bind _ = ((c.step e).bind _).bind _
    rw [Option.bind_assoc]
    exact congrArg _ (funext fun c => ih)

/-- **What every step keeps, every run keeps.** -/
theorem run_induction {P : Connection → Prop}
    (hstep : ∀ c e c', P c → c.step e = some c' → P c') (h : c.run es = some c') (hc : P c) :
    P c' := by
  induction es generalizing c with
  | nil =>
    cases h
    exact hc
  | cons e es ih =>
    obtain ⟨c₁, hc₁, hrun⟩ := run_cons.mp h
    exact ih hrun (hstep c e c₁ hc hc₁)

end Connection

end Client

end Oxibus
