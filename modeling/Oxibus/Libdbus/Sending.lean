import Oxibus.Client.Connection
import Oxibus.Libdbus.Message

/-!
# Sending a message of the C interface

A message is handed to a connection by one of two functions: one sends a call
and waits for the reply, the other sends a signal. Both take what the message
says out of it before they look at it, and neither puts anything back. So a
message is sent once at most, whatever becomes of it (`sends_le_one`), and one
that could not be sent is lost (`failed_send_keeps_iff`). What a program has built
lacks nothing that its kind needs (`Built.exists_complete`): a field is missing only
from a message that has been taken.

What a connection does with a call or a signal is a parameter: the answer and
the time it takes, or nothing, for good.
-/

namespace Oxibus

namespace Libdbus

/-! ## Errors -/

/-- An error that a program reads: texts, or null. -/
structure DBusError where
  name : Option String
  message : Option String
  deriving DecidableEq, Repr

/-- A text without null characters. -/
def withoutNul (s : String) : String := String.ofList (s.toList.filter (· != '\x00'))

/-- The C string of a text, or an empty one where there is none. -/
def cString (s : String) : String := if '\x00' ∈ s.toList then "" else s

def dbusSetErrorConst (error : Option DBusError) (name message : String) : Option DBusError :=
  error.map fun _ => ⟨some (withoutNul name), some (withoutNul message)⟩

/-- The name of every error of these functions. -/
def failedError : String := "org.freedesktop.DBus.Error.Failed"

/-! ## Connections -/

/-- **What becomes of a request**: the answer and the milliseconds it takes, or
nothing. -/
abbrev Completion (α : Type) : Type := Option (ℕ × Except String α)

/-- A connection, as far as these functions can tell. -/
structure DBusConnection where
  callMethod : Client.Request → Completion (List Value)
  emitSignal : ObjectPath → String → String → List Value → Completion Unit

/-- **What a call comes to while somebody waits**, for some milliseconds or, when
that is not a positive number, for good. Without a limit there may never be an
answer. -/
def awaitReply (timeoutMilliseconds : Int32) (completion : Completion (List Value)) :
    Option (Except String (List Value)) :=
  if 0 < timeoutMilliseconds then
    match completion with
    | some (elapsed, result) =>
      if elapsed ≤ timeoutMilliseconds.toInt.toNat then some result
      else some (.error "no reply within the requested timeout")
    | none => some (.error "no reply within the requested timeout")
  else completion.map Prod.snd

/-! ## The two functions -/

/-- What a program sees when a call returns: the reply or null, its message, and
the error. -/
structure BlockingSend where
  reply : Option DBusMessage
  message : Option DBusMessage
  error : Option DBusError

/-- **Sends a call and waits for the reply.** -/
def dbusConnectionSendWithReplyAndBlock (connection : Option DBusConnection)
    (dbusMessage : Option DBusMessage) (timeoutMilliseconds : Int32) (error : Option DBusError) :
    Option BlockingSend :=
  match connection with
  | none => some ⟨none, dbusMessage, error⟩
  | some h =>
    match takeOutgoing dbusMessage with
    | (none, message) =>
      some ⟨none, message, dbusSetErrorConst error failedError
        "message is not a call under construction, or has already been sent"⟩
    | (some out, message) =>
      if out.kind ≠ .methodCall then
        some ⟨none, message, dbusSetErrorConst error failedError
          "only method-call messages can be sent with a blocking reply"⟩
      else
        match out.path, out.member with
        | some path, some member =>
          let call := h.callMethod ⟨out.destination, path, out.interface, member, out.args⟩
          (awaitReply timeoutMilliseconds call).map fun result =>
            match result with
            | .ok replyArgs =>
              ⟨some (wrapIncoming (((Message.Builder.methodReturn 0).args replyArgs).build 0)),
                message, error⟩
            | .error e => ⟨none, message, dbusSetErrorConst error failedError (cString e)⟩
        | _, _ => some ⟨none, message, error⟩

/-- What a program sees when a signal has been sent: whether it was, its message,
and the serial number. -/
structure SignalSend where
  result : Int32
  message : Option DBusMessage
  serial : Option UInt32

/-- **Sends a signal.** -/
def dbusConnectionSend (connection : Option DBusConnection) (dbusMessage : Option DBusMessage)
    (serial : Option UInt32) : Option SignalSend :=
  match connection, takeOutgoing dbusMessage with
  | some h, (some out, message) =>
    if out.kind ≠ .signal then some ⟨0, message, serial⟩
    else
      match out.path, out.interface, out.member with
      | some path, some interface, some member =>
        (h.emitSignal path interface member out.args).map fun completion =>
          match completion.2 with
          | .ok () => ⟨1, message, serial.map fun _ => 0⟩
          | .error _ => ⟨0, message, serial⟩
      | _, _, _ => some ⟨0, message, serial⟩
  | _, (_, message) => some ⟨0, message, serial⟩

/-! ## What is left of a message -/

namespace Outgoing

/-- The call that a message is, with all that a call needs. -/
def request (o : Outgoing) : Option Client.Request :=
  match o.kind, o.path, o.member with
  | .methodCall, some path, some member => some ⟨o.destination, path, o.interface, member, o.args⟩
  | _, _, _ => none

/-- The signal that a message is, with all that a signal needs. -/
def signal (o : Outgoing) : Option (ObjectPath × String × String × List Value) :=
  match o.kind, o.path, o.interface, o.member with
  | .signal, some path, some interface, some member => some (path, interface, member, o.args)
  | _, _, _, _ => none

/-- A message that says nothing. -/
def IsEmpty (o : Outgoing) : Prop :=
  o.path = none ∧ o.interface = none ∧ o.member = none ∧ o.destination = none ∧ o.args = []

/-- **The message still says what it said.** -/
def Keeps (o : Outgoing) (message : Option DBusMessage) : Prop :=
  ∃ o', message = some (.out o') ∧ o'.path = o.path ∧ o'.interface = o.interface ∧
    o'.member = o.member ∧ o'.destination = o.destination ∧ o'.args = o.args

/-- A connection cannot send the message as a call, or gets no reply to it. -/
def CallFails (o : Outgoing) (h : DBusConnection) (timeoutMilliseconds : Int32) : Prop :=
  ∀ request, o.request = some request →
    ∃ e, awaitReply timeoutMilliseconds (h.callMethod request) = some (.error e)

/-- A connection cannot send the message as a signal. -/
def SignalFails (o : Outgoing) (h : DBusConnection) : Prop :=
  ∀ path interface member args, o.signal = some (path, interface, member, args) →
    ∃ elapsed e, h.emitSignal path interface member args = some (elapsed, .error e)

end Outgoing

variable {o : Outgoing} {h : DBusConnection} {timeout : Int32} {error : Option DBusError}
  {serial : Option UInt32}

/-- What is taken out of a message is gone from it. -/
theorem keeps_takeOutgoing_iff : o.Keeps (takeOutgoing (some (.out o))).2 ↔ o.IsEmpty := by
  constructor
  · rintro ⟨o', ho', hpath, hinterface, hmember, hdestination, hargs⟩
    cases ho'
    exact ⟨hpath.symm, hinterface.symm, hmember.symm, hdestination.symm, hargs.symm⟩
  · rintro ⟨hpath, hinterface, hmember, hdestination, hargs⟩
    exact ⟨_, rfl, hpath.symm, hinterface.symm, hmember.symm, hdestination.symm, hargs.symm⟩

/-! ## What the functions come to -/

theorem send_call_of_none (h : DBusConnection) (timeout : Int32) (error : Option DBusError)
    (hrequest : o.request = none) :
    ∃ error', dbusConnectionSendWithReplyAndBlock (some h) (some (.out o)) timeout error
      = some ⟨none, (takeOutgoing (some (.out o))).2, error'⟩ := by
  unfold dbusConnectionSendWithReplyAndBlock takeOutgoing
  dsimp only
  by_cases hkind : o.kind = .methodCall
  · rw [if_neg (not_not.mpr hkind)]
    unfold Outgoing.request at hrequest
    rw [hkind] at hrequest
    cases hpath : o.path with
    | none => exact ⟨error, rfl⟩
    | some path =>
      cases hmember : o.member with
      | none => exact ⟨error, rfl⟩
      | some member =>
        rw [hpath, hmember] at hrequest
        cases hrequest
  · rw [if_pos hkind]
    exact ⟨_, rfl⟩

theorem send_call_of_some {request : Client.Request} (hrequest : o.request = some request) :
    dbusConnectionSendWithReplyAndBlock (some h) (some (.out o)) timeout error
      = (awaitReply timeout (h.callMethod request)).map fun result =>
        match result with
        | .ok replyArgs =>
          ⟨some (wrapIncoming (((Message.Builder.methodReturn 0).args replyArgs).build 0)),
            (takeOutgoing (some (.out o))).2, error⟩
        | .error e =>
          ⟨none, (takeOutgoing (some (.out o))).2,
            dbusSetErrorConst error failedError (cString e)⟩ := by
  unfold Outgoing.request at hrequest
  split at hrequest
  · next path member hkind hpath hmember =>
    unfold dbusConnectionSendWithReplyAndBlock takeOutgoing
    dsimp only
    rw [if_neg (not_not.mpr hkind), hpath, hmember, ← Option.some.inj hrequest]
  · cases hrequest

theorem send_signal_of_none (hsignal : o.signal = none) :
    dbusConnectionSend (some h) (some (.out o)) serial
      = some ⟨0, (takeOutgoing (some (.out o))).2, serial⟩ := by
  unfold dbusConnectionSend takeOutgoing
  dsimp only
  by_cases hkind : o.kind = .signal
  · rw [if_neg (not_not.mpr hkind)]
    unfold Outgoing.signal at hsignal
    rw [hkind] at hsignal
    cases hpath : o.path with
    | none => rfl
    | some path =>
      cases hinterface : o.interface with
      | none => rfl
      | some interface =>
        cases hmember : o.member with
        | none => rfl
        | some member =>
          rw [hpath, hinterface, hmember] at hsignal
          cases hsignal
  · rw [if_pos hkind]

theorem send_signal_of_some {path : ObjectPath} {interface member : String} {args : List Value}
    (hsignal : o.signal = some (path, interface, member, args)) :
    dbusConnectionSend (some h) (some (.out o)) serial
      = (h.emitSignal path interface member args).map fun completion =>
        match completion.2 with
        | .ok () => ⟨1, (takeOutgoing (some (.out o))).2, serial.map fun _ => 0⟩
        | .error _ => ⟨0, (takeOutgoing (some (.out o))).2, serial⟩ := by
  unfold Outgoing.signal at hsignal
  split at hsignal
  · next path' interface' member' hkind hpath hinterface hmember =>
    cases hsignal
    unfold dbusConnectionSend takeOutgoing
    dsimp only
    rw [if_neg (not_not.mpr hkind), hpath, hinterface, hmember]
  · cases hsignal

/-- **The message is empty when a call is over**, whatever came of it. -/
theorem message_of_call {sent : BlockingSend}
    (hsent : dbusConnectionSendWithReplyAndBlock (some h) (some (.out o)) timeout error
      = some sent) :
    sent.message = (takeOutgoing (some (.out o))).2 := by
  cases hrequest : o.request with
  | none =>
    obtain ⟨error', heq⟩ := send_call_of_none h timeout error hrequest
    rw [← Option.some.inj (heq.symm.trans hsent)]
  | some request =>
    rw [send_call_of_some hrequest] at hsent
    obtain ⟨result, -, rfl⟩ := Option.map_eq_some_iff.mp hsent
    cases result with
    | ok replyArgs => rfl
    | error e => rfl

theorem message_of_signal {sent : SignalSend}
    (hsent : dbusConnectionSend (some h) (some (.out o)) serial = some sent) :
    sent.message = (takeOutgoing (some (.out o))).2 := by
  cases hsignal : o.signal with
  | none => rw [← Option.some.inj ((send_signal_of_none hsignal).symm.trans hsent)]
  | some signal =>
    obtain ⟨path, interface, member, args⟩ := signal
    rw [send_signal_of_some hsignal] at hsent
    obtain ⟨⟨elapsed, result⟩, -, rfl⟩ := Option.map_eq_some_iff.mp hsent
    cases result with
    | ok u => rfl
    | error e => rfl

/-- **When a call returns null.** -/
theorem call_fails_iff :
    (∃ sent, dbusConnectionSendWithReplyAndBlock (some h) (some (.out o)) timeout error
        = some sent ∧ sent.reply = none) ↔ o.CallFails h timeout := by
  unfold Outgoing.CallFails
  cases hrequest : o.request with
  | none =>
    obtain ⟨error', heq⟩ := send_call_of_none h timeout error hrequest
    exact ⟨fun _ _ hr => (nomatch hr), fun _ => ⟨_, heq, rfl⟩⟩
  | some request =>
    rw [send_call_of_some hrequest]
    constructor
    · rintro ⟨sent, hsent, hreply⟩ r hr
      cases hr
      obtain ⟨result, hresult, rfl⟩ := Option.map_eq_some_iff.mp hsent
      cases result with
      | ok replyArgs => cases hreply
      | error e => exact ⟨e, hresult⟩
    · intro hfails
      obtain ⟨e, he⟩ := hfails request rfl
      rw [he]
      exact ⟨_, rfl, rfl⟩

/-- **When a signal is not sent.** -/
theorem signal_fails_iff :
    (∃ sent, dbusConnectionSend (some h) (some (.out o)) serial = some sent ∧ sent.result = 0) ↔
      o.SignalFails h := by
  unfold Outgoing.SignalFails
  cases hsignal : o.signal with
  | none =>
    exact ⟨fun _ _ _ _ _ hr => (nomatch hr), fun _ => ⟨_, send_signal_of_none hsignal, rfl⟩⟩
  | some signal =>
    obtain ⟨path, interface, member, args⟩ := signal
    rw [send_signal_of_some hsignal]
    constructor
    · rintro ⟨sent, hsent, hresult⟩ _ _ _ _ hr
      cases hr
      obtain ⟨⟨elapsed, result⟩, hcompletion, rfl⟩ := Option.map_eq_some_iff.mp hsent
      cases result with
      | ok u => exact absurd hresult (by decide : (1 : Int32) ≠ 0)
      | error e => exact ⟨elapsed, e, hcompletion⟩
    · intro hfails
      obtain ⟨elapsed, e, he⟩ := hfails path interface member args rfl
      rw [he]
      exact ⟨_, rfl, rfl⟩

/-- A failed call leaves the message as it was when it said nothing, when the call
does not fail, or when there is no connection: then nothing is taken. -/
theorem call_keeps_iff (connection : Option DBusConnection) (o : Outgoing) (timeout : Int32)
    (error : Option DBusError) :
    (∀ sent, dbusConnectionSendWithReplyAndBlock connection (some (.out o)) timeout error
        = some sent → sent.reply = none → o.Keeps sent.message) ↔
      o.IsEmpty ∨ ∀ h, connection = some h → ¬ o.CallFails h timeout := by
  cases connection with
  | none =>
    refine iff_of_true ?_ (.inr fun _ heq => by cases heq)
    rintro sent hsent -
    cases hsent
    exact ⟨o, rfl, rfl, rfl, rfl, rfl, rfl⟩
  | some h =>
    constructor
    · intro hkeeps
      by_cases hfails : o.CallFails h timeout
      · obtain ⟨sent, hsent, hreply⟩ := call_fails_iff.mpr hfails
        have hkept := hkeeps sent hsent hreply
        rw [message_of_call hsent, keeps_takeOutgoing_iff] at hkept
        exact .inl hkept
      · exact .inr fun _ heq => Option.some.inj heq ▸ hfails
    · rintro (hempty | hanswered) sent hsent hreply
      · rw [message_of_call hsent]
        exact keeps_takeOutgoing_iff.mpr hempty
      · exact absurd (call_fails_iff.mp ⟨sent, hsent, hreply⟩) (hanswered h rfl)

/-- A failed signal leaves the message as it was when it said nothing or when it does
not fail: the message is taken without a connection, too. -/
theorem signal_keeps_iff (connection : Option DBusConnection) (o : Outgoing)
    (serial : Option UInt32) :
    (∀ sent, dbusConnectionSend connection (some (.out o)) serial = some sent →
        sent.result = 0 → o.Keeps sent.message) ↔
      o.IsEmpty ∨ ∃ h, connection = some h ∧ ¬ o.SignalFails h := by
  cases connection with
  | none =>
    have htaken : (∀ sent, dbusConnectionSend none (some (.out o)) serial = some sent →
        sent.result = 0 → o.Keeps sent.message) ↔ o.Keeps (takeOutgoing (some (.out o))).2 :=
      ⟨fun hkeeps => hkeeps _ rfl rfl, fun hkeeps sent hsent _ => by cases hsent; exact hkeeps⟩
    rw [htaken, keeps_takeOutgoing_iff]
    constructor
    · exact .inl
    · rintro (hempty | ⟨_, heq, -⟩)
      · exact hempty
      · cases heq
  | some h =>
    constructor
    · intro hkeeps
      by_cases hfails : o.SignalFails h
      · obtain ⟨sent, hsent, hresult⟩ := signal_fails_iff.mpr hfails
        have hkept := hkeeps sent hsent hresult
        rw [message_of_signal hsent, keeps_takeOutgoing_iff] at hkept
        exact .inl hkept
      · exact .inr ⟨h, rfl, hfails⟩
    · rintro (hempty | ⟨_, heq, hsends⟩) sent hsent hresult
      · rw [message_of_signal hsent]
        exact keeps_takeOutgoing_iff.mpr hempty
      · rw [← Option.some.inj heq] at hsends
        exact absurd (signal_fails_iff.mp ⟨sent, hsent, hresult⟩) hsends

/-- **A message that was not sent is as it was when it said nothing, or when
nothing failed**, and only then. A call without a connection fails before anything
is taken; a signal without one does not. -/
theorem failed_send_keeps_iff (connection : Option DBusConnection) (o : Outgoing) (timeout : Int32)
    (error : Option DBusError) (serial : Option UInt32) :
    ((∀ sent, dbusConnectionSendWithReplyAndBlock connection (some (.out o)) timeout error
          = some sent → sent.reply = none → o.Keeps sent.message) ↔
        o.IsEmpty ∨ ∀ h, connection = some h → ¬ o.CallFails h timeout) ∧
      ((∀ sent, dbusConnectionSend connection (some (.out o)) serial = some sent →
          sent.result = 0 → o.Keeps sent.message) ↔
        o.IsEmpty ∨ ∃ h, connection = some h ∧ ¬ o.SignalFails h) :=
  ⟨call_keeps_iff connection o timeout error, signal_keeps_iff connection o serial⟩

/-- A call that a program builds, with one argument. -/
def builtCall : Outgoing :=
  { newOutgoing .methodCall with path := some ⟨"/a"⟩, member := some "M", args := [.boolean true] }

/-- A connection that sends all it is given. -/
def willing : DBusConnection := ⟨fun _ => some (1, .ok []), fun _ _ _ _ => some (0, .ok ())⟩

/-- **A call that is sent as a signal is lost.** -/
theorem failed_send_loses :
    ¬ ∀ sent, dbusConnectionSend (some willing) (some (.out builtCall)) none = some sent →
        sent.result = 0 → builtCall.Keeps sent.message := by
  intro hkeeps
  obtain ⟨o', ho', hpath, -⟩ := hkeeps _ rfl rfl
  cases ho'
  cases hpath

/-! ## Messages that are built -/

/-- **A message as a program has built it.** -/
inductive Built : DBusMessage → Prop where
  | methodCall {destination path interface method : Option String} {message : DBusMessage} :
      dbusMessageNewMethodCall destination path interface method = some message → Built message
  | signal {path interface name : Option String} {message : DBusMessage} :
      dbusMessageNewSignal path interface name = some message → Built message
  | methodReturn {call : Option DBusMessage} {message : DBusMessage} :
      dbusMessageNewMethodReturn call = some message → Built message
  | error {replyTo : Option DBusMessage} {name text : Option String} {message : DBusMessage} :
      dbusMessageNewError replyTo name text = some message → Built message
  | setDestination {message : DBusMessage} (destination : Option String) : Built message →
      Built (dbusMessageSetDestination message destination).1
  | append {message : DBusMessage} (v : Value) : Built message →
      Built (dbusMessageIterAppendBasic message v).1

/-- A message with all that its kind needs. -/
def Outgoing.IsComplete (o : Outgoing) : Prop :=
  match o.kind with
  | .methodCall => o.path.isSome ∧ o.member.isSome
  | .signal => o.path.isSome ∧ o.interface.isSome ∧ o.member.isSome
  | .methodReturn => o.replySerial.isSome
  | .error => o.replySerial.isSome ∧ o.member.isSome

/-- **A message that is built lacks nothing.** So a field is missing only after a
message has been taken. -/
theorem Built.exists_complete {message : DBusMessage} (hbuilt : Built message) :
    ∃ o, message = .out o ∧ o.IsComplete := by
  induction hbuilt with
  | methodCall hnew =>
    obtain ⟨path, -, hrest⟩ := Option.bind_eq_some_iff.mp hnew
    obtain ⟨method, -, hmessage⟩ := Option.bind_eq_some_iff.mp hrest
    exact ⟨_, (Option.some.inj hmessage).symm, rfl, rfl⟩
  | signal hnew =>
    obtain ⟨path, -, hrest⟩ := Option.bind_eq_some_iff.mp hnew
    obtain ⟨interface, -, hrest⟩ := Option.bind_eq_some_iff.mp hrest
    obtain ⟨name, -, hmessage⟩ := Option.bind_eq_some_iff.mp hrest
    exact ⟨_, (Option.some.inj hmessage).symm, rfl, rfl, rfl⟩
  | methodReturn hnew =>
    obtain ⟨target, -, hmessage⟩ := Option.bind_eq_some_iff.mp hnew
    exact ⟨_, (Option.some.inj hmessage).symm, rfl⟩
  | error hnew =>
    obtain ⟨name, -, hrest⟩ := Option.bind_eq_some_iff.mp hnew
    obtain ⟨target, -, hmessage⟩ := Option.bind_eq_some_iff.mp hrest
    exact ⟨_, (Option.some.inj hmessage).symm, rfl, rfl⟩
  | setDestination destination _ ih =>
    obtain ⟨o, rfl, ho⟩ := ih
    exact ⟨_, rfl, ho⟩
  | append v _ ih =>
    obtain ⟨o, rfl, ho⟩ := ih
    unfold dbusMessageIterAppendBasic
    dsimp only
    split
    · exact ⟨_, rfl, ho⟩
    · exact ⟨_, rfl, ho⟩

/-- **A call that is built can be given to a connection**, and so can a signal. -/
theorem Outgoing.IsComplete.exists_request (ho : o.IsComplete) (hkind : o.kind = .methodCall) :
    ∃ request, o.request = some request := by
  unfold IsComplete at ho
  rw [hkind] at ho
  obtain ⟨path, hpath⟩ := Option.isSome_iff_exists.mp ho.1
  obtain ⟨member, hmember⟩ := Option.isSome_iff_exists.mp ho.2
  refine ⟨⟨o.destination, path, o.interface, member, o.args⟩, ?_⟩
  unfold request
  rw [hkind, hpath, hmember]

theorem Outgoing.IsComplete.exists_signal (ho : o.IsComplete) (hkind : o.kind = .signal) :
    ∃ signal, o.signal = some signal := by
  unfold IsComplete at ho
  rw [hkind] at ho
  obtain ⟨path, hpath⟩ := Option.isSome_iff_exists.mp ho.1
  obtain ⟨interface, hinterface⟩ := Option.isSome_iff_exists.mp ho.2.1
  obtain ⟨member, hmember⟩ := Option.isSome_iff_exists.mp ho.2.2
  refine ⟨(path, interface, member, o.args), ?_⟩
  unfold signal
  rw [hkind, hpath, hinterface, hmember]

/-- **A built message fails for its kind or for its connection only**: a call that is
sent and waited for fails when the connection does, whatever the program has put into it. -/
theorem Built.callFails_iff (hbuilt : Built (.out o)) (hkind : o.kind = .methodCall) :
    o.CallFails h timeout ↔ ∃ request, o.request = some request ∧
      ∃ e, awaitReply timeout (h.callMethod request) = some (.error e) := by
  obtain ⟨_, heq, ho⟩ := hbuilt.exists_complete
  cases heq
  obtain ⟨request, hrequest⟩ := ho.exists_request hkind
  constructor
  · exact fun hfails => ⟨request, hrequest, hfails request hrequest⟩
  · rintro ⟨_, hr, he⟩ _ hr'
    cases hr.symm.trans hr'
    exact he

theorem Built.signalFails_iff (hbuilt : Built (.out o)) (hkind : o.kind = .signal) :
    o.SignalFails h ↔ ∃ path interface member args,
      o.signal = some (path, interface, member, args) ∧
        ∃ elapsed e, h.emitSignal path interface member args = some (elapsed, .error e) := by
  obtain ⟨_, heq, ho⟩ := hbuilt.exists_complete
  cases heq
  obtain ⟨⟨path, interface, member, args⟩, hsignal⟩ := ho.exists_signal hkind
  constructor
  · exact fun hfails => ⟨path, interface, member, args, hsignal, hfails _ _ _ _ hsignal⟩
  · rintro ⟨_, _, _, _, hs, he⟩ _ _ _ _ hs'
    cases hs.symm.trans hs'
    exact he

/-! ## The life of a message -/

/-- **What a program does with a message that it builds.** -/
inductive MessageOp where
  | setDestination (destination : Option String)
  | append (v : Value)
  | call (connection : Option DBusConnection) (timeout : Int32) (error : Option DBusError)
  | send (connection : Option DBusConnection) (serial : Option UInt32)

namespace MessageOp

/-- The message afterwards and how often it was sent, unless the function does
not return. -/
def step (message : DBusMessage) : MessageOp → Option (DBusMessage × ℕ)
  | setDestination destination => some ((dbusMessageSetDestination message destination).1, 0)
  | append v => some ((dbusMessageIterAppendBasic message v).1, 0)
  | call connection timeout error => do
    let sent ← dbusConnectionSendWithReplyAndBlock connection (some message) timeout error
    let message ← sent.message
    return (message, if sent.reply.isSome then 1 else 0)
  | send connection serial => do
    let sent ← dbusConnectionSend connection (some message) serial
    let message ← sent.message
    return (message, if sent.result = 0 then 0 else 1)

def run (message : DBusMessage) : List MessageOp → Option (DBusMessage × ℕ)
  | [] => some (message, 0)
  | op :: ops => do
    let first ← op.step message
    let rest ← run first.1 ops
    return (rest.1, first.2 + rest.2)

end MessageOp

/-- How often a message can still be sent: once, or not at all. -/
def DBusMessage.chances : DBusMessage → ℕ
  | .out o => if o.path.isSome then 1 else 0
  | .incoming _ => 0

theorem chances_takeOutgoing {message : DBusMessage}
    (htaken : (takeOutgoing (some (.out o))).2 = some message) : message.chances = 0 := by
  cases htaken
  rfl

/-- A message that says nothing of a path is no call and no signal. -/
theorem Outgoing.isSome_path_of_request {request : Client.Request}
    (hrequest : o.request = some request) : o.path.isSome = true := by
  unfold Outgoing.request at hrequest
  split at hrequest
  · next hpath _ => rw [hpath]; rfl
  · cases hrequest

theorem Outgoing.isSome_path_of_signal {signal : ObjectPath × String × String × List Value}
    (hsignal : o.signal = some signal) : o.path.isSome = true := by
  unfold Outgoing.signal at hsignal
  split at hsignal
  · next hpath _ _ => rw [hpath]; rfl
  · cases hsignal

/-- A message that is sent could be. -/
theorem Outgoing.chances_of_isSome_path (hpath : o.path.isSome = true) :
    (DBusMessage.out o).chances = 1 := if_pos hpath

namespace MessageOp

variable {message message' : DBusMessage} {op : MessageOp} {ops : List MessageOp} {n : ℕ}

theorem step_call {connection : Option DBusConnection}
    (hstep : (call connection timeout error).step message = some (message', n)) :
    n + message'.chances ≤ message.chances := by
  obtain ⟨sent, hsent, hrest⟩ := Option.bind_eq_some_iff.mp hstep
  obtain ⟨after, hafter, hpair⟩ := Option.bind_eq_some_iff.mp hrest
  cases hpair
  cases connection with
  | none =>
    cases hsent
    cases hafter
    exact (Nat.zero_add _).le
  | some h =>
    cases message with
    | incoming m =>
      cases hsent
      cases hafter
      exact (Nat.zero_add _).le
    | out o =>
      rw [message_of_call hsent] at hafter
      rw [chances_takeOutgoing hafter]
      cases hrequest : o.request with
      | none =>
        obtain ⟨error', heq⟩ := send_call_of_none h timeout error hrequest
        rw [← Option.some.inj (heq.symm.trans hsent)]
        exact Nat.zero_le _
      | some request =>
        rw [Outgoing.chances_of_isSome_path (Outgoing.isSome_path_of_request hrequest)]
        split <;> omega

theorem step_send {connection : Option DBusConnection}
    (hstep : (send connection serial).step message = some (message', n)) :
    n + message'.chances ≤ message.chances := by
  obtain ⟨sent, hsent, hrest⟩ := Option.bind_eq_some_iff.mp hstep
  obtain ⟨after, hafter, hpair⟩ := Option.bind_eq_some_iff.mp hrest
  cases hpair
  cases message with
  | incoming m =>
    cases connection <;>
    · cases hsent
      cases hafter
      exact (Nat.zero_add _).le
  | out o =>
    cases connection with
    | none =>
      cases hsent
      rw [chances_takeOutgoing hafter]
      exact Nat.zero_le _
    | some h =>
      rw [message_of_signal hsent] at hafter
      rw [chances_takeOutgoing hafter]
      cases hsignal : o.signal with
      | none =>
        rw [← Option.some.inj ((send_signal_of_none hsignal).symm.trans hsent)]
        exact Nat.zero_le _
      | some signal =>
        rw [Outgoing.chances_of_isSome_path (Outgoing.isSome_path_of_signal hsignal)]
        split <;> omega

/-- **A message that is sent cannot be sent again.** -/
theorem step_chances (hstep : op.step message = some (message', n)) :
    n + message'.chances ≤ message.chances := by
  cases op with
  | setDestination destination =>
    cases hstep
    cases message <;> exact (Nat.zero_add _).le
  | append v =>
    cases hstep
    cases message with
    | incoming m => exact (Nat.zero_add _).le
    | out o =>
      unfold dbusMessageIterAppendBasic
      dsimp only
      split <;> exact (Nat.zero_add _).le
  | call connection timeout error => exact step_call hstep
  | send connection serial => exact step_send hstep

/-- **A message is sent once at most**, whatever is done with it. -/
theorem sends_le_one (hrun : run message ops = some (message', n)) : n ≤ 1 := by
  have hchances : n + message'.chances ≤ message.chances := by
    induction ops generalizing message n with
    | nil =>
      cases hrun
      exact (Nat.zero_add _).le
    | cons op ops ih =>
      obtain ⟨⟨first, k⟩, hfirst, hrest⟩ := Option.bind_eq_some_iff.mp hrun
      obtain ⟨⟨last, m⟩, hlast, hpair⟩ := Option.bind_eq_some_iff.mp hrest
      cases hpair
      have hstep := step_chances hfirst
      have hmore := ih hlast
      dsimp only at *
      omega
  have hone : message.chances ≤ 1 := by
    unfold DBusMessage.chances
    split
    · split <;> omega
    · exact Nat.zero_le 1
  omega

end MessageOp

end Libdbus

end Oxibus
