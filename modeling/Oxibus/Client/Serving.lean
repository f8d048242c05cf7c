import Oxibus.Client.Attachment
import Oxibus.Daemon.Replay

/-!
# Whether a call is answered

A call that is delivered to a client is handled by its reader. It is answered
if the client takes it for its own and if the answer can be encoded. The
client knows itself by its unique name alone, while the daemon delivers a
call under the name that it is addressed to: a call to a well-known name is
delivered to the owner and dropped there.

Whatever else the client does meanwhile – its other tasks go on while a
handler runs – does not change what the reader writes.
-/

namespace Oxibus

open Daemon

namespace Client

/-! ## The reply to a call -/

/-- What the handler of a call answers. -/
def Connection.result (c : Connection) (call : Message) : MethodResult :=
  c.objectServer.dispatch ((call.path.map ObjectPath.text).getD "") call.interface
    (call.member.getD "") call.body

/-- The fields of the header that a reply has on the wire. -/
def replyFields (call : Message) (result : MethodResult) : List HeaderField :=
  let destination := (call.sender.map HeaderField.destination).toList
  match result with
  | .ok values =>
    let sig := signatureOf (Value.valueTypes values)
    .replySerial call.serial :: destination ++ (if sig = "" then [] else [.signature ⟨sig⟩]) ++
      Message.unixFdsFields (Value.extractFds values []).2
  | .error e =>
    .replySerial call.serial :: .errorName e.name :: destination ++ [.signature ⟨"s"⟩]

/-- **An answer that can be encoded**: values of types that make a signature, an
error whose name and text contain no zero byte; and room for the header. -/
def Sendable (call : Message) (result : MethodResult) : Prop :=
  (match result with
  | .ok values =>
    (signatureOf (Value.valueTypes values) = "" ∨
      (parseSignature (signatureOf (Value.valueTypes values))).isOk = true) ∧
    (Value.encodeAll false values 0).isOk = true
  | .error e => (asBytes e.name).contains 0 = false ∧ (asBytes e.message).contains 0 = false) ∧
  HeaderField.sizes (replyFields call result) 16 ≤ maxArrayLen

instance (call : Message) (result : MethodResult) : Decidable (Sendable call result) :=
  match result with
  | .ok values => inferInstanceAs (Decidable (((signatureOf (Value.valueTypes values) = "" ∨
      (parseSignature (signatureOf (Value.valueTypes values))).isOk = true) ∧
        (Value.encodeAll false values 0).isOk = true) ∧
      HeaderField.sizes (replyFields call (.ok values)) 16 ≤ maxArrayLen))
  | .error e => inferInstanceAs (Decidable (((asBytes e.name).contains 0 = false ∧
      (asBytes e.message).contains 0 = false) ∧
      HeaderField.sizes (replyFields call (.error e)) 16 ≤ maxArrayLen))

theorem addFds_eq (b : Message.Builder) (fds : List Int32) :
    addFds b fds = { b with fds := b.fds ++ fds } := by
  induction fds generalizing b with
  | nil =>
    show b = { b with fds := b.fds ++ [] }
    rw [List.append_nil]
  | cons raw fds ih =>
    show addFds (b.fd raw) fds = _
    rw [ih]
    show ({ b with fds := b.fds ++ [raw] ++ fds } : Message.Builder) = _
    rw [List.append_assoc]
    rfl

section Reply

variable (call : Message) (serial : UInt32)

/-- The reply with values. -/
theorem reply_ok (values : List Value) : (Connection.reply call (.ok values)).build serial =
    ⟨⟨false, .methodReturn, 0, protocolVersion, 0, serial,
      .replySerial call.serial :: (call.sender.map HeaderField.destination).toList⟩,
      (Value.extractFds values []).1, (Value.extractFds values []).2⟩ := by
  show ((addFds (Message.replyTo call none) _).args _).build serial = _
  rw [addFds_eq]
  unfold Message.replyTo
  cases call.sender <;> rfl

/-- The reply with an error. -/
theorem reply_error (e : MethodError) : (Connection.reply call (.error e)).build serial =
    ⟨⟨false, .error, 0, protocolVersion, 0, serial,
      .replySerial call.serial :: .errorName e.name ::
        (call.sender.map HeaderField.destination).toList⟩, [.string e.message], []⟩ := by
  show ((Message.replyTo call (some e.name)).arg _).build serial = _
  unfold Message.replyTo
  cases call.sender <;> rfl

/-- **The reply is a reply to the call.** -/
theorem reply_isReply (result : MethodResult) :
    ((Connection.reply call result).build serial).isReply = true ∧
      ((Connection.reply call result).build serial).replySerial = some call.serial := by
  cases result with
  | ok values =>
    rw [reply_ok]
    exact ⟨rfl, rfl⟩
  | error e =>
    rw [reply_error]
    exact ⟨rfl, rfl⟩

variable {call} in
/-- The fields of the reply are valid, and no zero byte is in them but for the
name of an error. -/
theorem nulFree_replyFields (hsender : ∀ u, call.sender = some u → (asBytes u).contains 0 = false)
    (result : MethodResult) : (∀ f ∈ replyFields call result, f.toValue.NulFree) ↔
      ∀ e, result = .error e → (asBytes e.name).contains 0 = false := by
  have htext : ∀ s : String, (Value.string s).NulFree ↔ (asBytes s).contains 0 = false := by
    intro s
    simp [Value.NulFree, Value.strings]
  have hdestination : ∀ f ∈ (call.sender.map HeaderField.destination).toList,
      f.toValue.NulFree := by
    intro f hf
    obtain ⟨u, hu, rfl⟩ := Option.map_eq_some_iff.mp (Option.mem_toList.mp hf)
    exact (htext u).mpr (hsender u hu)
  have hplain : ∀ f : HeaderField, f.toValue.strings = [] → f.toValue.NulFree := by
    intro f hf s hs
    rw [hf] at hs
    cases hs
  cases result with
  | ok values =>
    refine iff_of_true (fun f hf => ?_) fun e he => by cases he
    simp only [replyFields, List.cons_append, List.mem_cons, List.mem_append] at hf
    rcases hf with rfl | (hf | hf) | hf
    · exact hplain _ rfl
    · exact hdestination f hf
    · split at hf
      · cases hf
      · rw [List.mem_singleton.mp hf]
        exact hplain _ rfl
    · unfold Message.unixFdsFields at hf
      split at hf
      · cases hf
      · rw [List.mem_singleton.mp hf]
        exact hplain _ rfl
  | error e =>
    constructor
    · rintro hall _ ⟨⟩
      exact (htext e.name).mp (hall (.errorName e.name) (by simp [replyFields]))
    · intro hname f hf
      simp only [replyFields, List.cons_append, List.mem_cons, List.mem_append,
        List.not_mem_nil, or_false] at hf
      rcases hf with rfl | rfl | hf | rfl
      · exact hplain _ rfl
      · exact (htext e.name).mpr (hname e rfl)
      · exact hdestination f hf
      · exact hplain _ rfl

theorem filter_isBodyField {fields : List HeaderField}
    (h : ∀ f ∈ fields, f.isBodyField = false) :
    (fields.filter fun f : HeaderField => !f.isBodyField) = fields := by
  refine List.filter_eq_self.mpr fun f hf => ?_
  rw [h f hf]
  rfl

section Encoding

variable {call serial}

/-- When a reply with these results can be encoded. -/
theorem isOk_toBytes_reply_ok
    (hsender : ∀ u, call.sender = some u → (asBytes u).contains 0 = false) (values : List Value) :
    ((Connection.reply call (.ok values)).build serial).toBytes.isOk = true ↔
      Sendable call (.ok values) := by
  have hnul := nulFree_replyFields hsender (.ok values)
  have hfields : ∀ f ∈ .replySerial call.serial ::
      (call.sender.map HeaderField.destination).toList, f.Valid ∧ f.isBodyField = false := by
    cases call.sender <;> simp [HeaderField.Valid, HeaderField.isBodyField]
  have hkept := filter_isBodyField fun f hf => (hfields f hf).2
  rw [reply_ok, Message.isOk_toBytes_iff fun f hf => (hfields f hf).1]
  -- on the wire, the reply has the fields that the condition speaks of
  have hwire : Message.wireFields ⟨⟨false, .methodReturn, 0, protocolVersion, 0, serial,
      .replySerial call.serial :: (call.sender.map HeaderField.destination).toList⟩,
      (Value.extractFds values []).1, (Value.extractFds values []).2⟩
        = replyFields call (.ok values) := by
    unfold Message.wireFields Message.bodySignature
    rw [hkept, Value.valueTypes_extractFds]
    rfl
  rw [hwire, hnul]
  unfold Message.bodySignature
  rw [Value.valueTypes_extractFds]
  have hisOk := Value.isOk_encodeAll_extractFds false values [] 0
  constructor
  · rintro ⟨hsig, bytes, hbytes, -, -, hsize⟩
    refine ⟨⟨hsig, ?_⟩, hsize⟩
    rw [← hisOk, show Value.encodeAll false (Value.extractFds values []).1 0 = _ from hbytes]
    rfl
  · rintro ⟨⟨hsig, hok⟩, hsize⟩
    rw [← hisOk] at hok
    obtain ⟨bytes, hbytes⟩ := Outcome.isOk_iff.mp hok
    refine ⟨hsig, bytes, hbytes, Message.validate_eq_ok.mpr ?_, nofun, hsize⟩
    show ((Message.wireFields _).findSome? HeaderField.asReplySerial).isSome = true
    rw [hwire]
    rfl

/-- When a reply with this error can be encoded. -/
theorem isOk_toBytes_reply_error
    (hsender : ∀ u, call.sender = some u → (asBytes u).contains 0 = false) (e : MethodError) :
    ((Connection.reply call (.error e)).build serial).toBytes.isOk = true ↔
      Sendable call (.error e) := by
  have hnul := nulFree_replyFields hsender (.error e)
  have hfields : ∀ f ∈ .replySerial call.serial :: .errorName e.name ::
      (call.sender.map HeaderField.destination).toList, f.Valid ∧ f.isBodyField = false := by
    cases call.sender <;> simp [HeaderField.Valid, HeaderField.isBodyField]
  have hkept := filter_isBodyField fun f hf => (hfields f hf).2
  rw [reply_error, Message.isOk_toBytes_iff fun f hf => (hfields f hf).1]
  have hsig : signatureOf (Value.valueTypes [.string e.message]) = "s" := rfl
  have hwire : Message.wireFields ⟨⟨false, .error, 0, protocolVersion, 0, serial,
      .replySerial call.serial :: .errorName e.name ::
        (call.sender.map HeaderField.destination).toList⟩, [.string e.message], []⟩
        = replyFields call (.error e) := by
    unfold Message.wireFields Message.bodySignature
    rw [hkept, hsig, if_neg (by decide)]
    exact List.append_nil _
  rw [hwire, hnul]
  constructor
  · rintro ⟨-, bytes, hbytes, -, hname, hsize⟩
    refine ⟨⟨hname e rfl, ?_⟩, hsize⟩
    exact Value.nulFreeAll_of_encodeAll hbytes e.message (by simp [Value.stringsAll, Value.strings])
  · rintro ⟨⟨hname, hmessage⟩, hsize⟩
    obtain ⟨bytes, hbytes⟩ : ∃ bytes, Value.encodeAll false [.string e.message] 0 = .ok bytes := by
      simp only [Value.encodeAll, Value.encode, Value.encodeRawString, hmessage,
        Bool.false_eq_true, if_false, Outcome.ok_bind]
      exact ⟨_, rfl⟩
    refine ⟨.inr ?_, bytes, hbytes, Message.validate_eq_ok.mpr ?_, ?_, hsize⟩
    · unfold Message.bodySignature
      rw [hsig]
      decide +kernel
    · show ((Message.wireFields _).findSome? HeaderField.asErrorName).isSome = true ∧
        ((Message.wireFields _).findSome? HeaderField.asReplySerial).isSome = true
      rw [hwire]
      exact ⟨rfl, rfl⟩
    · rintro _ ⟨⟩
      exact hname

/-- **When the reply to a call can be encoded.** -/
theorem isOk_toBytes_reply
    (hsender : ∀ u, call.sender = some u → (asBytes u).contains 0 = false)
    (result : MethodResult) :
    ((Connection.reply call result).build serial).toBytes.isOk = true ↔
      Sendable call result := by
  cases result with
  | ok values => exact isOk_toBytes_reply_ok hsender values
  | error e => exact isOk_toBytes_reply_error hsender e

end Encoding

end Reply

/-! ## While a call is served -/

namespace Connection

variable {c c' : Connection} {e : Event} {es : List Event} {call : Message} {member : String}
variable {found : Except MethodError Interface}

@[simp] theorem replies_dropPending (c : Connection) (serial : UInt32) :
    (c.dropPending serial).replies = c.replies := by
  unfold dropPending
  split <;> rfl

/-- What the reader writes when the handler has answered. -/
def answered (call : Message) (result : MethodResult) (serial : UInt32) : List Message :=
  if call.noReplyExpected then [] else written ((reply call result).build serial)

/-- The handler has answered. -/
theorem serve_spec (c : Connection) (call : Message) (member : String)
    (found : Except MethodError Interface) : (c.serve call member found).reader = .reading ∧
      ∃ serial, (c.serve call member found).replies
        = c.replies ++ answered call (ObjectServer.answer found member call.body) serial := by
  unfold serve answered
  simp only
  split
  · exact ⟨rfl, 0, (List.append_nil _).symm⟩
  · exact ⟨rfl, _, rfl⟩

/-- **What the other events do to the reader**: it goes on after a handler, or
stops while it serves nobody, or nothing happens to it. -/
theorem step_reader (hstep : c.step e = some c') (hread : ∀ m, e ≠ .receive m) :
    (∃ call member found, c.reader = .serving call member found ∧
      c' = c.serve call member found) ∨
    c'.replies = c.replies ∧ (c'.reader = c.reader ∨
      c.reader.isServing = false ∧ c'.reader.isServing = false) := by
  cases e with
  | receive m => exact absurd rfl (hread m)
  | serve =>
    simp only [step] at hstep
    split at hstep
    · next call member found hreader =>
      cases hstep
      exact .inl ⟨call, member, found, hreader, rfl⟩
    · cases hstep
  | stop =>
    simp only [step] at hstep
    split at hstep
    · next hreader =>
      cases hstep
      rw [hreader]
      exact .inr ⟨rfl, .inr ⟨rfl, rfl⟩⟩
    · cases hstep
  | call hello request =>
    cases hstep
    exact .inr ⟨rfl, .inl rfl⟩
  | insert i =>
    simp only [step] at hstep
    split at hstep
    · cases hstep
      exact .inr ⟨replies_dropPending c _, .inl (reader_dropPending c _)⟩
    · cases hstep
  | writeFailed i =>
    simp only [step] at hstep
    split at hstep
    · cases hstep
      exact .inr ⟨replies_dropPending c _, .inl (reader_dropPending c _)⟩
    · cases hstep
  | _ =>
    right
    simp only [step] at hstep
    repeat' split at hstep
    all_goals
      cases hstep
      try exact ⟨rfl, .inl rfl⟩

/-- **A reader that serves nobody writes nothing** until it reads. -/
theorem run_idle (hreader : c.reader.isServing = false) (hrun : c.run es = some c')
    (hread : ∀ m, .receive m ∉ es) : c'.reader.isServing = false ∧ c'.replies = c.replies := by
  induction es generalizing c with
  | nil =>
    cases hrun
    exact ⟨hreader, rfl⟩
  | cons e es ih =>
    obtain ⟨c₁, hc₁, hrun⟩ := run_cons.mp hrun
    have hrest : ∀ m, .receive m ∉ es := fun m hm => hread m (List.mem_cons_of_mem _ hm)
    rcases step_reader hc₁ fun m hm => hread m (hm ▸ List.mem_cons_self) with
      ⟨call, member, found, hserving, -⟩ | ⟨hreplies, hsame | ⟨-, hidle⟩⟩
    · rw [hserving] at hreader
      cases hreader
    · rw [← hreplies]
      exact ih (hsame ▸ hreader) hrun hrest
    · rw [← hreplies]
      exact ih hidle hrun hrest

/-- **A reader that serves a call writes the answer, once.** -/
theorem run_serving (hreader : c.reader = .serving call member found)
    (hrun : c.run es = some c') (hread : ∀ m, .receive m ∉ es) :
    c'.reader = .serving call member found ∧ c'.replies = c.replies ∨
    c'.reader.isServing = false ∧ ∃ serial, c'.replies
      = c.replies ++ answered call (ObjectServer.answer found member call.body) serial := by
  induction es generalizing c with
  | nil =>
    cases hrun
    exact .inl ⟨hreader, rfl⟩
  | cons e es ih =>
    obtain ⟨c₁, hc₁, hrun⟩ := run_cons.mp hrun
    have hrest : ∀ m, .receive m ∉ es := fun m hm => hread m (List.mem_cons_of_mem _ hm)
    rcases step_reader hc₁ fun m hm => hread m (hm ▸ List.mem_cons_self) with
      ⟨call', member', found', hserving, rfl⟩ | ⟨hreplies, hsame | ⟨hidle, -⟩⟩
    · rw [hreader] at hserving
      cases hserving
      obtain ⟨hreading, serial, hanswered⟩ := c.serve_spec call member found
      obtain ⟨hidle, hreplies⟩ := run_idle (by rw [hreading]; rfl) hrun hrest
      exact .inr ⟨hidle, serial, hreplies.trans hanswered⟩
    · rw [← hreplies]
      exact ih (hsame.trans hreader) hrun hrest
    · rw [hreader] at hidle
      cases hidle

/-! ## Exactly one reply -/

/-- The replies to a call among messages. -/
def repliesTo (call : Message) (msgs : List Message) : List Message :=
  msgs.filter fun m => m.isReply && m.replySerial == some call.serial

/-- **The connection answers a call with exactly one reply**: whatever happens
after the call was read, once the reader is through with it and before it
reads on, it has written one reply to the call. -/
def AnswersOnce (c : Connection) (call : Message) : Prop :=
  ∀ es c', c.run (.receive call :: es) = some c' → (∀ m, .receive m ∉ es) →
    c'.reader.isServing = false →
    (repliesTo call (c'.replies.drop c.replies.length)).length = 1

/-- An answer is one reply if it can be encoded, and none otherwise. -/
theorem length_repliesTo_answered (hreply : call.noReplyExpected = false)
    (hsender : ∀ u, call.sender = some u → (asBytes u).contains 0 = false)
    (result : MethodResult) (serial : UInt32) :
    (repliesTo call (answered call result serial)).length = 1 ↔ Sendable call result := by
  obtain ⟨hisReply, hserial⟩ := reply_isReply call serial result
  rw [← @isOk_toBytes_reply call serial hsender result, answered, hreply]
  unfold written
  cases hok : ((reply call result).build serial).toBytes.isOk with
  | true =>
    simp only [Bool.false_eq_true, if_false, if_true, iff_true]
    rw [repliesTo, List.filter_cons_of_pos (by rw [hisReply, hserial]; simp)]
    rfl
  | false => simp [repliesTo]

/-- **A call that the client does not take for its own is dropped.** -/
theorem not_answersOnce (hreading : c.reader = .reading) (htype : call.messageType = .methodCall)
    (hus : c.isForUs call = false) : ¬ c.AnswersOnce call := by
  intro honce
  have hstep : c.step (.receive call) = some (c.receive call) := by
    simp only [step, hreading]
  have hsame : (c.receive call).reader = .reading ∧ (c.receive call).replies = c.replies := by
    unfold receive handleIncoming handleCall
    rw [htype, hus]
    exact ⟨hreading, rfl⟩
  have hone := honce [] (c.receive call) (run_cons.mpr ⟨_, hstep, rfl⟩) (fun _ => List.not_mem_nil)
    (by rw [hsame.1]; rfl)
  rw [hsame.2, List.drop_length] at hone
  cases hone

/-- A call that the client takes for its own is served. -/
theorem receive_call {path : ObjectPath} (htype : call.messageType = .methodCall)
    (hus : c.isForUs call = true) (hpath : call.path = some path)
    (hmember : call.member = some member) : (c.receive call).replies = c.replies ∧
      (c.receive call).reader =
        .serving call member (c.objectServer.target path.text call.interface member) := by
  unfold receive handleIncoming handleCall
  rw [htype, hus, hpath, hmember]
  exact ⟨rfl, rfl⟩

/-- **A call is answered exactly once if and only if the client takes it for its
own and the answer can be encoded.** -/
theorem answersOnce_iff (hreading : c.reader = .reading)
    (htype : call.messageType = .methodCall) (hreply : call.noReplyExpected = false)
    (hpath : call.path.isSome = true) (hmember : call.member.isSome = true)
    (hsender : ∀ u, call.sender = some u → (asBytes u).contains 0 = false) :
    c.AnswersOnce call ↔ c.isForUs call = true ∧ Sendable call (c.result call) := by
  obtain ⟨path, hpath⟩ := Option.isSome_iff_exists.mp hpath
  obtain ⟨member, hmember⟩ := Option.isSome_iff_exists.mp hmember
  have hstep : c.step (.receive call) = some (c.receive call) := by
    simp only [step, hreading]
  have hresult : ObjectServer.answer (c.objectServer.target path.text call.interface member) member
      call.body = c.result call := by
    unfold result
    rw [hpath, hmember]
    rfl
  cases hus : c.isForUs call with
  | false => exact iff_of_false (not_answersOnce hreading htype hus) fun h => by cases h.1
  | true =>
    obtain ⟨hreplies, hreader⟩ := receive_call htype hus hpath hmember
    constructor
    · intro honce
      refine ⟨rfl, ?_⟩
      obtain ⟨hserved, serial, hanswered⟩ := (c.receive call).serve_spec call member
        (c.objectServer.target path.text call.interface member)
      have hserve : (c.receive call).step .serve = some ((c.receive call).serve call member
          (c.objectServer.target path.text call.interface member)) := by
        simp only [step, hreader]
      have hone := honce [.serve] _ (run_cons.mpr ⟨_, hstep, run_cons.mpr ⟨_, hserve, rfl⟩⟩)
        (fun m => by simp) (by rw [hserved]; rfl)
      rw [hanswered, hreplies, List.drop_left, hresult] at hone
      exact (length_repliesTo_answered hreply hsender _ serial).mp hone
    · rintro ⟨-, hsendable⟩ es c' hrun hread hidle
      obtain ⟨c₁, hc₁, hrun⟩ := run_cons.mp hrun
      cases hstep.symm.trans hc₁
      rcases run_serving hreader hrun hread with ⟨hserving, -⟩ | ⟨-, serial, hanswered⟩
      · rw [hserving] at hidle
        cases hidle
      · rw [hanswered, hreplies, List.drop_left, hresult]
        exact (length_repliesTo_answered hreply hsender _ serial).mpr hsendable

end Connection

end Client

/-! ## Calls that the daemon delivers -/

/-- The driver makes no calls. -/
theorem DriverBuilt.messageType_ne {m : Message} (h : DriverBuilt m) :
    m.messageType ≠ .methodCall := by
  cases h with
  | reply call result serial =>
    have hreply : ∀ (errorName : Option String) (vs : List Value), ((((Message.replyTo call
        errorName).sender WellKnown.busName).args vs).build serial).messageType ≠ .methodCall := by
      intro errorName vs
      unfold Message.replyTo
      cases errorName <;> cases call.sender <;> exact nofun
    cases result with
    | ok values => exact hreply none values
    | error e => exact hreply (some e.name) [.string e.message]
  | changed change serial => exact nofun
  | unicast toUniqueName member name serial => exact nofun

section Delivered

variable {bus : Bus} {S : Daemon} {conn : ConnectionEntry} {msg call : Message} {s : BusState}
variable {pre post : List BusEvent}

/-- **When a delivered call is answered.** A call with a reply expected that the
daemon has written to a connection other than a monitor is addressed to the
connection's unique name or to a name it owned, and the client there answers
it exactly once if and only if that is the name it was given by Hello, and
the answer of the handler can be encoded. -/
theorem delivered_call_answered (bus : Bus) (S : Daemon) (conn : ConnectionEntry)
    (msg call : Message) (s : BusState) (pre post : List BusEvent) (c : Client.Connection)
    (h : Reachable bus S) (hlog : S.world.log = post ++ ⟨s, .write conn msg, true⟩ :: pre)
    (hmonitor : s.isMonitor conn = false) (htype : msg.messageType = .methodCall)
    (hreply : msg.noReplyExpected = false) (harrives : msg.Arrives call)
    (hreading : c.reader = .reading) :
    ∃ dest, call.destination = some dest ∧
      (dest = conn.uniqueName ∨ startsWithColon dest = false ∧
        ∃ s : BusState, s.registry.getNameOwner dest = some conn.uniqueName) ∧
      (c.AnswersOnce call ↔ c.uniqueName = some dest ∧
        Client.Sendable call (c.result call)) := by
  have hdriver : ¬ DriverBuilt msg := fun hdriver => hdriver.messageType_ne htype
  have hrouted : Routed pre msg := (h.genuine hlog).resolve_right hdriver
  have halike := hrouted.alike harrives
  have hdirected : msg.isDirected = true := by
    unfold Message.isDirected
    rw [htype]
    rfl
  have haddressed := (h.addressedTo hlog hmonitor hdirected).resolve_left hdriver
  have hsub : pre.Sublist S.world.log := by
    rw [hlog]
    exact (List.sublist_cons_self _ _).trans (List.sublist_append_right _ _)
  obtain ⟨dest, hdest, howner⟩ := haddressed.destination h hsub
  have hdest' : call.destination = some dest := halike.destination.trans hdest
  refine ⟨dest, hdest', howner, ?_⟩
  obtain ⟨hpath, hmember⟩ := hrouted.validates harrives htype
  have hsender : ∀ u, call.sender = some u → (asBytes u).contains 0 = false := by
    intro u hu
    obtain ⟨source, m, -, -, -, rfl⟩ := hrouted
    rw [halike.sender, Message.sender_setSender, Option.some.injEq] at hu
    exact hu ▸ nulFree_uniqueName source.id
  have hforUs : c.isForUs call = true ↔ c.uniqueName = some dest := by
    unfold Client.Connection.isForUs
    rw [hdest']
    exact beq_iff_eq
  rw [Client.Connection.answersOnce_iff hreading (halike.messageType.trans htype)
    (halike.noReplyExpected.trans hreply) hpath hmember hsender, hforUs]

end Delivered

/-! ## A service that is called by its name -/

/-- Whether a call of `request_name` for a name has returned that the connection
is the primary owner. -/
def Client.Connection.hasName (c : Client.Connection) (name : String) : Bool :=
  c.calls.any fun call =>
    call.request.destination == some WellKnown.busName &&
    call.request.member == some "RequestName" &&
    call.request.body.head?.bind Value.asStr == some name &&
    match call.phase with
    | .returned (.ok values) => values.head?.bind Value.asU32 == some requestReplyPrimaryOwner
    | _ => false

/-- A service says Hello and gets a name, and another client calls a method under
the name it is given here. -/
def serviceCalled (dest : String) : Daemon :=
  Daemon.new.replay plainBus [.accept ⟨1000, 1000, 4711⟩, .run 0 8,
    .receive 0 (frameOf (Client.helloRequest.build 1)), .run 0 50,
    .receive 0 (frameOf ((Client.nameRequest "a.Service" 0).build 2)), .run 0 50,
    .accept ⟨1000, 1000, 4712⟩, .run 1 8, .receive 1 (frameOf (Client.helloRequest.build 1)),
    .run 1 80, .receive 1 (frameOf ((⟨some dest, ⟨"/a"⟩, some "a.B", "M", []⟩ :
      Client.Request).build 2)), .run 1 9]

/-- What happens in the service: `bus_hello` and `request_name`, each with what
there is to read. -/
def serviceEvents (read : List Message) : List Client.Event :=
  [.call true Client.helloRequest, .insert 0, .written 0] ++ (read.take 2).map .receive ++
    [.resume 0, .named 0, .call false (Client.nameRequest "a.Service" 0), .insert 1, .written 1] ++
    (read.drop 2).map .receive ++ [.resume 1]

/-- What the service exports: an object whose methods return nothing. -/
def exporting : ObjectServer := ObjectServer.new.register ⟨"/a"⟩ ⟨"a.B", fun _ _ => .ok []⟩

/-- Whether the last event is the call, and finds the service registered, with its
name, and with an answer that can be encoded. -/
def callsService (dest : String) (log : List BusEvent) : Bool :=
  match log with
  | ⟨s, .write conn msg, true⟩ :: pre =>
    msg.messageType == .methodCall && !msg.noReplyExpected && !s.isMonitor conn &&
    conn == peerConnection 1 &&
    match msg.readBack, (Client.Connection.start exporting 1).run
      (serviceEvents (readings pre conn)) with
    | some call, some c =>
      call.messageType == .methodCall && call.destination == some dest &&
      c.uniqueName == some conn.uniqueName && c.hasName "a.Service" && c.reader.isReading &&
      decide (Client.Sendable call (c.result call))
    | _, _ => false
  | _ => false

/-- **A call to the unique name of the service is answered.** -/
theorem delivered_call_answered_unique : ∃ (s : BusState) (conn : ConnectionEntry)
    (msg call : Message) (pre : List BusEvent) (c : Client.Connection),
    (serviceCalled ":1.1").world.log = ⟨s, .write conn msg, true⟩ :: pre ∧ msg.Arrives call ∧
    call.destination = some ":1.1" ∧ c.hasName "a.Service" = true ∧ c.AnswersOnce call := by
  have hcalls : callsService ":1.1" (serviceCalled ":1.1").world.log = true := by decide +kernel
  have hreachable : Reachable plainBus (serviceCalled ":1.1") := reachable_replay reachable_new _
  unfold callsService at hcalls
  split at hcalls
  · next s conn msg pre hlog =>
    simp only [Bool.and_eq_true, beq_iff_eq, Bool.not_eq_true'] at hcalls
    obtain ⟨⟨⟨⟨htype, hreply⟩, hmonitor⟩, hconn⟩, hcalls⟩ := hcalls
    split at hcalls
    · next call c hcall hrun =>
      simp only [Bool.and_eq_true, beq_iff_eq, decide_eq_true_eq] at hcalls
      obtain ⟨⟨⟨⟨⟨-, hdest⟩, hname⟩, hhas⟩, hreading⟩, hsendable⟩ := hcalls
      obtain ⟨dest, hdest', -, hiff⟩ := delivered_call_answered plainBus (serviceCalled ":1.1") conn
        msg call s pre [] c hreachable hlog hmonitor htype hreply
        (Message.arrives_of_readBack hcall)
        (Client.Reader.eq_reading hreading)
      have hsame : some conn.uniqueName = some dest := by
        rw [← hdest', hdest, hconn]
        decide
      exact ⟨s, conn, msg, call, pre, c, hlog, Message.arrives_of_readBack hcall, hdest, hhas,
        hiff.mpr ⟨hname.trans hsame, hsendable⟩⟩
    · cases hcalls
  · cases hcalls

theorem fedBy_serviceEvents (log : List BusEvent) (conn : ConnectionEntry) :
    FedBy log conn (serviceEvents (readings log conn)) := by
  refine fedBy_of_readings fun m hm => ?_
  simp only [serviceEvents, List.mem_append, List.mem_cons, List.mem_map, List.not_mem_nil,
    reduceCtorEq, false_or, or_false, Client.Event.receive.injEq, exists_eq_right] at hm
  exact hm.elim List.mem_of_mem_take List.mem_of_mem_drop

/-- **A call to the name is delivered and not answered.** -/
theorem call_to_name_unanswered : ¬ ∀ (bus : Bus) (S : Daemon) (conn : ConnectionEntry)
    (msg call : Message) (s : BusState) (pre post : List BusEvent) (server : ObjectServer)
    (replySerials : UInt32) (es : List Client.Event) (c : Client.Connection) (name : String),
    Reachable bus S → S.world.log = post ++ ⟨s, .write conn msg, true⟩ :: pre →
    s.isMonitor conn = false → msg.messageType = .methodCall → msg.noReplyExpected = false →
    msg.Arrives call → FedBy pre conn es →
    (Client.Connection.start server replySerials).run es = some c → c.reader = .reading →
    c.uniqueName = some conn.uniqueName → c.hasName name = true →
    call.destination = some conn.uniqueName ∨ call.destination = some name →
    c.AnswersOnce call := by
  intro h
  have hcalls : callsService "a.Service" (serviceCalled "a.Service").world.log = true := by
    decide +kernel
  have hreachable : Reachable plainBus (serviceCalled "a.Service") :=
    reachable_replay reachable_new _
  unfold callsService at hcalls
  split at hcalls
  · next s conn msg pre hlog =>
    simp only [Bool.and_eq_true, beq_iff_eq, Bool.not_eq_true'] at hcalls
    obtain ⟨⟨⟨⟨htype, hreply⟩, hmonitor⟩, -⟩, hcalls⟩ := hcalls
    split at hcalls
    · next call c hcall hrun =>
      simp only [Bool.and_eq_true, beq_iff_eq] at hcalls
      obtain ⟨⟨⟨⟨⟨htype', hdest⟩, hname⟩, hhas⟩, hreading⟩, -⟩ := hcalls
      have hreading := Client.Reader.eq_reading hreading
      refine Client.Connection.not_answersOnce hreading htype' ?_
        (h plainBus _ conn msg call s pre []
        exporting 1 _ c "a.Service" hreachable hlog hmonitor htype hreply
        (Message.arrives_of_readBack hcall) (fedBy_serviceEvents pre conn) hrun hreading hname hhas
        (.inr hdest))
      unfold Client.Connection.isForUs
      rw [hdest, hname]
      show (some conn.uniqueName == some "a.Service") = false
      refine beq_eq_false_iff_ne.mpr fun heq => ?_
      have hcolon := startsWithColon_uniqueName conn.id
      rw [show uniqueName conn.id = "a.Service" from Option.some.inj heq] at hcolon
      exact absurd hcolon (by decide)
    · cases hcalls
  · cases hcalls

end Oxibus
