import Oxibus.Daemon.DriverReplies
import Oxibus.Daemon.Moments

/-!
# The answers of the driver are those of one moment

Seven methods of the driver only look: who is on the bus, who owns a name,
who waits for it, who the owner is. Others change the bus while such a call
is dispatched, and a call may have to look twice – at the owner of a name, and
then at the connection that the owner is.

Still every reply is what the question is answered by **in one state** that
the bus was in between the reading of the call and the reply: the lookup is
the point at which the call takes effect. There is one exception. If the
owner leaves between the two looks, the reply says that nobody has the name,
whoever has it then; so an error need not be true at any moment, and what is
not an error always is.
-/

namespace Oxibus

open BusProg Daemon Relation

/-! ## Questions -/

/-- What can be asked about the owner of a name. -/
inductive Aspect where
  | unixUser
  | unixProcessId
  | credentials
  deriving DecidableEq, Repr

/-- What the driver says of a connection. -/
def Aspect.values (c : ConnectionEntry) : Aspect → List Value
  | unixUser => [.uint32 c.credentials.uid]
  | unixProcessId => [.uint32 (Driver.pidU32 c)]
  | credentials =>
    [Driver.dictOfU32 [("UnixUserID", c.credentials.uid), ("ProcessID", Driver.pidU32 c)]]

/-- What is said about whoever was found under a name. -/
def Aspect.answer (what : Aspect) (name : String) : Option ConnectionEntry → DriverResult
  | some c => .ok (what.values c)
  | none => (Driver.nameHasNoOwner name).result

/-- What is said about the owner of a name. -/
def ownerAnswer (name : String) : Option String → DriverResult
  | some owner => .ok [.string owner]
  | none => .error ⟨Errors.nameHasNoOwner,
    "Could not get owner of name '" ++ name ++ "': no such name"⟩

/-- **A question about the bus.** -/
inductive Query where
  | listNames
  | nameHasOwner (name : String)
  | getNameOwner (name : String)
  | listQueuedOwners (name : String)
  | about (what : Aspect) (name : String)
  deriving DecidableEq, Repr

namespace Query

/-- A question that takes a name. -/
def named (args : List Value) (ask : String → Query) : Option Query :=
  match Driver.argStr args 0 with
  | .ok name => some (ask name)
  | .error _ => none

/-- The question that a call of a method asks, if it asks one. -/
def ofCall (member : String) (args : List Value) : Option Query :=
  if member = "ListNames" then some listNames
  else if member = "NameHasOwner" then (args.head?.bind Value.asStr).map nameHasOwner
  else if member = "GetNameOwner" then named args getNameOwner
  else if member = "ListQueuedOwners" then named args listQueuedOwners
  else if member = "GetConnectionUnixUser" then named args (about .unixUser)
  else if member = "GetConnectionUnixProcessID" then named args (about .unixProcessId)
  else if member = "GetConnectionCredentials" then named args (about .credentials)
  else none

/-- **What a question is answered by in a state of the bus.** The order of names is up
to the table. -/
def Answers (s : BusState) : Query → DriverResult → Prop
  | listNames, result => ∃ names : List String, names.Perm s.registry.listNames ∧
    result = .ok [Driver.stringArray names]
  | nameHasOwner name, result => result = .ok [.boolean (s.registry.getNameOwner name).isSome]
  | getNameOwner name, result => result = ownerAnswer name (s.registry.getNameOwner name)
  | listQueuedOwners name, result =>
    result = .ok [Driver.stringArray (s.registry.listQueuedOwners name)]
  | about what name, result => result = what.answer name (s.registry.holder name)

end Query

/-- The interfaces of the driver beside its own. -/
def sideInterfaces : List String :=
  [WellKnown.peerInterface, WellKnown.introspectableInterface, WellKnown.statsInterface,
    WellKnown.monitoringInterface]

/-- **The question that a message asks the driver**, if it asks one. -/
def Message.query (msg : Message) : Option Query :=
  if msg.messageType = .methodCall ∧ msg.destination = some WellKnown.busName ∧
      msg.interface.all (fun i => !sideInterfaces.contains i) = true then
    Query.ofCall (msg.member.getD "") msg.body
  else none

/-! ## Since a message was read -/

/-- The message that an event reads from a connection. -/
def BusEvent.reads (c : ConnectionEntry) : BusEvent → Option Message
  | ⟨_, .readMessage c', some m⟩ => if c' = c then some m else none
  | _ => none

/-- **What has happened since a message was read** from a connection, the latest
first. -/
def Since (c : ConnectionEntry) (m : Message) (mid log : List BusEvent) : Prop :=
  ∃ s rest, log = mid ++ ⟨s, .readMessage c, some m⟩ :: rest ∧
    ∀ e ∈ mid, BusEvent.reads c e = none

/-- Time goes by, and nothing is read from a connection. -/
def World.Meanwhile (c : ConnectionEntry) (w w' : World) : Prop :=
  ∃ es, w'.log = es ++ w.log ∧ ∀ e ∈ es, BusEvent.reads c e = none

variable {bus : Bus} {S : Daemon} {c c' : ConnectionEntry} {m msg reply : Message}
variable {mid log pre post : List BusEvent} {q : Query} {o : BusOp} {r : o.Res}
variable {w w' w'' : World} {j j' : Job} {s : BusState} {α : Type}

theorem Since.cons {e : BusEvent} (h : Since c m mid log) (he : e.reads c = none) :
    Since c m (e :: mid) (e :: log) := by
  obtain ⟨s, rest, rfl, hmid⟩ := h
  exact ⟨s, rest, rfl, List.forall_mem_cons.mpr ⟨he, hmid⟩⟩

theorem Since.append {es : List BusEvent} (h : Since c m mid log)
    (hes : ∀ e ∈ es, BusEvent.reads c e = none) : Since c m (es ++ mid) (es ++ log) := by
  obtain ⟨s, rest, rfl, hmid⟩ := h
  refine ⟨s, rest, (List.append_assoc ..).symm, fun e he => ?_⟩
  exact (List.mem_append.mp he).elim (hes e) (hmid e)

namespace World

theorem Meanwhile.refl (c : ConnectionEntry) (w : World) : w.Meanwhile c w :=
  ⟨[], rfl, fun _ he => absurd he List.not_mem_nil⟩

theorem Meanwhile.trans (h : w.Meanwhile c w') (h' : w'.Meanwhile c w'') :
    w.Meanwhile c w'' := by
  obtain ⟨es, hlog, hes⟩ := h
  obtain ⟨es', hlog', hes'⟩ := h'
  refine ⟨es' ++ es, by rw [hlog', hlog, List.append_assoc], fun e he => ?_⟩
  exact (List.mem_append.mp he).elim (hes' e) (hes e)

/-- A foreign operation happens. -/
theorem Exec.meanwhile (h : World.Exec o w r w') (ho : o.Foreign c) : w.Meanwhile c w' := by
  refine ⟨[⟨w.state, o, r⟩], h.2, fun e he => ?_⟩
  rw [List.mem_singleton.mp he]
  cases o with
  | readMessage c' =>
    have hne : c' ≠ c := fun heq => (ho : c'.id ≠ c.id) (congrArg ConnectionEntry.id heq)
    cases r with
    | none => rfl
    | some m => exact if_neg hne
  | _ => rfl

end World

theorem reads_of_silent (ho : Silent o) (s : BusState) (r : o.Res) :
    BusEvent.reads c ⟨s, o, r⟩ = none := by
  cases o with
  | readMessage => exact ho.elim
  | _ => rfl

/-! ## What a dispatch has seen -/

/-- **Where the answer to a question comes from**: from a look at one state, from two
looks at an owner and the connection that it is, or from the gate before
Hello. -/
inductive Query.Seen (c : ConnectionEntry) (mid : List BusEvent) : Query → DriverResult → Prop
  | once {q : Query} {result : DriverResult} {e : BusEvent} (he : e ∈ mid)
    (h : q.Answers e.before result) : Seen c mid q result
  | twice {what : Aspect} {name owner : String} {e₁ e₂ : BusEvent}
    (hmid : [e₂, e₁].Sublist mid) (howner : e₁.before.registry.getNameOwner name = some owner) :
    Seen c mid (.about what name) (what.answer name (e₂.before.registry.get owner))
  | unregistered {q : Query} {e : BusEvent} (he : e ∈ mid)
    (h : e.before.isRegistered c = false) : Seen c mid q (.error ⟨Errors.accessDenied,
      "Client tried to send a message other than Hello without being registered"⟩)

theorem Query.Seen.mono {mid' : List BusEvent} {result : DriverResult} (h : q.Seen c mid result)
    (hsub : mid.Sublist mid') : q.Seen c mid' result := by
  cases h with
  | once he h => exact .once (hsub.subset he) h
  | twice hmid howner => exact .twice (hmid.trans hsub) howner
  | unregistered he h => exact .unregistered (hsub.subset he) h

/-- **A reply to a message**: the message wants one, the reply names it and goes to its
sender, and it says what the dispatch has seen if the message asks a
question. -/
structure Replied (c : ConnectionEntry) (msg : Message) (mid : List BusEvent) (reply : Message) :
    Prop where
  wanted : msg.noReplyExpected = false
  replySerial : reply.replySerial = some msg.serial
  destination : reply.destination = msg.sender
  seen : ∀ q, msg.query = some q → ∃ result serial,
    reply = (Dispatch.outcomeReply msg result).build serial ∧ q.Seen c mid result

/-- **What may be written while a message is dispatched**: nothing of the driver's but
its reply. -/
def Answering (c : ConnectionEntry) (m : Message) (log : List BusEvent) : BusOp → Prop
  | .write c' reply => reply.IsDriverReply → c' = c ∧ ∃ mid, Since c m mid log ∧
    Replied c (m.setSender c.uniqueName) mid reply
  | .spawnWrite _ m' => ¬ m'.IsDriverReply
  | _ => True

theorem Answering.of_silent (ho : Silent o) : Answering c m log o := by
  cases o with
  | write c' reply => exact fun h => absurd h ho
  | spawnWrite c' m' => exact ho
  | _ => trivial

/-- A program of a dispatch, amid what the others do. -/
abbrev Informs (c : ConnectionEntry) (m : Message) (p : BusProg α) (w : World)
    (post : α → World → Prop) : Prop :=
  p.Ensures World.Exec (World.Meanwhile c) (fun o w _ _ => Answering c m w.log o) post w

/-- The message is still the last one that was read. -/
abbrev Asked (c : ConnectionEntry) (m : Message) (w : World) : Prop := ∃ mid, Since c m mid w.log

theorem Asked.meanwhile (h : Asked c m w) (henv : w.Meanwhile c w') : Asked c m w' := by
  obtain ⟨mid, hmid⟩ := h
  obtain ⟨es, hlog, hes⟩ := henv
  exact ⟨es ++ mid, hlog ▸ hmid.append hes⟩

/-- A program with which nothing happens. -/
theorem informs_of_silent {p : BusProg α} (hp : p.Only Silent) (h : Asked c m w) :
    Informs c m p w fun _ w' => Asked c m w' := by
  refine hp.ensures (fun _ _ => Asked.meanwhile) (fun o w r w' ho h hexec => ?_) h
  obtain ⟨mid, hmid⟩ := h
  refine ⟨.of_silent ho, ⟨w.state, o, r⟩ :: mid, ?_⟩
  rw [hexec.2]
  exact hmid.cons (reads_of_silent ho _ _)

/-- **One silent operation**: what is done with its answer knows of it, and of all that
was known before. -/
theorem informs_call {k : o.Res → BusProg α} {postcond : α → World → Prop}
    (h : Since c m mid w.log) (ho : Silent o)
    (hk : ∀ s r w' mid', (∃ s', o.Exec s r s') → Since c m (⟨s, o, r⟩ :: mid') w'.log →
      mid.Sublist mid' → Informs c m (k r) w' postcond) :
    Informs c m (.call o k) w postcond := by
  rintro w₁ r w₂ ⟨es, hlog, hes⟩ hexec
  refine ⟨.of_silent ho,
    hk w₁.state r w₂ (es ++ mid) ⟨_, hexec.1⟩ ?_ (List.sublist_append_right _ _)⟩
  rw [hexec.2, hlog]
  exact (h.append hes).cons (reads_of_silent ho _ _)

/-- **The reply is sent.** -/
theorem informs_reply (hwanted : (m.setSender c.uniqueName).noReplyExpected = false)
    (hq : ∀ q', (m.setSender c.uniqueName).query = some q' → q' = q)
    {result : DriverResult} (h : Since c m mid w.log) (hseen : q.Seen c mid result) :
    Informs c m
    (Dispatch.sendFromDriver c (Dispatch.outcomeReply (m.setSender c.uniqueName) result)) w
      fun _ _ => True := by
  refine informs_call h trivial fun s serial w' mid' _ hmid' hsub => ?_
  rintro w₁ r w₂ ⟨es, hlog, hes⟩ hexec
  obtain ⟨-, hserial, hdest⟩ :=
    Dispatch.outcomeReply_spec (m.setSender c.uniqueName) result serial
  refine ⟨fun _ => ⟨rfl, es ++ _, hlog ▸ hmid'.append hes, hwanted, hserial, hdest,
    fun q' hq' => ?_⟩, trivial⟩
  rw [hq q' hq']
  refine ⟨result, serial, rfl, hseen.mono ?_⟩
  exact hsub.trans ((List.sublist_cons_self _ _).trans (List.sublist_append_right _ _))

/-! ## One dispatch -/

namespace Query

/-- What the driver does for a question. -/
def program : Query → BusProg DriverOutcome
  | listNames => do
    let names ← op .listNames
    return Driver.ok [Driver.stringArray names] []
  | nameHasOwner name => do
    let owner ← op (.getNameOwner name)
    return Driver.ok [.boolean owner.isSome] []
  | getNameOwner name => do
    match ← op (.getNameOwner name) with
    | some owner => return Driver.ok [.string owner] []
    | none => return Driver.err ⟨Errors.nameHasNoOwner,
        "Could not get owner of name '" ++ name ++ "': no such name"⟩
  | listQueuedOwners name => do
    let owners ← op (.listQueuedOwners name)
    return Driver.ok [Driver.stringArray owners] []
  | about what name => do
    match ← Driver.resolveConnection name with
    | some holder => return Driver.ok (what.values holder) []
    | none => return Driver.nameHasNoOwner name

/-- A question that takes a name is about the argument. -/
theorem eq_of_named {args : List Value} {ask : String → Query} (h : named args ask = some q) :
    ∃ name, Driver.argStr args 0 = .ok name ∧ q = ask name := by
  unfold named at h
  split at h
  · next name hname => exact ⟨name, hname, (Option.some.inj h).symm⟩
  · cases h

/-- A method with an argument that is there. -/
theorem withArgStr_of_ok {args : List Value} {name : String} {f : String → BusProg DriverOutcome}
    (h : Driver.argStr args 0 = .ok name) : Driver.withArgStr args f = f name := by
  unfold Driver.withArgStr
  rw [h]

/-- **The methods that only look do what the questions say.** -/
theorem handle_of_ofCall {member : String} {args : List Value} (h : ofCall member args = some q) :
    Driver.handle bus c member args = q.program := by
  unfold ofCall at h
  split_ifs at h with h₁ h₂ h₃ h₄ h₅ h₆ h₇
  · subst h₁
    cases h
    rfl
  · subst h₂
    obtain ⟨name, hname, rfl⟩ := Option.map_eq_some_iff.mp h
    show Driver.handleNameHasOwner args = _
    unfold Driver.handleNameHasOwner
    rw [hname]
    rfl
  · subst h₃
    obtain ⟨name, hname, rfl⟩ := eq_of_named h
    exact withArgStr_of_ok hname
  · subst h₄
    obtain ⟨name, hname, rfl⟩ := eq_of_named h
    exact withArgStr_of_ok hname
  · subst h₅
    obtain ⟨name, hname, rfl⟩ := eq_of_named h
    exact withArgStr_of_ok hname
  · subst h₆
    obtain ⟨name, hname, rfl⟩ := eq_of_named h
    exact withArgStr_of_ok hname
  · subst h₇
    obtain ⟨name, hname, rfl⟩ := eq_of_named h
    exact withArgStr_of_ok hname

/-- **What is found out for a question is seen** by the dispatch. -/
theorem informs_program (h : Since c m mid w.log) (q : Query) :
    Informs c m q.program w fun outcome w' => outcome.nameOwnerChanges = [] ∧
      ∃ mid', Since c m mid' w'.log ∧ q.Seen c mid' outcome.result := by
  cases q with
  | listNames =>
    refine informs_call h trivial fun s names w' mid' hexec hmid' _ => ⟨rfl, _, hmid', ?_⟩
    obtain ⟨_, hperm, -⟩ := hexec
    exact .once List.mem_cons_self ⟨names, hperm, rfl⟩
  | nameHasOwner name =>
    refine informs_call h trivial fun s owner w' mid' hexec hmid' _ => ⟨rfl, _, hmid', ?_⟩
    obtain ⟨_, rfl, -⟩ := hexec
    exact .once List.mem_cons_self rfl
  | getNameOwner name =>
    refine informs_call h trivial fun s owner w' mid' hexec hmid' _ => ?_
    obtain ⟨_, howner, -⟩ := hexec
    have hseen : (getNameOwner name).Seen c (⟨s, .getNameOwner name, owner⟩ :: mid')
        (ownerAnswer name owner) := .once List.mem_cons_self (congrArg _ howner)
    cases owner with
    | some owner => exact ⟨rfl, _, hmid', hseen⟩
    | none => exact ⟨rfl, _, hmid', hseen⟩
  | listQueuedOwners name =>
    refine informs_call h trivial fun s owners w' mid' hexec hmid' _ => ⟨rfl, _, hmid', ?_⟩
    obtain ⟨_, rfl, -⟩ := hexec
    exact .once List.mem_cons_self rfl
  | about what name =>
    refine informs_call h trivial fun s owner w' mid' hexec hmid' _ => ?_
    obtain ⟨_, howner, -⟩ := hexec
    cases owner with
    | none =>
      refine ⟨rfl, _, hmid', .once List.mem_cons_self ?_⟩
      show _ = what.answer name (s.registry.holder name)
      rw [Registry.holder_of_none howner.symm]
      rfl
    | some owner =>
      refine informs_call hmid' trivial fun s₂ found w₂ mid₂ hexec₂ hmid₂ hsub => ?_
      obtain ⟨_, hfound, -⟩ := hexec₂
      -- the owner was seen first, and the connection after it
      have hlooks :
          [(⟨s₂, .get owner, found⟩ : BusEvent), ⟨s, .getNameOwner name, some owner⟩].Sublist
          (⟨s₂, .get owner, found⟩ :: mid₂) :=
        List.Sublist.cons_cons _ ((List.singleton_sublist.mpr List.mem_cons_self).trans hsub)
      have hseen : (about what name).Seen c (⟨s₂, .get owner, found⟩ :: mid₂)
          (what.answer name found) := by
        rw [show what.answer name found = what.answer name (s₂.registry.get owner) from
          congrArg _ hfound]
        exact .twice hlooks howner.symm
      cases found with
      | some holder => exact ⟨rfl, _, hmid₂, hseen⟩
      | none => exact ⟨rfl, _, hmid₂, hseen⟩

end Query

/-! ## From the message to the reply -/

namespace Dispatch

/-- **The outcome of a question** is what the driver has seen. -/
theorem driverOutcome_of_query (hq : msg.query = some q) :
    driverOutcome bus c msg = q.program := by
  unfold Message.query at hq
  split_ifs at hq with hcall
  obtain ⟨-, -, hinterface⟩ := hcall
  have hside : handleSideInterface bus c msg.interface (msg.member.getD "") msg.body = none := by
    unfold handleSideInterface
    cases hi : msg.interface with
    | none => rfl
    | some i =>
      have hi' : i ∉ sideInterfaces := by
        rw [hi] at hinterface
        simpa using hinterface
      have hne : ∀ i' ∈ sideInterfaces, ¬ some i = some i' := fun i' hmem heq =>
        hi' (Option.some.inj heq ▸ hmem)
      rw [if_neg (hne _ (by decide)), if_neg (hne _ (by decide)), if_neg (hne _ (by decide)),
        if_neg (hne _ (by decide))]
  unfold driverOutcome
  dsimp only
  rw [hside]
  exact Query.handle_of_ofCall hq

/-- A question is answered. -/
theorem informs_question (hq : (m.setSender c.uniqueName).query = some q)
    (h : Since c m mid w.log) :
    Informs c m (dispatchByType bus c (m.setSender c.uniqueName)) w fun _ _ => True := by
  have hunique : ∀ q', (m.setSender c.uniqueName).query = some q' → q' = q := fun q' hq' =>
    Option.some.inj (hq'.symm.trans hq)
  have hcall := hq
  unfold Message.query at hcall
  split_ifs at hcall with hcond
  obtain ⟨htype, hdest, -⟩ := hcond
  unfold dispatchByType
  rw [htype]
  show Informs c m (dispatchMethodCall bus c _) w _
  unfold dispatchMethodCall
  rw [hdest]
  show Informs c m (if WellKnown.busName = WellKnown.busName then _ else _) w _
  rw [if_pos rfl]
  unfold handleDriverCall
  rw [driverOutcome_of_query hq]
  refine Prog.ensures_bind ((Query.informs_program h q).mono ?_)
  rintro outcome w' ⟨hchanges, mid', hmid', hseen⟩
  unfold finishDriverReply
  rw [hchanges]
  refine Prog.ensures_ite (fun _ => trivial) fun hwanted => ?_
  exact informs_reply (Bool.not_eq_true _ ▸ hwanted) hunique hmid' hseen

/-- **What a dispatch writes of the driver's** is the reply to its message, and says what
the dispatch has seen. -/
theorem informs_dispatchIncoming (h : Since c m mid w.log) :
    Informs c m (dispatchIncoming bus c m) w fun _ _ => True := by
  cases hq : (m.setSender c.uniqueName).query with
  | none =>
    -- nothing is asked, so it is enough that there is one reply
    have hkept : Informs c m (dispatchIncoming bus c m) w fun _ w' => Asked c m w' := by
      refine (once_dispatchIncoming m).only.ensures (fun _ _ => Asked.meanwhile)
        (fun o w r w' ho h hexec => ?_) ⟨mid, h⟩
      obtain ⟨mid, hmid⟩ := h
      rcases ho with ho | ho
      · refine ⟨.of_silent ho, ⟨w.state, o, r⟩ :: mid, ?_⟩
        rw [hexec.2]
        exact hmid.cons (reads_of_silent ho _ _)
      · cases o with
        | write c' reply =>
          obtain ⟨hc, hwanted, -, hserial, hdest⟩ := ho
          refine ⟨fun _ => ⟨hc, mid, hmid, hwanted, hserial, hdest, fun q hq' => ?_⟩,
            ⟨w.state, _, r⟩ :: mid, ?_⟩
          · rw [hq] at hq'
            cases hq'
          · rw [hexec.2]
            exact hmid.cons rfl
        | _ => exact ho.elim
    exact hkept.mono fun _ _ _ => trivial
  | some q =>
    have hunique : ∀ q', (m.setSender c.uniqueName).query = some q' → q' = q := fun q' hq' =>
      Option.some.inj (hq'.symm.trans hq)
    refine Prog.ensures_bind ((informs_of_silent ?_ ⟨mid, h⟩).mono ?_)
    · exact silent_deliverToMonitors m c
    rintro _ w₁ ⟨mid₁, hmid₁⟩
    refine informs_call hmid₁ trivial fun s isRegistered w₂ mid₂ hexec hmid₂ _ => ?_
    obtain ⟨_, hregistered, -⟩ := hexec
    refine Prog.ensures_ite (fun hgate => ?_) fun _ => informs_question hq hmid₂
    refine Prog.ensures_ite (fun _ => trivial) fun hwanted => ?_
    refine informs_reply (Bool.not_eq_true _ ▸ hwanted) hunique hmid₂
      (.unregistered List.mem_cons_self ?_)
    rw [Bool.and_eq_true_iff, Bool.not_eq_true'] at hgate
    exact hregistered.symm.trans hgate.1

end Dispatch

/-! ## Whole runs -/

/-- **How a job stands with what it is asked.** -/
def Job.Telling (w : World) : Job → Prop
  | serving c p => p.Only Silent ∨ ∃ m, Informs c m p w fun _ _ => True
  | announcing p => p.Only Silent
  | copying _ m => ¬ m.IsDriverReply
  | _ => True

/-- A reply of the driver is to the last message of the connection, and says what was
seen since. -/
def Founded (log : List BusEvent) : BusEvent → Prop
  | ⟨_, .write c reply, _⟩ => reply.IsDriverReply →
    ∃ m mid, Since c m mid log ∧ Replied c (m.setSender c.uniqueName) mid reply
  | _ => True

theorem founded_of_silent (ho : Silent o) (s : BusState) (r : o.Res) : Founded log ⟨s, o, r⟩ := by
  cases o with
  | write c reply => exact fun h => absurd h ho
  | _ => trivial

theorem founded_of_answering (ho : Answering c m log o) (s : BusState) (r : o.Res) :
    Founded log ⟨s, o, r⟩ := by
  cases o with
  | write c' reply =>
    intro hreply
    obtain ⟨rfl, mid, hmid, hreplied⟩ := ho hreply
    exact ⟨m, mid, hmid, hreplied⟩
  | _ => trivial

/-- What is left to a task of its own is none of the driver's replies. -/
theorem telling_of_mem_spawned (ho : ∀ c m, o = .spawnWrite c m → ¬ m.IsDriverReply)
    (hj : j ∈ o.spawned) : j.Telling w := by
  cases o with
  | spawnWrite c m =>
    rw [List.mem_singleton.mp hj]
    exact ho c m rfl
  | _ => exact absurd hj List.not_mem_nil

theorem not_isDriverReply_of_silent {m' : Message} (ho : Silent o) (heq : o = .spawnWrite c' m') :
    ¬ m'.IsDriverReply := by
  subst heq
  exact ho

/-- **One operation of a job.** -/
theorem telling_step (h : j.Telling w) (hstep : JobStep bus j o r j')
    (hexec : World.Exec o w r w') :
    Founded w.log ⟨w.state, o, r⟩ ∧ j'.Telling w' ∧ ∀ j ∈ o.spawned, j.Telling w' := by
  -- an operation with which nothing happens
  have hsilent : Silent o → j'.Telling w' →
      Founded w.log ⟨w.state, o, r⟩ ∧ j'.Telling w' ∧ ∀ j ∈ o.spawned, j.Telling w' := fun ho hj' =>
    ⟨founded_of_silent ho _ _, hj', fun j hj =>
      telling_of_mem_spawned (fun _ _ => not_isDriverReply_of_silent ho) hj⟩
  cases hstep with
  | @read c m =>
    have hread : Since c m [] w'.log :=
      ⟨w.state, w.log, hexec.2, fun _ he => absurd he List.not_mem_nil⟩
    exact ⟨trivial, .inr ⟨m, Dispatch.informs_dispatchIncoming hread⟩, nofun⟩
  | readFailed => exact ⟨trivial, trivial, nofun⟩
  | @dispatch c o k r =>
    rcases h with hp | ⟨m, hp⟩
    · exact hsilent hp.1 (.inl (hp.2 r))
    · obtain ⟨ho, hk⟩ := hp w r w' (.refl c w) hexec
      refine ⟨founded_of_answering ho _ _, .inr ⟨m, hk⟩, fun j hj => ?_⟩
      refine telling_of_mem_spawned (fun c' m' heq => ?_) hj
      subst heq
      exact ho
  | @remove c events => exact hsilent trivial (Dispatch.silent_broadcastNameOwnerChanges events)
  | announce => exact hsilent h.1 (h.2 _)
  | copy => exact hsilent h trivial
  | add => exact hsilent trivial (.inl trivial)
  | _ => exact hsilent trivial trivial

/-- A job that waits is asked nothing. -/
theorem Job.Telling.stable (h : j.Telling w) (ho : ∀ c, j.entry = some c → o.Foreign c)
    (hexec : World.Exec o w r w') : j.Telling w' := by
  cases j with
  | serving c p =>
    refine h.imp_right fun ⟨m, hp⟩ => ⟨m, ?_⟩
    exact hp.interfere (fun _ _ _ => .trans) (fun _ _ _ _ _ => trivial) (hexec.meanwhile (ho c rfl))
  | announcing p => exact h
  | copying c m => exact h
  | _ => trivial

/-- **In every run, the driver's replies say what was seen.** -/
theorem Daemon.Reachable.founded (h : Reachable bus S) : Logged Founded S.world.log :=
  (h.secure (fun _ _ => trivial) (fun hj _ => telling_step hj) Job.Telling.stable).1

/-! ## What was seen in one state -/

/-- **A question is settled** by what happened while it was dispatched: the reply is what
it is answered by in one of these states, or says that nobody has the name
because its owner has left, or the connection has not said Hello. -/
inductive Query.Settled (c : ConnectionEntry) (mid : List BusEvent) : Query → DriverResult → Prop
  | answered {q : Query} {result : DriverResult} {e : BusEvent} (he : e ∈ mid)
    (h : q.Answers e.before result) : Settled c mid q result
  | left {what : Aspect} {name : String} {holder : ConnectionEntry} {e₁ e₂ : BusEvent}
    (hmid : [e₂, e₁].Sublist mid) (hholder : e₁.before.registry.holder name = some holder)
    (hgone : e₂.before.registry.get holder.uniqueName = none) :
    Settled c mid (.about what name) (Driver.nameHasNoOwner name).result
  | unregistered {q : Query} {e : BusEvent} (he : e ∈ mid)
    (h : e.before.isRegistered c = false) : Settled c mid q (.error ⟨Errors.accessDenied,
      "Client tried to send a message other than Hello without being registered"⟩)

/-- **The owner that was looked up is the connection that is found**, if it has not left
meanwhile. -/
theorem Query.Seen.settled {result : DriverResult} (h : Reachable bus S)
    (hlog : mid.Sublist S.world.log) (hseen : q.Seen c mid result) :
    q.Settled c mid result := by
  cases hseen with
  | once he h => exact .answered he h
  | unregistered he h => exact .unregistered he h
  | @twice what name owner e₁ e₂ hmid howner =>
    obtain ⟨S₁, S₂, hreach, hsteps, hstate₁, hstate₂⟩ := h.exists_moments (hmid.trans hlog)
    rw [← hstate₁] at howner
    obtain ⟨holder, hholder, hname⟩ := hreach.exists_holder howner
    have hget₁ : S₁.world.state.registry.get owner = some holder :=
      (Registry.holder_of_owner howner).symm.trans hholder
    rw [← hstate₂]
    cases hget₂ : S₂.world.state.registry.get owner with
    | none =>
      refine .left hmid (hstate₁ ▸ hholder) ?_
      rw [← hstate₂, hname]
      exact hget₂
    | some found =>
      have hsame : found = holder := hreach.same_entry hsteps hget₁ hget₂
      have hmem : e₁ ∈ mid := hmid.subset (List.mem_cons_of_mem _ List.mem_cons_self)
      refine .answered hmem ?_
      show what.answer name (some found) = what.answer name (e₁.before.registry.holder name)
      rw [← hstate₁, hholder, hsame]

/-- **The driver answers questions about one moment.** In every run, whatever the other
connections do meanwhile, every reply that the driver writes to a connection is to
the message that was last read from it: this message wants a reply, and the reply
names its serial number and the connection. And if the message asks a question,
the reply is exactly what the question is answered by in the state that one
event between the two has found – or an error, and then the owner of the name
was there and has left, or the connection has not said Hello. -/
theorem queries_answered_at_once (bus : Bus) (S : Daemon) (h : Reachable bus S)
    (c : ConnectionEntry) (reply : Message) (s : BusState) (arrived : Bool)
    (later earlier : List BusEvent)
    (hlog : S.world.log = later ++ ⟨s, .write c reply, arrived⟩ :: earlier)
    (hreply : reply.IsDriverReply) :
    ∃ m mid, Since c m mid earlier ∧ m.noReplyExpected = false ∧
      reply.replySerial = some m.serial ∧ reply.destination = some c.uniqueName ∧
      ∀ q, (m.setSender c.uniqueName).query = some q → ∃ result serial,
        reply = (Dispatch.outcomeReply (m.setSender c.uniqueName) result).build serial ∧
          q.Settled c mid result := by
  have hfounded := h.founded
  rw [hlog] at hfounded
  obtain ⟨m, mid, hsince, hreplied⟩ := Logged.of_append hfounded hreply
  refine ⟨m, mid, hsince, hreplied.wanted, hreplied.replySerial,
    hreplied.destination.trans (m.sender_setSender _), fun q hq => ?_⟩
  obtain ⟨result, serial, heq, hseen⟩ := hreplied.seen q hq
  refine ⟨result, serial, heq, hseen.settled h ?_⟩
  obtain ⟨s₀, rest, rfl, -⟩ := hsince
  rw [hlog]
  exact ((List.sublist_append_left _ _).trans (List.sublist_cons_self _ _)).trans
    (List.sublist_append_right _ _)

/-- The message that the last operation of a log has written. -/
def lastWritten : List BusEvent → Option (ConnectionEntry × Message)
  | ⟨_, .write c m, _⟩ :: _ => some (c, m)
  | _ => none

theorem exists_of_lastWritten (h : lastWritten log = some (c, m)) :
    ∃ s arrived rest, log = ⟨s, .write c m, arrived⟩ :: rest := by
  unfold lastWritten at h
  split at h
  · next s c' m' arrived rest =>
    obtain ⟨rfl, rfl⟩ := Prod.mk.inj (Option.some.inj h)
    exact ⟨s, arrived, rest, rfl⟩
  · cases h

/-- A client registers, and asks who it is. -/
def uidScript : List Instruction :=
  [.accept ⟨1000, 1000, 4711⟩, .run 0 8, .receive 0 (frameOf (driverCall "Hello" [] 1)), .run 0 50,
    .receive 0 (frameOf (driverCall "GetConnectionUnixUser" [.string ":1.1"] 5)), .run 0 50]

/-- The daemon after that. -/
def uidAsked : Daemon := Daemon.new.replay plainBus uidScript

/-- Whether a client was told a number by the driver, last of all. -/
def lastTold (c : ConnectionEntry) (n : UInt32) (log : List BusEvent) : Bool :=
  (lastWritten log).any fun x => decide (x.1 = c) && decide x.2.IsDriverReply &&
    x.2.body.head?.bind Value.asU32 == some n

/-- The client is told its user, as the bus knew it at one moment. -/
theorem queries_answered_at_once_uid : ∃ reply earlier m mid,
    lastWritten uidAsked.world.log = some (peerConnection 1, reply) ∧
      reply.body.head?.bind Value.asU32 = some 1000 ∧ Since (peerConnection 1) m mid earlier ∧
      m.noReplyExpected = false ∧ reply.replySerial = some m.serial ∧
      reply.destination = some ":1.1" ∧ ∀ q, (m.setSender ":1.1").query = some q → ∃ result serial,
        reply = (Dispatch.outcomeReply (m.setSender ":1.1") result).build serial ∧
          q.Settled (peerConnection 1) mid result := by
  have htold : lastTold (peerConnection 1) 1000 uidAsked.world.log = true := by decide +kernel
  obtain ⟨⟨c, reply⟩, hlast, hchecks⟩ := (Option.any_eq_true _ _).mp htold
  rw [Bool.and_eq_true_iff, Bool.and_eq_true_iff] at hchecks
  obtain ⟨⟨hc, hreply⟩, hbody⟩ := hchecks
  obtain rfl : c = peerConnection 1 := of_decide_eq_true hc
  obtain ⟨s, arrived, earlier, hlog⟩ := exists_of_lastWritten hlast
  obtain ⟨m, mid, hsince, hanswer⟩ := queries_answered_at_once plainBus uidAsked
    (reachable_replay reachable_new uidScript) _ _ s arrived [] earlier hlog
    (of_decide_eq_true hreply)
  exact ⟨reply, earlier, m, mid, hlast, beq_iff_eq.mp hbody, hsince, hanswer⟩

/-- One client owns a name, another one waits for it, and a third one asks about it. -/
def contestedScript : List Instruction :=
  [.accept ⟨1000, 1000, 4711⟩, .run 0 8, .accept ⟨1000, 1000, 4711⟩, .run 1 8,
    .accept ⟨1000, 1000, 4711⟩, .run 2 8, .receive 0 (frameOf (driverCall "Hello" [] 1)), .run 0 50,
    .receive 1 (frameOf (driverCall "Hello" [] 1)), .run 1 50,
    .receive 2 (frameOf (driverCall "Hello" [] 1)), .run 2 50,
    .receive 0 (frameOf (driverCall "RequestName" [.string "a.b", .uint32 0] 2)), .run 0 50,
    .receive 1 (frameOf (driverCall "RequestName" [.string "a.b", .uint32 0] 2)), .run 1 50,
    .receive 2 (frameOf (driverCall "GetConnectionUnixUser" [.string "a.b"] 2)), .run 2 6]

/-- The owner leaves between the two looks. -/
def contestedLeft : Daemon :=
  (((Daemon.new.replay plainBus contestedScript).hangUp 0).advance plainBus 0).advances
  plainBus 2 50

/-- An error need not be true at any moment: the name had an owner all the time. -/
example : ((lastWritten contestedLeft.world.log).bind fun x => x.2.header.errorName) =
      some Errors.nameHasNoOwner ∧
    ((contestedLeft.world.log.takeWhile fun e => (BusEvent.reads (peerConnection 3) e).isNone).all
      fun e => (e.before.registry.getNameOwner "a.b").isSome) = true := by decide +kernel

end Oxibus
