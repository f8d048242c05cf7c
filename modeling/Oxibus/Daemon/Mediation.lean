import Oxibus.Daemon.Conduct

/-!
# Mediation by the policy

A call is delivered, and a signal broadcast, only after the policy has been
asked twice: whether its sender may send it and whether the connection may
receive it. A signal with a destination takes a path of its own, on which
the second question is not asked.

What is said here is said of every run of one dispatch, from any state, while
other tasks change what they may change between two of its operations.
-/

namespace Oxibus

open BusProg Relation

/-! ## The messages of the driver -/

/-- A message of the driver names the bus. -/
theorem DriverBuilt.sender {m : Message} (h : DriverBuilt m) :
    m.sender = some WellKnown.busName := by
  have hreply : ∀ (call : Message) (errorName : Option String) (vs : List Value)
      (serial : UInt32), ((((Message.replyTo call errorName).sender WellKnown.busName).args
        vs).build serial).sender = some WellKnown.busName := by
    intro call errorName vs serial
    unfold Message.replyTo
    cases errorName <;> cases call.sender <;> rfl
  cases h with
  | reply call result serial =>
    cases result with
    | ok values => exact hreply call none values serial
    | error e => exact hreply call (some e.name) [.string e.message] serial
  | changed change serial => rfl
  | unicast toUniqueName member name serial => rfl

/-- The driver builds no message of a connection. -/
theorem DriverBuilt.ne_setSender {m m' : Message} {c : ConnectionEntry} (h : DriverBuilt m) :
    m ≠ m'.setSender c.uniqueName := by
  rintro rfl
  have hsender := h.sender
  rw [Message.sender_setSender] at hsender
  exact uniqueName_ne_busName c.id (Option.some.inj hsender)

/-! ## What is asked before a message is written -/

variable (others : BusState → BusState → Prop) (bus : Bus) (sender conn : ConnectionEntry)
variable (msg : Message)

/-- The policy has been asked, and allows a message from its sender and to the
connection. -/
def Permitted : Prop :=
  Dispatch.canSend bus sender msg = true ∧ Dispatch.canReceive bus conn msg = true

/-- **The policy mediates what a dispatch delivers.** In every run, while the
other tasks take the steps `others`, a call or a signal is written only to
monitors and to connections that may receive it from a sender who may send
it. -/
def Mediated (s : BusState) : Prop :=
  msg.messageType = .methodCall ∨ msg.messageType = .signal →
  ∀ (t : BusState) (q : BusProg Unit) (es : List (Prog.Event BusOp BusOp.Res BusState)),
    Prog.Runs BusOp.Exec (ReflTransGen others) s (Dispatch.dispatchIncoming bus sender msg)
      es t q →
    ∀ (conn : ConnectionEntry) (before after : BusState),
      (⟨before, .write conn (msg.setSender sender.uniqueName), true, after⟩ :
        Prog.Event BusOp BusOp.Res BusState) ∈ es →
      before.isMonitor conn = false →
      bus.policy.canSend (bus.identity sender) (msg.setSender sender.uniqueName)
        (msg.setSender sender.uniqueName).destination = true ∧
      bus.policy.canReceive (bus.identity conn) (msg.setSender sender.uniqueName)
        (some sender.uniqueName) = true

/-- **A signal on its way to a connection that may not receive it.** It has a
destination and may be sent; the sender is registered, the destination has an
owner, the owner is connected and, at last, no monitor – each at its time. -/
structure Leak (dest owner : String) (s s₁ s₂ s₃ s₄ : BusState) : Prop where
  signal : msg.messageType = .signal
  destination : msg.destination = some dest
  canSend : Dispatch.canSend bus sender msg = true
  mediates : Dispatch.mediates bus aaDbusSend sender.securityLabel none msg = true
  encodable : msg.toBytes.isOk = true
  registering : ReflTransGen others s s₁
  registered : s₁.isRegistered sender = true
  owning : ReflTransGen others s₁ s₂
  owned : s₂.registry.getNameOwner dest = some owner
  connecting : ReflTransGen others s₂ s₃
  connected : s₃.registry.get owner = some conn
  writing : ReflTransGen others s₃ s₄
  noMonitor : s₄.isMonitor conn = false
  forbidden : Dispatch.canReceive bus conn msg = false

/-- What is asked before a write, as a guarantee of a dispatch. -/
def Checked : Prog.Semantics BusOp BusOp.Res BusState
  | .write conn m, s, written, _ =>
    written = true → m = msg → s.isMonitor conn = false → Permitted bus sender conn msg
  | _, _, _, _ => True

variable {others bus sender conn msg} {s s₁ s₂ s₃ s₄ : BusState} {dest owner : String}

/-- A program that writes only what is permitted guarantees it. -/
theorem checked_of_only {α : Type} {p : BusProg α}
    (h : p.Only (Errand sender (fun _ _ => True)
      (fun c m => m = msg → Permitted bus sender c msg) fun _ _ => False)) :
    p.Ensures BusOp.Exec (ReflTransGen others) (Checked bus sender msg) (fun _ _ => True) s := by
  refine h.ensures (fun _ _ _ _ => trivial) (fun o s r s' ho _ _ => ⟨?_, trivial⟩) trivial
  cases o with
  | write c m => exact fun _ hm _ => ho hm
  | _ => trivial

namespace Dispatch

/-! ## The copies for the monitors -/

/-- An operation that reads, or leaves a copy to another task. -/
def Passive (o : BusOp) : Prop :=
  (∀ s, ∃ r, o.Exec s r s) ∧ (∀ s r s', o.Exec s r s' → s' = s) ∧ ∀ c m, o ≠ .write c m

theorem passive_copyToMonitor (c : ConnectionEntry) : (copyToMonitor msg c).Only Passive := by
  refine ⟨⟨fun s => ⟨_, rfl, rfl⟩, fun s r s' h => h.2, nofun⟩, fun isMonitor => ?_⟩
  refine Prog.only_ite ⟨⟨fun s => ⟨(), rfl⟩, fun s r s' h => h, nofun⟩, fun _ => trivial⟩ trivial

theorem passive_deliverToMonitors : (deliverToMonitors msg).Only Passive :=
  ⟨⟨fun _ => ⟨_, .refl _, rfl⟩, fun _ _ _ h => h.2, nofun⟩, fun _ =>
    Prog.only_forEach fun c _ => passive_copyToMonitor c⟩

/-- The copies change nothing; what comes after them finds a state the other
tasks have led to. -/
theorem checked_deliverToMonitors :
    (deliverToMonitors msg).Ensures BusOp.Exec (ReflTransGen others) (Checked bus sender msg)
      (fun _ s' => ReflTransGen others s s') s := by
  refine passive_deliverToMonitors.ensures (fun _ _ => ReflTransGen.trans) ?_ .refl
  intro o s' r s'' ho hs hexec
  refine ⟨?_, by rwa [ho.2.1 s' r s'' hexec]⟩
  cases o with
  | write c m => exact absurd rfl (ho.2.2 c m)
  | _ => trivial

/-! ## The path of a signal with a destination -/

theorem dispatchSignal_eq (hdest : msg.destination = some dest)
    (hsend : canSend bus sender msg = true)
    (hmediates : mediates bus aaDbusSend sender.securityLabel none msg = true) :
    dispatchSignal bus sender msg = (Driver.resolveConnection dest >>= fun conn =>
      match conn with
      | some conn => broadcastWrite msg conn
      | none => pure ()) := by
  unfold dispatchSignal
  rw [hsend, hmediates, hdest]
  rfl

/-- Without a leak, a signal with a destination is written only where it may
be received. -/
theorem checked_dispatchSignal (htype : msg.messageType = .signal)
    (hdest : msg.destination = some dest) (hs : ReflTransGen others s s₁)
    (hreg : s₁.isRegistered sender = true)
    (hleak : ∀ dest owner conn s₁ s₂ s₃ s₄,
      ¬ Leak others bus sender conn msg dest owner s s₁ s₂ s₃ s₄) :
    (dispatchSignal bus sender msg).Ensures BusOp.Exec (ReflTransGen others)
      (Checked bus sender msg) (fun _ _ => True) s₁ := by
  cases hsend : canSend bus sender msg with
  | false =>
    refine checked_of_only (only_dispatchSignal fun c h => ?_)
    rw [hsend] at h
    cases h
  | true =>
  cases hmediates : mediates bus aaDbusSend sender.securityLabel none msg with
  | false =>
    have hdenied : dispatchSignal bus sender msg = op (.record .denial) := by
      unfold dispatchSignal
      rw [hsend, hmediates]
      rfl
    rw [hdenied]
    exact checked_of_only ⟨trivial, fun _ => trivial⟩
  | true =>
  rw [dispatchSignal_eq hdest hsend hmediates]
  intro s₂ r s₂' h₂ howner
  obtain ⟨rfl, rfl⟩ : r = s₂.registry.getNameOwner dest ∧ s₂' = s₂ := howner
  refine ⟨trivial, ?_⟩
  cases howner : s₂'.registry.getNameOwner dest with
  | none => trivial
  | some owner =>
  intro s₃ r s₃' h₃ hget
  obtain ⟨rfl, rfl⟩ : r = s₃.registry.get owner ∧ s₃' = s₃ := hget
  refine ⟨trivial, ?_⟩
  cases hget : s₃'.registry.get owner with
  | none => trivial
  | some conn =>
  intro s₄ written s₄' h₄ hwrite
  refine ⟨fun hwritten _ hmonitor => ⟨hsend, ?_⟩, fun _ _ _ _ _ => ⟨trivial, trivial⟩⟩
  cases hreceive : canReceive bus conn msg with
  | true => rfl
  | false =>
    exact absurd ⟨htype, hdest, hsend, hmediates, hwrite.1 hwritten, hs, hreg, h₂, howner, h₃,
      hget, h₄, hmonitor, hreceive⟩ (hleak dest owner conn s₁ s₂' s₃' s₄)

/-- Without a leak, every write of a dispatch has been permitted. -/
theorem checked_dispatchByType (htype : msg.messageType = .methodCall ∨ msg.messageType = .signal)
    (hsender : ∀ m, DriverBuilt m → m ≠ msg) (hs : ReflTransGen others s s₁)
    (hreg : s₁.isRegistered sender = true)
    (hleak : ∀ dest owner conn s₁ s₂ s₃ s₄,
      ¬ Leak others bus sender conn msg dest owner s s₁ s₂ s₃ s₄) :
    (dispatchByType bus sender msg).Ensures BusOp.Exec (ReflTransGen others)
      (Checked bus sender msg) (fun _ _ => True) s₁ := by
  unfold dispatchByType
  rcases htype with htype | htype
  · rw [htype]
    refine checked_of_only (only_dispatchMethodCall htype (fun _ _ _ => trivial) ?_
      fun c hsend hreceive _ => ⟨hsend, hreceive⟩)
    exact fun c m hm heq => absurd heq (hsender m hm.1)
  · rw [htype]
    cases hdest : msg.destination with
    | none =>
      refine checked_of_only (only_dispatchSignal fun c hsend hreceive _ => ⟨hsend, ?_⟩)
      exact hreceive hdest
    | some dest => exact checked_dispatchSignal htype hdest hs hreg hleak

/-- The dispatch as a whole. -/
theorem checked_dispatchStamped
    (htype : msg.messageType = .methodCall ∨ msg.messageType = .signal)
    (hsender : ∀ m, DriverBuilt m → m ≠ msg)
    (hleak : ∀ dest owner conn s₁ s₂ s₃ s₄,
      ¬ Leak others bus sender conn msg dest owner s s₁ s₂ s₃ s₄) :
    (dispatchStamped bus sender msg).Ensures BusOp.Exec (ReflTransGen others)
      (Checked bus sender msg) (fun _ _ => True) s := by
  have hdriver : ∀ c m, DriverFor sender c m → m = msg → Permitted bus sender c msg :=
    fun c m hm heq => absurd heq (hsender m hm.1)
  refine Prog.ensures_bind (checked_deliverToMonitors.mono fun _ s' hs' => ?_)
  intro s₁ r s₁' h₁ hreg
  obtain ⟨rfl, rfl⟩ : r = s₁.isRegistered sender ∧ s₁' = s₁ := hreg
  refine ⟨trivial, ?_⟩
  cases hreg : s₁'.isRegistered sender with
  | true => exact checked_dispatchByType htype hsender (hs'.trans h₁) hreg hleak
  | false =>
    refine checked_of_only (Prog.only_split (fun _ => only_replyError hdriver _ _ _) fun h => ?_)
    have hcall : msg.messageType = .methodCall := messageType_of_isHelloCall (by simpa using h)
    unfold dispatchByType
    rw [hcall]
    exact only_dispatchMethodCall hcall (fun _ _ _ => trivial) hdriver
      fun c hsend hreceive _ => ⟨hsend, hreceive⟩

/-! ## The run of a leak -/

/-- A leak is a run in which the signal is written and may not be received. -/
theorem runs_of_leak
    (h : Leak others bus sender conn msg dest owner s s₁ s₂ s₃ s₄) :
    ∃ es q, Prog.Runs BusOp.Exec (ReflTransGen others) s (dispatchStamped bus sender msg) es s₄ q ∧
      (⟨s₄, .write conn msg, true, s₄⟩ : Prog.Event BusOp BusOp.Res BusState) ∈ es := by
  obtain ⟨copies, _, hcopies⟩ : ∃ es a, Prog.Runs BusOp.Exec (ReflTransGen others) s
      (deliverToMonitors msg) es s (.ret a) := passive_deliverToMonitors.runs fun o ho => ho.1 s
  obtain ⟨es, hes, hwrite⟩ : ∃ es : List (Prog.Event BusOp BusOp.Res BusState),
      ⟨s₄, .write conn msg, true, s₄⟩ ∈ es ∧ Prog.Runs BusOp.Exec (ReflTransGen others) s₁
        (dispatchSignal bus sender msg) es s₄ (op (.record .signal)) := by
    refine ⟨[⟨s₂, .getNameOwner dest, some owner, s₂⟩, ⟨s₃, .get owner, some conn, s₃⟩,
      ⟨s₄, .write conn msg, true, s₄⟩], by simp, ?_⟩
    rw [dispatchSignal_eq h.destination h.canSend h.mediates]
    refine .other h.owning (.call ⟨h.owned.symm, rfl⟩ ?_)
    refine .other h.connecting (.call ⟨h.connected.symm, rfl⟩ ?_)
    exact .other h.writing (.call ⟨fun _ => h.encodable, rfl⟩ (.refl _ _))
  have hstamped : Prog.Runs BusOp.Exec (ReflTransGen others) s (dispatchStamped bus sender msg)
      (copies ++ ⟨s₁, .isRegistered sender, true, s₁⟩ :: es) s₄ (op (.record .signal)) := by
    refine hcopies.bind (.other h.registering (.call ⟨h.registered.symm, rfl⟩ ?_))
    show Prog.Runs _ _ s₁ (dispatchByType bus sender msg) _ _ _
    unfold dispatchByType
    rw [h.signal]
    exact hwrite
  exact ⟨_, _, hstamped, List.mem_append_right _ (List.mem_cons_of_mem _ hes)⟩

end Dispatch

/-- A signal that leaks is not mediated. -/
theorem Leak.not_mediated
    (h : Leak others bus sender conn (msg.setSender sender.uniqueName) dest owner s s₁ s₂ s₃ s₄) :
    ¬ Mediated others bus sender msg s := by
  intro hmediated
  obtain ⟨es, q, hruns, hes⟩ := Dispatch.runs_of_leak h
  have hpermitted := hmediated (.inr h.signal) s₄ q es hruns conn s₄ s₄ hes h.noMonitor
  have hforbidden := h.forbidden
  rw [Dispatch.canReceive, Message.sender_setSender, hpermitted.2] at hforbidden
  cases hforbidden

/-- **The policy mediates a dispatch unless a signal leaks**: for every policy,
message and state, and whatever the other tasks do, calls and signals are
written only where the policy permits if and only if the message is not a
signal whose destination is, when it is written, a connection that may not
receive it. -/
theorem mediated_iff (others : BusState → BusState → Prop) (bus : Bus) (sender : ConnectionEntry)
    (msg : Message) (s : BusState) :
    Mediated others bus sender msg s ↔ ∀ dest owner conn s₁ s₂ s₃ s₄,
      ¬ Leak others bus sender conn (msg.setSender sender.uniqueName) dest owner s s₁ s₂ s₃ s₄ := by
  refine ⟨fun h dest owner conn s₁ s₂ s₃ s₄ hleak => hleak.not_mediated h, fun hleak => ?_⟩
  intro htype t q es hruns conn before after hmem hmonitor
  have hdriver : ∀ m, DriverBuilt m → m ≠ msg.setSender sender.uniqueName :=
    fun m hm => hm.ne_setSender
  have hchecked : (Dispatch.dispatchIncoming bus sender msg).Ensures BusOp.Exec
      (ReflTransGen others) (Checked bus sender (msg.setSender sender.uniqueName))
      (fun _ _ => True) s := Dispatch.checked_dispatchStamped htype hdriver hleak
  have hpermitted := hchecked.of_runs hruns (fun _ => .refl) (fun _ _ _ => .trans)
    (fun _ _ _ _ _ => trivial) _ hmem rfl rfl hmonitor
  refine ⟨hpermitted.1, ?_⟩
  have hreceive := hpermitted.2
  rwa [Dispatch.canReceive, Message.sender_setSender] at hreceive

/-! ## A signal that leaks -/

/-- A bus on which everything may be sent and nothing received. -/
def mute : Bus where
  kind := .session
  limits := ⟨64, 256, 512, 512⟩
  policy := ⟨[⟨.default, none, none, [], [], [.destination "*"], [], [], [.destination "*"]⟩]⟩
  activatable := []
  guid := ""
  resolve uid := ⟨uid, none, []⟩
  apparmor := ⟨false, fun _ _ => none⟩

/-- The connection with a number. -/
def peerConnection (id : ℕ) : ConnectionEntry := ⟨id, ⟨1000, 1000, 4711⟩, none⟩

/-- Two connections that have said Hello. -/
def twoConnected : BusState where
  registry := (Registry.new.addConnection (peerConnection 1)).addConnection (peerConnection 2)
  cells _ := ⟨false, true, []⟩
  stats := .new
  driverSerial := 1
  activationEnvironment := []

/-- A signal from the first connection to the second. -/
def directedSignal : Message :=
  ((Message.Builder.signal ⟨"/a"⟩ "a.b" "C").destination ":1.2").build 7

/-- **The policy lets nobody receive the signal, and it is written**, with
nobody else on the bus doing anything. -/
theorem directedSignal_not_mediated :
    ¬ Mediated (fun _ _ => False) mute (peerConnection 1) directedSignal twoConnected := by
  have hleak : Leak (fun _ _ => False) mute (peerConnection 1) (peerConnection 2)
      (directedSignal.setSender (peerConnection 1).uniqueName) ":1.2" ":1.2"
      twoConnected twoConnected twoConnected twoConnected twoConnected := by
    constructor
    case registering => exact .refl
    case owning => exact .refl
    case connecting => exact .refl
    case writing => exact .refl
    all_goals decide +kernel
  exact hleak.not_mediated

end Oxibus
