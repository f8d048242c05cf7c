import Oxibus.Daemon.Mediation
import Oxibus.Daemon.Replay
import Oxibus.Daemon.Sessions

/-!
# What comes before the reply to Hello

A client that connects says Hello and waits for a reply with its name. The
driver finishes a call by telling everybody of the changes first and replying
then. Hello is such a change: the connection has got its unique name, and it
is told so. Hence the reply to Hello is never the first message that is
written to a connection.

The invariant is that something has been written to every connection that is
registered and not in the middle of a dispatch. A method return of the driver
goes to a registered connection, or ends the dispatch that has registered it.
-/

namespace Oxibus

open BusProg Daemon

variable {bus : Bus} {S : Daemon} {c : ConnectionEntry} {w w' : World} {j j' : Job}
variable {msg : Message} {log : List BusEvent}

/-! ## What is read and written first -/

namespace BusEvent

/-- The message that is read from a connection. -/
def readFrom (c : ConnectionEntry) (e : BusEvent) : Option Message :=
  match e with
  | ⟨_, .readMessage c', some msg⟩ => if c' = c then some msg else none
  | _ => none

/-- The message that is written to a connection. -/
def writtenTo (c : ConnectionEntry) (e : BusEvent) : Option Message :=
  match e with
  | ⟨_, .write c' msg, _⟩ => if c' = c then some msg else none
  | _ => none

end BusEvent

/-- The first message read from a connection. The log has the latest event
first. -/
def firstRead (log : List BusEvent) (c : ConnectionEntry) : Option Message :=
  log.reverse.findSome? (BusEvent.readFrom c)

/-- The first message written to a connection. -/
def firstWritten (log : List BusEvent) (c : ConnectionEntry) : Option Message :=
  log.reverse.findSome? (BusEvent.writtenTo c)

/-- A method return of the driver. -/
def isDriverReturn (msg : Message) : Bool :=
  msg.messageType == .methodReturn && msg.sender == some WellKnown.busName

/-- The method return for a call of Hello. -/
def isHelloReply (hello msg : Message) : Bool :=
  isDriverReturn msg && msg.replySerial == some hello.serial

/-- **The reply to Hello comes first**: if the first message of a connection
calls Hello and wants a reply, then the first message written to it is the
reply. -/
def HelloReplyFirst (log : List BusEvent) (c : ConnectionEntry) : Prop :=
  ∀ hello msg, firstRead log c = some hello → Dispatch.isHelloCall hello = true →
    hello.noReplyExpected = false → firstWritten log c = some msg →
    isHelloReply hello msg = true

/-- Something has been written to a connection. -/
def WrittenTo (c : ConnectionEntry) (log : List BusEvent) : Prop :=
  ∃ s msg r, (⟨s, .write c msg, r⟩ : BusEvent) ∈ log

theorem WrittenTo.mono {log' : List BusEvent} (h : WrittenTo c log) (hlog : log ⊆ log') :
    WrittenTo c log' := by
  obtain ⟨s, msg, r, hmem⟩ := h
  exact ⟨s, msg, r, hlog hmem⟩

/-- The first message written to a connection is written before anything
is. -/
theorem exists_of_firstWritten (h : firstWritten log c = some msg) :
    ∃ post s r pre, log = post ++ ⟨s, .write c msg, r⟩ :: pre ∧ ¬ WrittenTo c pre := by
  obtain ⟨l₁, e, l₂, hlog, he, hnone⟩ := List.findSome?_eq_some_iff.mp h
  obtain ⟨s, o, r⟩ := e
  have hshape : log = l₂.reverse ++ ⟨s, o, r⟩ :: l₁.reverse := by
    rw [← List.reverse_inj, hlog]
    simp
  cases o with
  | write c' m =>
    have hwrite : (if c' = c then some m else none) = some msg := he
    split at hwrite
    · next hc =>
      cases hwrite
      cases hc
      refine ⟨_, s, r, _, hshape, ?_⟩
      rintro ⟨s', m', r', hmem⟩
      have hno := hnone _ (List.mem_reverse.mp hmem)
      have hsome : (if c = c then some m' else none) = none := hno
      rw [if_pos rfl] at hsome
      cases hsome
    · cases hwrite
  | _ => cases he

/-! ## A dispatch -/

/-- What a dispatch guarantees: a method return of the driver is written to
whom something has been written, and none is copied. -/
def ReturnsLate : Prog.Semantics BusOp BusOp.Res World
  | .write c msg, w, _, _ => isDriverReturn msg = true → WrittenTo c w.log
  | .spawnWrite _ msg, _, _, _ => isDriverReturn msg = false
  | _, _, _, _ => True

/-- A program that keeps to the guarantee while it serves a connection. -/
abbrev KeepsReturnsLate {α : Type} (c : ConnectionEntry) (p : BusProg α) (w : World)
    (post : World → Prop) : Prop :=
  p.Ensures World.Exec (World.Beside c) ReturnsLate (fun _ w => post w) w

/-- Something has been written to the connection, if it is registered. -/
def Greeted (c : ConnectionEntry) (w : World) : Prop :=
  w.state.isRegistered c = true → WrittenTo c w.log

/-- A message a connection has sent is none of the driver's. -/
theorem isDriverReturn_setSender (msg : Message) (c : ConnectionEntry) :
    isDriverReturn (msg.setSender c.uniqueName) = false := by
  unfold isDriverReturn
  rw [Message.sender_setSender, Bool.and_eq_false_iff]
  exact .inr (beq_eq_false_iff_ne.mpr fun h => uniqueName_ne_busName c.id (Option.some.inj h))

theorem isDriverReturn_of_signal (h : msg.messageType = .signal) : isDriverReturn msg = false := by
  unfold isDriverReturn
  rw [h]
  rfl

theorem isDriverReturn_of_error (h : msg.messageType = .error) : isDriverReturn msg = false := by
  unfold isDriverReturn
  rw [h]
  rfl

namespace Dispatch

/-- What is told is no method return. -/
abbrev NoReturn (_ : ConnectionEntry) (m : Message) : Prop := isDriverReturn m = false

/-- Telling keeps to the guarantee, and changes nothing for the connection. -/
theorem late_of_telling {α : Type} {p : BusProg α} (h : p.Only (Telling NoReturn)) :
    KeepsReturnsLate c p w (w.Beside c) := by
  refine h.beside (fun _ => Telling.foreign) fun o w r w' ho => ?_
  cases o with
  | write c' m =>
    intro hm
    rw [show isDriverReturn m = false from ho] at hm
    cases hm
  | spawnWrite => exact ho.elim
  | _ => trivial

/-- Copying does, too. -/
theorem late_deliverToMonitors :
    KeepsReturnsLate c (deliverToMonitors (msg.setSender c.uniqueName)) w (w.Beside c) := by
  have hcopies : (deliverToMonitors (msg.setSender c.uniqueName)).Only fun o => Copying o ∧
      ∀ c' m, o = .spawnWrite c' m → isDriverReturn m = false := by
    refine ⟨⟨trivial, nofun⟩, fun conns => Prog.only_forEach fun conn _ => ?_⟩
    refine ⟨⟨trivial, nofun⟩, fun isMonitor => Prog.only_ite ⟨⟨trivial, ?_⟩, fun _ => trivial⟩
      trivial⟩
    intro c' m heq
    cases heq
    exact isDriverReturn_setSender msg c
  refine hcopies.beside (fun _ ho => ho.1.foreign) fun o w r w' ho => ?_
  cases o with
  | write c' m => exact ho.1.elim
  | spawnWrite c' m => exact ho.2 c' m rfl
  | _ => trivial

/-- Once something has been written to the connection, its dispatch may write
anything of the driver's to it. -/
theorem late_of_only {p : BusProg Unit} (h : p.Only (Errand c (fun _ _ => True)
      (fun c' m => isDriverReturn m = true → c' = c) NoReturn)) (hw : WrittenTo c w.log) :
    KeepsReturnsLate c p w (Greeted c) := by
  have hensures : KeepsReturnsLate c p w fun w => WrittenTo c w.log := by
    refine h.ensures (fun _ _ hw hle => hw.mono hle.log.subset) (fun o w r w' ho hw hexec => ?_) hw
    refine ⟨?_, hw.mono hexec.le.log.subset⟩
    cases o with
    | write c' m => exact fun hm => (ho hm).symm ▸ hw
    | spawnWrite c' m => exact ho
    | _ => trivial
  exact hensures.mono fun _ _ hw _ => hw

/-- Replies of the driver go to the connection, and what it tells others is no
method return. -/
theorem driverFor_late (c' : ConnectionEntry) (m : Message) (h : DriverFor c c' m)
    (hm : isDriverReturn m = true) : c' = c := by
  refine h.2.resolve_left fun hsignal => ?_
  rw [isDriverReturn_of_signal hsignal] at hm
  cases hm

/-- The connection is told a name of its own. -/
theorem late_tellOwner (member name : String)
    (hentry : w.state.registry.get c.uniqueName = some c) :
    KeepsReturnsLate c (tellOwner (some c.uniqueName) member name) w
      fun w => WrittenTo c w.log := by
  intro w₁ conn w₁' h₁ hget
  refine ⟨trivial, ?_⟩
  have hconn : conn = some c := by
    rw [hget.1.1, h₁.entry]
    exact hentry
  rw [hconn]
  intro w₂ serial w₂' h₂ hserial
  refine ⟨trivial, ?_⟩
  intro w₃ written w₃' h₃ hwrite
  refine ⟨fun hm => ?_, ?_⟩
  · rw [isDriverReturn_of_signal rfl] at hm
    cases hm
  · show WrittenTo c w₃'.log
    rw [hwrite.2]
    exact ⟨_, _, _, List.mem_cons_self⟩

/-- **A connection is told that it has got its unique name.** -/
theorem late_broadcastNameOwnerChange
    (hentry : w.state.registry.get c.uniqueName = some c) :
    KeepsReturnsLate c (broadcastNameOwnerChange bus ⟨c.uniqueName, none, some c.uniqueName⟩) w
      fun w => WrittenTo c w.log := by
  intro w₁ serial w₁' h₁ hserial
  refine ⟨trivial, ?_⟩
  have hentry₁ : w₁'.state.registry.get c.uniqueName = some c := by
    rw [hserial.1.2, ← hentry, ← h₁.entry]
  show KeepsReturnsLate c (broadcastSignal bus _ false >>= fun _ => _) w₁' _
  refine Prog.ensures_bind ((late_of_telling (telling_broadcastSignal _ fun c' _ => ?_)).mono
    fun _ w₂ h₂ => ?_)
  · exact isDriverReturn_of_signal rfl
  refine Prog.ensures_bind ((late_tellOwner _ _ (h₂.entry.trans hentry₁)).mono fun _ w₃ hw => ?_)
  exact hw

/-- The dispatch of Hello, once the connection is found unregistered. -/
theorem dispatchByType_of_isHelloCall (h : isHelloCall msg = true) :
    dispatchByType bus c msg = (Driver.handleHello c >>= finishDriverReply bus c msg) := by
  unfold dispatchByType
  rw [messageType_of_isHelloCall h]
  show dispatchMethodCall bus c msg = _
  rw [dispatchMethodCall_driver (destination_of_isHelloCall h)]
  unfold handleDriverCall driverOutcome
  rw [member_of_isHelloCall h]
  -- the interface of the bus or none: in both cases it is no side interface
  have hinterface : msg.interface = none ∨ msg.interface = some WellKnown.busInterface := by
    unfold isHelloCall at h
    simp only [Bool.and_eq_true, Bool.or_eq_true, beq_iff_eq] at h
    exact h.1.2
  rcases hinterface with hinterface | hinterface
  · rw [hinterface]
    rfl
  · rw [hinterface]
    rfl

/-- **Before the reply to Hello, something is written.** -/
theorem late_hello (hhello : isHelloCall msg = true) (hreg : w.state.isRegistered c = false)
    (hentry : w.state.registry.get c.uniqueName = some c) :
    KeepsReturnsLate c (dispatchByType bus c msg) w (Greeted c) := by
  rw [dispatchByType_of_isHelloCall hhello]
  intro w₁ wasRegistered w₁' h₁ hswap
  refine ⟨trivial, ?_⟩
  have hfalse : wasRegistered = false := by
    rw [hswap.1.1, ← hreg]
    exact congrArg Cells.isRegistered h₁.cells
  have hentry₁ : w₁'.state.registry.get c.uniqueName = some c := by
    rw [hswap.1.2, ← hentry, ← h₁.entry]
    rfl
  rw [hfalse]
  show KeepsReturnsLate c (finishDriverReply bus c msg (Driver.ok [.string c.uniqueName]
    [⟨c.uniqueName, none, some c.uniqueName⟩])) w₁' _
  refine Prog.ensures_bind ?_
  show KeepsReturnsLate c (Prog.forEach _ [_]) w₁' _
  rw [Prog.forEach_singleton]
  refine (late_broadcastNameOwnerChange hentry₁).mono fun _ w₂ hw => ?_
  refine late_of_only (Prog.only_ite trivial ?_) hw
  exact (telling_sendFromDriver fun serial _ => rfl).mono fun _ => Telling.errand

/-- **A dispatch writes a method return of the driver only after something
else.** -/
theorem late_dispatchIncoming (hgreeted : Greeted c w)
    (hentry : w.state.registry.get c.uniqueName = some c) :
    KeepsReturnsLate c (dispatchIncoming bus c msg) w (Greeted c) := by
  refine Prog.ensures_bind (late_deliverToMonitors.mono fun _ w₁ h₁ => ?_)
  intro w₂ isRegistered w₂' h₂ hexec
  refine ⟨trivial, ?_⟩
  have hbeside := h₁.trans h₂
  have hstate : w₂'.state = w₂.state := hexec.1.2
  have hreg : w₂.state.isRegistered c = isRegistered := hexec.1.1.symm
  have hsame : w₂.state.isRegistered c = w.state.isRegistered c :=
    congrArg Cells.isRegistered hbeside.cells
  cases isRegistered with
  | true =>
    have hw : WrittenTo c w₂'.log :=
      (hgreeted (hsame ▸ hreg)).mono (hbeside.toLe.trans hexec.le).log.subset
    show KeepsReturnsLate c (dispatchByType bus c _) w₂' (Greeted c)
    have hstamped : ∀ c' : ConnectionEntry,
        isDriverReturn (msg.setSender c.uniqueName) = true → c' = c := by
      intro c' hm
      rw [isDriverReturn_setSender] at hm
      cases hm
    exact late_of_only (only_dispatchByType (fun _ _ _ => trivial) driverFor_late hstamped) hw
  | false =>
    have hreg' : w₂'.state.isRegistered c = false := by rw [hstate, hreg]
    refine Prog.ensures_ite (fun _ => ?_) fun hhello => ?_
    · refine (late_of_telling (telling_replyError (fun m _ herror => ?_) _ _ _)).mono
        fun _ w₃ h₃ hregistered => ?_
      · exact isDriverReturn_of_error herror
      · have hsame₃ : w₃.state.isRegistered c = w₂'.state.isRegistered c :=
          congrArg Cells.isRegistered h₃.cells
        rw [hsame₃, hreg'] at hregistered
        cases hregistered
    · refine late_hello (by simpa using hhello) hreg' ?_
      rw [hstate, hbeside.entry]
      exact hentry

end Dispatch

/-! ## Whole runs -/

/-- A method return of the driver is logged after another write to the same
connection. -/
def LogsReturnsLate (log : List BusEvent) (e : BusEvent) : Prop :=
  match e.op with
  | .write c msg => isDriverReturn msg = true → WrittenTo c log
  | _ => True

/-- What a job still writes keeps to it. -/
def Job.ReturnsLate (w : World) : Job → Prop
  | serving c p => KeepsReturnsLate c p w (Greeted c)
  | announcing p => p.Only (Dispatch.Telling Dispatch.NoReturn)
  | copying _ msg => isDriverReturn msg = false
  | _ => True

/-- While a connection waits, nobody registers it. -/
theorem Greeted.beside (h : Greeted c w) (hle : w.Beside c w') : Greeted c w' := by
  intro hreg
  have hsame : w'.state.isRegistered c = w.state.isRegistered c :=
    congrArg Cells.isRegistered hle.cells
  exact (h (hsame ▸ hreg)).mono hle.log.subset

theorem returnsLate_stable {o : BusOp} {r : o.Res} (h : j.ReturnsLate w)
    (ho : ∀ c, j.entry = some c → o.Foreign c) (hexec : World.Exec o w r w') :
    j.ReturnsLate w' := by
  cases j with
  | serving c p =>
    exact Prog.Ensures.interfere h (fun _ _ _ => World.Beside.trans)
      (fun _ _ _ hle hgreeted => Greeted.beside hgreeted hle) (hexec.beside (ho c rfl))
  | announcing p => exact h
  | copying c msg => exact h
  | _ => trivial

theorem returnsLate_step {o : BusOp} {r : o.Res} (h : j.ReturnsLate w)
    (hsettled : j.Settled w.state) (hstep : JobStep bus j o r j') (hexec : World.Exec o w r w') :
    LogsReturnsLate w.log ⟨w.state, o, r⟩ ∧ j'.ReturnsLate w' ∧
      ∀ j ∈ o.spawned, j.ReturnsLate w' := by
  have hnone : ∀ j ∈ ([] : List Job), j.ReturnsLate w' := fun _ hj => absurd hj List.not_mem_nil
  cases hstep with
  | @add c =>
    refine ⟨trivial, fun hreg => ?_, hnone⟩
    have hnew : (w'.state.cells c.id).isRegistered = true := hreg
    rw [hexec.1, show _ = Cells.new from hsettled.1] at hnew
    cases hnew
  | @read c msg =>
    refine ⟨trivial, Dispatch.late_dispatchIncoming ?_ ?_, hnone⟩
    · have hgreeted : Greeted c w := h
      intro hreg
      rw [hexec.1.2] at hreg
      exact (hgreeted hreg).mono hexec.le.log.subset
    · rw [hexec.1.2]
      exact hsettled.1
  | @dispatch c o k r =>
    obtain ⟨hguar, hnext⟩ := h w r w' (.refl c w) hexec
    refine ⟨?_, hnext, ?_⟩
    · cases o with
      | write c' msg => exact hguar
      | _ => trivial
    · intro j hj
      cases o with
      | spawnWrite c' msg =>
        rw [List.mem_singleton.mp hj]
        exact hguar
      | _ => exact absurd hj List.not_mem_nil
  | remove =>
    refine ⟨trivial, ?_, hnone⟩
    exact Dispatch.telling_broadcastNameOwnerChanges (fun _ _ _ => isDriverReturn_of_signal) _
  | @announce o k r =>
    refine ⟨?_, h.2 r, ?_⟩
    · cases o with
      | write c' msg =>
        intro hm
        rw [show isDriverReturn msg = false from h.1] at hm
        cases hm
      | _ => trivial
    · intro j hj
      cases o with
      | spawnWrite => exact h.1.elim
      | _ => exact absurd hj List.not_mem_nil
  | copy =>
    refine ⟨fun hm => ?_, trivial, hnone⟩
    rw [show isDriverReturn _ = false from h] at hm
    cases hm
  | _ => exact ⟨trivial, trivial, hnone⟩

/-- **The first message that is written to a connection is no method return of
the driver.** -/
theorem Daemon.Reachable.firstWritten (h : Reachable bus S)
    (hfirst : firstWritten S.world.log c = some msg) : isDriverReturn msg = false := by
  obtain ⟨post, s, r, pre, hlog, hno⟩ := exists_of_firstWritten hfirst
  have hlate := (h.secure (J := fun j w => j.ReturnsLate w) (fun _ _ => trivial)
    returnsLate_step returnsLate_stable).1
  rw [hlog] at hlate
  rw [Bool.eq_false_iff]
  exact fun hm => hno (hlate.of_append hm)

/-- Whether the first message of a connection calls Hello and wants a reply. -/
def saysHello (log : List BusEvent) (c : ConnectionEntry) : Bool :=
  match firstRead log c with
  | some hello => Dispatch.isHelloCall hello && !hello.noReplyExpected
  | none => false

/-- **The reply to Hello never comes first**: in every run, whatever else is
going on, once anything is written to a connection whose first message calls
Hello and wants a reply, the first message written to it is not the reply. -/
theorem helloReply_never_first (bus : Bus) (S : Daemon) (c : ConnectionEntry)
    (h : Reachable bus S) (hhello : saysHello S.world.log c = true)
    (hwritten : (firstWritten S.world.log c).isSome = true) :
    ¬ HelloReplyFirst S.world.log c := by
  intro hfirst
  obtain ⟨msg, hmsg⟩ := Option.isSome_iff_exists.mp hwritten
  unfold saysHello at hhello
  split at hhello
  · next hello hread =>
    simp only [Bool.and_eq_true, Bool.not_eq_true'] at hhello
    have hreply := hfirst hello msg hread hhello.1 hhello.2 hmsg
    unfold isHelloReply at hreply
    rw [h.firstWritten hmsg] at hreply
    cases hreply
  · cases hhello

/-! ## A client that says Hello -/

/-- A client connects and says Hello. -/
def helloScript : List Instruction :=
  [.accept ⟨1000, 1000, 4711⟩, .run 0 8, .receive 0 (frameOf (driverCall "Hello" [] 1)), .run 0 50]

/-- It hears something else first. -/
theorem helloReply_never_first_alone :
    ¬ HelloReplyFirst (Daemon.new.replay plainBus helloScript).world.log (peerConnection 1) :=
  helloReply_never_first plainBus _ _ (reachable_replay reachable_new helloScript)
    (by decide +kernel) (by decide +kernel)

/-- What the first message after Hello is like. -/
def hearsFirst (log : List BusEvent) (c : ConnectionEntry) : Bool :=
  match firstRead log c, firstWritten log c with
  | some hello, some msg => Dispatch.isHelloCall hello && !hello.noReplyExpected &&
      !isHelloReply hello msg && msg.member == some WellKnown.nameAcquired
  | _, _ => false

/-- **The client hears `NameAcquired` first**, with nobody else on the bus. -/
theorem helloReply_after_nameAcquired : ¬ ∀ (bus : Bus) (S : Daemon) (c : ConnectionEntry),
    Reachable bus S → HelloReplyFirst S.world.log c := by
  intro h
  have hfirst := h plainBus _ (peerConnection 1) (reachable_replay reachable_new helloScript)
  have hhears : hearsFirst (Daemon.new.replay plainBus helloScript).world.log
      (peerConnection 1) = true := by decide +kernel
  unfold hearsFirst at hhears
  split at hhears
  · next hello msg hread hmsg =>
    simp only [Bool.and_eq_true, Bool.not_eq_true'] at hhears
    obtain ⟨⟨⟨hhello, hreply⟩, hother⟩, -⟩ := hhears
    rw [hfirst hello msg hread hhello hreply hmsg] at hother
    cases hother
  · cases hhears

end Oxibus
