import Oxibus.Daemon.Conduct
import Oxibus.Daemon.Effects

/-!
# The way of a call and of a reply

A call, a return or an error goes to whoever it is addressed to. The daemon
keeps no record of the calls it has delivered, so nothing relates a reply to
a call. What does hold of every run is who has sent a message and how it
found its way: a registered connection has sent it to a name, and the name
was owned by the connection that receives it.

A dispatch is followed with what the log says so far. The log grows, and a
connection that has become a monitor stays one; that is all a task may rely
on while the others run.
-/

namespace Oxibus

open BusProg

/-- A message for one connection: anything but a signal. -/
def Message.isDirected (m : Message) : Bool := m.messageType != .signal

/-! ## What a task may rely on -/

theorem BusOp.isMonitor_cellAfter {o : BusOp} {cells : Cells} (h : cells.isMonitor = true) :
    (o.cellAfter cells).isMonitor = true := by
  cases o with
  | storeMonitor => rfl
  | _ => exact h

/-- **Once a monitor, always a monitor.** -/
theorem BusOp.Exec.isMonitor {o : BusOp} {s s' : BusState} {r : o.Res} {c : ConnectionEntry}
    (h : o.Exec s r s') (hc : s.isMonitor c = true) : s'.isMonitor c = true := by
  show (s'.cells c.id).isMonitor = true
  rw [h.cells]
  split
  · exact BusOp.isMonitor_cellAfter hc
  · exact hc

/-- A registered connection stays registered. -/
theorem BusOp.Exec.isRegistered {o : BusOp} {s s' : BusState} {r : o.Res} {c : ConnectionEntry}
    (h : o.Exec s r s') (hc : s.isRegistered c = true) : s'.isRegistered c = true := by
  show (s'.cells c.id).isRegistered = true
  rw [h.cells]
  split
  · cases o with
    | swapRegistered => rfl
    | _ => exact hc
  · exact hc

/-- **A later world**: the log has grown, and the monitors are still
monitors. -/
structure World.Le (w w' : World) : Prop where
  log : w.log <:+ w'.log
  monitor : ∀ c, w.state.isMonitor c = true → w'.state.isMonitor c = true

namespace World

variable {w w' w'' : World} {o : BusOp} {r : o.Res} {es : List BusEvent}

theorem Le.refl (w : World) : w.Le w := ⟨List.suffix_refl _, fun _ => id⟩

theorem Le.trans (h : w.Le w') (h' : w'.Le w'') : w.Le w'' :=
  ⟨h.log.trans h'.log, fun c hc => h'.monitor c (h.monitor c hc)⟩

theorem Exec.le (h : World.Exec o w r w') : w.Le w' := by
  refine ⟨?_, fun c => h.1.isMonitor⟩
  rw [h.2]
  exact List.suffix_cons _ _

/-- What the log says, it still says later. -/
theorem Le.recorded (h : w.Le w') (hes : es.Sublist w.log) : es.Sublist w'.log :=
  hes.trans h.log.sublist

/-- An operation adds what it is to the log. -/
theorem Exec.recorded (h : World.Exec o w r w') (hes : es.Sublist w.log) :
    (⟨w.state, o, r⟩ :: es).Sublist w'.log := by
  rw [h.2]
  exact hes.cons_cons _

end World

/-! ## Addressed messages -/

/-- **A message that is addressed to a connection**: a registered connection
has sent it to a name, the name had an owner, and the owner was the
connection, in this order. -/
def Addressed (log : List BusEvent) (conn : ConnectionEntry) (msg : Message) : Prop :=
  ∃ (source : ConnectionEntry) (m : Message) (dest owner : String) (s₁ s₂ s₃ s₄ : BusState),
    List.Sublist [⟨s₄, .get owner, some conn⟩, ⟨s₃, .getNameOwner dest, some owner⟩,
      ⟨s₂, .isRegistered source, true⟩, ⟨s₁, .readMessage source, some m⟩] log ∧
    msg = m.setSender source.uniqueName ∧ msg.destination = some dest

/-- What a dispatch guarantees of calls and replies: they are the driver's or
addressed to the connection, monitors apart. -/
def AddressGuarantee : Prog.Semantics BusOp BusOp.Res World
  | .write conn msg, w, _, _ => msg.isDirected = true → w.state.isMonitor conn = false →
    DriverBuilt msg ∨ Addressed w.log conn msg
  | .spawnWrite conn _, w, _, _ => w.state.isMonitor conn = true
  | _, _, _, _ => True

/-- The same of a logged event. -/
def DirectedAddressed (log : List BusEvent) (e : BusEvent) : Prop :=
  match e.op with
  | .write conn msg => msg.isDirected = true → e.before.isMonitor conn = false →
    DriverBuilt msg ∨ Addressed log conn msg
  | _ => True

/-- A program that keeps to the guarantee from a world on, and leaves a
postcondition. -/
abbrev KeepsAddressed {α : Type} (p : BusProg α) (w : World) (post : World → Prop) : Prop :=
  p.Ensures World.Exec World.Le AddressGuarantee (fun _ w => post w) w

/-- A message for everyone: a signal without a destination. -/
def Message.IsOpen (m : Message) : Prop := m.messageType = .signal ∧ m.destination = none

/-- **What a dispatch guarantees of all it writes**: it is the driver's, or for
everyone, or addressed to the connection. -/
def WayGuarantee : Prog.Semantics BusOp BusOp.Res World
  | .write conn msg, w, _, _ => DriverBuilt msg ∨ msg.IsOpen ∨ Addressed w.log conn msg
  | .spawnWrite conn _, w, _, _ => w.state.isMonitor conn = true
  | _, _, _, _ => True

abbrev KeepsWay {α : Type} (p : BusProg α) (w : World) (post : World → Prop) : Prop :=
  p.Ensures World.Exec World.Le WayGuarantee (fun _ w => post w) w

/-- The operations that need no look at the log: no copies, and of messages to one
connection only the driver's. -/
abbrev Unaddressed : BusOp → Prop :=
  Routine (fun _ m => DriverBuilt m ∨ m.IsOpen) fun _ _ => False

variable {bus : Bus} {sender conn : ConnectionEntry} {msg : Message} {w w' : World}
variable {es : List BusEvent}

/-- What is for everyone is no call and no reply. -/
theorem KeepsWay.keepsAddressed {α : Type} {p : BusProg α} {post : World → Prop}
    (h : KeepsWay p w post) : KeepsAddressed p w post := by
  refine h.weaken fun o w r w' hway => ?_
  cases o with
  | write c m =>
    intro hm _
    rcases hway with hdriver | hopen | haddressed
    · exact .inl hdriver
    · unfold Message.isDirected at hm
      rw [hopen.1] at hm
      cases hm
    · exact .inr haddressed
  | spawnWrite c m => exact hway
  | _ => trivial

/-- What is addressed to a connection stays so. -/
theorem Addressed.later (h : Addressed w.log conn msg) (hle : w.Le w') :
    Addressed w'.log conn msg := by
  obtain ⟨source, m, dest, owner, s₁, s₂, s₃, s₄, hlog, hmsg, hdest⟩ := h
  exact ⟨source, m, dest, owner, s₁, s₂, s₃, s₄, hle.recorded hlog, hmsg, hdest⟩

/-- Such a program keeps to the guarantee, and the log keeps what it says. -/
theorem keepsWay_of_only {α : Type} {p : BusProg α} (h : p.Only Unaddressed)
    (hes : es.Sublist w.log) : KeepsWay p w fun w => es.Sublist w.log := by
  refine h.ensures (fun _ _ hes hle => hle.recorded hes) (fun o w r w' ho hes hexec => ?_) hes
  refine ⟨?_, hexec.le.recorded hes⟩
  cases o with
  | write c m => exact ho.imp_right .inl
  | spawnWrite c m => exact ho.elim
  | _ => trivial

/-- What a dispatch does on behalf of a connection, if all it writes is the driver's or
for everyone. -/
theorem unaddressed (caller : ConnectionEntry) {α : Type} {p : BusProg α}
    (h : p.Only (Errand caller (fun _ _ => True) (fun _ m => DriverBuilt m ∨ m.IsOpen)
      fun _ _ => False)) : p.Only Unaddressed :=
  h.mono fun _ => Errand.routine

theorem driverFor_unaddressed {caller : ConnectionEntry} (c : ConnectionEntry) (m : Message)
    (h : Dispatch.DriverFor caller c m) : DriverBuilt m ∨ m.IsOpen := .inl h.1

namespace Dispatch

variable {source : ConnectionEntry} {m : Message} {s₁ s₂ : BusState}

/-- The copies go to monitors. -/
theorem way_deliverToMonitors (hes : es.Sublist w.log) :
    KeepsWay (deliverToMonitors msg) w fun w => es.Sublist w.log := by
  intro w₁ conns w₁' h₁ hconns
  refine ⟨trivial, Prog.ensures_forEach (fun conn _ w hes => ?_)
    (hconns.le.recorded (h₁.recorded hes))⟩
  intro w₁ isMonitor w₁' h₁ hmonitor
  refine ⟨trivial, ?_⟩
  have hes₁ := hmonitor.le.recorded (h₁.recorded hes)
  obtain ⟨hr, hs⟩ : isMonitor = w₁.state.isMonitor conn ∧ w₁'.state = w₁.state := hmonitor.1
  cases isMonitor with
  | false => exact hes₁
  | true =>
    intro w₂ _ w₂' h₂ hspawn
    refine ⟨h₂.monitor conn ?_, hspawn.le.recorded (h₂.recorded hes₁)⟩
    rw [hs, ← hr]

/-- What the log says of a stamped message of a registered connection. -/
abbrev Submitted (source : ConnectionEntry) (m : Message) (s₁ s₂ : BusState) : List BusEvent :=
  [⟨s₂, .isRegistered source, true⟩, ⟨s₁, .readMessage source, some m⟩]

/-- **What is written to the owner of its destination is addressed to it**, whatever
comes after the write. -/
theorem way_resolveConnection {dest : String} {next : ConnectionEntry → BusProg Unit}
    (hlog : (Submitted source m s₁ s₂).Sublist w.log)
    (hdest : (m.setSender source.uniqueName).destination = some dest)
    (hnext : ∀ conn w, Addressed w.log conn (m.setSender source.uniqueName) →
      KeepsWay (next conn) w fun _ => True) :
    KeepsWay (do
      match ← Driver.resolveConnection dest with
      | some conn => next conn
      | none => return ()) w fun _ => True := by
  intro w₃ owner w₃' h₃ howner
  refine ⟨trivial, ?_⟩
  have hlog₃ := howner.recorded (h₃.recorded hlog)
  cases owner with
  | none => trivial
  | some owner =>
    intro w₄ conn w₄' h₄ hget
    refine ⟨trivial, ?_⟩
    have hlog₄ := hget.recorded (h₄.recorded hlog₃)
    cases conn with
    | none => trivial
    | some conn =>
      exact hnext conn _ ⟨source, m, dest, owner, s₁, s₂, w₃.state, w₄.state, hlog₄, rfl, hdest⟩

/-- A message is written to whom it is addressed to, and counted. -/
theorem way_write (count : BusProg Unit) (hcount : count.Only Unaddressed)
    (h : Addressed w.log conn msg) :
    KeepsWay (do
      let _ ← op (.write conn msg)
      count) w fun _ => True := by
  intro w₁ written w₁' h₁ hwrite
  refine ⟨.inr (.inr (h.later h₁)), ?_⟩
  exact (keepsWay_of_only hcount (List.nil_sublist _)).mono fun _ _ _ => trivial

/-- **A signal is for everyone or written to whom it is addressed to.** -/
theorem way_dispatchSignal (htype : (m.setSender source.uniqueName).messageType = .signal)
    (hlog : (Submitted source m s₁ s₂).Sublist w.log) :
    KeepsWay (dispatchSignal bus source (m.setSender source.uniqueName)) w fun _ => True := by
  have hdenied : KeepsWay (op (.record .denial)) w fun _ => True :=
    (keepsWay_of_only (p := op (.record .denial)) ⟨trivial, fun _ => trivial⟩
      (List.nil_sublist _)).mono fun _ _ _ => trivial
  refine Prog.ensures_ite (fun _ => hdenied) fun _ =>
    Prog.ensures_ite (fun _ => hdenied) fun _ => ?_
  split
  · next dest hdest =>
    exact way_resolveConnection hlog hdest fun conn w h =>
      way_write (op (.record .signal)) ⟨trivial, fun _ => trivial⟩ h
  · next hdest =>
    refine (keepsWay_of_only (unaddressed source (Prog.Only.mono (telling_broadcastSignal true
      fun c _ => ?_) fun _ => Telling.errand)) (List.nil_sublist _)).mono fun _ _ _ => trivial
    exact .inr ⟨htype, hdest⟩

/-- **A reply is written to whom it is addressed to.** -/
theorem way_dispatchReply (hlog : (Submitted source m s₁ s₂).Sublist w.log) :
    KeepsWay (dispatchReply (m.setSender source.uniqueName)) w fun _ => True := by
  unfold dispatchReply
  split
  · next dest hdest =>
    exact way_resolveConnection hlog hdest fun conn w h =>
      way_write (op (.record _)) ⟨trivial, fun _ => trivial⟩ h
  · trivial

/-! ### Calls -/

theorem unaddressed_replyError {errorName message : String} :
    (replyError sender msg errorName message).Only Unaddressed :=
  unaddressed sender (only_replyError driverFor_unaddressed _ _ _)

/-- An answer that is a program of the driver's. -/
theorem way_of_only {α : Type} {p : BusProg α} (h : p.Only Unaddressed) :
    KeepsWay p w fun _ => True :=
  (keepsWay_of_only h (List.nil_sublist _)).mono fun _ _ _ => trivial

/-- **A call is delivered to the owner that was looked up.** -/
theorem way_deliverToOwner {dest owner : String} {s₃ : BusState}
    (hlog : (⟨s₃, .getNameOwner dest, some owner⟩ :: Submitted source m s₁ s₂).Sublist w.log)
    (hdest : (m.setSender source.uniqueName).destination = some dest) :
    KeepsWay (deliverToOwner bus source (m.setSender source.uniqueName) owner) w
      fun _ => True := by
  intro w₄ conn w₄' h₄ hget
  refine ⟨trivial, ?_⟩
  have hlog₄ := hget.recorded (h₄.recorded hlog)
  cases conn with
  | none => exact way_of_only unaddressed_replyError
  | some conn =>
    have hdenied : ∀ errorName message, KeepsWay (do
        op (.record .denial)
        replyError source (m.setSender source.uniqueName) errorName message) w₄' fun _ => True :=
      fun _ _ => way_of_only ⟨trivial, fun _ => unaddressed_replyError⟩
    refine Prog.ensures_ite (fun _ => hdenied _ _) fun _ => ?_
    refine Prog.ensures_ite (fun _ => hdenied _ _) fun _ => ?_
    intro w₅ written w₅' h₅ hwrite
    refine ⟨.inr (.inr ?_), ?_⟩
    · exact ⟨source, m, dest, owner, s₁, s₂, s₃, w₄.state, h₅.recorded hlog₄, rfl, hdest⟩
    · exact way_of_only (Prog.only_ite ⟨trivial, fun _ => trivial⟩ unaddressed_replyError)

theorem way_activateAndDeliver {dest : String}
    (hlog : (Submitted source m s₁ s₂).Sublist w.log)
    (hdest : (m.setSender source.uniqueName).destination = some dest) :
    KeepsWay (activateAndDeliver bus source (m.setSender source.uniqueName) dest) w
      fun _ => True := by
  refine Prog.ensures_ite (fun _ => way_of_only unaddressed_replyError) fun _ => ?_
  refine Prog.ensures_bind ?_
  refine (keepsWay_of_only (unaddressed source Driver.only_activateAndWait) hlog).mono
    fun failure w hlog => ?_
  cases failure with
  | some e => exact way_of_only unaddressed_replyError
  | none =>
    intro w₃ owner w₃' h₃ howner
    refine ⟨trivial, ?_⟩
    have hlog₃ := howner.recorded (h₃.recorded hlog)
    cases owner with
    | none => exact way_of_only unaddressed_replyError
    | some owner => exact way_deliverToOwner hlog₃ hdest

/-- **A call is written to whom it is addressed to.** -/
theorem way_dispatchMethodCall
    (htype : (m.setSender source.uniqueName).messageType = .methodCall)
    (hlog : (Submitted source m s₁ s₂).Sublist w.log) :
    KeepsWay (dispatchMethodCall bus source (m.setSender source.uniqueName)) w
      fun _ => True := by
  unfold dispatchMethodCall
  split
  · exact way_of_only unaddressed_replyError
  · next dest hdest =>
    have hdenied : ∀ {w} errorName message, KeepsWay (do
        op (.record .denial)
        replyError source (m.setSender source.uniqueName) errorName message) w fun _ => True :=
      fun _ _ => way_of_only ⟨trivial, fun _ => unaddressed_replyError⟩
    refine Prog.ensures_ite (fun hbus => ?_) fun _ => ?_
    · exact way_of_only (unaddressed source (only_handleDriverCall htype (hbus ▸ hdest)
        driverFor_unaddressed fun _ _ _ => trivial))
    refine Prog.ensures_ite (fun _ => hdenied _ _) fun _ => ?_
    refine Prog.ensures_bind ?_
    refine (keepsWay_of_only (unaddressed source Driver.only_resolveConnection) hlog).mono
      fun dst w hlog => ?_
    refine Prog.ensures_ite (fun _ => hdenied _ _) fun _ => ?_
    intro w₃ owner w₃' h₃ howner
    refine ⟨trivial, ?_⟩
    have hlog₃ := howner.recorded (h₃.recorded hlog)
    cases owner with
    | some owner => exact way_deliverToOwner hlog₃ hdest
    | none => exact way_activateAndDeliver (howner.le.recorded (h₃.recorded hlog)) hdest

/-- **A dispatch keeps to the guarantee**, once its message is logged. -/
theorem way_dispatchIncoming
    (hlog : List.Sublist [⟨s₁, .readMessage source, some m⟩] w.log) :
    KeepsWay (dispatchIncoming bus source m) w fun _ => True := by
  refine Prog.ensures_bind ((way_deliverToMonitors hlog).mono fun _ w hlog => ?_)
  intro w₂ isRegistered w₂' h₂ hreg
  refine ⟨trivial, ?_⟩
  have hlog₂ := hreg.recorded (h₂.recorded hlog)
  cases isRegistered with
  | true =>
    show KeepsWay (dispatchByType bus source _) w₂' fun _ => True
    unfold dispatchByType
    split
    · next htype => exact way_dispatchSignal htype hlog₂
    · next htype => exact way_dispatchMethodCall htype hlog₂
    · exact way_dispatchReply hlog₂
    · exact way_dispatchReply hlog₂
  | false =>
    -- a connection that is not registered can only call Hello, of the driver
    refine way_of_only (Prog.only_split (fun _ => unaddressed_replyError) fun h => ?_)
    have hhello : isHelloCall (m.setSender source.uniqueName) = true := by simpa using h
    unfold dispatchByType
    rw [messageType_of_isHelloCall hhello]
    show (dispatchMethodCall bus source _).Only Unaddressed
    rw [dispatchMethodCall_driver (destination_of_isHelloCall hhello)]
    exact unaddressed source (only_handleDriverCall (messageType_of_isHelloCall hhello)
      (destination_of_isHelloCall hhello) driverFor_unaddressed fun _ _ _ => trivial)

/-- What is told of changes of ownership is the driver's. -/
theorem way_broadcastNameOwnerChanges (changes : List NameOwnerChange) :
    KeepsWay (broadcastNameOwnerChanges bus changes) w fun _ => True := by
  refine way_of_only (unaddressed ⟨0, ⟨0, 0, 0⟩, none⟩ (Prog.Only.mono ?_ fun _ => Telling.errand))
  exact telling_broadcastNameOwnerChanges (fun _ _ hm _ => .inl hm) changes

end Dispatch

/-! ## Whole runs -/

/-- What a job still does keeps to the guarantee; a copy is for a monitor. -/
def Job.KeepsAddressed (w : World) : Job → Prop
  | serving _ p => Oxibus.KeepsAddressed p w fun _ => True
  | announcing p => Oxibus.KeepsAddressed p w fun _ => True
  | copying c _ => w.state.isMonitor c = true
  | _ => True

theorem Job.KeepsAddressed.stable {j : Job} {o : BusOp} {r : o.Res} (h : j.KeepsAddressed w)
    (hexec : World.Exec o w r w') : j.KeepsAddressed w' := by
  have hprog : ∀ {p : BusProg Unit}, (Oxibus.KeepsAddressed p w fun _ => True) →
      Oxibus.KeepsAddressed p w' fun _ => True :=
    fun h => h.interfere (fun _ _ _ => World.Le.trans) (fun _ _ _ _ _ => trivial) hexec.le
  cases j with
  | serving c p => exact hprog h
  | announcing p => exact hprog h
  | copying c msg => exact hexec.1.isMonitor h
  | _ => trivial

/-- A dispatch performs its next operation. -/
theorem keepsAddressed_call {o : BusOp} {k : o.Res → BusProg Unit} {r : o.Res}
    (h : KeepsAddressed (.call o k) w fun _ => True) (hexec : World.Exec o w r w') :
    DirectedAddressed w.log ⟨w.state, o, r⟩ ∧ (KeepsAddressed (k r) w' fun _ => True) ∧
      ∀ j ∈ o.spawned, j.KeepsAddressed w' := by
  obtain ⟨hguar, hnext⟩ := h w r w' (.refl w) hexec
  refine ⟨?_, hnext, ?_⟩
  · cases o with
    | write c msg => exact hguar
    | _ => trivial
  · intro j hj
    cases o with
    | spawnWrite c msg =>
      rw [List.mem_singleton.mp hj]
      exact hexec.1.isMonitor hguar
    | _ => exact absurd hj List.not_mem_nil

theorem keepsAddressed_step {j j' : Job} {o : BusOp} {r : o.Res} (h : j.KeepsAddressed w)
    (hstep : JobStep bus j o r j') (hexec : World.Exec o w r w') :
    DirectedAddressed w.log ⟨w.state, o, r⟩ ∧ j'.KeepsAddressed w' ∧
      ∀ j ∈ o.spawned, j.KeepsAddressed w' := by
  have hnone : ∀ j ∈ ([] : List Job), j.KeepsAddressed w' :=
    fun _ hj => absurd hj List.not_mem_nil
  cases hstep with
  | dispatch => exact keepsAddressed_call h hexec
  | announce => exact keepsAddressed_call h hexec
  | @copy c msg written =>
    refine ⟨fun _ hmonitor => ?_, trivial, hnone⟩
    have hmonitor' : w.state.isMonitor c = true := h
    rw [hmonitor'] at hmonitor
    cases hmonitor
  | read =>
    refine ⟨trivial, ?_, hnone⟩
    exact (Dispatch.way_dispatchIncoming (hexec.recorded (List.nil_sublist _))).keepsAddressed
  | remove =>
    exact ⟨trivial, (Dispatch.way_broadcastNameOwnerChanges _).keepsAddressed, hnone⟩
  | _ => exact ⟨trivial, trivial, hnone⟩

/-- **In every run, every call and every reply that is written to a connection
other than a monitor is the driver's, or addressed to the connection.** -/
theorem Daemon.Reachable.addressed {S : Daemon} (h : Daemon.Reachable bus S) :
    Daemon.Logged DirectedAddressed S.world.log :=
  (h.guarantee (fun _ _ => trivial) keepsAddressed_step Job.KeepsAddressed.stable).1

/-! ## Connections are kept under their names -/

namespace Registry

/-- **The table of connections is keyed by their unique names.** -/
def Keyed (reg : Registry) : Prop := ∀ name c, reg.get name = some c → c.uniqueName = name

theorem keyed_new : Registry.new.Keyed := by
  intro name c hc
  have hlookup : (∅ : AList fun _ : String => ConnectionEntry).lookup name = some c := hc
  rw [AList.lookup_empty] at hlookup
  cases hlookup

variable {reg reg' : Registry}

theorem Keyed.of_connections (h : reg.Keyed) (heq : reg'.connections = reg.connections) :
    reg'.Keyed := by
  intro name c hc
  unfold get at hc
  rw [heq] at hc
  exact h name c hc

theorem Keyed.addConnection (h : reg.Keyed) (c : ConnectionEntry) :
    (reg.addConnection c).Keyed := by
  intro name c' hc'
  have hlookup : (reg.connections.insert c.uniqueName c).lookup name = some c' := hc'
  by_cases hname : name = c.uniqueName
  · rw [hname, AList.lookup_insert] at hlookup
    rw [hname, Option.some.inj hlookup]
  · rw [AList.lookup_insert_ne hname] at hlookup
    exact h name c' hlookup

theorem Keyed.erase (h : reg.Keyed) (uniqueName : String) :
    Keyed { reg with connections := reg.connections.erase uniqueName } := by
  intro name c hc
  have hlookup : (reg.connections.erase uniqueName).lookup name = some c := hc
  by_cases hname : name = uniqueName
  · rw [hname, AList.lookup_erase] at hlookup
    cases hlookup
  · rw [AList.lookup_erase_ne hname] at hlookup
    exact h name c hlookup

theorem mem_allConnections {u : String} {c : ConnectionEntry} (h : reg.get u = some c) :
    c ∈ reg.allConnections :=
  List.mem_map.mpr ⟨⟨u, c⟩, AList.mem_lookup_iff.mp h, rfl⟩

/-- No connection is there twice. -/
theorem Keyed.nodup_allConnections (h : reg.Keyed) : reg.allConnections.Nodup := by
  refine List.Nodup.of_map ConnectionEntry.uniqueName ?_
  have hkeys : reg.allConnections.map ConnectionEntry.uniqueName = reg.connections.keys := by
    unfold allConnections
    rw [List.map_map]
    refine List.map_congr_left fun e he => ?_
    exact h e.1 e.2 (AList.mem_lookup_iff.mpr he)
  rw [hkeys]
  exact reg.connections.keys_nodup

end Registry

theorem BusOp.Exec.keyed {o : BusOp} {s s' : BusState} {r : o.Res} (h : o.Exec s r s')
    (hs : s.registry.Keyed) : s'.registry.Keyed := by
  have hconnections := h.connections
  cases o with
  | addConnection c => exact (hs.addConnection c).of_connections hconnections
  | removeConnection name => exact (hs.erase name).of_connections hconnections
  | _ => exact hs.of_connections hconnections

/-- **What the log of a run says did happen**, and in a state in which the
connections were kept under their names. -/
theorem Daemon.Reachable.executed {S : Daemon} (h : Daemon.Reachable bus S) :
    S.world.state.registry.Keyed ∧ ∀ e ∈ S.world.log, e.before.registry.Keyed ∧
      ∃ s', e.op.Exec e.before e.res s' := by
  induction h with
  | refl => exact ⟨Registry.keyed_new, fun _ he => absurd he List.not_mem_nil⟩
  | tail _ hs ih =>
    obtain ⟨hkeyed, hlog⟩ := ih
    cases hs with
    | accept peer => exact ⟨hkeyed, hlog⟩
    | job hj hstep hexec =>
      refine ⟨hexec.1.keyed hkeyed, fun e he => ?_⟩
      rw [hexec.2] at he
      rcases List.mem_cons.mp he with rfl | he
      · exact ⟨hkeyed, _, hexec.1⟩
      · exact hlog e he

/-- **Where an addressed message is addressed to**: the connection's unique
name, or a well-known name of the connection. -/
theorem Addressed.destination {S : Daemon} (h : Daemon.Reachable bus S) {log : List BusEvent}
    (hlog : log.Sublist S.world.log) (haddr : Addressed log conn msg) :
    ∃ dest, msg.destination = some dest ∧ (dest = conn.uniqueName ∨
      startsWithColon dest = false ∧ ∃ s : BusState,
        s.registry.getNameOwner dest = some conn.uniqueName) := by
  obtain ⟨source, m, dest, owner, s₁, s₂, s₃, s₄, hsub, -, hdest⟩ := haddr
  have hmem := fun e he => h.executed.2 e (hlog.subset (hsub.subset he))
  obtain ⟨hkeyed, _, hget, -⟩ := hmem ⟨s₄, .get owner, some conn⟩ (by simp)
  obtain ⟨-, _, howner, -⟩ := hmem ⟨s₃, .getNameOwner dest, some owner⟩ (by simp)
  have hname : conn.uniqueName = owner := hkeyed owner conn hget.symm
  refine ⟨dest, hdest, ?_⟩
  rw [hname]
  cases hcolon : startsWithColon dest with
  | false => exact Or.inr ⟨rfl, s₃, howner.symm⟩
  | true =>
    left
    rw [Registry.getNameOwner, if_pos hcolon] at howner
    obtain ⟨c, -, hc⟩ := Option.map_eq_some_iff.mp howner.symm
    exact hc

end Oxibus
