import Oxibus.Daemon.Delivery
import Oxibus.Daemon.Dispatched

/-!
# One message, two copies

The copies for the monitors are left to tasks of their own before anything
else is looked at. A broadcast knows this and passes the monitors over. The
ways on which a message is written to one connection – a signal with a
destination, a reply, a call – do not: whoever is the owner of the
destination is written the message, monitor or not.

So a connection gets a message twice exactly if it is a monitor when its
turn comes, and the message then finds its way to it.
-/

namespace Oxibus

open BusProg Relation

/-- A copy of the message reaches a connection: it is written and arrives, or it is
left to a task. -/
def Reaches (conn : ConnectionEntry) (msg : Message) (e : BusEvent) : Prop :=
  (∃ s : BusState, e = ⟨s, .write conn msg, true⟩) ∨
    ∃ (s : BusState) (r : Unit), e = ⟨s, .spawnWrite conn msg, r⟩

variable (others : BusState → BusState → Prop) (bus : Bus) (sender : ConnectionEntry)
variable (msg : Message) (conn : ConnectionEntry) (dest : String)

/-- **No connection is written a message twice**, in whichever way its dispatch
goes. -/
def NoDuplicate (s : BusState) : Prop :=
  ∀ (w : World) (conn : ConnectionEntry), Dispatched others bus sender msg s w →
    AtMostOnce (Reaches conn (msg.setSender sender.uniqueName)) w.log

/-! ## The way of a message to one connection -/

/-- **A name is looked up**: the connection of its owner, if there is one, at the end
of the steps from the first state to the second. -/
inductive Resolves (s s' : BusState) : Option ConnectionEntry → Prop where
  | unowned (h : ReflTransGen others s s') (howner : s'.registry.getNameOwner dest = none) :
    Resolves s s' none
  | owned {owner : String} {s₁ : BusState} (h₁ : ReflTransGen others s s₁)
      (howner : s₁.registry.getNameOwner dest = some owner) (h₂ : ReflTransGen others s₁ s') :
    Resolves s s' (s'.registry.get owner)

/-- **A service is started**, and has its name before the wait is over. -/
def Started (s s' : BusState) : Prop :=
  ∃ t, ReflTransGen others s t ∧
    ReflTransGen others { t with stats := t.stats.record .activation } s' ∧
    (s'.registry.getNameOwner dest).isSome = true

/-- **The owner to whom a call is delivered**: the one that has the name, or the one
that has it after its service has been started. -/
inductive OwnerFound (owner : String) (s s' : BusState) : Prop where
  | atOnce (h : ReflTransGen others s s')
      (howner : s'.registry.getNameOwner dest = some owner)
  | started (s₁ s₂ : BusState) (h : ReflTransGen others s s₁)
      (hnone : s₁.registry.getNameOwner dest = none) (hauto : msg.noAutoStart = false)
      (hservice : bus.activatable.contains dest = true) (hstarted : Started others dest s₁ s₂)
      (hafter : ReflTransGen others s₂ s') (howner : s'.registry.getNameOwner dest = some owner)

/-- **A message finds its way to a connection**, from the state in which its sender
is found registered to the state in which it is written. -/
inductive FindsWay (s s' : BusState) : Prop where
  /-- A signal for the owner of its destination. -/
  | signal (dest : String) (s₁ : BusState) (htype : msg.messageType = .signal)
      (hdest : msg.destination = some dest) (hsend : Dispatch.canSend bus sender msg = true)
      (hmediates : Dispatch.mediates bus aaDbusSend sender.securityLabel none msg = true)
      (hresolves : Resolves others dest s s₁ (some conn)) (hwriting : ReflTransGen others s₁ s')
  /-- A reply, which nobody is asked about. -/
  | reply (dest : String) (s₁ : BusState)
      (htype : msg.messageType = .methodReturn ∨ msg.messageType = .error)
      (hdest : msg.destination = some dest)
      (hresolves : Resolves others dest s s₁ (some conn)) (hwriting : ReflTransGen others s₁ s')
  /-- A call for the owner of its destination. -/
  | call (dest owner : String) (dstConn : Option ConnectionEntry) (s₁ s₂ s₃ : BusState)
      (htype : msg.messageType = .methodCall) (hdest : msg.destination = some dest)
      (hbus : dest ≠ WellKnown.busName) (hsend : Dispatch.canSend bus sender msg = true)
      (hresolves : Resolves others dest s s₁ dstConn)
      (hmediates : Dispatch.mediates bus aaDbusSend sender.securityLabel
        (dstConn.bind ConnectionEntry.securityLabel) msg = true)
      (howner : OwnerFound others bus msg dest owner s₁ s₂) (hgetting : ReflTransGen others s₂ s₃)
      (hget : s₃.registry.get owner = some conn)
      (hreceive : Dispatch.canReceive bus conn msg = true)
      (hpermitted : Dispatch.mediates bus aaDbusReceive conn.securityLabel sender.securityLabel
        msg = true)
      (hwriting : ReflTransGen others s₃ s')

/-- **A message for a monitor**: the connection is a monitor when the copies are made,
the sender is found registered afterwards, and the message finds its way to
the connection and can be encoded. -/
structure Doubled (s s₀ s₁ s₂ s₃ : BusState) : Prop where
  listing : ReflTransGen others s s₀
  connected : conn ∈ s₀.registry.allConnections
  looking : ReflTransGen others s₀ s₁
  monitor : s₁.isMonitor conn = true
  registering : ReflTransGen others s₁ s₂
  registered : s₂.isRegistered sender = true
  way : FindsWay others bus sender msg conn s₂ s₃
  encodable : msg.toBytes.isOk = true

/-- The other tasks do what tasks of the daemon do. -/
def Tasks : Prop := ∀ s s', others s s' → ∃ (o : BusOp) (r : o.Res), o.Exec s r s'

variable {others bus sender msg conn dest} {s s' s₀ s₁ s₂ s₃ : BusState} {w w' : World}
variable {o : BusOp} {r : o.Res} {c : ConnectionEntry} {e : BusEvent}
variable {Q Q' : List BusEvent → Prop} {owner : String}

/-! ## What lasts -/

namespace Tasks

theorem isMonitor (h : Tasks others) (hs : ReflTransGen others s s')
    (hc : s.isMonitor c = true) : s'.isMonitor c = true := by
  induction hs with
  | refl => exact hc
  | tail _ hstep ih =>
    obtain ⟨o, r, hexec⟩ := h _ _ hstep
    exact hexec.isMonitor ih

theorem keyed (h : Tasks others) (hs : ReflTransGen others s s') (hkeyed : s.registry.Keyed) :
    s'.registry.Keyed := by
  induction hs with
  | refl => exact hkeyed
  | tail _ hstep ih =>
    obtain ⟨o, r, hexec⟩ := h _ _ hstep
    exact hexec.keyed ih

end Tasks

/-! ## What reaches the connection -/

theorem Reaches.carries {s : BusState} (h : Reaches conn msg ⟨s, o, r⟩) : o.Carries conn msg := by
  rcases h with ⟨s', he⟩ | ⟨s', r', he⟩
  · cases he
    exact ⟨rfl, rfl⟩
  · cases he
    exact ⟨rfl, rfl⟩

/-- A program that carries nothing to the connection changes nothing in what has
reached it. -/
theorem kept_of_only {α : Type} {p : BusProg α} (hp : p.Only fun o => ¬ o.Carries conn msg)
    (hQ : Indifferent (Reaches conn msg) Q) (h : Q w.log) :
    LeavesLog others p w fun _ w' => Q w'.log := by
  refine hp.ensures (fun w w' h hamid => ?_) (fun o w r w' ho h hexec => ⟨trivial, ?_⟩) h
  · rw [hamid.2]
    exact h
  · rw [hexec.2]
    exact hQ _ _ (fun hreaches => ho hreaches.carries) h

/-- **How far a dispatch has come**: the state is one the others have led to from the
first, and of what has reached the connection something is known. -/
structure Trail (others : BusState → BusState → Prop) (s : BusState) (Q : List BusEvent → Prop)
    (w : World) : Prop where
  came : ReflTransGen others s w.state
  log : Q w.log

namespace Trail

theorem start (h : Q w.log) : Trail others w.state Q w := ⟨.refl, h⟩

theorem amid (h : Trail others s Q w) (hamid : w.Amid others w') : Trail others s Q w' := by
  refine ⟨h.came.trans hamid.1, ?_⟩
  rw [hamid.2]
  exact h.log

/-- An operation that changes nothing and carries nothing to the connection. -/
theorem read (hQ : Indifferent (Reaches conn msg) Q) (h : Trail others s Q w)
    (ho : o.isUpdate = false) (hcarries : ¬ o.Carries conn msg) (hexec : World.Exec o w r w') :
    Trail others s Q w' := by
  refine ⟨?_, ?_⟩
  · rw [hexec.1.eq_of_not_isUpdate ho]
    exact h.came
  · rw [hexec.2]
    exact hQ _ _ (fun hreaches => hcarries hreaches.carries) h.log

end Trail

/-- The message may reach the connection now. -/
def Lands (conn : ConnectionEntry) (msg : Message) (Q Q' : List BusEvent → Prop) : Prop :=
  ∀ e log, Reaches conn msg e → Q log → Q' (e :: log)

namespace Dispatch

/-- **A message is written**: it reaches the connection if that is the one it is
written to. -/
theorem trail_write {arrived : Bool} (hQ : Indifferent (Reaches conn msg) Q)
    (hskip : ∀ log, Q log → Q' log)
    (hlands : c = conn → msg.toBytes.isOk = true → Lands conn msg Q Q')
    (h : Q w.log) (hexec : World.Exec (.write c msg) w arrived w') : Q' w'.log := by
  rw [hexec.2]
  by_cases hreaches : Reaches conn msg ⟨w.state, .write c msg, arrived⟩
  · refine hlands hreaches.carries.1 ?_ _ _ hreaches h
    rcases hreaches with ⟨s', he⟩ | ⟨s', r', he⟩
    · cases he
      exact hexec.1.1 rfl
    · cases he
  · exact hskip _ (hQ _ _ hreaches h)

theorem trail_broadcastWrite (hQ : Indifferent (Reaches conn msg) Q)
    (hQ' : Indifferent (Reaches conn msg) Q') (hskip : ∀ log, Q log → Q' log)
    (hlands : c = conn → ∀ s', ReflTransGen others s s' → msg.toBytes.isOk = true →
      Lands conn msg Q Q') (h : Trail others s Q w) :
    LeavesLog others (broadcastWrite msg c) w fun _ w' => Q' w'.log := by
  intro w₁ arrived w₂ h₁ hexec
  have h₂ : Q' w₂.log := trail_write hQ hskip (fun hc => hlands hc _ (h.amid h₁).came)
    (h.amid h₁).log hexec
  exact ⟨trivial, kept_of_only (p := op (.record .signal)) ⟨id, fun _ => trivial⟩ hQ' h₂⟩

/-! ## Names are looked up -/

theorem trail_resolveConnection (hQ : Indifferent (Reaches conn msg) Q) (h : Trail others s Q w) :
    LeavesLog others (Driver.resolveConnection dest) w fun found w' =>
      Resolves others dest s w'.state found ∧ Q w'.log := by
  intro w₁ owner w₂ h₁ hexec
  have h₁' := h.amid h₁
  have h₂ := h₁'.read hQ rfl id hexec
  obtain ⟨howner, hsame⟩ := hexec.1
  refine ⟨trivial, ?_⟩
  cases owner with
  | none =>
    refine ⟨.unowned h₂.came ?_, h₂.log⟩
    rw [hsame]
    exact howner.symm
  | some owner =>
    intro w₃ found w₄ h₃ hexec₃
    have h₄ := (h₂.amid h₃).read hQ rfl id hexec₃
    have hcame : ReflTransGen others w₁.state w₄.state := by
      rw [← hsame, hexec₃.1.2]
      exact h₃.1
    refine ⟨trivial, ?_, h₄.log⟩
    show Resolves others dest s w₄.state found
    rw [hexec₃.1.1, ← hexec₃.1.2]
    exact .owned h₁'.came howner.symm hcame

/-- The polls for the owner of a name. -/
theorem trail_waitForOwner (hQ : Indifferent (Reaches conn msg) Q) (polls : ℕ)
    (h : Trail others s Q w) :
    LeavesLog others (Driver.waitForOwner dest polls) w fun failure w' => Trail others s Q w' ∧
      (failure = none → (w'.state.registry.getNameOwner dest).isSome = true) := by
  induction polls generalizing w with
  | zero => exact ⟨h, nofun⟩
  | succ polls ih =>
    intro w₁ owner w₂ h₁ hexec
    have h₂ := (h.amid h₁).read hQ rfl id hexec
    refine ⟨trivial, Prog.ensures_ite (fun howned => ⟨h₂, fun _ => ?_⟩) fun _ => ih h₂⟩
    rwa [hexec.1.2, ← hexec.1.1]

theorem trail_activateAndWait (hQ : Indifferent (Reaches conn msg) Q) (h : Trail others s Q w) :
    LeavesLog others (Driver.activateAndWait dest) w fun failure w' => Q w'.log ∧
      (failure = none → Started others dest s w'.state) := by
  intro w₁ failure w₂ h₁ hexec
  have h₂ := (h.amid h₁).read hQ rfl id hexec
  refine ⟨trivial, ?_⟩
  cases failure with
  | some e => exact ⟨h₂.log, nofun⟩
  | none =>
    intro w₃ r w₄ h₃ hexec₃
    have h₃' := h₂.amid h₃
    have h₄ : Trail others { w₃.state with stats := w₃.state.stats.record .activation } Q w₄ := by
      refine ⟨?_, ?_⟩
      · rw [hexec₃.1]
      · rw [hexec₃.2]
        exact hQ _ _ (fun hreaches => hreaches.carries) h₃'.log
    refine ⟨trivial, fun w₅ polls w₆ h₅ hexec₅ => ⟨trivial, ?_⟩⟩
    have h₆ := (h₄.amid h₅).read hQ rfl id hexec₅
    refine (trail_waitForOwner hQ polls h₆).mono fun failure w₇ h₇ => ⟨h₇.1.log, fun hnone => ?_⟩
    exact ⟨w₃.state, h₃'.came, h₇.1.came, h₇.2 hnone⟩

/-! ## The driver's own messages -/

theorem Telling.not_carries (ho : Telling (fun c m => ¬ (c = conn ∧ m = msg)) o) :
    ¬ o.Carries conn msg := by
  cases o with
  | write c m => exact ho
  | spawnWrite => exact ho.elim
  | _ => exact id

theorem kept_replyError {call : Message} (hdriver : ∀ m, DriverBuilt m → m ≠ msg)
    (errorName message : String) (hQ : Indifferent (Reaches conn msg) Q) (h : Q w.log) :
    LeavesLog others (replyError sender call errorName message) w fun _ w' => Q w'.log := by
  refine kept_of_only (Prog.Only.mono ?_ fun _ => Telling.not_carries) hQ h
  exact telling_replyError (fun m hm _ heq => hdriver m hm heq.2) _ _ _

theorem kept_denial {call : Message} (hdriver : ∀ m, DriverBuilt m → m ≠ msg)
    (errorName message : String) (hQ : Indifferent (Reaches conn msg) Q) (h : Q w.log) :
    LeavesLog others (do
      op (.record .denial)
      replyError sender call errorName message : BusProg Unit) w fun _ w' => Q w'.log := by
  refine Prog.ensures_bind ((kept_of_only (p := op (.record .denial))
    ⟨id, fun _ => trivial⟩ hQ h).mono fun _ w₁ h₁ => ?_)
  exact kept_replyError hdriver errorName message hQ h₁

theorem kept_handleDriverCall (hdriver : ∀ m, DriverBuilt m → m ≠ msg)
    (htype : msg.messageType = .methodCall) (hdest : msg.destination = some WellKnown.busName)
    (hQ : Indifferent (Reaches conn msg) Q) (h : Q w.log) :
    LeavesLog others (handleDriverCall bus sender msg) w fun _ w' => Q w'.log := by
  refine kept_of_only (Prog.Only.mono (only_handleDriverCall (N := fun _ _ => True)
    (Q := fun c m => ¬ (c = conn ∧ m = msg)) (C := fun _ _ => False) htype hdest
    (fun c m hm heq => hdriver m hm.1 heq.2) fun _ _ _ => trivial) fun o ho => ?_) hQ h
  cases o with
  | write c m => exact ho
  | spawnWrite => exact ho.elim
  | _ => exact id

/-! ## Broadcasts pass the monitors over -/

/-- **One turn of a broadcast**: it lands at most where it goes. -/
theorem trail_broadcastTo (hQ : Indifferent (Reaches conn msg) Q)
    (hQ' : Indifferent (Reaches conn msg) Q') (hskip : ∀ log, Q log → Q' log)
    (hlands : w.state.isMonitor conn = false → Lands conn msg Q Q') (hothers : Tasks others)
    (h : Q w.log) :
    LeavesLog others (broadcastTo bus msg true conn) w fun _ w' => Q' w'.log := by
  intro w₁ isMonitor w₂ h₁ hexec
  have h₂ : Q w₂.log := by
    rw [hexec.2, h₁.2]
    exact hQ _ _ (fun hreaches => hreaches.carries) h
  refine ⟨trivial, Prog.ensures_ite (fun _ => hskip _ h₂) fun hfalse => ?_⟩
  have hlands : Lands conn msg Q Q' := by
    refine hlands ?_
    rw [← Bool.not_eq_true]
    intro htrue
    exact hfalse (hexec.1.1.trans (hothers.isMonitor h₁.1 htrue))
  intro w₃ rules w₄ h₃ hexec₃
  have h₄ : Q w₄.log := by
    rw [hexec₃.2, h₃.2]
    exact hQ _ _ (fun hreaches => hreaches.carries) h₂
  have htelling : ∀ {α : Type} {p : BusProg α}, p.Only (Telling fun _ _ => False) →
      p.Only fun o => ¬ o.Carries conn msg := fun hp => hp.mono fun o ho => by
    cases o with
    | write => exact ho.elim
    | spawnWrite => exact ho.elim
    | _ => exact id
  refine ⟨trivial, ?_⟩
  show LeavesLog others (anyMatches msg rules >>= fun _ => _) w₄ _
  refine Prog.ensures_bind ((kept_of_only (htelling (telling_anyMatches rules)) hQ h₄).mono ?_)
  intro matched w₅ h₅
  refine Prog.ensures_ite (fun _ => hskip _ h₅) fun _ => ?_
  show LeavesLog others (if !canReceive bus conn msg then return () else _) w₅ _
  refine Prog.ensures_ite (fun _ => hskip _ h₅) fun _ => ?_
  refine Prog.ensures_bind ((kept_of_only (htelling telling_senderLabel) hQ h₅).mono ?_)
  intro label w₆ h₆
  refine Prog.ensures_ite (fun _ => hskip _ h₆) fun _ => ?_
  exact trail_broadcastWrite hQ hQ' hskip (fun _ _ _ _ => hlands) (.start h₆)

/-- The turn of another connection. -/
theorem only_broadcastTo_other (hc : c ≠ conn) :
    (broadcastTo bus msg true c).Only fun o => ¬ o.Carries conn msg :=
  (telling_broadcastTo true fun _ heq => hc heq.1).mono fun _ => Telling.not_carries

/-- A later moment of a broadcast: the connection is still a monitor if it was, and
of what has reached it something is known. -/
structure Onward (s : BusState) (conn : ConnectionEntry) (Q : List BusEvent → Prop) (w : World) :
    Prop where
  monitor : s.isMonitor conn = true → w.state.isMonitor conn = true
  log : Q w.log

theorem onward_of_only {p : BusProg Unit} (hp : p.Only fun o => ¬ o.Carries conn msg)
    (hQ : Indifferent (Reaches conn msg) Q) (hothers : Tasks others) (h : Onward s conn Q w) :
    LeavesLog others p w fun _ => Onward s conn Q := by
  refine hp.ensures (fun w w' h hamid => ⟨fun hs => ?_, ?_⟩) (fun o w r w' ho h hexec =>
    ⟨trivial, fun hs => ?_, ?_⟩) h
  · exact hothers.isMonitor hamid.1 (h.monitor hs)
  · rw [hamid.2]
    exact h.log
  · exact hexec.1.isMonitor (h.monitor hs)
  · rw [hexec.2]
    exact hQ _ _ (fun hreaches => ho hreaches.carries) h.log

/-- **A broadcast lands once at most**, and not at a monitor. -/
theorem trail_broadcastSignal (hQ : Indifferent (Reaches conn msg) Q)
    (hQ' : Indifferent (Reaches conn msg) Q') (hskip : ∀ log, Q log → Q' log)
    (hlands : s.isMonitor conn = false → Lands conn msg Q Q') (hothers : Tasks others)
    (hkeyed : s.registry.Keyed) (h : Trail others s Q w) :
    LeavesLog others (broadcastSignal bus msg true) w fun _ w' => Q' w'.log := by
  intro w₁ conns w₂ h₁ hexec
  have h₂ := (h.amid h₁).read hQ rfl id hexec
  have hnodup : conns.Nodup :=
    hexec.1.1.nodup_iff.mpr (hothers.keyed (h.amid h₁).came hkeyed).nodup_allConnections
  have hstart : Onward s conn Q w₂ := ⟨hothers.isMonitor h₂.came, h₂.log⟩
  refine ⟨trivial, ?_⟩
  by_cases hconn : conn ∈ conns
  · refine Prog.ensures_forEach_one hnodup hconn
      (fun b _ hb w hw => ?_) (fun w hw => ?_) (fun b _ hb w hw => ?_) hstart
    · exact onward_of_only (only_broadcastTo_other hb) hQ hothers hw
    · refine trail_broadcastTo hQ hQ' hskip (fun hfalse => hlands ?_) hothers hw.log
      rw [← Bool.not_eq_true]
      intro htrue
      cases (hw.monitor htrue).symm.trans hfalse
    · exact kept_of_only (only_broadcastTo_other hb) hQ' hw
  · refine (Prog.ensures_forEach (fun b hb w hw => ?_) hstart).mono fun _ w hw => hskip _ hw.log
    have hother : b ≠ conn := fun hbc => hconn (hbc ▸ hb)
    exact onward_of_only (only_broadcastTo_other hother) hQ hothers hw

/-! ## Signals, replies and calls -/

theorem trail_dispatchSignal (hQ : Indifferent (Reaches conn msg) Q)
    (hQ' : Indifferent (Reaches conn msg) Q') (hskip : ∀ log, Q log → Q' log)
    (htype : msg.messageType = .signal)
    (hway : ∀ s', FindsWay others bus sender msg conn s s' → msg.toBytes.isOk = true →
      Lands conn msg Q Q')
    (hbroadcast : s.isMonitor conn = false → Lands conn msg Q Q') (hothers : Tasks others)
    (hkeyed : s.registry.Keyed) (h : Trail others s Q w) :
    LeavesLog others (dispatchSignal bus sender msg) w fun _ w' => Q' w'.log := by
  have hdenied : LeavesLog others (op (.record .denial)) w fun _ w' => Q' w'.log :=
    kept_of_only ⟨id, fun _ => trivial⟩ hQ' (hskip _ h.log)
  refine Prog.ensures_ite (fun _ => hdenied) fun hsend => ?_
  refine Prog.ensures_ite (fun _ => hdenied) fun hmediates => ?_
  have hsend : canSend bus sender msg = true := by simpa using hsend
  have hmediates : mediates bus aaDbusSend sender.securityLabel none msg = true := by
    simpa using hmediates
  split
  · next dest hdest =>
    refine Prog.ensures_bind ((trail_resolveConnection hQ h).mono ?_)
    rintro found w₁ ⟨hresolves, h₁⟩
    cases found with
    | none => exact hskip _ h₁
    | some c =>
      refine trail_broadcastWrite hQ hQ' hskip ?_ (.start h₁)
      rintro rfl s' hwriting hencodable
      exact hway s' (.signal dest _ htype hdest hsend hmediates hresolves hwriting) hencodable
  · exact trail_broadcastSignal hQ hQ' hskip hbroadcast hothers hkeyed h

theorem trail_dispatchReply (hQ : Indifferent (Reaches conn msg) Q)
    (hQ' : Indifferent (Reaches conn msg) Q') (hskip : ∀ log, Q log → Q' log)
    (htype : msg.messageType = .methodReturn ∨ msg.messageType = .error)
    (hway : ∀ s', FindsWay others bus sender msg conn s s' → msg.toBytes.isOk = true →
      Lands conn msg Q Q') (h : Trail others s Q w) :
    LeavesLog others (dispatchReply msg) w fun _ w' => Q' w'.log := by
  unfold dispatchReply
  split
  · next dest hdest =>
    refine Prog.ensures_bind ((trail_resolveConnection hQ h).mono ?_)
    rintro found w₁ ⟨hresolves, h₁⟩
    cases found with
    | none => exact hskip _ h₁
    | some c =>
      intro w₂ arrived w₃ h₂ hexec
      refine ⟨trivial, kept_of_only (p := op (.record _)) ⟨id, fun _ => trivial⟩ hQ' ?_⟩
      have hlog : Q w₂.log := by
        rw [h₂.2]
        exact h₁
      refine trail_write hQ hskip ?_ hlog hexec
      rintro rfl hencodable
      exact hway _ (.reply dest _ htype hdest hresolves h₂.1) hencodable
  · exact hskip _ h.log

/-- The end of a call's way. -/
theorem trail_deliverToOwner (hQ : Indifferent (Reaches conn msg) Q)
    (hQ' : Indifferent (Reaches conn msg) Q') (hskip : ∀ log, Q log → Q' log)
    (hdriver : ∀ m, DriverBuilt m → m ≠ msg)
    (hlands : ∀ s₁ s₂, ReflTransGen others s s₁ → s₁.registry.get owner = some conn →
      canReceive bus conn msg = true →
      mediates bus aaDbusReceive conn.securityLabel sender.securityLabel msg = true →
      ReflTransGen others s₁ s₂ → msg.toBytes.isOk = true → Lands conn msg Q Q')
    (h : Trail others s Q w) :
    LeavesLog others (deliverToOwner bus sender msg owner) w fun _ w' => Q' w'.log := by
  intro w₁ found w₂ h₁ hexec
  have h₂ := (h.amid h₁).read hQ rfl id hexec
  refine ⟨trivial, ?_⟩
  cases found with
  | none => exact kept_replyError hdriver _ _ hQ' (hskip _ h₂.log)
  | some c =>
  refine Prog.ensures_ite (fun _ => kept_denial hdriver _ _ hQ' (hskip _ h₂.log)) fun hreceive => ?_
  refine Prog.ensures_ite (fun _ => kept_denial hdriver _ _ hQ' (hskip _ h₂.log))
    fun hpermitted => ?_
  intro w₃ arrived w₄ h₃ hexec₃
  have hget : w₂.state.registry.get owner = some c := by
    rw [hexec.1.2]
    exact hexec.1.1.symm
  have h₄ : Q' w₄.log := by
    refine trail_write hQ hskip ?_ (h₂.amid h₃).log hexec₃
    rintro rfl hencodable
    exact hlands w₂.state w₃.state h₂.came hget (by simpa using hreceive)
      (by simpa using hpermitted)
      h₃.1 hencodable
  refine ⟨trivial, Prog.ensures_ite (fun _ => ?_) fun _ => kept_replyError hdriver _ _ hQ' h₄⟩
  exact kept_of_only (p := op (.record _)) ⟨id, fun _ => trivial⟩ hQ' h₄

/-- A call looks for the owner of its destination, and has its service started if there
is none. -/
theorem trail_findOwner (hQ : Indifferent (Reaches conn msg) Q)
    (hQ' : Indifferent (Reaches conn msg) Q') (hskip : ∀ log, Q log → Q' log)
    (hdriver : ∀ m, DriverBuilt m → m ≠ msg)
    (hlands : ∀ owner s₁ s₂ s₃, OwnerFound others bus msg dest owner s s₁ →
      ReflTransGen others s₁ s₂ → s₂.registry.get owner = some conn →
      canReceive bus conn msg = true →
      mediates bus aaDbusReceive conn.securityLabel sender.securityLabel msg = true →
      ReflTransGen others s₂ s₃ → msg.toBytes.isOk = true → Lands conn msg Q Q')
    (h : Trail others s Q w) :
    LeavesLog others (do
      match ← op (.getNameOwner dest) with
      | some owner => deliverToOwner bus sender msg owner
      | none => activateAndDeliver bus sender msg dest) w fun _ w' => Q' w'.log := by
  intro w₁ owner w₂ h₁ hexec
  have h₂ := (h.amid h₁).read hQ rfl id hexec
  have howner : w₂.state.registry.getNameOwner dest = owner := by
    rw [hexec.1.2]
    exact hexec.1.1.symm
  refine ⟨trivial, ?_⟩
  cases owner with
  | some owner =>
    refine trail_deliverToOwner hQ hQ' hskip hdriver (fun s₁ s₂ hgetting => ?_) (.start h₂.log)
    exact hlands owner _ _ _ (.atOnce h₂.came howner) hgetting
  | none =>
    refine Prog.ensures_ite (fun _ => kept_replyError hdriver _ _ hQ' (hskip _ h₂.log))
      fun hactivates => ?_
    obtain ⟨hauto, hservice⟩ : msg.noAutoStart = false ∧ bus.activatable.contains dest = true := by
      simpa using hactivates
    refine Prog.ensures_bind ((trail_activateAndWait hQ (.start h₂.log)).mono ?_)
    rintro failure w₃ ⟨h₃, hstarted⟩
    cases failure with
    | some e => exact kept_replyError hdriver _ _ hQ' (hskip _ h₃)
    | none =>
    intro w₄ owner w₅ h₄ hexec₄
    have h₅ := (Trail.amid (.start h₃) h₄).read hQ rfl id hexec₄
    refine ⟨trivial, ?_⟩
    cases owner with
    | none => exact kept_replyError hdriver _ _ hQ' (hskip _ h₅.log)
    | some owner =>
      have howner' : w₅.state.registry.getNameOwner dest = some owner := by
        rw [hexec₄.1.2]
        exact hexec₄.1.1.symm
      refine trail_deliverToOwner hQ hQ' hskip hdriver (fun s₁ s₂ hgetting => ?_) (.start h₅.log)
      refine hlands owner _ _ _ ?_ hgetting
      exact .started _ _ h₂.came howner hauto hservice (hstarted rfl) h₅.came howner'

theorem trail_dispatchMethodCall (hQ : Indifferent (Reaches conn msg) Q)
    (hQ' : Indifferent (Reaches conn msg) Q') (hskip : ∀ log, Q log → Q' log)
    (hdriver : ∀ m, DriverBuilt m → m ≠ msg) (htype : msg.messageType = .methodCall)
    (hway : ∀ s', FindsWay others bus sender msg conn s s' → msg.toBytes.isOk = true →
      Lands conn msg Q Q') (h : Trail others s Q w) :
    LeavesLog others (dispatchMethodCall bus sender msg) w fun _ w' => Q' w'.log := by
  by_cases hdest : msg.destination = some WellKnown.busName
  · rw [dispatchMethodCall_driver hdest]
    exact kept_handleDriverCall hdriver htype hdest hQ' (hskip _ h.log)
  unfold dispatchMethodCall
  split
  · exact kept_replyError hdriver _ _ hQ' (hskip _ h.log)
  · next dest hsome =>
    refine Prog.ensures_ite (fun hbus => absurd (hbus ▸ hsome) hdest) fun hbus => ?_
    refine Prog.ensures_ite (fun _ => kept_denial hdriver _ _ hQ' (hskip _ h.log)) fun hsend => ?_
    refine Prog.ensures_bind ((trail_resolveConnection hQ h).mono ?_)
    rintro dstConn w₁ ⟨hresolves, h₁⟩
    refine Prog.ensures_ite (fun _ => kept_denial hdriver _ _ hQ' (hskip _ h₁)) fun hmediates => ?_
    refine trail_findOwner hQ hQ' hskip hdriver ?_ (.start h₁)
    intro owner s₂ s₃ s' howner hgetting hget hreceive hpermitted hwriting hencodable
    exact hway s'
      (.call dest owner dstConn _ s₂ s₃ htype hsome hbus (by simpa using hsend) hresolves
      (by simpa using hmediates) howner hgetting hget hreceive hpermitted hwriting) hencodable

theorem trail_dispatchByType (hQ : Indifferent (Reaches conn msg) Q)
    (hQ' : Indifferent (Reaches conn msg) Q') (hskip : ∀ log, Q log → Q' log)
    (hdriver : ∀ m, DriverBuilt m → m ≠ msg)
    (hway : ∀ s', FindsWay others bus sender msg conn s s' → msg.toBytes.isOk = true →
      Lands conn msg Q Q')
    (hbroadcast : s.isMonitor conn = false → Lands conn msg Q Q') (hothers : Tasks others)
    (hkeyed : s.registry.Keyed) (h : Trail others s Q w) :
    LeavesLog others (dispatchByType bus sender msg) w fun _ w' => Q' w'.log := by
  unfold dispatchByType
  split
  · next htype => exact trail_dispatchSignal hQ hQ' hskip htype hway hbroadcast hothers hkeyed h
  · next htype => exact trail_dispatchMethodCall hQ hQ' hskip hdriver htype hway h
  · next htype => exact trail_dispatchReply hQ hQ' hskip (.inl htype) hway h
  · next htype => exact trail_dispatchReply hQ hQ' hskip (.inr htype) hway h

/-! ## The copies -/

/-- A program that changes nothing and carries nothing to the connection. -/
theorem trail_of_only {p : BusProg Unit}
    (hp : p.Only fun o => o.isUpdate = false ∧ ¬ o.Carries conn msg)
    (hQ : Indifferent (Reaches conn msg) Q) (h : Trail others s Q w) :
    LeavesLog others p w fun _ => Trail others s Q :=
  hp.ensures (fun _ _ h hamid => h.amid hamid)
    (fun _ _ _ _ ho h hexec => ⟨trivial, h.read hQ ho.1 ho.2 hexec⟩) h

theorem only_copyToMonitor_other (hc : c ≠ conn) :
    (copyToMonitor msg c).Only fun o => o.isUpdate = false ∧ ¬ o.Carries conn msg :=
  ⟨⟨rfl, id⟩, fun _ => Prog.only_ite ⟨⟨rfl, fun h => hc h.1⟩, fun _ => trivial⟩ trivial⟩

/-- **After the copies**: none has been left for the connection, or one has, and then
it was found to be a monitor on the way. -/
inductive Copied (others : BusState → BusState → Prop) (msg : Message) (conn : ConnectionEntry)
    (s : BusState) (w : World) : Prop where
  | not (h : Trail others s (Never (Reaches conn msg)) w)
  | once (s₁ : BusState) (looking : ReflTransGen others s s₁) (monitor : s₁.isMonitor conn = true)
      (h : Trail others s₁ (Once (Reaches conn msg)) w)

theorem copied_copyToMonitor (h : Trail others s (Never (Reaches conn msg)) w) :
    LeavesLog others (copyToMonitor msg conn) w fun _ => Copied others msg conn s := by
  intro w₁ isMonitor w₂ h₁ hexec
  have h₂ := (h.amid h₁).read indifferent_never rfl id hexec
  refine ⟨trivial, Prog.ensures_ite (fun htrue => ?_) fun _ => .not h₂⟩
  intro w₃ r w₄ h₃ hspawn
  refine ⟨trivial, .once w₂.state h₂.came ?_ ⟨?_, ?_⟩⟩
  · rw [hexec.1.2, ← htrue]
    exact hexec.1.1.symm
  · rw [show w₄.state = w₃.state from hspawn.1]
    exact h₃.1
  · rw [hspawn.2]
    exact (h₂.amid h₃).log.once (.inr ⟨_, _, rfl⟩)

/-- **The loop leaves one copy at most**, and only for a monitor of the table. -/
theorem copied_deliverToMonitors (hothers : Tasks others) (hkeyed : s.registry.Keyed)
    (h : Trail others s (Never (Reaches conn msg)) w) :
    LeavesLog others (deliverToMonitors msg) w fun _ w' =>
      Trail others s (Never (Reaches conn msg)) w' ∨ ∃ s₀, ReflTransGen others s s₀ ∧
        conn ∈ s₀.registry.allConnections ∧ Copied others msg conn s₀ w' := by
  intro w₁ conns w₂ h₁ hexec
  have h₂ := (h.amid h₁).read indifferent_never rfl id hexec
  have hperm : conns.Perm w₂.state.registry.allConnections := by
    rw [hexec.1.2]
    exact hexec.1.1
  have hnodup : conns.Nodup :=
    hperm.nodup_iff.mpr (hothers.keyed h₂.came hkeyed).nodup_allConnections
  refine ⟨trivial, ?_⟩
  by_cases hconn : conn ∈ conns
  · have hloop : LeavesLog others (Prog.forEach (copyToMonitor msg) conns) w₂ fun _ =>
        Copied others msg conn w₂.state := by
      refine Prog.ensures_forEach_one hnodup hconn (fun b _ hb w hw => ?_)
        (fun w hw => copied_copyToMonitor hw) (fun b _ hb w hw => ?_) (Trail.start h₂.log)
      · exact trail_of_only (only_copyToMonitor_other hb) indifferent_never hw
      · cases hw with
        | not hw =>
          exact (trail_of_only (only_copyToMonitor_other hb) indifferent_never hw).mono
            fun _ _ => .not
        | once s₁ looking monitor hw =>
          exact (trail_of_only (only_copyToMonitor_other hb) indifferent_once hw).mono
            fun _ _ => .once s₁ looking monitor
    exact hloop.mono fun _ _ hw => .inr ⟨w₂.state, h₂.came, hperm.mem_iff.mp hconn, hw⟩
  · refine (Prog.ensures_forEach (fun b hb w hw => ?_) h₂).mono fun _ _ => .inl
    have hother : b ≠ conn := fun hbc => hconn (hbc ▸ hb)
    exact trail_of_only (only_copyToMonitor_other hother) indifferent_never hw

/-! ## The dispatch -/

/-- The call of Hello finds its way to no connection. -/
theorem not_findsWay_of_isHelloCall (h : isHelloCall msg = true) :
    ¬ FindsWay others bus sender msg conn s s' := by
  have hcall := messageType_of_isHelloCall h
  intro hway
  cases hway with
  | signal dest s₁ htype =>
    rw [hcall] at htype
    cases htype
  | reply dest s₁ htype =>
    rw [hcall] at htype
    rcases htype with htype | htype <;> cases htype
  | call dest owner dstConn s₁ s₂ s₃ htype hdest hbus =>
    rw [destination_of_isHelloCall h] at hdest
    exact hbus (Option.some.inj hdest).symm

/-- **Without a message for a monitor, nothing reaches the connection twice.** -/
theorem atMostOnce_dispatchStamped (hothers : Tasks others) (hkeyed : s.registry.Keyed)
    (hdriver : ∀ m, DriverBuilt m → m ≠ msg)
    (hno : ∀ s₀ s₁ s₂ s₃, ¬ Doubled others bus sender msg conn s s₀ s₁ s₂ s₃)
    (h : Trail others s (Never (Reaches conn msg)) w) :
    LeavesLog others (dispatchStamped bus sender msg) w fun _ w' =>
      AtMostOnce (Reaches conn msg) w'.log := by
  have hrefuse : ∀ {w : World}, AtMostOnce (Reaches conn msg) w.log →
      LeavesLog others (replyError sender msg Errors.accessDenied
        "Client tried to send a message other than Hello without being registered") w fun _ w' =>
          AtMostOnce (Reaches conn msg) w'.log :=
    fun hw => kept_replyError hdriver _ _ indifferent_atMostOnce hw
  refine Prog.ensures_bind ((copied_deliverToMonitors hothers hkeyed h).mono fun _ w₁ h₁ => ?_)
  intro w₂ isRegistered w₃ h₂ hexec
  refine ⟨trivial, ?_⟩
  rcases h₁ with h₁ | ⟨s₀, listing, connected, h₁ | ⟨s₁, looking, monitor, h₁⟩⟩
  · -- no copy yet, since the connection was not there: whatever comes is the first
    have h₃ := (h₁.amid h₂).read indifferent_never rfl id hexec
    refine Prog.ensures_ite (fun _ => hrefuse (.inl h₃.log)) fun _ => ?_
    exact trail_dispatchByType indifferent_never indifferent_atMostOnce (fun _ => .inl) hdriver
      (fun _ _ _ _ _ he hlog => .inr (hlog.once he)) (fun _ _ _ he hlog => .inr (hlog.once he))
      hothers hkeyed h₃
  · -- no copy yet, since it was no monitor
    have h₃ := (h₁.amid h₂).read indifferent_never rfl id hexec
    refine Prog.ensures_ite (fun _ => hrefuse (.inl h₃.log)) fun _ => ?_
    exact trail_dispatchByType indifferent_never indifferent_atMostOnce (fun _ => .inl) hdriver
      (fun _ _ _ _ _ he hlog => .inr (hlog.once he)) (fun _ _ _ he hlog => .inr (hlog.once he))
      hothers (hothers.keyed listing hkeyed) h₃
  · -- one copy: the message must not find its way to the connection any more
    have h₃ := (h₁.amid h₂).read indifferent_once rfl id hexec
    refine Prog.ensures_ite (fun _ => hrefuse (.inr h₃.log)) fun hpassed => ?_
    have hkeyed₃ : w₃.state.registry.Keyed :=
      hothers.keyed h₃.came (hothers.keyed looking (hothers.keyed listing hkeyed))
    have hmonitor : w₃.state.isMonitor conn = true := hothers.isMonitor h₃.came monitor
    refine (trail_dispatchByType indifferent_once indifferent_once (fun _ => id) hdriver
      (fun s' hway hencodable => ?_) (fun hfalse => ?_) hothers hkeyed₃ (.start h₃.log)).mono
        fun _ _ => .inr
    · by_cases hhello : isHelloCall msg = true
      · exact absurd hway (not_findsWay_of_isHelloCall hhello)
      · have hregistered : w₃.state.isRegistered sender = true := by
          rw [hexec.1.2, ← hexec.1.1]
          simpa [hhello] using hpassed
        exact absurd ⟨listing, connected, looking, monitor, h₃.came, hregistered, hway, hencodable⟩
          (hno s₀ s₁ w₃.state s')
    · cases hmonitor.symm.trans hfalse

/-! ## The run of a message for a monitor -/

/-- The runs of one dispatch on what the tasks share. -/
abbrev RunsTo {α : Type} (others : BusState → BusState → Prop) (s : BusState) (p : BusProg α)
    (es : List (Prog.Event BusOp BusOp.Res BusState)) (t : BusState) (q : BusProg α) : Prop :=
  Prog.Runs BusOp.Exec (ReflTransGen others) s p es t q

theorem runs_of_resolves {found : Option ConnectionEntry} (h : Resolves others dest s s' found) :
    ∃ es, RunsTo others s (Driver.resolveConnection dest) es s' (.ret found) := by
  cases h with
  | unowned h howner => exact ⟨_, .other h (.call ⟨howner.symm, rfl⟩ (.refl _ _))⟩
  | owned h₁ howner h₂ =>
    exact ⟨_, .other h₁ (.call ⟨howner.symm, rfl⟩ (.other h₂ (.call ⟨rfl, rfl⟩ (.refl _ _))))⟩

theorem runs_of_started (h : Started others dest s s') :
    ∃ es, RunsTo others s (Driver.activateAndWait dest) es s' (.ret none) := by
  obtain ⟨t, hspawned, hwaited, howned⟩ := h
  have hpoll : RunsTo others s' (Driver.waitForOwner dest 1)
      [⟨s', .getNameOwner dest, s'.registry.getNameOwner dest, s'⟩] s' (.ret none) := by
    refine .call ⟨rfl, rfl⟩ ?_
    show RunsTo others s' (if _ then return none else _) [] s' _
    rw [if_pos howned]
    exact .refl _ _
  have hcounted : ∃ es, RunsTo others s (Driver.activateAndWait dest) es s' (.ret none) :=
    ⟨_, .call (r := none) rfl (.other hspawned (.call (r := ()) rfl
      (.call (r := 1) rfl (.other hwaited hpoll))))⟩
  exact hcounted

variable (sender) in
/-- The connection of an owner is written the call. -/
theorem runs_deliverToOwner (hget : s₁.registry.get owner = some conn)
    (hreceive : canReceive bus conn msg = true)
    (hpermitted : mediates bus aaDbusReceive conn.securityLabel sender.securityLabel msg = true)
    (hwriting : ReflTransGen others s₁ s') (hencodable : msg.toBytes.isOk = true) :
    ∃ es t, RunsTo others s₁ (deliverToOwner bus sender msg owner) es t (.ret ()) ∧
      ⟨s', .write conn msg, true, s'⟩ ∈ es := by
  have hrecord :
      ∃ es t, RunsTo others s' (op (.record (.routed (routedBytes msg)))) es t (.ret ()) :=
    ⟨_, _, .call (r := ()) rfl (.refl _ _)⟩
  obtain ⟨es, t, hrecord⟩ := hrecord
  have hwrite : RunsTo others s₁ (do
      let written ← op (.write conn msg)
      if written then op (.record (.routed (routedBytes msg)))
      else replyError sender msg Errors.noReply "destination connection is gone")
      (⟨s', .write conn msg, true, s'⟩ :: es) t (.ret ()) :=
    have hexec : BusOp.Exec (.write conn msg) s' true s' := ⟨fun _ => hencodable, rfl⟩
    .other hwriting (.call hexec hrecord)
  refine ⟨⟨s₁, .get owner, some conn, s₁⟩ :: ⟨s', .write conn msg, true, s'⟩ :: es, t,
    .call ⟨hget.symm, rfl⟩ ?_, by simp⟩
  show RunsTo others s₁ (if !canReceive bus conn msg then _ else _) _ _ _
  rw [hreceive, hpermitted]
  exact hwrite

variable (sender) in
theorem runs_of_ownerFound (h : OwnerFound others bus msg dest owner s s') :
    ∃ es, RunsTo others s (do
      match ← op (.getNameOwner dest) with
      | some owner => deliverToOwner bus sender msg owner
      | none => activateAndDeliver bus sender msg dest) es s'
        (deliverToOwner bus sender msg owner) := by
  cases h with
  | atOnce h howner => exact ⟨_, .other h (.call ⟨howner.symm, rfl⟩ (.refl _ _))⟩
  | started s₁ s₂ h hnone hauto hservice hstarted hafter howner =>
    obtain ⟨es, hruns⟩ := runs_of_started hstarted
    have hdeliver : RunsTo others s₁ (activateAndDeliver bus sender msg dest)
        (es ++ [⟨s', .getNameOwner dest, some owner, s'⟩]) s'
        (deliverToOwner bus sender msg owner) := by
      unfold activateAndDeliver
      rw [hauto, hservice]
      exact hruns.bind (.other hafter (.call ⟨howner.symm, rfl⟩ (.refl _ _)))
    exact ⟨_, .other h (.call ⟨hnone.symm, rfl⟩ hdeliver)⟩

/-- **A message that finds its way to a connection is written to it.** -/
theorem runs_of_findsWay (h : FindsWay others bus sender msg conn s s')
    (hencodable : msg.toBytes.isOk = true) :
    ∃ es t, RunsTo others s (dispatchByType bus sender msg) es t (.ret ()) ∧
      ⟨s', .write conn msg, true, s'⟩ ∈ es := by
  unfold dispatchByType
  cases h with
  | signal dest s₁ htype hdest hsend hmediates hresolves hwriting =>
    obtain ⟨es, hruns⟩ := runs_of_resolves hresolves
    rw [htype]
    have hwrite : ∃ es' t, RunsTo others s (dispatchSignal bus sender msg) (es ++ es') t (.ret ()) ∧
        ⟨s', .write conn msg, true, s'⟩ ∈ es' := by
      rw [dispatchSignal_eq hdest hsend hmediates]
      exact ⟨_, _, hruns.bind (.other hwriting (.call (r := true) ⟨fun _ => hencodable, rfl⟩
        (.call (r := ()) rfl (.refl _ _)))), List.mem_cons_self⟩
    obtain ⟨es', t, hruns', hmem⟩ := hwrite
    exact ⟨_, t, hruns', List.mem_append_right _ hmem⟩
  | reply dest s₁ htype hdest hresolves hwriting =>
    obtain ⟨es, hruns⟩ := runs_of_resolves hresolves
    have hwrite : ∃ es' t, RunsTo others s (dispatchReply msg) (es ++ es') t (.ret ()) ∧
        ⟨s', .write conn msg, true, s'⟩ ∈ es' := by
      unfold dispatchReply
      rw [hdest]
      exact ⟨_, _, hruns.bind (.other hwriting (.call (r := true) ⟨fun _ => hencodable, rfl⟩
        (.call (r := ()) rfl (.refl _ _)))), List.mem_cons_self⟩
    obtain ⟨es', t, hruns', hmem⟩ := hwrite
    rcases htype with htype | htype
    · rw [htype]
      exact ⟨_, t, hruns', List.mem_append_right _ hmem⟩
    · rw [htype]
      exact ⟨_, t, hruns', List.mem_append_right _ hmem⟩
  | call dest owner dstConn s₁ s₂ s₃ htype hdest hbus hsend hresolves hmediates howner hgetting hget
      hreceive hpermitted hwriting =>
    obtain ⟨es₁, hruns₁⟩ := runs_of_resolves hresolves
    obtain ⟨es₂, hruns₂⟩ := runs_of_ownerFound sender howner
    obtain ⟨es₃, t, hruns₃, hwrite⟩ :=
      runs_deliverToOwner sender hget hreceive hpermitted hwriting hencodable
    rw [htype]
    refine ⟨es₁ ++ (es₂ ++ es₃), t, ?_, by simp [hwrite]⟩
    show RunsTo others s (dispatchMethodCall bus sender msg) _ _ _
    unfold dispatchMethodCall
    rw [hdest]
    show RunsTo others s (if dest = WellKnown.busName then _ else _) _ _ _
    rw [if_neg hbus, hsend]
    refine hruns₁.bind ?_
    rw [hmediates]
    exact hruns₂.trans (.other hgetting hruns₃)

variable (msg) in
/-- **A monitor is left a copy** when its turn comes. -/
theorem runs_copies {conns : List ConnectionEntry} (hconn : conn ∈ conns)
    (hlooking : ReflTransGen others s s₁) (hmonitor : s₁.isMonitor conn = true) :
    ∃ es, RunsTo others s (Prog.forEach (copyToMonitor msg) conns) es s₁ (.ret ()) ∧
      ⟨s₁, .spawnWrite conn msg, (), s₁⟩ ∈ es := by
  induction conns with
  | nil => exact absurd hconn List.not_mem_nil
  | cons b conns ih =>
    by_cases hb : b = conn
    · subst hb
      obtain ⟨es, _, hrest⟩ : ∃ es a, RunsTo others s₁ (Prog.forEach (copyToMonitor msg) conns) es
          s₁ (.ret a) :=
        (Prog.only_forEach fun c _ => passive_copyToMonitor c).runs fun o ho => ho.1 s₁
      refine ⟨[⟨s₁, .isMonitor b, true, s₁⟩, ⟨s₁, .spawnWrite b msg, (), s₁⟩] ++ es, ?_, by simp⟩
      have hspawn : RunsTo others s₁ (op (.spawnWrite b msg)) [⟨s₁, .spawnWrite b msg, (), s₁⟩] s₁
          (.ret ()) := .call rfl (.refl _ _)
      exact Prog.Runs.bind (.other hlooking (.call ⟨hmonitor.symm, rfl⟩ hspawn)) hrest
    · obtain ⟨es, hruns, hspawn⟩ := ih ((List.mem_cons.mp hconn).resolve_left fun h => hb h.symm)
      obtain ⟨es', _, hfirst⟩ : ∃ es a, RunsTo others s (copyToMonitor msg b) es s (.ret a) :=
        (passive_copyToMonitor b).runs fun o ho => ho.1 s
      exact ⟨es' ++ es, hfirst.bind hruns, List.mem_append_right _ hspawn⟩

end Dispatch

/-- A message for a monitor is a duplicate in one of the runs. -/
theorem Doubled.not_noDuplicate
    (h : Doubled others bus sender (msg.setSender sender.uniqueName) conn s s₀ s₁ s₂ s₃) :
    ¬ NoDuplicate others bus sender msg s := by
  intro hno
  obtain ⟨copies, hcopies, hspawn⟩ := Dispatch.runs_copies (msg.setSender sender.uniqueName)
    h.connected h.looking h.monitor
  obtain ⟨es, t, hway, hwrite⟩ := Dispatch.runs_of_findsWay h.way h.encodable
  have hdeliver : Dispatch.RunsTo others s
      (Dispatch.deliverToMonitors (msg.setSender sender.uniqueName))
      (⟨s₀, .allConnections, s₀.registry.allConnections, s₀⟩ :: copies) s₁ (.ret ()) :=
    .other h.listing (.call ⟨.refl _, rfl⟩ hcopies)
  have hruns : Dispatch.RunsTo others s (Dispatch.dispatchIncoming bus sender msg)
      (⟨s₀, .allConnections, s₀.registry.allConnections, s₀⟩ :: copies ++
        ⟨s₂, .isRegistered sender, true, s₂⟩ :: es) t (.ret ()) :=
    hdeliver.bind (.other h.registering (.call ⟨h.registered.symm, rfl⟩ hway))
  have hlog := hno _ conn (Dispatched.of_runs hruns)
  refine not_atMostOnce (.inl ⟨s₃, rfl⟩) (.inr ⟨s₁, (), rfl⟩) ?_ hlog
  -- the later event stands first in the log
  rw [List.map_append, List.reverse_append, List.map_cons, List.reverse_cons]
  have hlater := List.mem_append_left [Prog.Event.logged ⟨s₂, .isRegistered sender, true, s₂⟩]
    (List.mem_reverse.mpr (List.mem_map_of_mem (f := Prog.Event.logged) hwrite))
  have hearlier := List.mem_reverse.mpr (List.mem_map_of_mem (f := Prog.Event.logged)
    (List.mem_cons_of_mem ⟨s₀, .allConnections, s₀.registry.allConnections, s₀⟩ hspawn))
  exact (List.singleton_sublist.mpr hlater).append (List.singleton_sublist.mpr hearlier)

/-- **No connection is written a message twice but a monitor**: for every state and
message, and whatever the other tasks do, no dispatch of the message brings
a connection two copies if and only if the message finds its way to no
connection that has been found to be a monitor before. -/
theorem noDuplicate_iff (others : BusState → BusState → Prop) (hothers : Tasks others) (bus : Bus)
    (sender : ConnectionEntry) (msg : Message) (s : BusState) (hkeyed : s.registry.Keyed) :
    NoDuplicate others bus sender msg s ↔ ∀ conn s₀ s₁ s₂ s₃,
      ¬ Doubled others bus sender (msg.setSender sender.uniqueName) conn s s₀ s₁ s₂ s₃ := by
  refine ⟨fun h conn s₀ s₁ s₂ s₃ hdoubled => hdoubled.not_noDuplicate h, fun hno => ?_⟩
  intro w conn h
  refine h.post (Dispatch.atMostOnce_dispatchStamped hothers hkeyed (fun m hm => hm.ne_setSender)
    (hno conn) ⟨.refl, never_nil⟩) ?_
  intro w w' hamid honce
  rw [hamid.2]
  exact honce

/-- Without a monitor there is no duplicate. -/
theorem noDuplicate_twoConnected :
    NoDuplicate (fun _ _ => False) plainBus (peerConnection 1) directedSignal twoConnected := by
  refine (noDuplicate_iff (fun _ _ => False) nofun plainBus (peerConnection 1) directedSignal
    twoConnected ((Registry.keyed_new.addConnection _).addConnection _)).mpr ?_
  intro conn s₀ s₁ s₂ s₃ h
  have hstill : ∀ {s s' : BusState}, ReflTransGen (fun _ _ => False) s s' → s' = s := by
    intro s s' hs
    induction hs with
    | refl => rfl
    | tail _ hstep => exact hstep.elim
  have hmonitor := h.monitor
  rw [hstill h.looking, hstill h.listing] at hmonitor
  cases hmonitor

/-! ## A signal for a monitor -/

/-- Two connections, the second of which is a monitor. -/
def oneMonitor : BusState := { twoConnected with cells := fun id => ⟨id == 2, true, []⟩ }

/-- **The monitor gets the signal twice**, as a monitor and as the owner of the
destination. -/
theorem monitor_written_twice : ¬ ∀ (bus : Bus) (sender : ConnectionEntry) (msg : Message)
    (s : BusState), s.registry.Keyed → NoDuplicate (fun _ _ => False) bus sender msg s := by
  intro h
  have hget : oneMonitor.registry.get ":1.2" = some (peerConnection 2) := by decide +kernel
  have hresolves : Resolves (fun _ _ => False) ":1.2" oneMonitor oneMonitor
      (some (peerConnection 2)) := by
    rw [← hget]
    exact .owned .refl (by decide +kernel) .refl
  have hdoubled : Doubled (fun _ _ => False) plainBus (peerConnection 1)
      (directedSignal.setSender (peerConnection 1).uniqueName) (peerConnection 2) oneMonitor
      oneMonitor oneMonitor oneMonitor oneMonitor := by
    constructor
    case listing => exact .refl
    case looking => exact .refl
    case registering => exact .refl
    case way => exact .signal ":1.2" oneMonitor rfl (by decide +kernel) rfl rfl hresolves .refl
    all_goals decide +kernel
  exact hdoubled.not_noDuplicate
    (h plainBus (peerConnection 1) directedSignal oneMonitor
      ((Registry.keyed_new.addConnection _).addConnection _))

end Oxibus
