import Oxibus.Daemon.Delivery
import Oxibus.Daemon.Dispatched

/-!
# Who receives a signal

A signal without a destination goes through two loops over the connections.
The first leaves a copy to every monitor, the second writes the signal to
every other connection that has a rule for it and may receive it. That the
two together reach each recipient once, and nobody else, is a statement about
a bus on which nobody joins, leaves, takes a name or changes its rules in the
meantime: whoever does may be reached or missed.

Each loop is seen from one connection. The turns of the others carry nothing
to it, and its own turn comes once.
-/

namespace Oxibus

open BusProg Relation

/-! ## Recipients -/

/-- The message is carried to a connection: handed to its writer, by the dispatch or by
a task it leaves a copy to. -/
def CarriedTo (conn : ConnectionEntry) (msg : Message) (e : BusEvent) : Prop :=
  e.op.Carries conn msg

/-- **A connection that asks for a message and may have it**: it is no monitor, a
rule of its matches, with the names of senders resolved by who owns them, and
the policy lets it receive the message. -/
structure Subscriber (bus : Bus) (s : BusState) (msg : Message) (conn : ConnectionEntry) :
    Prop where
  noMonitor : s.isMonitor conn = false
  asks : ∃ rule ∈ s.matchRules conn, rule.matches msg s.registry.getNameOwner = true
  canReceive : bus.policy.canReceive (bus.identity conn) msg msg.sender = true

/-- **The recipients of a signal without a destination**: the connected monitors and
the connected subscribers. -/
structure Recipient (bus : Bus) (s : BusState) (msg : Message) (conn : ConnectionEntry) :
    Prop where
  connected : conn ∈ s.registry.allConnections
  entitled : s.isMonitor conn = true ∨ Subscriber bus s msg conn

/-! ## A bus on which nothing changes -/

/-- The registry and the connections are the same. -/
structure BusState.Alike (s s' : BusState) : Prop where
  registry : s'.registry = s.registry
  cells : s'.cells = s.cells

/-- The other tasks leave the registry and the connections as they are. -/
def Steady (others : BusState → BusState → Prop) : Prop := ∀ s s', others s s' → s.Alike s'

variable {others : BusState → BusState → Prop} {bus : Bus} {sender conn c : ConnectionEntry}
variable {msg : Message} {s s' s'' : BusState} {w w' : World} {o : BusOp} {r : o.Res}
variable {Q Q' : List BusEvent → Prop}

namespace BusState.Alike

theorem refl (s : BusState) : s.Alike s := ⟨rfl, rfl⟩

theorem trans (h : s.Alike s') (h' : s'.Alike s'') : s.Alike s'' :=
  ⟨h'.registry.trans h.registry, h'.cells.trans h.cells⟩

theorem isMonitor (h : s.Alike s') (c : ConnectionEntry) : s'.isMonitor c = s.isMonitor c := by
  unfold BusState.isMonitor
  rw [h.cells]

theorem isRegistered (h : s.Alike s') (c : ConnectionEntry) :
    s'.isRegistered c = s.isRegistered c := by
  unfold BusState.isRegistered
  rw [h.cells]

theorem matchRules (h : s.Alike s') (c : ConnectionEntry) : s'.matchRules c = s.matchRules c := by
  unfold BusState.matchRules
  rw [h.cells]

theorem of_reflTransGen (hsteady : Steady others) (h : ReflTransGen others s s') : s.Alike s' := by
  induction h with
  | refl => exact .refl s
  | tail _ hstep ih => exact ih.trans (hsteady _ _ hstep)

end BusState.Alike

/-- **How far a dispatch has come, for one connection**: the state is the one it has
found, and the log is as it should be. -/
structure Stage (s : BusState) (Q : List BusEvent → Prop) (w : World) : Prop where
  alike : s.Alike w.state
  log : Q w.log

theorem Stage.amid (hsteady : Steady others) (h : Stage s Q w) (hamid : w.Amid others w') :
    Stage s Q w' := by
  refine ⟨h.alike.trans (.of_reflTransGen hsteady hamid.1), ?_⟩
  rw [hamid.2]
  exact h.log

/-- An operation that only reads. -/
theorem Stage.read (hQ : Indifferent (CarriedTo conn msg) Q) (h : Stage s Q w)
    (ho : o.isUpdate = false)
    (hcarries : ¬ o.Carries conn msg) (hexec : World.Exec o w r w') : Stage s Q w' := by
  refine ⟨?_, ?_⟩
  · rw [hexec.1.eq_of_not_isUpdate ho]
    exact h.alike
  · rw [hexec.2]
    exact hQ _ _ hcarries h.log

/-- An operation that counts. -/
theorem Stage.record {what : Count} {r : Unit} (hQ : Indifferent (CarriedTo conn msg) Q)
    (h : Stage s Q w)
    (hexec : World.Exec (.record what) w r w') : Stage s Q w' := by
  refine ⟨⟨?_, ?_⟩, ?_⟩
  · rw [hexec.1]
    exact h.alike.registry
  · rw [hexec.1]
    exact h.alike.cells
  · rw [hexec.2]
    exact hQ _ _ id h.log

/-! ## Loops over the connections -/

namespace Dispatch

/-- **A loop over the connections in which one is carried a copy**: in its turn, and in
no other. -/
theorem stage_forEach_one {body : ConnectionEntry → BusProg Unit} (hsteady : Steady others)
    (hkeyed : s.registry.Keyed) (hconn : conn ∈ s.registry.allConnections)
    (hother : ∀ c, c ≠ conn → ∀ Q, Indifferent (CarriedTo conn msg) Q → ∀ w, Stage s Q w →
      LeavesLog others (body c) w fun _ => Stage s Q)
    (hturn : ∀ w, Stage s (Never (CarriedTo conn msg)) w →
      LeavesLog others (body conn) w fun _ => Stage s (Once (CarriedTo conn msg)))
    (h : Stage s (Never (CarriedTo conn msg)) w) :
    LeavesLog others (op .allConnections >>= Prog.forEach body) w fun _ =>
      Stage s (Once (CarriedTo conn msg)) := by
  intro w₁ conns w₂ h₁ hexec
  have hstage := (h.amid hsteady h₁).read indifferent_never rfl id hexec
  have hperm : conns.Perm s.registry.allConnections := by
    have hperm := hexec.1.1
    rwa [(h.amid hsteady h₁).alike.registry] at hperm
  refine ⟨trivial, Prog.ensures_forEach_one (hperm.nodup_iff.mpr hkeyed.nodup_allConnections)
    (hperm.mem_iff.mpr hconn) (fun c _ hc w hw => ?_) hturn (fun c _ hc w hw => ?_) hstage⟩
  · exact hother c hc _ indifferent_never w hw
  · exact hother c hc _ indifferent_once w hw

/-- **A loop over the connections in which one is carried nothing.** -/
theorem stage_forEach {body : ConnectionEntry → BusProg Unit} (hsteady : Steady others)
    (hQ : Indifferent (CarriedTo conn msg) Q)
    (hturn : ∀ c ∈ s.registry.allConnections, ∀ w, Stage s Q w →
      LeavesLog others (body c) w fun _ => Stage s Q)
    (h : Stage s Q w) :
    LeavesLog others (op .allConnections >>= Prog.forEach body) w fun _ => Stage s Q := by
  intro w₁ conns w₂ h₁ hexec
  have hstage := (h.amid hsteady h₁).read hQ rfl id hexec
  have hperm := hexec.1.1
  rw [(h.amid hsteady h₁).alike.registry] at hperm
  exact ⟨trivial, Prog.ensures_forEach (fun c hc => hturn c (hperm.mem_iff.mp hc)) hstage⟩

/-! ## The loop over the monitors -/

/-- **One turn**: a monitor is carried a copy, and nobody else. -/
theorem stage_copyToMonitor (hsteady : Steady others)
    (hQ : Indifferent (CarriedTo conn msg) Q) (h : Stage s Q w)
    (hcopy : c = conn → s.isMonitor conn = true → ∀ e log, CarriedTo conn msg e → Q log →
      Q' (e :: log))
    (hskip : ¬ (c = conn ∧ s.isMonitor conn = true) → ∀ log, Q log → Q' log) :
    LeavesLog others (copyToMonitor msg c) w fun _ => Stage s Q' := by
  intro w₁ isMonitor w₂ h₁ hexec
  have hstage := h.amid hsteady h₁
  have hmonitor : isMonitor = s.isMonitor c := hexec.1.1.trans (hstage.alike.isMonitor c)
  have hstage₂ := hstage.read hQ rfl id hexec
  refine ⟨trivial, Prog.ensures_ite (fun htrue => ?_) fun hfalse => ?_⟩
  · intro w₃ r w₄ h₃ hspawn
    have hstage₃ := hstage₂.amid hsteady h₃
    have hsame : w₄.state = w₃.state := hspawn.1
    refine ⟨trivial, ⟨?_, ?_⟩⟩
    · rw [hsame]
      exact hstage₃.alike
    · show Q' w₄.log
      rw [hspawn.2]
      by_cases hc : c = conn
      · subst hc
        exact hcopy rfl (hmonitor ▸ htrue) _ _ ⟨rfl, rfl⟩ hstage₃.log
      · refine hskip (fun h => hc h.1) _ (hQ _ _ (fun h => hc h.1) hstage₃.log)
  · refine ⟨hstage₂.alike, hskip (fun h => hfalse ?_) _ hstage₂.log⟩
    rw [hmonitor, h.1]
    exact h.2

/-- The turn of another connection, or of one that is no monitor. -/
theorem stage_copyToMonitor_other (hsteady : Steady others)
    (hQ : Indifferent (CarriedTo conn msg) Q)
    (hother : c = conn → s.isMonitor conn = false) (h : Stage s Q w) :
    LeavesLog others (copyToMonitor msg c) w fun _ => Stage s Q := by
  refine stage_copyToMonitor hsteady hQ h (fun hc htrue => ?_) fun _ _ => id
  cases htrue.symm.trans (hother hc)

/-- The loop leaves a copy to a connection that is a monitor. -/
theorem stage_deliverToMonitors (hsteady : Steady others) (hkeyed : s.registry.Keyed)
    (hconn : conn ∈ s.registry.allConnections) (hmonitor : s.isMonitor conn = true)
    (h : Stage s (Never (CarriedTo conn msg)) w) :
    LeavesLog others (deliverToMonitors msg) w fun _ => Stage s (Once (CarriedTo conn msg)) := by
  refine stage_forEach_one hsteady hkeyed hconn (fun c hc Q hQ w hw => ?_) (fun w hw => ?_) h
  · exact stage_copyToMonitor_other hsteady hQ (fun heq => absurd heq hc) hw
  · exact stage_copyToMonitor hsteady indifferent_never hw (fun _ _ _ _ he hlog => hlog.once he)
      fun hnot => absurd ⟨rfl, hmonitor⟩ hnot

/-- It carries nothing to others. -/
theorem stage_deliverToMonitors_other (hsteady : Steady others)
    (hQ : Indifferent (CarriedTo conn msg) Q)
    (hother : conn ∈ s.registry.allConnections → s.isMonitor conn = false) (h : Stage s Q w) :
    LeavesLog others (deliverToMonitors msg) w fun _ => Stage s Q := by
  refine stage_forEach hsteady hQ (fun c hc w hw => ?_) h
  exact stage_copyToMonitor_other hsteady hQ (fun heq => hother (heq ▸ hc)) hw

/-! ## The loop over the subscribers -/

/-- The rules are tried in turn until one matches. -/
theorem stage_anyMatches (hsteady : Steady others) (hQ : Indifferent (CarriedTo conn msg) Q)
    (rules : List MatchRule) (h : Stage s Q w) :
    LeavesLog others (anyMatches msg rules) w fun matched w' =>
      matched = rules.any (fun rule => rule.matches msg s.registry.getNameOwner) ∧
        Stage s Q w' := by
  induction rules generalizing w with
  | nil => exact ⟨rfl, h⟩
  | cons rule rules ih =>
    intro w₁ owner w₂ h₁ hexec
    have hstage := h.amid hsteady h₁
    have howner : owner = s.registry.getNameOwner := by
      rw [hexec.1.1, hstage.alike.registry]
    have hstage₂ := hstage.read hQ rfl id hexec
    refine ⟨trivial, ?_⟩
    rw [howner, List.any_cons]
    refine Prog.ensures_ite (fun hmatches => ⟨?_, hstage₂⟩) fun hno => ?_
    · rw [hmatches]
      rfl
    · rw [Bool.not_eq_true] at hno
      rw [hno, Bool.false_or]
      exact ih hstage₂

/-- The label of the sender is looked up, whatever it is. -/
theorem stage_senderLabel (hsteady : Steady others) (hQ : Indifferent (CarriedTo conn msg) Q)
    (h : Stage s Q w) :
    LeavesLog others (senderLabel msg) w fun _ => Stage s Q := by
  unfold senderLabel
  split
  · intro w₁ found w₂ h₁ hexec
    exact ⟨trivial, (h.amid hsteady h₁).read hQ rfl id hexec⟩
  · exact h

/-- The message is written to a connection, and counted. -/
theorem stage_broadcastWrite (hsteady : Steady others) (hQ : Indifferent (CarriedTo conn msg) Q)
    (hQ' : Indifferent (CarriedTo conn msg) Q') (h : Stage s Q w)
    (hwrite : c = conn → ∀ e log, CarriedTo conn msg e → Q log → Q' (e :: log))
    (hskip : c ≠ conn → ∀ log, Q log → Q' log) :
    LeavesLog others (broadcastWrite msg c) w fun _ => Stage s Q' := by
  intro w₁ arrived w₂ h₁ hexec
  have hstage := h.amid hsteady h₁
  have hstage₂ : Stage s Q' w₂ := by
    refine ⟨?_, ?_⟩
    · rw [hexec.1.2]
      exact hstage.alike
    rw [hexec.2]
    by_cases hc : c = conn
    · subst hc
      exact hwrite rfl _ _ ⟨rfl, rfl⟩ hstage.log
    · exact hskip hc _ (hQ _ _ (fun h => hc h.1) hstage.log)
  exact ⟨trivial, fun w₃ r w₄ h₃ hrecord =>
    ⟨trivial, (hstage₂.amid hsteady h₃).record hQ' hrecord⟩⟩

/-- **One turn**: a subscriber is written the message, and nobody else. -/
theorem stage_broadcastTo (hsteady : Steady others) (hoff : bus.apparmor.isEnabled = false)
    (hQ : Indifferent (CarriedTo conn msg) Q) (hQ' : Indifferent (CarriedTo conn msg) Q')
    (h : Stage s Q w)
    (hwrite : c = conn → Subscriber bus s msg conn → ∀ e log, CarriedTo conn msg e → Q log →
      Q' (e :: log))
    (hskip : ¬ (c = conn ∧ Subscriber bus s msg conn) → ∀ log, Q log → Q' log) :
    LeavesLog others (broadcastTo bus msg true c) w fun _ => Stage s Q' := by
  have hskip' : ¬ (c = conn ∧ Subscriber bus s msg conn) → ∀ {w}, Stage s Q w → Stage s Q' w :=
    fun hnot w hw => ⟨hw.alike, hskip hnot _ hw.log⟩
  intro w₁ isMonitor w₂ h₁ hexec
  have hmonitor : isMonitor = s.isMonitor c :=
    hexec.1.1.trans ((h.amid hsteady h₁).alike.isMonitor c)
  have h₂ := (h.amid hsteady h₁).read hQ rfl id hexec
  refine ⟨trivial, Prog.ensures_ite (fun htrue => hskip' (fun hsub => ?_) h₂) fun hfalse => ?_⟩
  · rw [hmonitor, hsub.1, hsub.2.noMonitor] at htrue
    cases htrue
  intro w₃ rules w₄ h₃ hexec₃
  have hrules : rules = s.matchRules c :=
    hexec₃.1.1.trans ((h₂.amid hsteady h₃).alike.matchRules c)
  have h₄ := (h₂.amid hsteady h₃).read hQ rfl id hexec₃
  refine ⟨trivial, ?_⟩
  show LeavesLog others (anyMatches msg rules >>= fun _ => _) w₄ _
  refine Prog.ensures_bind ((stage_anyMatches hsteady hQ rules h₄).mono ?_)
  rintro matched w₅ ⟨hmatched, h₅⟩
  refine Prog.ensures_ite (fun hno => hskip' (fun hsub => ?_) h₅) fun hyes => ?_
  · obtain ⟨rule, hrule, hmatches⟩ := hsub.2.asks
    have hany : matched = true := by
      rw [hmatched, hrules, hsub.1]
      exact List.any_eq_true.mpr ⟨rule, hrule, hmatches⟩
    rw [hany] at hno
    cases hno
  show LeavesLog others (if !canReceive bus c msg then return () else _) w₅ _
  refine Prog.ensures_ite (fun hno => hskip' (fun hsub => ?_) h₅) fun hreceive => ?_
  · have hreceive : canReceive bus c msg = true := by
      rw [hsub.1]
      exact hsub.2.canReceive
    rw [hreceive] at hno
    cases hno
  refine Prog.ensures_bind ((stage_senderLabel hsteady hQ h₅).mono fun label w₆ h₆ => ?_)
  have hmediates : mediates bus aaDbusReceive c.securityLabel label msg = true := by
    unfold mediates AppArmor.checkPermission
    rw [hoff]
    rfl
  rw [hmediates]
  refine stage_broadcastWrite hsteady hQ hQ' h₆ (fun hc => ?_) fun hc => hskip fun h => hc h.1
  -- the turn of the connection itself: all that makes a subscriber has been asked
  subst hc
  have hreceive : canReceive bus c msg = true := by simpa using hreceive
  refine hwrite rfl ⟨?_, ?_, hreceive⟩
  · rwa [hmonitor, Bool.not_eq_true] at hfalse
  · rw [hmatched, hrules] at hyes
    simpa using hyes

/-- The turn of another connection, or of one that is no subscriber. -/
theorem stage_broadcastTo_other (hsteady : Steady others) (hoff : bus.apparmor.isEnabled = false)
    (hQ : Indifferent (CarriedTo conn msg) Q) (hother : c = conn → ¬ Subscriber bus s msg conn)
    (h : Stage s Q w) :
    LeavesLog others (broadcastTo bus msg true c) w fun _ => Stage s Q :=
  stage_broadcastTo hsteady hoff hQ hQ h (fun hc hsub => absurd hsub (hother hc)) fun _ _ => id

/-- The loop writes the message to a subscriber. -/
theorem stage_broadcastSignal (hsteady : Steady others) (hoff : bus.apparmor.isEnabled = false)
    (hkeyed : s.registry.Keyed) (hconn : conn ∈ s.registry.allConnections)
    (hsub : Subscriber bus s msg conn) (h : Stage s (Never (CarriedTo conn msg)) w) :
    LeavesLog others (broadcastSignal bus msg true) w fun _ =>
      Stage s (Once (CarriedTo conn msg)) := by
  refine stage_forEach_one hsteady hkeyed hconn (fun c hc Q hQ w hw => ?_) (fun w hw => ?_) h
  · exact stage_broadcastTo_other hsteady hoff hQ (fun heq => absurd heq hc) hw
  · exact stage_broadcastTo hsteady hoff indifferent_never indifferent_once hw
      (fun _ _ _ _ he hlog => hlog.once he) fun hnot => absurd ⟨rfl, hsub⟩ hnot

/-- It writes nothing to others. -/
theorem stage_broadcastSignal_other (hsteady : Steady others)
    (hoff : bus.apparmor.isEnabled = false) (hQ : Indifferent (CarriedTo conn msg) Q)
    (hother : conn ∈ s.registry.allConnections → ¬ Subscriber bus s msg conn) (h : Stage s Q w) :
    LeavesLog others (broadcastSignal bus msg true) w fun _ => Stage s Q := by
  refine stage_forEach hsteady hQ (fun c hc w hw => ?_) h
  exact stage_broadcastTo_other hsteady hoff hQ (fun heq => hother (heq ▸ hc)) hw

/-! ## Both loops -/

/-- A signal without a destination that may be sent is broadcast. -/
theorem dispatchSignal_broadcast (hoff : bus.apparmor.isEnabled = false)
    (hdest : msg.destination = none) (hsend : canSend bus sender msg = true) :
    dispatchSignal bus sender msg = broadcastSignal bus msg true := by
  have hmediates : mediates bus aaDbusSend sender.securityLabel none msg = true := by
    unfold mediates AppArmor.checkPermission
    rw [hoff]
    rfl
  unfold dispatchSignal
  rw [hsend, hmediates, hdest]
  rfl

/-- The dispatch is the one loop and then the other. -/
theorem stage_dispatchStamped {Q₁ Q₂ Q₃ : List BusEvent → Prop} (hsteady : Steady others)
    (hoff : bus.apparmor.isEnabled = false) (htype : msg.messageType = .signal)
    (hdest : msg.destination = none) (hreg : s.isRegistered sender = true)
    (hsend : canSend bus sender msg = true) (hQ₂ : Indifferent (CarriedTo conn msg) Q₂)
    (hmonitors : ∀ w, Stage s Q₁ w →
      LeavesLog others (deliverToMonitors msg) w fun _ => Stage s Q₂)
    (hsubscribers : ∀ w, Stage s Q₂ w →
      LeavesLog others (broadcastSignal bus msg true) w fun _ => Stage s Q₃)
    (h : Stage s Q₁ w) :
    LeavesLog others (dispatchStamped bus sender msg) w fun _ => Stage s Q₃ := by
  refine Prog.ensures_bind ((hmonitors w h).mono fun _ w₁ h₁ => ?_)
  intro w₂ isRegistered w₃ h₂ hexec
  have hstage := h₁.amid hsteady h₂
  have htrue : isRegistered = true := by
    rw [hexec.1.1, hstage.alike.isRegistered, hreg]
  have hstage₃ := hstage.read hQ₂ rfl id hexec
  refine ⟨trivial, ?_⟩
  rw [htrue]
  show LeavesLog others (dispatchByType bus sender msg) w₃ _
  unfold dispatchByType
  rw [htype]
  show LeavesLog others (dispatchSignal bus sender msg) w₃ _
  rw [dispatchSignal_broadcast hoff hdest hsend]
  exact hsubscribers w₃ hstage₃

end Dispatch

/-- **The broadcast of a signal is exact**: in every state, a signal without a
destination that its registered sender may send is handed once to the writer
of every recipient, and never to anyone else's. -/
theorem broadcast_exact (others : BusState → BusState → Prop) (hsteady : Steady others) (bus : Bus)
    (hoff : bus.apparmor.isEnabled = false) (sender : ConnectionEntry) (msg : Message)
    (s : BusState) (w : World) (hkeyed : s.registry.Keyed) (htype : msg.messageType = .signal)
    (hdest : msg.destination = none) (hreg : s.isRegistered sender = true)
    (hsend : Dispatch.canSend bus sender (msg.setSender sender.uniqueName) = true)
    (h : Dispatched others bus sender msg s w) (conn : ConnectionEntry) :
    (Recipient bus s (msg.setSender sender.uniqueName) conn →
      Once (CarriedTo conn (msg.setSender sender.uniqueName)) w.log) ∧
    (¬ Recipient bus s (msg.setSender sender.uniqueName) conn →
      Never (CarriedTo conn (msg.setSender sender.uniqueName)) w.log) := by
  have hdest' : (msg.setSender sender.uniqueName).destination = none := by
    rw [Message.destination_setSender]
    exact hdest
  have hstart : Stage s (Never (CarriedTo conn (msg.setSender sender.uniqueName))) ⟨s, []⟩ :=
    ⟨.refl s, never_nil⟩
  -- what the two loops do is what the dispatch does
  have hleaves : ∀ {Q₂ Q₃ : List BusEvent → Prop},
      Indifferent (CarriedTo conn (msg.setSender sender.uniqueName)) Q₂ →
      (∀ w, Stage s (Never (CarriedTo conn (msg.setSender sender.uniqueName))) w →
        LeavesLog others (Dispatch.deliverToMonitors (msg.setSender sender.uniqueName)) w
          fun _ => Stage s Q₂) →
      (∀ w, Stage s Q₂ w →
        LeavesLog others (Dispatch.broadcastSignal bus (msg.setSender sender.uniqueName) true) w
          fun _ => Stage s Q₃) → Stage s Q₃ w := fun hQ₂ hmonitors hsubscribers =>
    h.post (Dispatch.stage_dispatchStamped hsteady hoff htype hdest' hreg hsend hQ₂ hmonitors
      hsubscribers hstart) fun _ _ hamid hstage => hstage.amid hsteady hamid
  refine ⟨fun hrecipient => ?_, fun hno => ?_⟩
  · obtain ⟨hconn, hmonitor | hsub⟩ := hrecipient
    · refine (hleaves indifferent_once
        (fun _ => Dispatch.stage_deliverToMonitors hsteady hkeyed hconn
        hmonitor) fun _ => ?_).log
      refine Dispatch.stage_broadcastSignal_other hsteady hoff indifferent_once fun _ hsub => ?_
      cases hmonitor.symm.trans hsub.noMonitor
    · refine (hleaves indifferent_never (fun _ => ?_) fun _ =>
        Dispatch.stage_broadcastSignal hsteady hoff hkeyed hconn hsub).log
      exact Dispatch.stage_deliverToMonitors_other hsteady indifferent_never fun _ => hsub.noMonitor
  · refine (hleaves indifferent_never (fun _ => ?_) fun _ => ?_).log
    · refine Dispatch.stage_deliverToMonitors_other hsteady indifferent_never fun hconn => ?_
      rw [← Bool.not_eq_true]
      exact fun hmonitor => hno ⟨hconn, .inl hmonitor⟩
    · exact Dispatch.stage_broadcastSignal_other hsteady hoff indifferent_never
        fun hconn hsub => hno ⟨hconn, .inr hsub⟩

/-- Two connections, the second with two rules that match everything. -/
def twoRules : BusState :=
  { twoConnected with cells := fun id =>
      ⟨false, true, if id = 2 then [MatchRule.empty "", MatchRule.empty ""] else []⟩ }

/-- A signal to everyone. -/
def openSignal : Message := (Message.Builder.signal ⟨"/a"⟩ "a.b" "C").build 7

/-- The second connection is carried the signal once, and the first is not. -/
theorem broadcast_exact_twoRules :
    Once (CarriedTo (peerConnection 2) (openSignal.setSender (peerConnection 1).uniqueName))
      (playDispatch plainBus (peerConnection 1) openSignal twoRules).log ∧
    Never (CarriedTo (peerConnection 1) (openSignal.setSender (peerConnection 1).uniqueName))
      (playDispatch plainBus (peerConnection 1) openSignal twoRules).log := by
  have hexact := broadcast_exact (fun _ _ => False) nofun plainBus rfl (peerConnection 1) openSignal
    twoRules _ ((Registry.keyed_new.addConnection _).addConnection _)
    rfl rfl rfl rfl dispatched_play
  refine ⟨(hexact (peerConnection 2)).1 ⟨by decide +kernel, .inr ⟨rfl, ?_, rfl⟩⟩,
    (hexact (peerConnection 1)).2 fun h => ?_⟩
  · exact ⟨MatchRule.empty "", List.mem_cons_self, by decide +kernel⟩
  · rcases h.entitled with hmonitor | hsub
    · cases hmonitor
    · obtain ⟨rule, hrule, -⟩ := hsub.asks
      exact absurd hrule List.not_mem_nil

/-! ## A signal that nobody is written -/

/-- The message is written to a connection and arrives, or is left to a task that
writes it. -/
def ArrivesAt (conn : ConnectionEntry) (msg : Message) (e : BusEvent) : Prop :=
  (∃ s, e = ⟨s, .write conn msg, true⟩) ∨ ∃ s, e = ⟨s, .spawnWrite conn msg, ()⟩

/-- Whether an event is a write that arrives or is left to a task. -/
def BusEvent.isArrival (e : BusEvent) : Bool :=
  match e with
  | ⟨_, .write _ _, arrived⟩ => arrived
  | ⟨_, .spawnWrite _ _, _⟩ => true
  | _ => false

theorem ArrivesAt.isArrival {e : BusEvent} (h : ArrivesAt conn msg e) : e.isArrival = true := by
  rcases h with ⟨s, rfl⟩ | ⟨s, rfl⟩
  · rfl
  · rfl

/-- The frame of a signal without a MEMBER. It decodes, and is not one to be encoded. -/
def memberlessFrame : List UInt8 :=
  [108, 4, 0, 1, 0, 0, 0, 0, 7, 0, 0, 0, 28, 0, 0, 0,
   1, 1, 111, 0, 2, 0, 0, 0, 47, 97, 0, 0, 0, 0, 0, 0,
   2, 1, 115, 0, 3, 0, 0, 0, 97, 46, 98, 0, 0, 0, 0, 0]

/-- The signal. -/
def memberlessSignal : Message :=
  ⟨⟨false, .signal, 0, 1, 0, 7, [.path ⟨"/a"⟩, .interface "a.b"]⟩, [], []⟩

theorem fromBytes_memberlessFrame :
    Message.fromBytes memberlessFrame [] = .ok memberlessSignal := by
  rfl

/-- **Nothing arrives of a signal that cannot be encoded**, though the second connection asks
for it and may have it. -/
theorem broadcast_lost : ¬ ∀ (bus : Bus) (sender : ConnectionEntry) (msg : Message)
    (s : BusState) (w : World) (conn : ConnectionEntry), bus.apparmor.isEnabled = false →
    s.registry.Keyed → (∃ buf fds, Message.fromBytes buf fds = .ok msg) →
    msg.messageType = .signal → msg.destination = none → s.isRegistered sender = true →
    Dispatch.canSend bus sender (msg.setSender sender.uniqueName) = true →
    Dispatched (fun _ _ => False) bus sender msg s w →
      (Recipient bus s (msg.setSender sender.uniqueName) conn →
        Once (ArrivesAt conn (msg.setSender sender.uniqueName)) w.log) ∧
      (¬ Recipient bus s (msg.setSender sender.uniqueName) conn →
        Never (ArrivesAt conn (msg.setSender sender.uniqueName)) w.log) := by
  intro h
  have hnothing : ∀ e ∈ (playDispatch plainBus (peerConnection 1) memberlessSignal twoRules).log,
      e.isArrival = false := by decide +kernel
  obtain ⟨honce, -⟩ :=
    h plainBus (peerConnection 1) memberlessSignal twoRules _ (peerConnection 2) rfl
    ((Registry.keyed_new.addConnection _).addConnection _) ⟨_, _, fromBytes_memberlessFrame⟩ rfl rfl
    rfl rfl dispatched_play
  have hasks : (MatchRule.empty "").matches
      (memberlessSignal.setSender (peerConnection 1).uniqueName) twoRules.registry.getNameOwner
      = true := by
    decide +kernel
  obtain ⟨e, he, hwritten⟩ := (honce ⟨by decide +kernel,
    .inr ⟨rfl, ⟨MatchRule.empty "", List.mem_cons_self, hasks⟩, rfl⟩⟩).exists
  cases hwritten.isArrival.symm.trans (hnothing e he)

end Oxibus
