import Oxibus.Daemon.Mediation
import Oxibus.Daemon.Presence

/-!
# The limits of one connection

A connection may own or wait for so many names, and have so many match rules.
Both are checked where they grow, and only the connection's own calls make
them grow: what others do takes names from it at most. So between a check and
what it is for, nothing is gained, and the limits are invariants – but for one
call. A connection that becomes a monitor brings its rules with it, all at
once, and nobody counts them.
-/

namespace Oxibus

open BusProg Daemon Registry

/-! ## The names of a connection -/

namespace Registry

variable {reg reg' : Registry} {u n : String}

/-- The names a connection owns or waits for. -/
def namesOf (reg : Registry) (u : String) : List String :=
  (reg.names.entries.filter fun e => inQueue u e.2).map Sigma.fst

theorem length_namesOf : (reg.namesOf u).length = reg.namesHeldBy u := List.length_map _

theorem nodup_namesOf : (reg.namesOf u).Nodup :=
  reg.names.keys_nodup.sublist (List.filter_sublist.map _)

theorem mem_namesOf : n ∈ reg.namesOf u ↔ u ∈ owners (reg.queueOf n) := by
  have hin : ∀ {q : List QueueEntry}, inQueue u q = true ↔ u ∈ owners q := fun {q} => by
    rw [← not_iff_not, Bool.not_eq_true, inQueue_eq_false]
  unfold namesOf
  rw [List.mem_map]
  constructor
  · rintro ⟨⟨n, q⟩, hmem, rfl⟩
    obtain ⟨hmem, hq⟩ := List.mem_filter.mp hmem
    rw [queueOf, show reg.queue n = some q from AList.mem_lookup_iff.mpr hmem]
    exact hin.mp hq
  · intro hu
    cases hq : reg.queue n with
    | none =>
      rw [queueOf_eq_nil hq] at hu
      exact absurd hu List.not_mem_nil
    | some q =>
      rw [queueOf, hq] at hu
      exact ⟨⟨n, q⟩, List.mem_filter.mpr ⟨AList.mem_lookup_iff.mp hq, hin.mpr hu⟩, rfl⟩

/-- **A connection holds more names only where it has come into a queue.** -/
theorem namesHeldBy_le (names : List String)
    (h : ∀ n, u ∈ owners (reg'.queueOf n) → u ∈ owners (reg.queueOf n) ∨ n ∈ names) :
    reg'.namesHeldBy u ≤ reg.namesHeldBy u + names.length := by
  have hsub : reg'.namesOf u ⊆ reg.namesOf u ++ names := fun n hn =>
    List.mem_append.mpr ((h n (mem_namesOf.mp hn)).imp_left mem_namesOf.mpr)
  rw [← length_namesOf, ← length_namesOf, ← List.length_append]
  exact (List.subperm_of_subset nodup_namesOf hsub).length_le

end Registry

variable {bus : Bus} {S : Daemon} {c : ConnectionEntry} {j j' : Job} {o : BusOp} {r : o.Res}
variable {s s' : BusState} {w w' w'' : World} {u : String} {msg : Message}

/-- Nobody gets a name that does not ask for it. -/
theorem BusOp.Exec.namesHeldBy_le (h : o.Exec s r s')
    (ho : ∀ name flags, o ≠ .requestName u name flags) :
    s'.registry.namesHeldBy u ≤ s.registry.namesHeldBy u := by
  refine Registry.namesHeldBy_le [] fun n hu => ?_
  rcases h.mem_owners hu with ⟨hu, -⟩ | ⟨flags, heq⟩
  · exact .inl hu
  · exact absurd heq (ho n flags)

/-- A request brings one name at most. -/
theorem BusOp.Exec.namesHeldBy_requestName {name : String} {flags : UInt32}
    {r : UInt32 × List NameOwnerChange} (h : BusOp.Exec (.requestName u name flags) s r s') :
    s'.registry.namesHeldBy u ≤ s.registry.namesHeldBy u + 1 := by
  refine Registry.namesHeldBy_le [name] fun n hu => ?_
  rcases h.mem_owners hu with ⟨hu, -⟩ | ⟨flags', heq⟩
  · exact .inl hu
  · cases heq
    exact .inr (List.mem_singleton.mpr rfl)

/-! ## While a connection waits -/

/-- **A later world, as a connection sees it** that counts its names: it has got
none meanwhile. -/
structure World.Alone (c : ConnectionEntry) (w w' : World) : Prop extends w.Beside c w' where
  names : w'.state.registry.namesHeldBy c.uniqueName ≤ w.state.registry.namesHeldBy c.uniqueName

namespace World

theorem Alone.refl (c : ConnectionEntry) (w : World) : w.Alone c w := ⟨.refl c w, le_rfl⟩

theorem Alone.trans (h : w.Alone c w') (h' : w'.Alone c w'') : w.Alone c w'' :=
  ⟨h.toBeside.trans h'.toBeside, h'.names.trans h.names⟩

theorem Exec.alone (h : World.Exec o w r w') (ho : o.Foreign c) : w.Alone c w' := by
  refine ⟨h.beside ho, h.1.namesHeldBy_le ?_⟩
  rintro name flags rfl
  exact ho rfl

end World

/-! ## What a dispatch guarantees -/

/-- The texts in the first argument of a call to become a monitor. -/
def textsAsked (args : List Value) : List String :=
  match args.head?.map Value.unwrapVariant with
  | some (.array _ elements) => elements.filterMap Value.asStr
  | _ => []

/-- The rules such a call asks for: as many as there are texts of rules, and one
for everything if there are none. -/
def rulesAsked (args : List Value) : ℕ :=
  max 1 ((textsAsked args).countP fun text => (parseMatchRule text).isOk)

/-- The rules that such a call says. -/
def parsedRules (args : List Value) : List MatchRule :=
  (textsAsked args).filterMap fun text =>
    match parseMatchRule text with
    | .ok rule => some rule
    | _ => none

theorem length_monitorRules (args : List Value) :
    (Dispatch.monitorRules args).length = rulesAsked args := by
  have hlength : (parsedRules args).length
      = (textsAsked args).countP fun text => (parseMatchRule text).isOk := by
    unfold parsedRules
    rw [List.length_filterMap_eq_countP]
    refine List.countP_congr fun text _ => ?_
    cases parseMatchRule text <;> rfl
  have hrules : Dispatch.monitorRules args =
      if (parsedRules args).isEmpty then [MatchRule.empty ""] else parsedRules args := rfl
  rw [hrules, rulesAsked, ← hlength]
  split
  · next hempty =>
    rw [List.isEmpty_iff.mp hempty]
    rfl
  · next hsome =>
    have hpos := List.length_pos_iff.mpr fun hnil => hsome (List.isEmpty_iff.mpr hnil)
    exact (max_eq_right hpos).symm

/-- **A call that brings too many rules**: a registered connection becomes a
monitor with more rules than a connection may have. -/
structure Overloads (bus : Bus) (s : BusState) (c : ConnectionEntry) (msg : Message) : Prop where
  registered : s.isRegistered c = true
  messageType : msg.messageType = .methodCall
  destination : msg.destination = some WellKnown.busName
  interface : msg.interface = some WellKnown.monitoringInterface
  member : msg.member = some "BecomeMonitor"
  rules : bus.limits.maxMatchRulesPerConnection < rulesAsked msg.body

/-- No message that was read brings too many rules. -/
def RulesCounted (bus : Bus) (log : List BusEvent) : Prop :=
  ∀ s c msg, (⟨s, .readMessage c, some msg⟩ : BusEvent) ∈ log → ¬ Overloads bus s c msg

theorem RulesCounted.tail {e : BusEvent} {log : List BusEvent} (h : RulesCounted bus (e :: log)) :
    RulesCounted bus log :=
  fun s c msg hmem => h s c msg (List.mem_cons_of_mem _ hmem)

/-- **An operation that keeps to the limits**: a name is asked for, and a rule
added, while there is room, and rules are replaced by no more than there may
be. -/
def BusEvent.InLimits (bus : Bus) (e : BusEvent) : Prop :=
  match e.op with
  | .requestName u _ _ => e.before.registry.namesHeldBy u < bus.limits.maxNamesPerConnection
  | .pushMatchRule c _ => (e.before.matchRules c).length < bus.limits.maxMatchRulesPerConnection
  | .setMatchRules _ rules => rules.length ≤ bus.limits.maxMatchRulesPerConnection
  | _ => True

/-- What a dispatch guarantees. -/
def InLimits (bus : Bus) : Prog.Semantics BusOp BusOp.Res World :=
  fun o w r _ => (⟨w.state, o, r⟩ : BusEvent).InLimits bus

/-- The operations that keep to the limits at any time. -/
def Modest (bus : Bus) : BusOp → Prop
  | .requestName _ _ _ => False
  | .pushMatchRule _ _ => False
  | .setMatchRules _ rules => rules.length ≤ bus.limits.maxMatchRulesPerConnection
  | _ => True

/-- A program that keeps to the limits while it serves a connection. -/
abbrev KeepsLimits {α : Type} (bus : Bus) (c : ConnectionEntry) (p : BusProg α) (w : World) :
    Prop :=
  p.Ensures World.Exec (World.Alone c) (InLimits bus) (fun _ _ => True) w

theorem Modest.inLimits (ho : Modest bus o) : InLimits bus o w r w' := by
  cases o with
  | requestName => exact ho.elim
  | pushMatchRule => exact ho.elim
  | setMatchRules => exact ho
  | _ => trivial

theorem Looking.modest (ho : Looking o) : Modest bus o := by
  cases o with
  | setMatchRules => exact ho.elim
  | requestName => exact ho.elim
  | pushMatchRule => exact ho.elim
  | _ => trivial

theorem Routing.modest {Q : ConnectionEntry → Message → Prop} (ho : Routing Q o) :
    Modest bus o := by
  cases o with
  | setMatchRules => exact ho.elim
  | requestName => exact ho.elim
  | pushMatchRule => exact ho.elim
  | _ => trivial

theorem keepsLimits_of_only {α : Type} {p : BusProg α} (h : p.Only (Modest bus)) :
    KeepsLimits bus c p w :=
  h.ensures (fun _ _ _ _ => trivial) (fun _ _ _ _ ho _ _ => ⟨ho.inLimits, trivial⟩) trivial

namespace Driver

variable {args : List Value}

/-- **A name is asked for while there is room**: nobody gives the connection a
name between the count and the request. -/
theorem keepsLimits_handleRequestName :
    KeepsLimits bus c (handleRequestName bus c args) w := by
  have hdenied : ∀ {w : World} (outcome : DriverOutcome),
      KeepsLimits bus c (do op (.record .denial); return outcome : BusProg DriverOutcome) w :=
    fun _ => keepsLimits_of_only ⟨trivial, fun _ => trivial⟩
  unfold handleRequestName withArgStr
  split
  · dsimp only
    split
    · trivial
    · trivial
    · refine Prog.ensures_ite (fun _ => hdenied _) fun _ => ?_
      refine Prog.ensures_ite (fun _ => hdenied _) fun _ => ?_
      intro w₁ held w₁' h₁ hheld
      refine ⟨trivial, ?_⟩
      obtain ⟨hr, hs⟩ : held = w₁.state.registry.namesHeldBy c.uniqueName ∧
        w₁'.state = w₁.state := hheld.1
      refine Prog.ensures_ite (fun _ => trivial) fun hroom => ?_
      intro w₂ answer w₂' h₂ _
      refine ⟨?_, trivial⟩
      have hle := h₂.names
      rw [hs, ← hr] at hle
      exact hle.trans_lt (not_le.mp hroom)
  · trivial

/-- **A rule is added while there is room**: nobody else touches the rules of the
connection. -/
theorem keepsLimits_handleAddMatch : KeepsLimits bus c (handleAddMatch bus c args) w := by
  unfold handleAddMatch withArgStr
  split
  · intro w₁ rules w₁' h₁ hrules
    refine ⟨trivial, ?_⟩
    obtain ⟨hr, hs⟩ : rules = w₁.state.matchRules c ∧ w₁'.state = w₁.state := hrules.1
    refine Prog.ensures_ite (fun _ => trivial) fun hroom => ?_
    split
    · intro w₂ _ w₂' h₂ _
      refine ⟨?_, trivial⟩
      have hsame : w₂.state.matchRules c = rules := by
        rw [hr, ← hs]
        exact congrArg Cells.matchRules h₂.cells
      show (w₂.state.matchRules c).length < _
      rw [hsame]
      exact not_le.mp hroom
    · trivial
    · trivial
  · trivial

theorem keepsLimits_handle (member : String) :
    KeepsLimits bus c (handle bus c member args) w := by
  by_cases hrequest : member = "RequestName"
  · have heq : handle bus c member args = handleRequestName bus c args := by
      unfold handle
      rw [hrequest, if_neg (by decide), if_pos rfl]
    rw [heq]
    exact keepsLimits_handleRequestName
  by_cases hadd : member = "AddMatch"
  · have heq : handle bus c member args = handleAddMatch bus c args := by
      rw [hadd]
      rfl
    rw [heq]
    exact keepsLimits_handleAddMatch
  · exact keepsLimits_of_only (only_handle_of member (fun _ => Looking.modest) (fun _ => trivial)
      (fun h => absurd h hrequest) (fun _ _ => trivial) (fun h => absurd h hadd)
      (fun _ _ => trivial) fun _ _ => trivial)

end Driver

namespace Dispatch

/-- A call to the driver keeps to the limits, if it brings no rules or few
enough. -/
theorem keepsLimits_driverOutcome (hrules : msg.interface = some WellKnown.monitoringInterface →
      msg.member = some "BecomeMonitor" →
      rulesAsked msg.body ≤ bus.limits.maxMatchRulesPerConnection) :
    KeepsLimits bus c (driverOutcome bus c msg) w := by
  unfold driverOutcome
  dsimp only
  split
  · next outcome h =>
    refine keepsLimits_of_only (only_handleSideInterface_of (fun _ => Looking.modest)
      (fun hinterface hmember => ⟨?_, trivial⟩) h)
    show (monitorRules msg.body).length ≤ _
    rw [length_monitorRules]
    refine hrules hinterface ?_
    cases hsome : msg.member with
    | none =>
      rw [hsome] at hmember
      exact absurd hmember (by decide)
    | some member =>
      rw [hsome] at hmember
      exact congrArg some hmember
  · exact Driver.keepsLimits_handle _

/-- A call to the driver, with its reply. -/
theorem keepsLimits_handleDriverCall
    (hrules : msg.interface = some WellKnown.monitoringInterface →
      msg.member = some "BecomeMonitor" →
      rulesAsked msg.body ≤ bus.limits.maxMatchRulesPerConnection) :
    KeepsLimits bus c (handleDriverCall bus c msg) w := by
  refine Prog.ensures_bind ((keepsLimits_driverOutcome hrules).mono fun outcome w _ => ?_)
  have htelling : (broadcastNameOwnerChanges bus outcome.nameOwnerChanges).Only
      (Telling fun _ _ => True) := telling_broadcastNameOwnerChanges (fun _ _ _ _ => trivial) _
  refine keepsLimits_of_only (Prog.only_bind (htelling.mono fun _ ho => ho.routing.modest)
    fun _ => Prog.only_ite trivial ?_)
  exact (telling_sendFromDriver (Q := fun _ _ => True) fun _ => trivial).mono
    fun _ ho => ho.routing.modest

/-- A stamped message of a registered connection. -/
theorem keepsLimits_dispatchByType
    (hrules : msg.messageType = .methodCall → msg.destination = some WellKnown.busName →
      msg.interface = some WellKnown.monitoringInterface → msg.member = some "BecomeMonitor" →
      rulesAsked msg.body ≤ bus.limits.maxMatchRulesPerConnection) :
    KeepsLimits bus c (dispatchByType bus c msg) w := by
  have hrouting : ∀ {p : BusProg Unit}, p.Only (Routing fun _ _ => True) →
      KeepsLimits bus c p w :=
    fun h => keepsLimits_of_only (h.mono fun _ => Routing.modest)
  unfold dispatchByType
  split
  · exact hrouting (routing_dispatchSignal fun _ _ _ => trivial)
  · next htype =>
    by_cases hdest : msg.destination = some WellKnown.busName
    · rw [dispatchMethodCall_driver hdest]
      exact keepsLimits_handleDriverCall (hrules htype hdest)
    · exact hrouting (routing_dispatchMethodCall hdest (fun _ _ _ => trivial)
        fun _ _ _ => trivial)
  · exact hrouting (routing_dispatchReply fun _ => trivial)
  · exact hrouting (routing_dispatchReply fun _ => trivial)

/-- Copying a message for the monitors changes nothing for the connection. -/
theorem alone_deliverToMonitors :
    (deliverToMonitors msg).Ensures World.Exec (World.Alone c) (InLimits bus)
      (fun _ w' => w.Alone c w') w := by
  refine copying_deliverToMonitors.ensures (fun _ _ => World.Alone.trans)
    (fun o w₁ r w₁' ho hw hexec => ⟨?_, hw.trans (hexec.alone ho.foreign)⟩) (.refl c w)
  cases o with
  | allConnections => trivial
  | isMonitor => trivial
  | spawnWrite => trivial
  | _ => exact ho.elim

/-- **A dispatch keeps to the limits**, unless its message brings too many
rules. -/
theorem keepsLimits_dispatchIncoming (hmsg : ¬ Overloads bus w.state c msg) :
    KeepsLimits bus c (dispatchIncoming bus c msg) w := by
  refine Prog.ensures_bind (alone_deliverToMonitors.mono fun _ w₁ hw₁ => ?_)
  intro w₂ isRegistered w₂' h₂ hexec
  refine ⟨trivial, ?_⟩
  have hcells : w₂.state.isRegistered c = w.state.isRegistered c :=
    congrArg Cells.isRegistered (hw₁.trans h₂).cells
  have hreg : isRegistered = w.state.isRegistered c := hexec.1.1.trans hcells
  refine Prog.ensures_ite (fun _ => keepsLimits_of_only ?_) fun hpassed => ?_
  · exact (telling_replyError (Q := fun _ _ => True) (fun _ _ _ => trivial) _ _ _).mono
      fun _ ho => ho.routing.modest
  refine keepsLimits_dispatchByType fun htype hdest hinterface hmember => ?_
  rw [Message.destination_setSender] at hdest
  rw [Message.interface_setSender] at hinterface
  rw [Message.member_setSender] at hmember
  cases hregistered : w.state.isRegistered c with
  | true =>
    by_contra hmany
    exact hmsg ⟨hregistered, htype, hdest, hinterface, hmember, not_le.mp hmany⟩
  | false =>
    -- an unregistered connection can only call Hello
    rw [hreg, hregistered] at hpassed
    have hhello := member_of_isHelloCall (by simpa using hpassed)
    rw [Message.member_setSender, hmember] at hhello
    exact absurd hhello (by decide)

end Dispatch

/-! ## Whole runs -/

/-- What is logged keeps to the limits. -/
def LogsInLimits (bus : Bus) (log : List BusEvent) (e : BusEvent) : Prop :=
  RulesCounted bus (e :: log) → e.InLimits bus

/-- What a job still does keeps to the limits. -/
def Job.KeepsLimits (bus : Bus) (j : Job) (w : World) : Prop :=
  RulesCounted bus w.log → match j with
    | serving c p => Oxibus.KeepsLimits bus c p w
    | announcing p => p.Only (Dispatch.Telling fun _ _ => True)
    | _ => True

theorem keepsLimits_step (h : j.KeepsLimits bus w) (hsettled : j.Settled w.state)
    (hstep : JobStep bus j o r j') (hexec : World.Exec o w r w') :
    LogsInLimits bus w.log ⟨w.state, o, r⟩ ∧ j'.KeepsLimits bus w' ∧
      ∀ j ∈ o.spawned, j.KeepsLimits bus w' := by
  have hlog : w'.log = ⟨w.state, o, r⟩ :: w.log := hexec.2
  have hspawned : ∀ j ∈ o.spawned, j.KeepsLimits bus w' :=
    BusOp.forall_mem_spawned fun _ _ _ => trivial
  refine ⟨fun hcounted => ?_, fun hcounted => ?_, hspawned⟩
  · cases hstep with
    | dispatch => exact (h hcounted.tail w r w' (.refl _ w) hexec).1
    | announce =>
      have hlimits : InLimits bus o w r w' := (h hcounted.tail).1.routing.modest.inLimits
      exact hlimits
    | _ => trivial
  · have hcounted' : RulesCounted bus w.log := (hlog ▸ hcounted).tail
    cases hstep with
    | @read c msg =>
      refine Dispatch.keepsLimits_dispatchIncoming fun hover => hcounted w.state c msg ?_ ?_
      · rw [hlog]
        exact List.mem_cons_self
      · rwa [hexec.1.2] at hover
    | dispatch => exact (h hcounted' w r w' (.refl _ w) hexec).2
    | remove => exact Dispatch.telling_broadcastNameOwnerChanges (fun _ _ _ _ => trivial) _
    | announce => exact (h hcounted').2 r
    | _ => trivial

theorem keepsLimits_stable (h : j.KeepsLimits bus w) (ho : ∀ c, j.entry = some c → o.Foreign c)
    (hexec : World.Exec o w r w') : j.KeepsLimits bus w' := by
  intro hcounted
  have hcounted : RulesCounted bus w.log := (hexec.2 ▸ hcounted).tail
  cases j with
  | serving c p =>
    exact (h hcounted).interfere (fun _ _ _ => World.Alone.trans) (fun _ _ _ _ _ => trivial)
      (hexec.alone (ho c rfl))
  | announcing p => exact h hcounted
  | _ => trivial

/-- **The limits of a connection**: the names it owns or waits for, and its match
rules. -/
structure WithinLimits (bus : Bus) (s : BusState) (c : ConnectionEntry) : Prop where
  names : s.registry.namesHeldBy c.uniqueName ≤ bus.limits.maxNamesPerConnection
  rules : (s.matchRules c).length ≤ bus.limits.maxMatchRulesPerConnection

/-- An operation that keeps to the limits leaves every connection within its. -/
theorem WithinLimits.exec (h : WithinLimits bus s c) (hexec : o.Exec s r s')
    (hlogged : (⟨s, o, r⟩ : BusEvent).InLimits bus) : WithinLimits bus s' c := by
  constructor
  · cases o with
    | requestName u name flags =>
      by_cases hu : c.uniqueName = u
      · have hle := hexec.namesHeldBy_requestName
        rw [hu]
        exact hle.trans hlogged
      · refine (hexec.namesHeldBy_le fun name' flags' heq => ?_).trans h.names
        cases heq
        exact hu rfl
    | _ => exact (hexec.namesHeldBy_le nofun).trans h.names
  · show (s'.cells c.id).matchRules.length ≤ _
    rw [hexec.cells]
    split
    · next hid =>
      cases o with
      | setMatchRules c' rules => exact hlogged
      | pushMatchRule c' rule =>
        have hroom : (s.cells c'.id).matchRules.length < _ := hlogged
        rw [show c'.id = c.id from Option.some.inj hid] at hroom
        show (_ ++ [rule]).length ≤ _
        rw [List.length_append]
        exact hroom
      | removeMatchRules c' raw => exact (List.length_filter_le _ _).trans h.rules
      | _ => exact h.rules
    · exact h.rules

/-- **Every connection keeps to its limits**, in any run in which no registered
client becomes a monitor with more rules than a connection may have. -/
theorem withinLimits_of_rulesCounted (bus : Bus) (S : Daemon) (h : Reachable bus S)
    (hcounted : RulesCounted bus S.world.log) (c : ConnectionEntry) :
    WithinLimits bus S.world.state c := by
  induction h with
  | refl =>
    have hnone : Registry.new.namesHeldBy c.uniqueName = 0 := rfl
    exact ⟨hnone.trans_le (Nat.zero_le _), Nat.zero_le _⟩
  | @tail S _ hrun hs ih =>
    cases hs with
    | accept peer => exact ih hcounted
    | @job i j j' o r w hj hstep hexec =>
      have hlog : w.log = ⟨S.world.state, o, r⟩ :: S.world.log := hexec.2
      have hlogged := (Reachable.secure (J := Job.KeepsLimits bus) (fun _ _ _ => trivial)
        keepsLimits_step keepsLimits_stable (Reachable.job hrun hj hstep hexec.1)).1.1
      exact (ih (hlog ▸ hcounted).tail).exec hexec.1 (hlogged (hlog ▸ hcounted))

/-! ## A monitor with too many rules -/

/-- A session bus on which a connection may have one match rule. -/
def oneRule : Bus := { plainBus with limits := ⟨64, 256, 512, 1⟩ }

/-- A call to become a monitor, with the texts of its rules. -/
def becomeMonitorCall (rules : List String) (serial : UInt32) : Message :=
  (((Message.Builder.methodCall WellKnown.busPath "BecomeMonitor").destination
    WellKnown.busName).interface WellKnown.monitoringInterface).args
      [Driver.stringArray rules, .uint32 0] |>.build serial

/-- A client connects, says Hello, and becomes a monitor with these rules. -/
def monitorScript (rules : List String) : List Instruction :=
  [.accept ⟨1000, 1000, 4711⟩, .run 0 8, .receive 0 (frameOf (driverCall "Hello" [] 1)),
    .run 0 50, .receive 0 (frameOf (becomeMonitorCall rules 2)), .run 0 50]

/-- **It has two rules where one is the limit.** -/
theorem matchRules_exceeded : ¬ ∀ (bus : Bus) (S : Daemon), Reachable bus S →
    ∀ c, WithinLimits bus S.world.state c := by
  intro h
  have hrules := (h oneRule _ (reachable_replay reachable_new
    (monitorScript ["type='signal'", "type='error'"])) (peerConnection 1)).rules
  exact absurd hrules (by decide +kernel)

/-- Whether the message that was read, if one was, asks for few enough rules. -/
def BusEvent.countsRules (bus : Bus) (e : BusEvent) : Bool :=
  match e with
  | ⟨_, .readMessage _, some msg⟩ =>
    rulesAsked msg.body ≤ bus.limits.maxMatchRulesPerConnection
  | _ => true

theorem rulesCounted_of_all {log : List BusEvent}
    (h : log.all (BusEvent.countsRules bus) = true) : RulesCounted bus log := by
  intro s c msg hmem hover
  have hfew : decide (rulesAsked msg.body ≤ bus.limits.maxMatchRulesPerConnection) = true :=
    List.all_eq_true.mp h _ hmem
  exact absurd (of_decide_eq_true hfew) (not_le.mpr hover.rules)

/-- A client that asks for one rule keeps to the limit. -/
theorem withinLimits_of_rulesCounted_one : WithinLimits oneRule
    (Daemon.new.replay oneRule (monitorScript ["type='signal'"])).world.state
    (peerConnection 1) := by
  refine withinLimits_of_rulesCounted oneRule _ (reachable_replay reachable_new _) ?_ _
  exact rulesCounted_of_all (by decide +kernel)

end Oxibus
