import Oxibus.Daemon.Mediation
import Oxibus.Daemon.Ownership
import Oxibus.Daemon.Replay
import Oxibus.Daemon.Sessions

/-!
# The name of the bus

The driver answers to `org.freedesktop.DBus` without being in the registry,
and match rules take the owner the registry names for a sender. The name
passes the check of names, so a client may ask for it like for any other,
and only the policy and the kernel stand in the way: without rules that deny
it, the client becomes the owner, and what it sends matches the rules of
those who ask for messages of the bus.

What is shown here is that nothing else leads there. As long as no such
request gets past the policy and the kernel, the name has no owner.
-/

namespace Oxibus

open BusProg Daemon

variable {bus : Bus} {S : Daemon} {c : ConnectionEntry} {w w' : World} {j j' : Job}

/-- **A client takes the name of the bus**: it is registered, the call it makes
asks for the name, and neither the policy nor the kernel objects. -/
def TakesBusName (bus : Bus) (s : BusState) (c : ConnectionEntry) (msg : Message) : Prop :=
  s.isRegistered c = true ∧
    ∃ flags, Requests bus c (msg.setSender c.uniqueName) WellKnown.busName flags

/-- No message that was read takes the name of the bus. -/
def BusNameLeft (bus : Bus) (log : List BusEvent) : Prop :=
  ∀ s c msg, (⟨s, .readMessage c, some msg⟩ : BusEvent) ∈ log → ¬ TakesBusName bus s c msg

theorem BusNameLeft.tail {e : BusEvent} {log : List BusEvent} (h : BusNameLeft bus (e :: log)) :
    BusNameLeft bus log :=
  fun s c msg hmem => h s c msg (List.mem_cons_of_mem _ hmem)

/-- What a dispatch guarantees: it asks for no name of the bus. -/
def OtherNames : Prog.Semantics BusOp BusOp.Res World
  | .requestName _ name _, _, _, _ => name ≠ WellKnown.busName
  | _, _, _, _ => True

/-! ## A dispatch -/

namespace Dispatch

variable {msg : Message}

/-- A program whose requests are for other names. -/
theorem otherNames_of_only {p : BusProg Unit} (h : p.Only (Errand c
      (fun name _ => name ≠ WellKnown.busName) (fun _ _ => True) fun _ _ => True)) :
    p.Ensures World.Exec (World.Beside c) OtherNames (fun _ _ => True) w := by
  refine h.ensures (fun _ _ _ _ => trivial) (fun o s r s' ho _ _ => ⟨?_, trivial⟩) trivial
  cases o with
  | requestName u name flags => exact ho.2
  | _ => trivial

/-- **A dispatch asks for other names**, unless its message takes the name of
the bus. -/
theorem otherNames_dispatchIncoming (hmsg : ¬ TakesBusName bus w.state c msg) :
    (dispatchIncoming bus c msg).Ensures World.Exec (World.Beside c) OtherNames
      (fun _ _ => True) w := by
  by_cases hreg : w.state.isRegistered c = true
  · refine otherNames_of_only (only_dispatchIncoming (fun name flags hreq hname => ?_)
      (fun _ _ _ => trivial) (fun _ => trivial) fun _ => trivial)
    exact hmsg ⟨hreg, flags, hname ▸ hreq⟩
  · -- nobody else registers the connection, so it is found unregistered
    refine Prog.ensures_bind ((copying_deliverToMonitors.beside (fun _ => Copying.foreign)
      ?_).mono fun _ w₁ hw₁ => ?_)
    · intro o w₁ r w₁' ho
      cases o with
      | requestName => exact ho.elim
      | _ => trivial
    intro w₂ isRegistered w₂' h₂ hexec
    refine ⟨trivial, ?_⟩
    have hcells : w₂.state.isRegistered c = w.state.isRegistered c :=
      congrArg Cells.isRegistered (hw₁.trans h₂).cells
    have hfalse : isRegistered = false := by
      rw [hexec.1.1, hcells]
      exact Bool.eq_false_iff.mpr hreg
    rw [hfalse]
    refine otherNames_of_only (Prog.only_split
      (fun _ => only_replyError (fun _ _ _ => trivial) _ _ _) fun hhello => ?_)
    have hhello : isHelloCall (msg.setSender c.uniqueName) = true := by simpa using hhello
    show (dispatchByType bus c _).Only _
    unfold dispatchByType
    rw [messageType_of_isHelloCall hhello]
    refine only_dispatchMethodCall (messageType_of_isHelloCall hhello) (fun name flags hreq => ?_)
      (fun _ _ _ => trivial) fun _ _ _ => trivial
    have hmember := member_of_isHelloCall hhello
    rw [hreq.member] at hmember
    exact absurd hmember (by decide)

end Dispatch

/-! ## Whole runs -/

/-- Requests that are logged are for other names. -/
def LogsOtherNames (bus : Bus) (log : List BusEvent) (e : BusEvent) : Prop :=
  BusNameLeft bus (e :: log) → match e.op with
    | .requestName _ name _ => name ≠ WellKnown.busName
    | _ => True

/-- What a job still asks for is other names. -/
def Job.AsksOtherNames (bus : Bus) (j : Job) (w : World) : Prop :=
  BusNameLeft bus w.log → match j with
    | serving c p => p.Ensures World.Exec (World.Beside c) OtherNames (fun _ _ => True) w
    | announcing p => p.Only (fun o => ∀ u name flags, o ≠ .requestName u name flags)
    | _ => True

theorem asksOtherNames_step {o : BusOp} {r : o.Res} (h : j.AsksOtherNames bus w)
    (hsettled : j.Settled w.state) (hstep : JobStep bus j o r j') (hexec : World.Exec o w r w') :
    LogsOtherNames bus w.log ⟨w.state, o, r⟩ ∧ j'.AsksOtherNames bus w' ∧
      ∀ j ∈ o.spawned, j.AsksOtherNames bus w' := by
  have hlog : w'.log = ⟨w.state, o, r⟩ :: w.log := hexec.2
  have hspawned : ∀ j ∈ o.spawned, j.AsksOtherNames bus w' :=
    BusOp.forall_mem_spawned fun _ _ _ => trivial
  refine ⟨fun hleft => ?_, fun hleft => ?_, hspawned⟩
  · cases hstep with
    | dispatch =>
      have hguar := (h hleft.tail w r w' (.refl _ w) hexec).1
      cases o with
      | requestName u name flags => exact hguar
      | _ => trivial
    | announce =>
      have honly := (h hleft.tail).1
      cases o with
      | requestName u name flags => exact absurd rfl (honly u name flags)
      | _ => trivial
    | _ => trivial
  · have hleft' : BusNameLeft bus w.log := (hlog ▸ hleft).tail
    cases hstep with
    | @read c msg =>
      refine Dispatch.otherNames_dispatchIncoming fun htakes => ?_
      refine hleft w.state c msg ?_ ?_
      · rw [hlog]
        exact List.mem_cons_self
      · rwa [hexec.1.2] at htakes
    | dispatch => exact (h hleft' w r w' (.refl _ w) hexec).2
    | @remove c events =>
      have htelling : (Dispatch.broadcastNameOwnerChanges bus events).Only
          (Dispatch.Telling fun _ _ => True) :=
        Dispatch.telling_broadcastNameOwnerChanges (fun _ _ _ _ => trivial) _
      refine htelling.mono fun o ho u name flags heq => ?_
      rw [heq] at ho
      exact ho
    | announce => exact (h hleft').2 r
    | add => trivial
    | _ => trivial

theorem asksOtherNames_stable {o : BusOp} {r : o.Res} (h : j.AsksOtherNames bus w)
    (ho : ∀ c, j.entry = some c → o.Foreign c) (hexec : World.Exec o w r w') :
    j.AsksOtherNames bus w' := by
  intro hleft
  have hleft : BusNameLeft bus w.log := (hexec.2 ▸ hleft).tail
  cases j with
  | serving c p =>
    exact (h hleft).interfere (fun _ _ _ => World.Beside.trans) (fun _ _ _ _ _ => trivial)
      (hexec.beside (ho c rfl))
  | announcing p => exact h hleft
  | _ => trivial

/-- A name nobody has asked for has no queue. -/
theorem BusOp.Exec.queueOf_eq_nil {o : BusOp} {s s' : BusState} {r : o.Res} {name : String}
    (h : o.Exec s r s') (ho : ∀ u flags, o ≠ .requestName u name flags)
    (hname : s.registry.queueOf name = []) : s'.registry.queueOf name = [] := by
  have hsame : ∀ {n}, name ≠ n → ∀ {reg' : Registry}, reg'.queue name = s.registry.queue name →
      reg'.queueOf name = [] := by
    intro n hn reg' hqueue
    rw [← hname, Registry.queueOf, hqueue]
    rfl
  cases o with
  | requestName u n flags =>
    have hn : name ≠ n := fun heq => ho u flags (heq ▸ rfl)
    rw [h.2]
    exact hsame hn ((Registry.steps_requestName _ _ _ _).others name hn)
  | releaseName u n =>
    rw [h.2]
    have hsteps := Registry.steps_releaseName s.registry u n
    by_cases hn : name = n
    · show (s.registry.releaseName u n).2.queueOf name = []
      unfold Registry.releaseName
      split
      · exact hname
      · next q hq =>
        have hempty : q = [] := by
          rw [hn, Registry.queueOf, hq] at hname
          exact hname
        rw [if_neg (by rw [hempty]; exact Bool.false_ne_true)]
        exact hname
    · exact hsame hn (hsteps.others name hn)
  | removeConnection u =>
    obtain ⟨order, horder, -, hs⟩ := h
    rw [hs]
    show (s.registry.removeConnection u order).2.queueOf name = []
    rw [(Registry.removeConnection_spec horder u name).1, hname]
    rfl
  | tryBeginIncomplete max =>
    rw [h.2]
    show (s.registry.tryBeginIncomplete max).2.queueOf name = []
    unfold Registry.tryBeginIncomplete
    split
    · exact hname
    · exact hname
  | _ =>
    first
    | (rw [h.eq_of_not_isUpdate rfl]; exact hname)
    | (rw [h]; exact hname)
    | (rw [h.2]; exact hname)

/-- Without a request for it, the name of the bus has no queue. -/
theorem Daemon.Reachable.busName_queue (h : Reachable bus S)
    (hleft : BusNameLeft bus S.world.log) :
    S.world.state.registry.queueOf WellKnown.busName = [] := by
  induction h with
  | refl => exact Registry.queueOf_eq_nil (Registry.queue_new _)
  | @tail S _ hrun hs ih =>
    cases hs with
    | accept peer => exact ih hleft
    | @job i j j' o r w hj hstep hexec =>
      have hlog : w.log = ⟨S.world.state, o, r⟩ :: S.world.log := hexec.2
      have hlogged := (Reachable.secure (J := Job.AsksOtherNames bus) (fun _ _ _ => trivial)
        asksOtherNames_step asksOtherNames_stable (Reachable.job hrun hj hstep hexec.1)).1.1
      refine hexec.1.queueOf_eq_nil ?_ (ih (hlog ▸ hleft).tail)
      rintro u flags rfl
      exact hlogged (hlog ▸ hleft) rfl

/-- **The name of the bus is nobody's**: no connection owns it, and no match rule
that asks for messages of the bus matches a message of a client. -/
def BusNameUnowned (s : BusState) : Prop :=
  s.registry.getNameOwner WellKnown.busName = none ∧
    ∀ (rule : MatchRule) (msg : Message) (c : ConnectionEntry),
      rule.sender = some WellKnown.busName →
      rule.matches (msg.setSender c.uniqueName) s.registry.getNameOwner = false

/-- **The name of the bus has no owner** in any run in which no client takes it:
no registered client gets a request for it past the policy and the kernel. -/
theorem busName_unowned (bus : Bus) (S : Daemon) (h : Reachable bus S)
    (hleft : BusNameLeft bus S.world.log) : BusNameUnowned S.world.state := by
  have howner : S.world.state.registry.getNameOwner WellKnown.busName = none := by
    rw [Registry.getNameOwner_eq (by decide), h.busName_queue hleft]
    rfl
  refine ⟨howner, fun rule msg c hrule => ?_⟩
  have hne : (c.uniqueName == WellKnown.busName) = false :=
    beq_eq_false_iff_ne.mpr (uniqueName_ne_busName c.id)
  have hsender : MatchRule.asks (some WellKnown.busName) (MatchRule.matchesSender
      (msg.setSender c.uniqueName) S.world.state.registry.getNameOwner) = false := by
    show MatchRule.matchesSender _ _ _ = false
    unfold MatchRule.matchesSender
    rw [Message.sender_setSender, howner]
    show (c.uniqueName == WellKnown.busName || _ && (none == some c.uniqueName)) = false
    rw [hne, Bool.false_or]
    exact Bool.and_false _
  unfold MatchRule.matches
  rw [hrule, hsender]
  simp only [Bool.and_false, Bool.false_and]

/-! ## A client that takes the name -/

/-- A client connects, says Hello and asks for the name of the bus. -/
def busNameScript : List Instruction :=
  [.accept ⟨1000, 1000, 4711⟩, .run 0 8, .receive 0 (frameOf (driverCall "Hello" [] 1)),
    .run 0 50, .receive 0 (frameOf (driverCall "RequestName"
      [.string WellKnown.busName, .uint32 0] 2)), .run 0 50]

/-- A rule that asks for messages of the bus. -/
def fromBus : MatchRule := { MatchRule.empty "" with sender := some WellKnown.busName }

/-- **Without a policy, the client owns the name**, and the rule matches what it
sends. -/
theorem busName_taken : ¬ ∀ (bus : Bus) (S : Daemon), Reachable bus S →
    BusNameUnowned S.world.state := by
  intro h
  have hrule := (h plainBus _ (reachable_replay reachable_new busNameScript)).2 fromBus
    (driverCall "Ping" [] 3) (peerConnection 1) rfl
  exact absurd hrule (by decide +kernel)

/-- The same bus with a policy that lets nobody own the name. -/
def guardedBus : Bus :=
  { plainBus with
    policy := ⟨[⟨.default, none, none, ["*"], [WellKnown.busName], [.destination "*"], [],
      [.destination "*"], []⟩]⟩ }

/-- With such a policy nobody takes the name. -/
theorem busNameLeft_guardedBus (log : List BusEvent) : BusNameLeft guardedBus log := by
  rintro s c msg - ⟨-, flags, hreq⟩
  have hdenied : ∀ identity, guardedBus.policy.canOwn identity WellKnown.busName = false := by
    intro identity
    rfl
  have hown := hreq.canOwn
  rw [hdenied] at hown
  cases hown

/-- The client asks for the name in vain. -/
theorem busName_unowned_guarded :
    BusNameUnowned (Daemon.new.replay guardedBus busNameScript).world.state :=
  busName_unowned guardedBus _ (reachable_replay reachable_new busNameScript)
    (busNameLeft_guardedBus _)

end Oxibus
