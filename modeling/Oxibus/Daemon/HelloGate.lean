import Oxibus.Daemon.HelloReply

/-!
# The gate before Hello

A connection is in the registry as soon as its handshake is over, and its
messages are dispatched from then on. Until it has called Hello they get no
further than a flag: they are copied to the monitors, like all messages, and
turned down.

The flag is set by the call of Hello and never taken back. Only the job that
serves the connection sets it, so what that job finds when it looks is what
holds while it acts on it.
-/

namespace Oxibus

open BusProg Daemon

variable {bus : Bus} {S S' : Daemon} {c : ConnectionEntry} {j j' : Job} {o : BusOp} {r : o.Res}
variable {s s' : BusState} {w w' w'' : World} {msg : Message}

/-- The latest message read from a connection. The log has the latest event
first. -/
def lastRead (log : List BusEvent) (c : ConnectionEntry) : Option Message :=
  log.findSome? (BusEvent.readFrom c)

/-- The connection is being served for a call of Hello. -/
def SaysHello (log : List BusEvent) (c : ConnectionEntry) : Prop :=
  ∃ hello, lastRead log c = some hello ∧ Dispatch.isHelloCall hello = true

/-- **An operation that does not get past the gate**: it leaves the
registry, the flags and rules of every connection and the environment of
services as they are, starts no service, writes to nobody but the connection, and has copies
written for monitors only. -/
structure Gated (c : ConnectionEntry) (o : BusOp) (s s' : BusState) : Prop where
  registry : s'.registry = s.registry
  cells : s'.cells = s.cells
  environment : s'.activationEnvironment = s.activationEnvironment
  service : ∀ name, o ≠ .spawnService name
  writes : ∀ c' m, o = .write c' m → c' = c ∧ DriverBuilt m
  copies : ∀ c' m, o = .spawnWrite c' m → s.isMonitor c' = true

/-- What a dispatch guarantees: while the connection is not registered, it does
not get past the gate, but for the call of Hello. -/
def GateKept (c : ConnectionEntry) : Prog.Semantics BusOp BusOp.Res World :=
  fun o w _ w' => w.state.isRegistered c = false →
    Gated c o w.state w'.state ∨ (o = .swapRegistered c ∧ SaysHello w.log c)

/-! ## While the connection waits -/

/-- **A later world, as a connection sees it**: no message has been read from
it. -/
structure World.Waiting (c : ConnectionEntry) (w w' : World) : Prop extends w.Beside c w' where
  read : lastRead w'.log c = lastRead w.log c

namespace World

theorem Waiting.refl (c : ConnectionEntry) (w : World) : w.Waiting c w := ⟨.refl c w, rfl⟩

theorem Waiting.trans (h : w.Waiting c w') (h' : w'.Waiting c w'') : w.Waiting c w'' :=
  ⟨h.toBeside.trans h'.toBeside, h'.read.trans h.read⟩

/-- What is no reading from the connection does not count as one. -/
theorem Exec.lastRead_eq (h : World.Exec o w r w') (ho : o ≠ .readMessage c) :
    lastRead w'.log c = lastRead w.log c := by
  have hnone : BusEvent.readFrom c ⟨w.state, o, r⟩ = none := by
    cases o with
    | readMessage c' =>
      have hne : c' ≠ c := fun heq => ho (heq ▸ rfl)
      cases r with
      | none => rfl
      | some msg => exact if_neg hne
    | _ => rfl
  unfold lastRead
  rw [h.2, List.findSome?_cons, hnone]

theorem Exec.waiting (h : World.Exec o w r w') (ho : o.Foreign c) : w.Waiting c w' := by
  refine ⟨h.beside ho, h.lastRead_eq ?_⟩
  rintro rfl
  exact ho rfl

theorem Waiting.saysHello (h : w.Waiting c w') (hhello : SaysHello w.log c) :
    SaysHello w'.log c := by
  obtain ⟨hello, hread, hcall⟩ := hhello
  exact ⟨hello, h.read.trans hread, hcall⟩

theorem Waiting.isRegistered (h : w.Waiting c w') :
    w'.state.isRegistered c = w.state.isRegistered c :=
  congrArg Cells.isRegistered h.cells

end World

/-- A program that keeps the gate while it serves a connection. -/
abbrev KeepsGate {α : Type} (c : ConnectionEntry) (p : BusProg α) (w : World)
    (post : World → Prop) : Prop :=
  p.Ensures World.Exec (World.Waiting c) (GateKept c) (fun _ w => post w) w

/-- The connection that calls Hello is registered. -/
theorem BusOp.Exec.isRegistered_swap {c' : ConnectionEntry} {r : Bool}
    (h : BusOp.Exec (.swapRegistered c') s r s') (hid : c'.id = c.id) :
    s'.isRegistered c = true := by
  have howner : (BusOp.swapRegistered c').cellOwner.map ConnectionEntry.id = some c.id :=
    congrArg some hid
  show (s'.cells c.id).isRegistered = true
  rw [h.cells, if_pos howner]
  rfl

/-- **Once a connection is registered, it is past the gate.** -/
theorem keepsGate_of_registered {α : Type} {p : BusProg α} (hreg : w.state.isRegistered c = true) :
    KeepsGate c p w fun _ => True := by
  have hensures : KeepsGate c p w fun w => w.state.isRegistered c = true := by
    refine Prog.Only.ensures (P := fun _ => True) ?_ (fun w w' hreg hw => ?_)
      (fun o w r w' _ hreg hexec => ⟨fun hnot => ?_, hexec.1.isRegistered hreg⟩) hreg
    · induction p with
      | ret a => trivial
      | call o k ih => exact ⟨trivial, ih⟩
    · rw [hw.isRegistered]
      exact hreg
    · rw [hreg] at hnot
      cases hnot
  exact hensures.mono fun _ _ _ => trivial

/-- The operations that never get past the gate. -/
def Harmless (c : ConnectionEntry) : BusOp → Prop
  | .allConnections => True
  | .isMonitor _ => True
  | .isRegistered _ => True
  | .driverSerial => True
  | .write c' m => c' = c ∧ DriverBuilt m
  | _ => False

theorem Harmless.gated (ho : Harmless c o) (h : o.Exec s r s') : Gated c o s s' := by
  cases o with
  | driverSerial =>
    rw [h.2]
    exact ⟨rfl, rfl, rfl, nofun, nofun, nofun⟩
  | write c' m =>
    rw [h.2]
    refine ⟨rfl, rfl, rfl, nofun, fun c'' m' heq => ?_, nofun⟩
    cases heq
    exact ho
  | allConnections =>
    rw [h.2]
    exact ⟨rfl, rfl, rfl, nofun, nofun, nofun⟩
  | isMonitor =>
    rw [h.2]
    exact ⟨rfl, rfl, rfl, nofun, nofun, nofun⟩
  | isRegistered =>
    rw [h.2]
    exact ⟨rfl, rfl, rfl, nofun, nofun, nofun⟩
  | _ => exact ho.elim

/-- They go unnoticed by the connection. -/
theorem Harmless.waiting (ho : Harmless c o) (h : World.Exec o w r w') : w.Waiting c w' := by
  refine h.waiting ?_
  cases o with
  | driverSerial => trivial
  | write => trivial
  | allConnections => trivial
  | isMonitor => trivial
  | isRegistered => trivial
  | _ => exact ho.elim

theorem keepsGate_of_only {α : Type} {p : BusProg α} (h : p.Only (Harmless c)) :
    KeepsGate c p w fun w' => w.Waiting c w' :=
  h.ensures (fun _ _ => World.Waiting.trans)
    (fun _ _ _ _ ho hw hexec => ⟨fun _ => .inl (ho.gated hexec.1), hw.trans (ho.waiting hexec)⟩)
    (.refl c w)

namespace Dispatch

/-- A copy for one connection is written if it is a monitor, and a monitor it
stays. -/
theorem keepsGate_copyToMonitor (conn : ConnectionEntry) :
    KeepsGate c (copyToMonitor msg conn) w fun w' => w.Waiting c w' := by
  intro w₁ isMonitor w₁' h₁ hmonitor
  have hw₁ := h₁.trans (hmonitor.waiting trivial)
  refine ⟨fun _ => .inl (Harmless.gated trivial hmonitor.1), ?_⟩
  obtain ⟨hr, hs⟩ : isMonitor = w₁.state.isMonitor conn ∧ w₁'.state = w₁.state := hmonitor.1
  cases isMonitor with
  | false => exact hw₁
  | true =>
    intro w₂ _ w₂' h₂ hspawn
    refine ⟨fun _ => .inl ?_, (hw₁.trans h₂).trans (hspawn.waiting trivial)⟩
    have hsame : w₂'.state = w₂.state := hspawn.1
    rw [hsame]
    refine ⟨rfl, rfl, rfl, nofun, nofun, fun c' m heq => ?_⟩
    cases heq
    refine h₂.monitor conn ?_
    rw [hs, ← hr]

/-- The message is copied for monitors only. -/
theorem keepsGate_deliverToMonitors :
    KeepsGate c (deliverToMonitors msg) w fun w' => w.Waiting c w' := by
  intro w₁ conns w₁' h₁ hconns
  refine ⟨fun _ => .inl (Harmless.gated trivial hconns.1), ?_⟩
  refine Prog.ensures_forEach (fun conn _ w₂ hw₂ => ?_) (h₁.trans (hconns.waiting trivial))
  exact (keepsGate_copyToMonitor conn).mono fun _ _ => hw₂.trans

/-- The driver's error for a connection goes to the connection. -/
theorem harmless_replyError (errorName message : String) :
    (replyError c msg errorName message).Only (Harmless c) :=
  Prog.only_ite trivial
    ⟨trivial, fun serial =>
     ⟨⟨rfl, .reply msg (.error ⟨errorName, message⟩) serial⟩, fun _ => trivial⟩⟩

/-- **Hello opens the gate**: first of all the flag is set. -/
theorem keepsGate_hello (hcall : isHelloCall msg = true) (hhello : SaysHello w.log c) :
    KeepsGate c (dispatchByType bus c msg) w fun _ => True := by
  rw [dispatchByType_of_isHelloCall hcall]
  intro w₁ wasRegistered w₁' h₁ hswap
  exact ⟨fun _ => .inr ⟨rfl, h₁.saysHello hhello⟩,
    keepsGate_of_registered (hswap.1.isRegistered_swap rfl)⟩

/-- **A dispatch keeps the gate**, once its message is logged. -/
theorem keepsGate_dispatchIncoming (hread : lastRead w.log c = some msg) :
    KeepsGate c (dispatchIncoming bus c msg) w fun _ => True := by
  refine Prog.ensures_bind (keepsGate_deliverToMonitors.mono fun _ w₁ hw₁ => ?_)
  intro w₂ isRegistered w₂' h₂ hexec
  have hw₂' := (hw₁.trans h₂).trans (hexec.waiting trivial)
  refine ⟨fun _ => .inl (Harmless.gated trivial hexec.1), ?_⟩
  obtain ⟨hr, hs⟩ : isRegistered = w₂.state.isRegistered c ∧ w₂'.state = w₂.state := hexec.1
  cases isRegistered with
  | true =>
    refine keepsGate_of_registered ?_
    rw [hs, ← hr]
  | false =>
    refine Prog.ensures_ite (fun _ => ?_) fun hpassed => ?_
    · exact (keepsGate_of_only (harmless_replyError _ _)).mono fun _ _ _ => trivial
    have hcall : isHelloCall (msg.setSender c.uniqueName) = true := by simpa using hpassed
    refine keepsGate_hello hcall (hw₂'.saysHello ⟨msg, hread, ?_⟩)
    rw [isHelloCall_setSender] at hcall
    exact hcall

end Dispatch

/-! ## Whole runs -/

/-- What a job still does keeps the gate. -/
def Job.KeepsGate (j : Job) (w : World) : Prop :=
  match j with
  | serving c p => Oxibus.KeepsGate c p w fun _ => True
  | _ => True

theorem keepsGate_step (h : j.KeepsGate w) (hstep : JobStep bus j o r j')
    (hexec : World.Exec o w r w') : j'.KeepsGate w' ∧ ∀ j ∈ o.spawned, j.KeepsGate w' := by
  refine ⟨?_, BusOp.forall_mem_spawned fun _ _ => trivial⟩
  cases hstep with
  | @read c msg =>
    refine Dispatch.keepsGate_dispatchIncoming ?_
    have hread : BusEvent.readFrom c ⟨w.state, .readMessage c, some msg⟩ = some msg := if_pos rfl
    unfold lastRead
    rw [hexec.2, List.findSome?_cons, hread]
  | dispatch => exact (h w r w' (.refl _ w) hexec).2
  | _ => trivial

theorem keepsGate_stable (h : j.KeepsGate w) (ho : ∀ c, j.entry = some c → o.Foreign c)
    (hexec : World.Exec o w r w') : j.KeepsGate w' := by
  cases j with
  | serving c p =>
    exact Prog.Ensures.interfere h (fun _ _ _ => World.Waiting.trans) (fun _ _ _ _ _ => trivial)
      (hexec.waiting (ho c rfl))
  | _ => trivial

/-- The job that serves a connection keeps its gate. -/
theorem Daemon.Reachable.gated (h : Reachable bus S) {i : ℕ} {p : BusProg Unit}
    (hj : S.jobs[i]? = some (.serving c p)) (hstep : JobStep bus (.serving c p) o r j')
    (hexec : World.Exec o S.world r w) (hreg : S.world.state.isRegistered c = false) :
    Gated c o S.world.state w.state ∨ (o = .swapRegistered c ∧ SaysHello S.world.log c) := by
  have hkeeps := (h.secure (J := fun j w => j.KeepsGate w) (P := fun _ _ => True)
    (fun _ _ => trivial) (fun hj _ hstep hexec => ⟨trivial, keepsGate_step hj hstep hexec⟩)
    keepsGate_stable).2 i _ hj
  have hread : o = .readMessage c → Gated c o S.world.state w.state := by
    rintro rfl
    rw [hexec.1.2]
    exact ⟨rfl, rfl, rfl, nofun, nofun, nofun⟩
  cases hstep with
  | read => exact .inl (hread rfl)
  | readFailed => exact .inl (hread rfl)
  | dispatch => exact (hkeeps _ r w (.refl _ _) hexec).1 hreg

/-- Who registers a connection is the job that serves it. -/
theorem JobStep.serving_of_swapRegistered {r : Bool}
    (hstep : JobStep bus j (.swapRegistered c) r j') (hsettled : j.Settled s) :
    ∃ p, j = .serving c p := by
  cases hstep with
  | @dispatch c' o k r =>
    obtain rfl : c = c' := hsettled.2.1
    exact ⟨_, rfl⟩
  | @announce o k r =>
    -- nobody is served: the call would be for two connections at once
    have hone : c = ⟨1, ⟨0, 0, 0⟩, none⟩ := (hsettled _).1
    have htwo : c = ⟨2, ⟨0, 0, 0⟩, none⟩ := (hsettled _).1
    exact absurd (hone.symm.trans htwo) (by decide)

/-- **A connection is registered by an operation of its own.** -/
theorem BusOp.Exec.swapRegistered (h : o.Exec s r s')
    (hne : s'.isRegistered c ≠ s.isRegistered c) :
    ∃ c', o = .swapRegistered c' ∧ c'.id = c.id ∧ s.isRegistered c = false ∧
      s'.isRegistered c = true := by
  have hcells := h.cells c.id
  have hsome : ∃ c', o = .swapRegistered c' ∧ c'.id = c.id := by
    by_contra hnone
    refine hne ?_
    show (s'.cells c.id).isRegistered = (s.cells c.id).isRegistered
    rw [hcells]
    split
    · next hid =>
      cases o with
      | swapRegistered c' => exact absurd ⟨c', rfl, Option.some.inj hid⟩ hnone
      | _ => rfl
    · rfl
  obtain ⟨c', rfl, hid⟩ := hsome
  have htrue : s'.isRegistered c = true := h.isRegistered_swap hid
  refine ⟨c', rfl, hid, ?_, htrue⟩
  rw [htrue] at hne
  exact Bool.eq_false_iff.mpr (Ne.symm hne)

/-- **The gate before Hello**, in one state of the daemon: as long as a connection
is not registered, nothing the job that serves it does next gets past the
gate, but for the call of Hello; copies are written to monitors only; and if
a step changes whether a connection is registered, then it registers it, and
is the job's that serves the connection for a call of Hello. -/
structure HelloGate (bus : Bus) (S : Daemon) : Prop where
  gated : ∀ {i : ℕ} {c : ConnectionEntry} {p : BusProg Unit} {o : BusOp} {r : o.Res} {j' : Job}
    {w : World}, S.jobs[i]? = some (.serving c p) → JobStep bus (.serving c p) o r j' →
    World.Exec o S.world r w → S.world.state.isRegistered c = false →
    Gated c o S.world.state w.state ∨ (o = .swapRegistered c ∧ SaysHello S.world.log c)
  copies : ∀ c m, .copying c m ∈ S.jobs → S.world.state.isMonitor c = true
  once : ∀ {i : ℕ} {j j' : Job} {o : BusOp} {r : o.Res} {w : World} {c : ConnectionEntry},
    S.jobs[i]? = some j → JobStep bus j o r j' → World.Exec o S.world r w →
    w.state.isRegistered c ≠ S.world.state.isRegistered c →
    S.world.state.isRegistered c = false ∧ w.state.isRegistered c = true ∧
      ∃ c' p, j = .serving c' p ∧ c'.id = c.id ∧ SaysHello S.world.log c'

/-- **The gate holds in every state a run leads to.** -/
theorem hello_gate (bus : Bus) (S : Daemon) (h : Reachable bus S) : HelloGate bus S where
  gated := h.gated
  copies c m hmem :=
    (h.guarantee (fun _ _ => trivial) keepsAddressed_step Job.KeepsAddressed.stable).2 _ hmem
  once {i j j' o r w c} hj hstep hexec hne := by
    obtain ⟨c', rfl, hid, hfalse, htrue⟩ := hexec.1.swapRegistered hne
    obtain ⟨p, rfl⟩ := hstep.serving_of_swapRegistered (h.sessions.settled hj)
    have hfalse' : S.world.state.isRegistered c' = false := by
      rw [BusState.isRegistered, hid]
      exact hfalse
    rcases h.gated hj hstep hexec hfalse' with hgated | ⟨-, hhello⟩
    · exact absurd (congrArg (fun cells => (cells c.id).isRegistered) hgated.cells) hne
    · exact ⟨hfalse, htrue, c', p, rfl, hid, hhello⟩

/-- The gate holds for a client that says Hello. -/
theorem hello_gate_alone : HelloGate plainBus (Daemon.new.replay plainBus helloScript) :=
  hello_gate plainBus _ (reachable_replay reachable_new helloScript)

end Oxibus
