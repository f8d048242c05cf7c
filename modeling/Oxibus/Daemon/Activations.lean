import Oxibus.Daemon.Annotated
import Oxibus.Daemon.Monitors

/-!
# Activations

A task that has to do with a name nobody owns has the service of the name
started, and looks for an owner again and again until there is one or its
time is up. It has looked for an owner before, and that is all that keeps it
from starting what another task has just started: in the meantime there is no
owner, and nothing else says that an activation is going on.

A name is `Supervised` when every task's activation of it is followed beside
the daemon, from the spawn to its end. As long as no task finds the name
without an owner, to start its service, while another one has got so far and
is not done, no process is started while an activation is pending
(`not_startsAgain_of_careful`).
-/

namespace Oxibus

open BusProg Relation Daemon

variable {bus : Bus} {n : String} {o : BusOp} {r : o.Res} {s s' : BusState}

/-! ## The activation of a name by one task -/

/-- **How far a task is with the activation of a name.** -/
inductive Activation where
  /-- It has none, or the name has had an owner since it started the service. -/
  | idle
  /-- It has started the service. -/
  | started
  /-- It will look for an owner this many times. -/
  | waiting (looks : ℕ)
  deriving DecidableEq, Repr

/-- The service is started, and the time to wait for an owner is not up. -/
def Activation.isPending : Activation → Bool
  | idle => false
  | started => true
  | waiting looks => looks != 0

/-- **What an operation of a task makes of its activation of a name.** -/
def BusOp.activation (n : String) : (o : BusOp) → o.Res → Activation → Activation
  | .spawnService name, none, a => if name = n then .started else a
  | .pollCount, looks, .started => .waiting looks
  | .getNameOwner name, owner, .waiting (looks + 1) =>
    if name = n then if owner.isSome then .idle else .waiting looks else .waiting (looks + 1)
  | _, _, a => a

/-- An operation that does not start the service starts no activation. -/
theorem BusOp.isPending_activation {a : Activation} (ho : o ≠ .spawnService n)
    (h : a.isPending = false) : (o.activation n r a).isPending = false := by
  cases o with
  | spawnService name =>
    cases r with
    | some e => exact h
    | none =>
      have hname : name ≠ n := fun hname => ho (congrArg BusOp.spawnService hname)
      show (if name = n then Activation.started else a).isPending = false
      rwa [if_neg hname]
  | pollCount =>
    cases a with
    | started => cases h
    | idle => rfl
    | waiting => exact h
  | getNameOwner name =>
    cases a with
    | waiting looks =>
      cases looks with
      | zero => rfl
      | succ => cases h
    | idle => rfl
    | started => cases h
  | _ => exact h

/-! ## Programs that start a service -/

/-- **A program that is about to start the service of a name**: it may start it
without looking for an owner again. -/
abbrev StartsNext {α : Type} (n : String) (p : BusProg α) : Prop :=
  p.MayReach (· ≠ .getNameOwner n) (· = .spawnService n)

/-- What becomes of an activation, with what others do: it lapses when the
name gets an owner. -/
def Activation.Lapses (a a' : Activation) : Prop := a' = a ∨ a' = .idle

/-- **A program that never starts a service while its own activation is
pending**, and has ended it when it returns. -/
abbrev StartsOnce {α : Type} (n : String) (p : BusProg α) (a : Activation) : Prop :=
  p.Ensures (fun o a r a' => a' = o.activation n r a) Activation.Lapses
    (fun o a _ _ => o = .spawnService n → a.isPending = false) (fun _ a => a.isPending = false) a

/-- **A program that looks before it starts a service**, and starts it once. -/
structure Considerate {α : Type} (n : String) (p : BusProg α) : Prop where
  looks : ¬ StartsNext n p
  once : ∀ a, a.isPending = false → StartsOnce n p a

section Programs

variable {α β : Type} {p : BusProg α} {f : α → BusProg β} {a a' : Activation}

theorem Activation.Lapses.trans {a'' : Activation} (h : a.Lapses a') (h' : a'.Lapses a'') :
    a.Lapses a'' := by
  rcases h' with rfl | rfl
  · exact h
  · exact .inr rfl

theorem Activation.Lapses.isPending (h : a.Lapses a') (ha : a.isPending = false) :
    a'.isPending = false := by
  rcases h with rfl | rfl
  · exact ha
  · rfl

/-- A program that is about to start a service stands at the spawn, or goes on
without a look. -/
theorem startsNext_call {k : o.Res → BusProg α} :
    StartsNext n (.call o k) ↔
      o = .spawnService n ∨ o ≠ .getNameOwner n ∧ ∃ r, StartsNext n (k r) := by
  constructor
  · intro h
    cases h with
    | here h => exact .inl h
    | later r ho h => exact .inr ⟨ho, r, h⟩
  · rintro (h | ⟨ho, r, h⟩)
    · exact .here h
    · exact .later r ho h

theorem startsNext_bind (h : StartsNext n (p >>= f)) :
    StartsNext n p ∨ ∃ a, StartsNext n (f a) := by
  induction p with
  | ret a => exact .inr ⟨a, h⟩
  | call o k ih =>
    rcases startsNext_call.mp h with ho | ⟨ho, r, h⟩
    · exact .inl (.here ho)
    · rcases ih r h with h | h
      · exact .inl (.later r ho h)
      · exact .inr h

namespace Considerate

/-- A program that starts no service. -/
theorem of_only (h : p.Only (· ≠ .spawnService n)) : Considerate n p where
  looks := by
    induction p with
    | ret a => exact Prog.not_mayReach_ret a
    | call o k ih =>
      intro hstarts
      rcases startsNext_call.mp hstarts with ho | ⟨-, r, hr⟩
      · exact h.1 ho
      · exact ih r (h.2 r) hr
  once := by
    intro a ha
    have henv : ∀ a a' : Activation, a.isPending = false → a.Lapses a' → a'.isPending = false :=
      fun a a' ha hlapses => hlapses.isPending ha
    refine h.ensures henv ?_ ha
    rintro o a r a' ho ha rfl
    exact ⟨fun hspawn => absurd hspawn ho, BusOp.isPending_activation ho ha⟩

theorem ret (a : α) : Considerate n (.ret a : BusProg α) := of_only trivial

theorem bind (hp : Considerate n p) (hf : ∀ a, Considerate n (f a)) : Considerate n (p >>= f) where
  looks := by
    intro h
    rcases startsNext_bind h with h | ⟨a, h⟩
    · exact hp.looks h
    · exact (hf a).looks h
  once := fun a ha => Prog.ensures_bind ((hp.once a ha).mono fun b a' ha' => (hf b).once a' ha')

/-- A look for the owner of the name: what comes then may start its service. -/
theorem look {k : Option String → BusProg α}
    (h : ∀ owner a, a.isPending = false → StartsOnce n (k owner) a) :
    Considerate n (.call (.getNameOwner n) k) where
  looks := by
    intro hstarts
    rcases startsNext_call.mp hstarts with ho | ⟨ho, -⟩
    · cases ho
    · exact ho rfl
  once := by
    rintro a ha a₁ owner a₂ hlapses rfl
    exact ⟨nofun, h owner _ (BusOp.isPending_activation nofun (hlapses.isPending ha))⟩

theorem ite {c : Prop} [Decidable c] {q : BusProg α} (hp : Considerate n p) (hq : Considerate n q) :
    Considerate n (if c then p else q) := by
  by_cases hc : c
  · rwa [if_pos hc]
  · rwa [if_neg hc]

end Considerate

end Programs

/-! ## The programs of the daemon -/

theorem Dispatch.Telling.ne_spawnService {Q : ConnectionEntry → Message → Prop}
    (ho : Dispatch.Telling Q o) : o ≠ .spawnService n := by
  rintro rfl
  exact ho

namespace Driver

variable {caller : ConnectionEntry} {args : List Value} {name : String}

theorem only_resolveConnection_ne : (resolveConnection name).Only (· ≠ .spawnService n) := by
  refine ⟨nofun, fun owner => ?_⟩
  cases owner with
  | some owner => exact ⟨nofun, fun _ => trivial⟩
  | none => trivial

theorem only_withConnection_ne {f : ConnectionEntry → List Value} :
    (withConnection args f).Only (· ≠ .spawnService n) := by
  refine only_withArgStr fun name _ => Prog.only_bind only_resolveConnection_ne fun conn => ?_
  cases conn <;> trivial

/-- **The wait for an owner ends the activation.** -/
theorem startsOnce_waitForOwner (polls : ℕ) {a : Activation}
    (ha : (Activation.waiting polls).Lapses a) :
    StartsOnce n (waitForOwner n polls) a := by
  induction polls generalizing a with
  | zero => exact ha.isPending rfl
  | succ polls ih =>
    rintro a₁ owner a₂ hlapses rfl
    refine ⟨nofun, ?_⟩
    rcases ha.trans hlapses with rfl | rfl
    · -- it looks once more
      show StartsOnce n (if owner.isSome then _ else waitForOwner n polls)
        (if n = n then if owner.isSome then .idle else .waiting polls else .waiting (polls + 1))
      rw [if_pos rfl]
      cases owner with
      | some owner => exact rfl
      | none => exact ih (.inl rfl)
    · cases owner with
      | some owner => exact rfl
      | none => exact ih (.inr rfl)

theorem only_activateAndWait_ne (hname : name ≠ n) :
    (activateAndWait name).Only (· ≠ .spawnService n) := by
  have hwait : ∀ polls, (waitForOwner name polls).Only (· ≠ .spawnService n) := by
    intro polls
    induction polls with
    | zero => trivial
    | succ polls ih => exact ⟨nofun, fun owner => Prog.only_ite trivial ih⟩
  refine ⟨fun h => hname (BusOp.spawnService.inj h), fun started => ?_⟩
  cases started with
  | some e => trivial
  | none => exact ⟨nofun, fun _ => ⟨nofun, hwait⟩⟩

/-- **A service is started once.** -/
theorem startsOnce_activateAndWait {a : Activation} (ha : a.isPending = false) :
    StartsOnce n (activateAndWait name) a := by
  by_cases hname : name = n
  · subst hname
    rintro a₁ started a₂ hlapses rfl
    refine ⟨fun _ => hlapses.isPending ha, ?_⟩
    cases started with
    | some e => exact hlapses.isPending ha
    | none =>
      have hstarted : BusOp.activation name (.spawnService name) none a₁ = .started := if_pos rfl
      rw [hstarted]
      rintro a₂ - a₃ hlapses rfl
      refine ⟨nofun, ?_⟩
      rintro a₃ polls a₄ hlapses' rfl
      refine ⟨nofun, startsOnce_waitForOwner polls ?_⟩
      rcases hlapses.trans hlapses' with rfl | rfl
      · exact .inl rfl
      · exact .inr rfl
  · exact (Considerate.of_only (only_activateAndWait_ne hname)).once a ha

/-- `StartServiceByName` looks for an owner first. -/
theorem considerate_handleStartService : Considerate n (handleStartService bus args) := by
  unfold handleStartService withArgStr
  split
  · next name _ =>
    by_cases hname : name = n
    · subst hname
      refine Considerate.look fun owner a ha => ?_
      refine Prog.ensures_ite (fun _ => ha) fun _ => Prog.ensures_ite (fun _ => ha) fun _ => ?_
      refine Prog.ensures_bind ((startsOnce_activateAndWait ha).mono fun failure a ha => ?_)
      cases failure <;> exact ha
    · refine .of_only ⟨nofun, fun owner => Prog.only_ite trivial (Prog.only_ite trivial ?_)⟩
      refine Prog.only_bind (only_activateAndWait_ne hname) fun failure => ?_
      cases failure <;> trivial
  · exact .ret _

/-- The other methods of the driver start nothing. -/
theorem considerate_handle (member : String) : Considerate n (handle bus caller member args) := by
  have hhas : (handleNameHasOwner args).Only (· ≠ .spawnService n) := by
    unfold handleNameHasOwner
    split
    · exact ⟨nofun, fun _ => trivial⟩
    · trivial
  have hget : (handleGetNameOwner args).Only (· ≠ .spawnService n) := by
    refine only_withArgStr fun name _ => ⟨nofun, fun owner => ?_⟩
    cases owner <;> trivial
  have hrequest : (handleRequestName bus caller args).Only (· ≠ .spawnService n) := by
    refine only_withArgStr fun name _ => ?_
    split
    · trivial
    · trivial
    · refine Prog.only_ite ⟨nofun, fun _ => trivial⟩ (Prog.only_ite ⟨nofun, fun _ => trivial⟩ ?_)
      exact ⟨nofun, fun held => Prog.only_ite trivial ⟨nofun, fun _ => trivial⟩⟩
  have hrelease : (handleReleaseName caller args).Only (· ≠ .spawnService n) :=
    only_withArgStr fun name _ => ⟨nofun, fun _ => trivial⟩
  have hqueued : (handleListQueuedOwners args).Only (· ≠ .spawnService n) :=
    only_withArgStr fun name _ => ⟨nofun, fun _ => trivial⟩
  have hadd : (handleAddMatch bus caller args).Only (· ≠ .spawnService n) := by
    refine only_withArgStr fun text _ => ⟨nofun, fun rules => Prog.only_ite trivial ?_⟩
    split
    · exact ⟨nofun, fun _ => trivial⟩
    · trivial
    · trivial
  have hremove : (handleRemoveMatch caller args).Only (· ≠ .spawnService n) := by
    refine only_withArgStr fun raw _ => ⟨nofun, fun removed => ?_⟩
    cases removed <;> trivial
  have henv : (handleUpdateActivationEnv bus args).Only (· ≠ .spawnService n) := by
    refine Prog.only_ite trivial ?_
    split
    · exact ⟨nofun, fun _ => trivial⟩
    · trivial
  refine .ite (.of_only ⟨nofun, fun wasRegistered => ?_⟩) ?_
  · cases wasRegistered <;> trivial
  refine .ite (.of_only hrequest) (.ite (.of_only hrelease) ?_)
  refine .ite (.of_only ⟨nofun, fun _ => trivial⟩) (.ite (.ret _) ?_)
  refine .ite (.of_only hhas) (.ite (.of_only hget) (.ite (.of_only hqueued) ?_))
  refine .ite considerate_handleStartService ?_
  refine .ite (.of_only hadd) (.ite (.of_only hremove) ?_)
  refine .ite (.of_only only_withConnection_ne) (.ite (.of_only only_withConnection_ne) ?_)
  refine .ite (.of_only only_withConnection_ne) (.ite (.ret _) ?_)
  exact .ite (.of_only henv) (.ite (.ret _) (.ret _))

end Driver

namespace Dispatch

variable {sender : ConnectionEntry} {msg : Message}

theorem considerate_of_telling {α : Type} {p : BusProg α} (h : p.Only (Telling fun _ _ => True)) :
    Considerate n p :=
  .of_only (h.mono fun _ => Telling.ne_spawnService)

theorem considerate_replyError (errorName message : String) :
    Considerate n (replyError sender msg errorName message) :=
  considerate_of_telling (telling_replyError (fun _ _ _ => trivial) _ _ _)

theorem considerate_handleSideInterface {interface : Option String} {member : String}
    {args : List Value} {outcome : BusProg DriverOutcome}
    (h : handleSideInterface bus sender interface member args = some outcome) :
    Considerate n outcome := by
  have hstats : getStats.Only (· ≠ .spawnService n) :=
    ⟨nofun, fun _ => ⟨nofun, fun _ => ⟨nofun, fun _ => ⟨nofun, fun _ => trivial⟩⟩⟩⟩
  have hconnection : (getConnectionStats args).Only (· ≠ .spawnService n) := by
    unfold getConnectionStats
    split
    · refine Prog.only_bind Driver.only_resolveConnection_ne fun conn => ?_
      cases conn with
      | some conn => exact ⟨nofun, fun _ => trivial⟩
      | none => trivial
    · trivial
  unfold handleSideInterface at h
  split at h
  · rw [← Option.some.inj h]
    exact .ret _
  split at h
  · rw [← Option.some.inj h]
    exact .ret _
  split at h
  · rw [← Option.some.inj h]
    exact .ite (.of_only hstats) (.ite (.of_only hconnection) (.ret _))
  split at h
  · rw [← Option.some.inj h]
    exact .ite (.of_only ⟨nofun, fun _ => ⟨nofun, fun _ => trivial⟩⟩) (.ret _)
  · cases h

theorem considerate_handleDriverCall : Considerate n (handleDriverCall bus sender msg) := by
  refine .bind ?_ fun outcome => ?_
  · unfold driverOutcome
    dsimp only
    split
    · next outcome h => exact considerate_handleSideInterface h
    · exact Driver.considerate_handle _
  · refine .bind (considerate_of_telling ?_) fun _ => .ite (.ret _) (considerate_of_telling ?_)
    · exact telling_broadcastNameOwnerChanges (fun _ _ _ _ => trivial) _
    · exact telling_sendFromDriver fun _ => trivial

theorem considerate_deliverToOwner (owner : String) :
    Considerate n (deliverToOwner bus sender msg owner) :=
  considerate_of_telling (telling_deliverToOwner (fun _ _ _ => trivial) (fun _ _ => trivial) _)

/-- A call to a name without an owner starts the service of the name. -/
theorem startsOnce_activateAndDeliver {dest : String} {a : Activation} (ha : a.isPending = false) :
    StartsOnce n (activateAndDeliver bus sender msg dest) a := by
  refine Prog.ensures_ite (fun _ => (considerate_replyError _ _).once a ha) fun _ => ?_
  refine Prog.ensures_bind ((Driver.startsOnce_activateAndWait ha).mono fun failure a ha => ?_)
  cases failure with
  | some e => exact (considerate_replyError _ _).once a ha
  | none =>
    rintro a₁ owner a₂ hlapses rfl
    have ha₂ := BusOp.isPending_activation (o := .getNameOwner dest) (n := n) (r := owner) nofun
      (hlapses.isPending ha)
    refine ⟨nofun, ?_⟩
    cases owner with
    | some owner => exact (considerate_deliverToOwner owner).once _ ha₂
    | none => exact (considerate_replyError _ _).once _ ha₂

theorem only_activateAndDeliver_ne {dest : String} (hdest : dest ≠ n) :
    (activateAndDeliver bus sender msg dest).Only (· ≠ .spawnService n) := by
  have hreply : ∀ errorName message,
      (replyError sender msg errorName message).Only (· ≠ .spawnService n) :=
      fun errorName message =>
    (telling_replyError (Q := fun _ _ => True) (fun _ _ _ => trivial) _ _ _).mono
      fun _ => Telling.ne_spawnService
  refine Prog.only_ite (hreply _ _) ?_
  refine Prog.only_bind (Driver.only_activateAndWait_ne hdest) fun failure => ?_
  cases failure with
  | some e => exact hreply _ _
  | none =>
    refine ⟨nofun, fun owner => ?_⟩
    cases owner with
    | some owner =>
      exact (telling_deliverToOwner (Q := fun _ _ => True) (fun _ _ _ => trivial)
        (fun _ _ => trivial) owner).mono fun _ => Telling.ne_spawnService
    | none => exact hreply _ _

/-- A method call looks for an owner of its destination before it has a service
started. -/
theorem considerate_dispatchMethodCall : Considerate n (dispatchMethodCall bus sender msg) := by
  have hdenied : ∀ errorName message, Considerate n (do
      op (.record .denial)
      replyError sender msg errorName message : BusProg Unit) := fun errorName message =>
    considerate_of_telling
      ⟨trivial, fun _ => telling_replyError (fun _ _ _ => trivial) _ _ _⟩
  unfold dispatchMethodCall
  split
  · exact considerate_replyError _ _
  · next dest _ =>
    refine .ite considerate_handleDriverCall (.ite (hdenied _ _) ?_)
    refine .bind (.of_only Driver.only_resolveConnection_ne) fun dstConn => .ite (hdenied _ _) ?_
    by_cases hdest : dest = n
    · subst hdest
      refine Considerate.look fun owner a ha => ?_
      cases owner with
      | some owner => exact (considerate_deliverToOwner owner).once a ha
      | none => exact startsOnce_activateAndDeliver ha
    · refine .of_only ⟨nofun, fun owner => ?_⟩
      cases owner with
      | some owner =>
        exact (telling_deliverToOwner (Q := fun _ _ => True) (fun _ _ _ => trivial)
          (fun _ _ => trivial) owner).mono fun _ => Telling.ne_spawnService
      | none => exact only_activateAndDeliver_ne hdest

theorem considerate_dispatchSignal : Considerate n (dispatchSignal bus sender msg) := by
  have hrecord : Considerate n (op (.record .denial)) := .of_only ⟨nofun, fun _ => trivial⟩
  refine .ite hrecord (.ite hrecord ?_)
  split
  · refine .bind (.of_only Driver.only_resolveConnection_ne) fun conn => ?_
    cases conn with
    | some conn => exact considerate_of_telling (telling_broadcastWrite trivial)
    | none => exact .ret _
  · exact considerate_of_telling (telling_broadcastSignal _ fun _ _ => trivial)

theorem considerate_dispatchReply : Considerate n (dispatchReply msg) := by
  unfold dispatchReply
  split
  · refine .bind (.of_only Driver.only_resolveConnection_ne) fun conn => ?_
    cases conn with
    | some conn => exact .of_only ⟨nofun, fun _ => ⟨nofun, fun _ => trivial⟩⟩
    | none => exact .ret _
  · exact .ret _

/-- **What happens to a message looks before it starts a service**, and starts it
once. -/
theorem considerate_dispatchIncoming : Considerate n (dispatchIncoming bus sender msg) := by
  have hcopy : ∀ {o : BusOp}, Copying o → o ≠ .spawnService n := by
    rintro o ho rfl
    exact ho
  refine .bind (.of_only (copying_deliverToMonitors.mono fun _ => hcopy)) fun _ => ?_
  refine .bind (.of_only ⟨nofun, fun _ => trivial⟩) fun isRegistered => ?_
  refine .ite (considerate_replyError _ _) ?_
  unfold dispatchByType
  split
  · exact considerate_dispatchSignal
  · exact considerate_dispatchMethodCall
  · exact considerate_dispatchReply
  · exact considerate_dispatchReply

end Dispatch

/-! ## A name under supervision -/

/-- The job is about to start the service of a name: it has found no owner. -/
def Job.StartsNext (n : String) (j : Job) : Prop :=
  ∃ p, j.program = some p ∧ Oxibus.StartsNext n p

/-- The job looks for the owner of a name. -/
def Job.Looks (n : String) (j : Job) : Prop :=
  ∃ k, j.program = some (.call (.getNameOwner n) k)

/-- A job at rest is at the end of its program. -/
theorem Job.eq_ret_of_isResting {j : Job} {p : BusProg Unit} (h : j.isResting = true)
    (hp : j.program = some p) : p = .ret () := by
  cases j with
  | serving c q =>
    cases hp
    cases p with
    | ret => rfl
    | call => cases h
  | announcing q =>
    cases hp
    cases p with
    | ret => rfl
    | call => cases h
  | _ => cases hp

/-- The job stands at the spawn of a service. -/
def Job.spawns (n : String) : Job → Bool
  | serving _ (.call (.spawnService name) _) => name == n
  | _ => false

/-- The activations after an operation of a job. When the name has an owner, all
of them are over. -/
def activationsAfter (n : String) (i : ℕ) (o : BusOp) (r : o.Res) (w : World)
    (activations : ℕ → Activation) : ℕ → Activation :=
  if (w.state.registry.getNameOwner n).isSome then fun _ => .idle
  else Function.update activations i (o.activation n r (activations i))

/-- **What is noted of the activations of a name**: how far each job is. -/
def supervision (n : String) : Annotation (ℕ → Activation) where
  initial := fun _ => .idle
  after := fun _ i _ o r w activations => activationsAfter n i o r w activations

/-- The daemon, and how far each job is with the activation of a name. -/
abbrev Supervised : Type := Annotated (ℕ → Activation)

namespace Supervised

/-- A job is engaged in the activation of the name: it is about to start the
service, or it has and waits. -/
def Engaged (n : String) (S : Supervised) (i : ℕ) : Prop :=
  (S.note i).isPending = true ∨ ∃ j, S.daemon.jobs[i]? = some j ∧ j.StartsNext n

/-- **A careful step**: a job that looks for an owner of the name, and is then
about to start its service, finds no other job engaged in that. -/
structure Careful (bus : Bus) (n : String) (S S' : Supervised) : Prop where
  step : (supervision n).Step bus S S'
  alone : ∀ (i : ℕ) (j j' : Job), S.daemon.jobs[i]? = some j → j.Looks n →
    S'.daemon.jobs[i]? = some j' → j'.StartsNext n → ∀ k, k ≠ i → ¬ S.Engaged n k

/-- A second process would be started for the name. -/
def StartsAgain (bus : Bus) (n : String) (S : Supervised) : Prop :=
  ∃ (i : ℕ) (j j' : Job), S.daemon.jobs[i]? = some j ∧ JobStep bus j (.spawnService n) none j' ∧
    ∃ k, (S.note k).isPending = true

end Supervised

/-! ## One step of a job -/

namespace JobStep

variable {j j' : Job}

/-- A job that starts a service stands at the spawn. -/
theorem startsNext_of_spawn {r : Option ActivationError}
    (hstep : JobStep bus j (.spawnService n) r j') : j.StartsNext n := by
  cases hstep with
  | dispatch => exact ⟨_, rfl, .here rfl⟩
  | announce => exact ⟨_, rfl, .here rfl⟩

/-- **A job is about to start a service when it has looked for an owner.** -/
theorem looks (hstep : JobStep bus j o r j') (hnot : ¬ j.StartsNext n) (h : j'.StartsNext n) :
    j.Looks n := by
  obtain ⟨p, hp, hstarts⟩ := h
  -- a step of a program: what it may reach now it could reach before
  have hprogram : ∀ {k : o.Res → BusProg Unit}, j.program = some (.call o k) →
      StartsNext n (k r) → j.Looks n := by
    intro k hk hr
    by_cases ho : o = .getNameOwner n
    · subst ho
      exact ⟨k, hk⟩
    · exact absurd ⟨_, hk, .later r ho hr⟩ hnot
  cases hstep with
  | add =>
    cases hp
    exact absurd hstarts (Prog.not_mayReach_ret _)
  | read =>
    cases hp
    exact absurd hstarts Dispatch.considerate_dispatchIncoming.looks
  | dispatch =>
    cases hp
    exact hprogram rfl hstarts
  | @remove c events =>
    cases hp
    have htelling : (Dispatch.broadcastNameOwnerChanges bus events).Only
        (Dispatch.Telling fun _ _ => True) :=
      Dispatch.telling_broadcastNameOwnerChanges (fun _ _ _ _ => trivial) _
    exact absurd hstarts (Dispatch.considerate_of_telling htelling).looks
  | announce =>
    cases hp
    exact hprogram rfl hstarts
  | _ => cases hp

end JobStep

/-- The activation of a job goes with its program: it is over when there is
none. -/
def Job.Supports (n : String) (a : Activation) : Job → Prop
  | serving _ p => StartsOnce n p a
  | announcing p => StartsOnce n p a
  | _ => a.isPending = false

section Jobs

variable {j j' : Job} {a a' : Activation}

theorem Job.Supports.lapses (h : j.Supports n a) (hlapses : a.Lapses a') : j.Supports n a' := by
  have hprogram : ∀ {p : BusProg Unit}, StartsOnce n p a → StartsOnce n p a' := fun hp =>
    hp.interfere (fun _ _ _ => Activation.Lapses.trans)
    (fun _ _ _ hlapses => hlapses.isPending) hlapses
  cases j with
  | serving => exact hprogram h
  | announcing => exact hprogram h
  | _ => exact hlapses.isPending h

/-- **A step of a job and its activation**: no service is started while it is
pending. -/
theorem Job.Supports.step (h : j.Supports n a) (hstep : JobStep bus j o r j') :
    (o = .spawnService n → a.isPending = false) ∧ j'.Supports n (o.activation n r a) := by
  have hprogram : ∀ {k : o.Res → BusProg Unit}, StartsOnce n (.call o k) a →
      (o = .spawnService n → a.isPending = false) ∧ StartsOnce n (k r) (o.activation n r a) :=
    fun hk => hk a r _ (.inl rfl) rfl
  cases hstep with
  | read => exact ⟨nofun, Dispatch.considerate_dispatchIncoming.once _ h⟩
  | dispatch => exact hprogram h
  | @remove c events =>
    have htelling : (Dispatch.broadcastNameOwnerChanges bus events).Only
        (Dispatch.Telling fun _ _ => True) :=
      Dispatch.telling_broadcastNameOwnerChanges (fun _ _ _ _ => trivial) _
    exact ⟨nofun, (Dispatch.considerate_of_telling htelling).once _ h⟩
  | announce => exact hprogram h
  | _ => exact ⟨nofun, h⟩

end Jobs

namespace Supervised

variable {S S' : Supervised} {i k : ℕ} {j j' : Job} {w : World} {a : ℕ → Activation}

/-- The activations of the others lapse at most. -/
theorem lapses_after (h : k ≠ i) : (a k).Lapses (activationsAfter n i o r w a k) := by
  unfold activationsAfter
  split
  · exact .inr rfl
  · rw [Function.update_of_ne h]
    exact .inl rfl

theorem lapses_after_self :
    (o.activation n r (a i)).Lapses (activationsAfter n i o r w a i) := by
  unfold activationsAfter
  split
  · exact .inr rfl
  · rw [Function.update_self]
    exact .inl rfl

/-! ## Careful runs -/

/-- **The invariant**: activations go with programs, and one job at most is
engaged. -/
structure Sound (n : String) (S : Supervised) : Prop where
  supports : ∀ {i : ℕ} {j : Job}, S.daemon.jobs[i]? = some j → j.Supports n (S.note i)
  idle : ∀ i, S.daemon.jobs.length ≤ i → (S.note i).isPending = false
  one : ∀ {i k : ℕ}, S.Engaged n i → S.Engaged n k → i = k

theorem sound_new (n : String) : Sound n (supervision n).new where
  supports := nofun
  idle := fun _ _ => rfl
  one := by
    rintro i k (h | ⟨j, hj, -⟩) -
    · cases h
    · cases hj

/-- Of the others, only those are engaged that were. -/
theorem engaged_of_ne (h : Engaged n ⟨⟨w, S.daemon.jobs.set i j' ++ o.spawned⟩,
    activationsAfter n i o r w S.note⟩ k) (hk : k ≠ i) : S.Engaged n k := by
  rcases h with hpending | ⟨j, hj, hstarts⟩
  · refine .inl ?_
    by_contra hidle
    have hover := (lapses_after (n := n) (o := o) (r := r) (w := w) hk).isPending
      (Bool.eq_false_iff.mpr hidle)
    rw [hover] at hpending
    cases hpending
  · rcases getElem?_next hj with ⟨hki, -⟩ | ⟨-, hj⟩ | hmem
    · exact absurd hki hk
    · exact .inr ⟨j, hj, hstarts⟩
    · obtain ⟨c, msg, rfl⟩ := BusOp.entry_of_mem_spawned hmem
      obtain ⟨p, hp, -⟩ := hstarts
      cases hp

/-- **The job that makes a step is engaged if it was**, or if it has looked for an
owner. -/
theorem engaged_self (hj : S.daemon.jobs[i]? = some j) (hstep : JobStep bus j o r j')
    (h : Engaged n
      ⟨⟨w, S.daemon.jobs.set i j' ++ o.spawned⟩, activationsAfter n i o r w S.note⟩ i) :
    S.Engaged n i ∨ (j.Looks n ∧ j'.StartsNext n) := by
  have hself : (S.daemon.jobs.set i j' ++ o.spawned)[i]? = some j' :=
    Slots.getElem?_set_append_self hj
  by_cases hstarts : j.StartsNext n
  · exact .inl (.inr ⟨j, hj, hstarts⟩)
  rcases h with hpending | ⟨j₁, hj₁, hstarts'⟩
  · refine .inl (.inl ?_)
    have hspawn : o ≠ .spawnService n := by
      rintro rfl
      exact hstarts hstep.startsNext_of_spawn
    by_contra hidle
    have hover := BusOp.isPending_activation (r := r) hspawn (Bool.eq_false_iff.mpr hidle)
    rw [(lapses_after_self (w := w)).isPending hover] at hpending
    cases hpending
  · obtain rfl : j' = j₁ := Option.some.inj (hself.symm.trans hj₁)
    exact .inr ⟨hstep.looks hstarts hstarts', hstarts'⟩

/-- The job of a connection that is accepted is engaged in nothing. -/
theorem engaged_of_accept {peer : PeerCredentials} (h : Engaged n
    { S with daemon := { S.daemon with jobs := S.daemon.jobs ++ [.accepted peer] } } i) :
    S.Engaged n i := by
  rcases h with hpending | ⟨j, hj, hstarts⟩
  · exact .inl hpending
  · rcases getElem?_accept hj with hj | rfl
    · exact .inr ⟨j, hj, hstarts⟩
    · obtain ⟨p, hp, -⟩ := hstarts
      cases hp

theorem Sound.accept (h : S.Sound n) (peer : PeerCredentials) : Sound n
    { S with daemon := { S.daemon with jobs := S.daemon.jobs ++ [.accepted peer] } } := by
  refine ⟨fun hj => ?_, fun i hi => h.idle i ?_, fun hi hk =>
    h.one (engaged_of_accept hi) (engaged_of_accept hk)⟩
  · rcases Slots.getElem?_concat_eq_some.mp hj with hj | ⟨rfl, rfl⟩
    · exact h.supports hj
    · exact h.idle _ le_rfl
  · rw [List.length_append] at hi
    exact Nat.le_of_succ_le hi

/-- **A job makes a step**: if it has looked for an owner and goes on to start the
service, it is the only one that is engaged. -/
theorem Sound.job (h : S.Sound n) (hj : S.daemon.jobs[i]? = some j) (hstep : JobStep bus j o r j')
    (halone : j.Looks n → j'.StartsNext n → ∀ k, k ≠ i → ¬ S.Engaged n k) :
    Sound n ⟨⟨w, S.daemon.jobs.set i j' ++ o.spawned⟩, activationsAfter n i o r w S.note⟩ := by
  have hlt := Slots.lt_length_of_getElem? hj
  refine ⟨fun {k j₁} hk => ?_, fun k hk => ?_, ?_⟩
  · rcases getElem?_next_place hk with ⟨rfl, rfl⟩ | ⟨hne, hk⟩ | ⟨hle, hmem⟩
    · exact ((h.supports hj).step hstep).2.lapses lapses_after_self
    · exact (h.supports hk).lapses (lapses_after hne)
    · obtain ⟨c, msg, rfl⟩ := BusOp.entry_of_mem_spawned hmem
      exact (lapses_after (Nat.lt_of_lt_of_le hlt hle).ne').isPending (h.idle k hle)
  · have hle : S.daemon.jobs.length ≤ k := Nat.le_trans (Slots.length_le_set_append _ _ _ _) hk
    exact (lapses_after (Nat.lt_of_lt_of_le hlt hle).ne').isPending (h.idle k hle)
  · -- if another one is engaged, this one was before
    have hother : ∀ {k}, k ≠ i → S.Engaged n k → ¬ Engaged n
        ⟨⟨w, S.daemon.jobs.set i j' ++ o.spawned⟩, activationsAfter n i o r w S.note⟩ i := by
      intro k hk hengaged hself
      rcases engaged_self hj hstep hself with hself | ⟨hlooks, hstarts⟩
      · exact hk (h.one hengaged hself)
      · exact halone hlooks hstarts k hk hengaged
    intro k l hk hl
    by_cases hki : k = i
    · by_cases hli : l = i
      · rw [hki, hli]
      · exact absurd (hki ▸ hk) (hother hli (engaged_of_ne hl hli))
    · by_cases hli : l = i
      · exact absurd (hli ▸ hl) (hother hki (engaged_of_ne hk hki))
      · exact h.one (engaged_of_ne hk hki) (engaged_of_ne hl hli)

/-- **A careful step keeps the invariant.** -/
theorem Sound.step (h : S.Sound n) (hcareful : Careful bus n S S') : S'.Sound n := by
  obtain ⟨hstep, halone⟩ := hcareful
  cases hstep with
  | accept peer => exact h.accept peer
  | @job i j j' o r w hj hstep hexec =>
    have hself : (S.daemon.jobs.set i j' ++ o.spawned)[i]? = some j' :=
      Slots.getElem?_set_append_self hj
    exact h.job hj hstep fun hlooks hstarts => halone i j j' hj hlooks hself hstarts

theorem sound_of_careful (h : ReflTransGen (Careful bus n) (supervision n).new S) : S.Sound n := by
  induction h with
  | refl => exact sound_new n
  | tail _ hcareful ih => exact ih.step hcareful

/-- A step of a job that is the only one is careful. -/
theorem careful_of_single (hsound : S.Sound n) (hone : S.daemon.jobs.length ≤ 1)
    (hstep : (supervision n).Step bus S S') : Careful bus n S S' := by
  refine ⟨hstep, fun i j j' hj _ _ _ k hk => ?_⟩
  have hfar : S.daemon.jobs.length ≤ k := by
    have hlt := Slots.lt_length_of_getElem? hj
    omega
  rintro (hpending | ⟨j₁, hj₁, -⟩)
  · rw [hsound.idle k hfar] at hpending
    cases hpending
  · rw [List.getElem?_eq_none hfar] at hj₁
    cases hj₁

/-- **A run with one job is careful.** -/
theorem careful_of_reachable (h : (supervision n).Reachable bus S)
    (hone : S.daemon.jobs.length ≤ 1) : ReflTransGen (Careful bus n) (supervision n).new S := by
  induction h with
  | refl => exact .refl
  | @tail S S' _ hs ih =>
    have hle : S.daemon.jobs.length ≤ S'.daemon.jobs.length := by
      cases hs with
      | accept => exact List.length_append ▸ Nat.le_add_right _ _
      | job => exact Slots.length_le_set_append _ _ _ _
    have hrun := ih (hle.trans hone)
    exact hrun.tail (careful_of_single (sound_of_careful hrun) (hle.trans hone) hs)

/-- A job at the spawn would start a second process, if an activation is
pending. -/
theorem startsAgain_of_spawns (hspawns : S.daemon.jobs[i]?.any (Job.spawns n) = true)
    (hpending : (S.note k).isPending = true) : S.StartsAgain bus n := by
  obtain ⟨j, hj, hspawns⟩ := (Option.any_eq_true _ _).mp hspawns
  unfold Job.spawns at hspawns
  split at hspawns
  · next c name f =>
    obtain rfl : name = n := beq_iff_eq.mp hspawns
    exact ⟨i, _, _, hj, .dispatch, k, hpending⟩
  · cases hspawns

/-- **One activation at a time**: in a run of careful steps, no second process is
started while an activation is pending. -/
theorem not_startsAgain_of_careful (bus : Bus) (n : String) (S : Supervised)
    (h : ReflTransGen (Careful bus n) (supervision n).new S) : ¬ S.StartsAgain bus n := by
  rintro ⟨i, j, j', hj, hstep, k, hpending⟩
  have hsound := sound_of_careful h
  have hstarts : S.Engaged n i := .inr ⟨j, hj, hstep.startsNext_of_spawn⟩
  obtain rfl : k = i := hsound.one (.inl hpending) hstarts
  rw [((hsound.supports hj).step hstep).1 rfl] at hpending
  cases hpending

/-- A bus with one service. -/
def servedBus : Bus := { plainBus with activatable := ["a.Service"] }

/-- A client has the service started. -/
def startingScript : List Instruction :=
  [.accept ⟨1000, 1000, 4711⟩, .run 0 8, .receive 0 (frameOf (driverCall "Hello" [] 1)), .run 0 50,
    .receive 0 (frameOf (driverCall "StartServiceByName" [.string "a.Service", .uint32 0] 2)),
    .run 0 5]

/-- Another client calls the service, and has got as far as the spawn. -/
def secondScript : List Instruction :=
  [.accept ⟨1000, 1000, 4712⟩, .run 1 8, .receive 1 (frameOf (driverCall "Hello" [] 1)),
    .run 1 50, .receive 1 (frameOf (Dispatch.callTo "a.Service")), .run 1 6]

/-! ## One client after the other -/

/-- Nobody but one job is engaged. -/
def Alone (n : String) (i : ℕ) (S : Supervised) : Prop := ∀ k, k ≠ i → ¬ S.Engaged n k

/-- **The steps of the only one that is engaged are careful**, and it stays the only one. -/
theorem Alone.keeps : (supervision n).Keeps bus (Careful bus n) (Alone n i) i := by
  constructor
  intro S j j' o r w h hj hstep hexec
  refine ⟨⟨.job hj hstep hexec, fun i₁ j₁ j₁' hj₁ _ hj₁' hstarts k hk => ?_⟩, fun k hk hengaged =>
    h k hk (engaged_of_ne hengaged hk)⟩
  by_cases hi : i₁ = i
  · subst hi
    exact h k hk
  · exact absurd (engaged_of_ne (.inr ⟨j₁', hj₁', hstarts⟩) hi) (h i₁ hi)

/-- An instruction for one job. -/
def isFor (i : ℕ) : Instruction → Bool
  | .accept _ => false
  | .run k _ => k == i
  | .receive k _ => k == i

/-- **What only one job does is careful if nobody else is engaged.** -/
theorem Alone.follow {instructions : List Instruction} (h : S.Alone n i)
    (hfor : ∀ instruction ∈ instructions, isFor i instruction = true) :
    ReflTransGen (Careful bus n) S (instructions.foldl ((supervision n).follow bus) S) := by
  induction instructions generalizing S with
  | nil => exact .refl
  | cons instruction instructions ih =>
    obtain ⟨hfirst, hfor⟩ := List.forall_mem_cons.mp hfor
    have hone : ReflTransGen (Careful bus n) S ((supervision n).follow bus S instruction) ∧
        Alone n i ((supervision n).follow bus S instruction) := by
      cases instruction with
      | accept peer => cases hfirst
      | run k moves =>
        obtain rfl : k = i := beq_iff_eq.mp hfirst
        exact Alone.keeps.advances h moves
      | receive k frame =>
        obtain rfl : k = i := beq_iff_eq.mp hfirst
        exact Alone.keeps.receive h frame
    exact hone.1.trans (ih hone.2 hfor)

/-- A connection is accepted while nobody is engaged. -/
theorem careful_accept (h : ∀ k, ¬ S.Engaged n k) (peer : PeerCredentials) : Careful bus n S
    { S with daemon := { S.daemon with jobs := S.daemon.jobs ++ [.accepted peer] } } :=
  ⟨.accept S peer, fun i _ j' _ _ hj' hstarts =>
    absurd (engaged_of_accept (.inr ⟨j', hj', hstarts⟩)) (h i)⟩

/-- Nobody is engaged where there is only a job at rest, and its activation is over. -/
theorem not_engaged_of_resting (hsound : S.Sound n) (hone : S.daemon.jobs.length ≤ 1)
    (hrests : S.daemon.jobs[0]?.all Job.isResting = true)
    (hover : (S.note 0).isPending = false) (k : ℕ) : ¬ S.Engaged n k := by
  rintro (hpending | ⟨j, hj, p, hp, hstarts⟩)
  · cases k with
    | zero => cases hpending.symm.trans hover
    | succ k => cases hpending.symm.trans (hsound.idle (k + 1) (by omega))
  · obtain rfl : k = 0 := by
      have hlt := Slots.lt_length_of_getElem? hj
      omega
    rw [hj] at hrests
    obtain rfl : p = .ret () := Job.eq_ret_of_isResting hrests hp
    exact Prog.not_mayReach_ret _ hstarts

/-- **A client that comes when nobody is engaged**, and is the only one to do anything, is
careful. -/
theorem careful_of_later {later : List Instruction} {peer : PeerCredentials}
    (h : ReflTransGen (Careful bus n) (supervision n).new S) (hnobody : ∀ k, ¬ S.Engaged n k)
    (hlater : ∀ instruction ∈ later, isFor i instruction = true) :
    ReflTransGen (Careful bus n) (supervision n).new
      ((.accept peer :: later).foldl ((supervision n).follow bus) S) := by
  have halone : Alone n i ((supervision n).follow bus S (.accept peer)) :=
    fun k _ hengaged => hnobody k (engaged_of_accept hengaged)
  exact (h.tail (careful_accept hnobody peer)).trans (halone.follow hlater)

/-- The second client calls the service, and it is started. -/
def laterSteps : List Instruction :=
  [.run 1 8, .receive 1 (frameOf (driverCall "Hello" [] 1)), .run 1 50,
    .receive 1 (frameOf (Dispatch.callTo "a.Service")), .run 1 7]

/-- The first client waits until its time is up, and then the second one comes. -/
def laterScript : List Instruction :=
  startingScript ++ [.run 0 50] ++ .accept ⟨1000, 1000, 4712⟩ :: laterSteps

/-- Two clients have the service started, one after the other, and the second one's activation
is pending. -/
theorem not_startsAgain_of_later :
    ((supervision "a.Service").replay servedBus startingScript).note 0 = .started ∧
      (((supervision "a.Service").replay servedBus laterScript).note 0).isPending = false ∧
      ((supervision "a.Service").replay servedBus laterScript).note 1 = .started ∧
      ¬ StartsAgain servedBus "a.Service"
        ((supervision "a.Service").replay servedBus laterScript) := by
  refine ⟨by decide +kernel, by decide +kernel, by decide +kernel,
    not_startsAgain_of_careful servedBus "a.Service" _ ?_⟩
  have hone : ((supervision "a.Service").replay servedBus
      (startingScript ++ [.run 0 50])).daemon.jobs.length ≤ 1 := by decide +kernel
  have hrests : (((supervision "a.Service").replay servedBus
      (startingScript ++ [.run 0 50])).daemon.jobs[0]?.all Job.isResting) = true := by
    decide +kernel
  have hover : (((supervision "a.Service").replay servedBus
      (startingScript ++ [.run 0 50])).note 0).isPending = false := by decide +kernel
  have hrun := careful_of_reachable ((supervision "a.Service").reachable_replay _) hone
  have hnobody := not_engaged_of_resting (sound_of_careful hrun) hone hrests hover
  have hlater : ∀ instruction ∈ laterSteps, isFor 1 instruction = true := by decide +kernel
  have hsecond := @careful_of_later servedBus _ _ _ _ ⟨1000, 1000, 4712⟩ hrun hnobody hlater
  unfold laterScript Annotation.replay
  rw [List.foldl_append]
  exact hsecond

/-- **Two clients have a service started at the same time.** -/
theorem startsAgain_of_two : ∃ S, (supervision "a.Service").Reachable servedBus S ∧
    StartsAgain servedBus "a.Service" S := by
  let S : Supervised := (supervision "a.Service").replay servedBus (startingScript ++ secondScript)
  have hspawns : S.daemon.jobs[1]?.any (Job.spawns "a.Service") = true := by decide +kernel
  have hpending : (S.note 0).isPending = true := by decide +kernel
  exact ⟨S, (supervision "a.Service").reachable_replay _, startsAgain_of_spawns hspawns hpending⟩

end Supervised

end Oxibus
