import Oxibus.Daemon.Accounts

/-!
# What subscribers hear

The registry changes at once, and the tasks tell everyone afterwards, each on
its own and one write after the other. Two tasks that tell of the same name
at the same time can overtake each other on the way to one subscriber, which
then hears of the later change first and is left with an owner the name no
longer has.

That is the only way to go wrong. If a name changes its owner only while no
task has a broadcast about it to finish, then what a subscriber hears is the
end of what the registry has announced, but for one notice that is still to
come; so it is a chain, and when no broadcast is in progress it ends with the
owner.
-/

namespace Oxibus

open BusProg Daemon

variable {bus : Bus} {n : String} {c : ConnectionEntry} {o : BusOp} {r : o.Res} {w : World}
variable {S : Daemon} {heard : List Notice} {dues : ℕ → Due} {i : ℕ}

/-! ## Runs -/

namespace Daemon

/-- **A step that overtakes no broadcast**: it changes the owner of a name only if
no job is still broadcasting an earlier change. -/
structure WaitingStep (bus : Bus) (n : String) (S S' : Daemon) : Prop where
  step : Step bus S S'
  waits : announced n S'.world.log ≠ announced n S.world.log → ∀ j ∈ S.jobs, ¬ j.Broadcasting n

/-- The operations between two states of a run, the earliest first. -/
def since (S₀ S : Daemon) : List BusEvent :=
  (S.world.log.take (S.world.log.length - S₀.world.log.length)).reverse

/-- **What a connection hears about a name** between two states of a run. -/
def heardSince (n : String) (c : ConnectionEntry) (S₀ S : Daemon) : List Notice :=
  (since S₀ S).filterMap (BusEvent.hears c n)

/-- **A stretch of a run in which a connection stays a subscriber**: in every state
it is one, and no notice about the name fails to be written to it. -/
structure Attends (R : Daemon → Daemon → Prop) (n : String) (c : ConnectionEntry)
    (S₀ S : Daemon) : Prop where
  subscribed : S₀.world.state.Subscribed c
  run : Relation.ReflTransGen (fun S S' => R S S' ∧ S'.world.state.Subscribed c) S₀ S
  written : ∀ e ∈ since S₀ S, e.misses c n = false

/-- **The subscriber converges on the owner**: what it hears about the name is a
chain, and when no broadcast is in progress its end names the owner. -/
structure Converges (n : String) (c : ConnectionEntry) (S₀ S : Daemon) : Prop where
  linked : Linked (heardSince n c S₀ S)
  owner : (∀ j ∈ S.jobs, ¬ j.Broadcasting n) → ∀ last ∈ (heardSince n c S₀ S).getLast?,
    last.newOwner = (S.world.state.registry.getNameOwner n).getD ""

variable {S₀ S' : Daemon}

/-- Another step adds its operation, if it has one. -/
theorem Step.log (h : Step bus S S') :
    ∃ es : List BusEvent, S'.world.log = es ++ S.world.log := by
  cases h with
  | accept peer => exact ⟨[], rfl⟩
  | job hj hstep hexec => exact ⟨[_], hexec.2⟩

theorem since_eq {es : List BusEvent} (h : S.world.log = es ++ S₀.world.log) :
    since S₀ S = es.reverse := by
  unfold since
  rw [h, List.length_append, Nat.add_sub_cancel, List.take_left]

/-- The ledger as the daemon starts. -/
theorem ledger_new : Ledger n c new [] (fun _ => .nothing) 0 where
  accounts := nofun
  one _ _ := rfl
  idle _ _ := rfl
  valid _ := ⟨Registry.keyed_new, nofun⟩
  balanced := .nothing List.nil_suffix

theorem reachable_of_waitingStep (h : Relation.ReflTransGen (WaitingStep bus n) new S) :
    Reachable bus S :=
  Relation.ReflTransGen.mono (fun _ _ => WaitingStep.step) _ _ h

end Daemon

/-- A connection is accepted. -/
theorem Ledger.accept (h : Ledger n c S heard dues i) (peer : PeerCredentials) :
    Ledger n c { S with jobs := S.jobs ++ [.accepted peer] } heard dues i where
  accounts := by
    intro k j hk
    rcases Slots.getElem?_concat_eq_some.mp hk with hk | ⟨rfl, rfl⟩
    · exact h.accounts hk
    · exact h.idle _ le_rfl
  one := h.one
  idle k hk := by
    refine h.idle k (Nat.le_trans ?_ hk)
    rw [List.length_append]
    exact Nat.le_add_right _ _
  valid := h.valid
  balanced := h.balanced

namespace Daemon

variable {S₀ S' : Daemon}

/-- What is announced is what an operation changes. -/
theorem waits_of_job (hexec : World.Exec o S.world r w)
    (hwaits : announced n w.log ≠ announced n S.world.log → ∀ j ∈ S.jobs, ¬ j.Broadcasting n)
    (hchange : Registry.changesFor n (o.changes r) ≠ []) : ∀ j ∈ S.jobs, ¬ j.Broadcasting n := by
  refine hwaits fun hsame => hchange ?_
  rw [hexec.2] at hsame
  have hnil : (Registry.changesFor n (o.changes r)).map NameOwnerChange.notice = [] :=
    List.append_right_eq_self.mp hsame
  exact List.map_eq_nil_iff.mp hnil

/-- **The ledger of a run** whose changes wait, for somebody who has heard
nothing. -/
theorem ledger_of_run (h : Relation.ReflTransGen (WaitingStep bus n) new S) :
    ∃ dues i, Ledger n c S [] dues i := by
  induction h with
  | refl => exact ⟨_, _, ledger_new⟩
  | @tail S _ hrun hs ih =>
    obtain ⟨dues, i, h⟩ := ih
    obtain ⟨hstep, hwaits⟩ := hs
    cases hstep with
    | accept peer => exact ⟨dues, i, h.accept peer⟩
    | job hj hstep hexec =>
      exact h.step_unheard (reachable_of_waitingStep hrun) hj hstep hexec
        (waits_of_job hexec hwaits)

/-- **The ledger of a subscriber.** -/
theorem ledger_of_attends (h₀ : Relation.ReflTransGen (WaitingStep bus n) new S₀)
    (hrun : Relation.ReflTransGen
      (fun S S' => WaitingStep bus n S S' ∧ S'.world.state.Subscribed c) S₀ S) :
    ∃ es : List BusEvent, S.world.log = es ++ S₀.world.log ∧
      ((∀ e ∈ es, e.misses c n = false) →
        ∃ dues i, Ledger n c S (es.reverse.filterMap (BusEvent.hears c n)) dues i) := by
  induction hrun with
  | refl => exact ⟨[], rfl, fun _ => ledger_of_run h₀⟩
  | @tail S _ hrun hs ih =>
    obtain ⟨es, hlog, hledger⟩ := ih
    obtain ⟨⟨hstep, hwaits⟩, hsub⟩ := hs
    have hreach : Reachable bus S := reachable_of_waitingStep
      (h₀.trans (Relation.ReflTransGen.mono (fun _ _ => And.left) _ _ hrun))
    cases hstep with
    | accept peer =>
      refine ⟨es, hlog, fun hmiss => ?_⟩
      obtain ⟨dues, i, h⟩ := hledger hmiss
      exact ⟨dues, i, h.accept peer⟩
    | @job i j j' o r w hj hstep hexec =>
      refine ⟨⟨S.world.state, o, r⟩ :: es, ?_, fun hmiss => ?_⟩
      · show w.log = _
        rw [hexec.2, hlog]
        rfl
      · obtain ⟨dues, i, h⟩ := hledger fun e he => hmiss e (List.mem_cons_of_mem _ he)
        have hnext := h.step_heard hreach hj hstep hexec (waits_of_job hexec hwaits) hsub
          (hmiss _ List.mem_cons_self)
        rw [List.reverse_cons, List.filterMap_append]
        have hone : [(⟨S.world.state, o, r⟩ : BusEvent)].filterMap (BusEvent.hears c n)
            = ((⟨S.world.state, o, r⟩ : BusEvent).hears c n).toList := by
          rw [List.filterMap_cons]
          cases (⟨S.world.state, o, r⟩ : BusEvent).hears c n <;> rfl
        rw [hone]
        exact hnext

/-- **Subscribers converge on the true owner**, for any name, in any run in which
the name changes its owner only while no job is broadcasting an earlier
change of it: what a connection hears while it stays a subscriber is a chain,
and whenever no broadcast is in progress its end names the owner. -/
theorem subscribers_converge (bus : Bus) (n : String) (c : ConnectionEntry) (S₀ S : Daemon)
    (h₀ : Relation.ReflTransGen (WaitingStep bus n) new S₀)
    (h : Attends (WaitingStep bus n) n c S₀ S) : Converges n c S₀ S := by
  obtain ⟨es, hlog, hledger⟩ := ledger_of_attends h₀ h.run
  have hsince := since_eq hlog
  have hmiss : ∀ e ∈ es, e.misses c n = false := fun e he =>
    h.written e (by rw [hsince]; exact List.mem_reverse.mpr he)
  obtain ⟨dues, i, hledger⟩ := hledger hmiss
  have hreach : Reachable bus S := reachable_of_waitingStep
    (h₀.trans (Relation.ReflTransGen.mono (fun _ _ => And.left) _ _ h.run))
  have htruthful := hreach.truthful
  have hlinked := htruthful.linked n
  have hbalanced := hledger.balanced
  refine ⟨?_, fun hidle last hlast => ?_⟩
  · show Linked ((since S₀ S).filterMap _)
    rw [hsince]
    exact hbalanced.linked hlinked
  · rw [heardSince, hsince] at hlast
    rw [hledger.nothing hidle i] at hbalanced
    refine htruthful.owner n last ?_
    obtain ⟨front, hfront⟩ := hbalanced.suffix
    rw [← hfront, List.getLast?_append, Option.mem_def.mp hlast]
    rfl

end Daemon

/-! ## Runs that are replayed -/

/-- The operations that take nothing from a subscriber. -/
def BusOp.keepsSubscribers : BusOp → Bool
  | .addConnection _ => false
  | .removeConnection _ => false
  | .storeMonitor _ => false
  | .setMatchRules _ _ => false
  | .removeMatchRules _ _ => false
  | _ => true

theorem BusOp.Exec.subscribed {s s' : BusState} (h : o.Exec s r s')
    (ho : o.keepsSubscribers = true) (hs : s.Subscribed c) : s'.Subscribed c := by
  have hget : s'.registry.get c.uniqueName = s.registry.get c.uniqueName := by
    unfold Registry.get
    rw [h.connections]
    cases o with
    | addConnection => cases ho
    | removeConnection => cases ho
    | _ => rfl
  have hcells : (s'.cells c.id).isMonitor = (s.cells c.id).isMonitor ∧
      ∀ rule ∈ (s.cells c.id).matchRules, rule ∈ (s'.cells c.id).matchRules := by
    rw [h.cells]
    split
    · cases o with
      | storeMonitor => cases ho
      | setMatchRules => cases ho
      | removeMatchRules => cases ho
      | pushMatchRule => exact ⟨rfl, fun rule hrule => List.mem_append_left _ hrule⟩
      | _ => exact ⟨rfl, fun _ => id⟩
    · exact ⟨rfl, fun _ => id⟩
  obtain ⟨rule, hmem, hmatches⟩ := hs.rule
  exact ⟨hget.trans hs.entry, hcells.1.trans hs.notMonitor, rule, hcells.2 rule hmem, hmatches⟩

/-- A job that changes an owner is not broadcasting. -/
theorem JobStep.not_broadcasting {j j' : Job} (hstep : JobStep bus j o r j')
    (ho : o.mayChange = true) : ¬ j.Broadcasting n := by
  have hcall : ∀ {k : o.Res → BusProg Unit}, ¬ Broadcasts n (.call o k) := by
    intro k h
    cases h with
    | here htells =>
      cases o with
      | write => cases ho
      | _ => exact htells
    | later r hchange =>
      rw [ho] at hchange
      cases hchange
  cases hstep with
  | dispatch => exact hcall
  | announce => exact hcall
  | read => exact Prog.not_mayReach_ret _
  | readFailed => exact Prog.not_mayReach_ret _
  | drop => exact Prog.not_mayReach_ret _
  | _ => exact id

/-- A job at rest broadcasts nothing. -/
theorem Job.not_broadcasting_of_isResting {j : Job} (h : j.isResting = true) :
    ¬ j.Broadcasting n := by
  cases j with
  | serving c p =>
    cases p with
    | ret => exact Prog.not_mayReach_ret _
    | call => cases h
  | announcing p =>
    cases p with
    | ret => exact Prog.not_mayReach_ret _
    | call => cases h
  | _ => exact id

namespace Daemon

variable {S₀ S' : Daemon}

/-- A connection stays a subscriber if no operation takes anything from it. -/
theorem attends_of_run {R : Daemon → Daemon → Prop} (hR : ∀ S S', R S S' → Step bus S S')
    (h : Relation.ReflTransGen R S₀ S) (hsub : S₀.world.state.Subscribed c)
    (hkeeps : ∀ e ∈ since S₀ S, e.op.keepsSubscribers = true)
    (hwritten : ∀ e ∈ since S₀ S, e.misses c n = false) : Attends R n c S₀ S := by
  have hrun : ∃ es : List BusEvent, S.world.log = es ++ S₀.world.log ∧
      ((∀ e ∈ es, e.op.keepsSubscribers = true) → S.world.state.Subscribed c ∧
        Relation.ReflTransGen (fun S S' => R S S' ∧ S'.world.state.Subscribed c) S₀ S) := by
    clear hkeeps hwritten
    induction h with
    | refl => exact ⟨[], rfl, fun _ => ⟨hsub, .refl⟩⟩
    | @tail S S' _ hs ih =>
      obtain ⟨es, hlog, ih⟩ := ih
      have hstep := hR _ _ hs
      cases hstep with
      | accept peer => exact ⟨es, hlog, fun hes => ⟨(ih hes).1, (ih hes).2.tail ⟨hs, (ih hes).1⟩⟩⟩
      | @job i j j' o r w hj hjob hexec =>
        refine ⟨⟨S.world.state, o, r⟩ :: es, ?_, fun hes => ?_⟩
        · show w.log = _
          rw [hexec.2, hlog]
          rfl
        · obtain ⟨hbefore, hrun⟩ := ih fun e he => hes e (List.mem_cons_of_mem _ he)
          have hafter := hexec.1.subscribed (hes _ List.mem_cons_self) hbefore
          exact ⟨hafter, hrun.tail ⟨hs, hafter⟩⟩
  obtain ⟨es, hlog, hrun⟩ := hrun
  refine ⟨hsub, (hrun fun e he => hkeeps e ?_).2, hwritten⟩
  rw [since_eq hlog]
  exact List.mem_reverse.mpr he

/-- Whether all jobs but one are at rest. -/
def othersRest (i : ℕ) (S : Daemon) : Bool := (S.jobs.eraseIdx i).all Job.isResting

/-- **A job that moves while the others are at rest overtakes nobody.** -/
theorem waitingRun_of_othersRest (h : othersRest i S = true) :
    Relation.ReflTransGen (WaitingStep bus n) S (S.advance bus i) := by
  rcases S.advance_cases bus i with hsame | ⟨j, m, hj, hstep, hexec, hnext⟩
  · rw [hsame]
  · rw [hnext]
    refine .single ⟨.job hj hstep ⟨hexec, rfl⟩, fun hne j₁ hj₁ => ?_⟩
    obtain ⟨k, hk⟩ := List.getElem?_of_mem hj₁
    by_cases hki : k = i
    · -- the job that changes the owner is at the change
      subst hki
      rw [Option.some.inj (hk.symm.trans hj)]
      refine hstep.not_broadcasting ?_
      by_contra ho
      refine hne (announced_of_nil ⟨hexec, rfl⟩ ?_)
      rw [BusOp.changes_eq_nil (Bool.eq_false_iff.mpr ho)]
      rfl
    · have hrests := List.all_eq_true.mp h j₁ (List.mem_eraseIdx_iff_getElem?.mpr ⟨k, hki, hk⟩)
      exact Job.not_broadcasting_of_isResting hrests

theorem waitingRun_receive (S : Daemon) (i : ℕ) (frame : List UInt8) :
    Relation.ReflTransGen (WaitingStep bus n) S (S.receive bus i frame) := by
  rcases S.receive_cases bus i frame with hsame | ⟨c, msg, hj, hexec, hnext⟩
  · rw [hsame]
  · rw [hnext]
    exact .single ⟨.job hj .read hexec, fun hne => absurd (announced_of_nil hexec rfl) hne⟩

/-- **A replay in which one job moves at a time is a run of waiting steps.** -/
theorem waitingRun_replay {instructions : List Instruction}
    (h : replaysWhere bus othersRest instructions S = true) :
    Relation.ReflTransGen (WaitingStep bus n) S (S.replay bus instructions) :=
  steps_replayWhere (fun _ _ => waitingRun_of_othersRest)
    (fun S peer => ⟨.accept S peer, fun hne => absurd rfl hne⟩) waitingRun_receive h

/-! ## Two broadcasts at once -/

/-- A rule that asks for the notices. -/
def noticeRule : MatchRule :=
  { MatchRule.empty "type='signal',member='NameOwnerChanged'" with
    messageType := some .signal
    member := some WellKnown.nameOwnerChanged }

theorem matchesNotices_noticeRule : noticeRule.MatchesNotices := fun _ _ _ => rfl

/-- A test for a stretch of a run: a connection has the rule at its start, and no
operation takes anything from it. -/
def staysListening (n : String) (c : ConnectionEntry) (S₀ S : Daemon) : Bool :=
  S₀.world.state.registry.get c.uniqueName == some c && !S₀.world.state.isMonitor c &&
    S₀.world.state.matchRules c == [noticeRule] &&
    (since S₀ S).all fun e => e.op.keepsSubscribers && !e.misses c n

theorem attends_of_staysListening {R : Daemon → Daemon → Prop}
    (hR : ∀ S S', R S S' → Step bus S S') (h : Relation.ReflTransGen R S₀ S)
    (hstays : staysListening n c S₀ S = true) : Attends R n c S₀ S := by
  unfold staysListening at hstays
  simp only [Bool.and_eq_true, beq_iff_eq, Bool.not_eq_true', List.all_eq_true] at hstays
  obtain ⟨⟨⟨hentry, hmonitor⟩, hrules⟩, hlog⟩ := hstays
  refine attends_of_run hR h ⟨hentry, hmonitor, noticeRule, ?_, matchesNotices_noticeRule⟩
    (fun e he => (hlog e he).1) fun e he => (hlog e he).2
  rw [hrules]
  exact List.mem_singleton_self _

/-- A call of Hello by a job, and the dispatch of it. -/
def sayHello (i : ℕ) : List Instruction :=
  [.receive i (frameOf (driverCall "Hello" [] 1)), .run i 100]

/-- A job asks for the notices. -/
def subscribe (i : ℕ) : List Instruction :=
  [.receive i (frameOf (driverCall "AddMatch" [.string noticeRule.raw] 2)), .run i 100]

/-- A job asks for a name. -/
def askForName (i : ℕ) (flags : UInt32) : Instruction :=
  .receive i (frameOf (driverCall "RequestName" [.string "a.Service", .uint32 flags] 3))

/-- Three clients connect and say Hello, and the first asks for the notices. -/
def threeScript : List Instruction :=
  [.accept ⟨1000, 1000, 4711⟩, .run 0 8, .accept ⟨1000, 1000, 4712⟩, .run 1 8,
    .accept ⟨1000, 1000, 4713⟩, .run 2 8] ++ sayHello 0 ++ sayHello 1 ++ sayHello 2 ++ subscribe 0

/-- The daemon with the three clients. -/
def threeListening : Daemon := new.replay plainBus threeScript

/-- The second client gets a name, and when everyone has been told, the third client takes
it. -/
def inTurn : List Instruction :=
  [askForName 1 flagAllowReplacement, .run 1 100, askForName 2 flagReplaceExisting, .run 2 100]

/-- The daemon after that. -/
def takenInTurn : Daemon := threeListening.replay plainBus inTurn

/-- The first client hears of both changes. -/
theorem heard_takenInTurn :
    (staysListening "a.Service" (peerConnection 1) threeListening takenInTurn &&
      heardSince "a.Service" (peerConnection 1) threeListening takenInTurn
        == [⟨"a.Service", "", ":1.2"⟩, ⟨"a.Service", ":1.2", ":1.3"⟩] &&
      replaysWhere plainBus othersRest threeScript new &&
      replaysWhere plainBus othersRest inTurn threeListening) = true := by
  decide +kernel

theorem subscribers_converge_inTurn :
    heardSince "a.Service" (peerConnection 1) threeListening takenInTurn
        = [⟨"a.Service", "", ":1.2"⟩, ⟨"a.Service", ":1.2", ":1.3"⟩] ∧
      Converges "a.Service" (peerConnection 1) threeListening takenInTurn := by
  have hheard := heard_takenInTurn
  simp only [Bool.and_eq_true, beq_iff_eq] at hheard
  obtain ⟨⟨⟨hstays, hheard⟩, hbefore⟩, hafter⟩ := hheard
  exact ⟨hheard, subscribers_converge plainBus "a.Service" (peerConnection 1) threeListening
    takenInTurn (waitingRun_replay hbefore)
    (attends_of_staysListening (fun _ _ => WaitingStep.step) (waitingRun_replay hafter) hstays)⟩

/-- The second client gets a name that it may lose again. Its job has not told the
first client when the third client takes the name, and its job tells
everyone. -/
def overtaking : List Instruction :=
  [askForName 1 flagAllowReplacement, .run 1 12, askForName 2 flagReplaceExisting, .run 2 100,
    .run 1 100]

/-- The daemon after both broadcasts. -/
def overtaken : Daemon := threeListening.replay plainBus overtaking

/-- The first client hears the later change first. -/
theorem heard_overtaken : (staysListening "a.Service" (peerConnection 1) threeListening overtaken &&
    heardSince "a.Service" (peerConnection 1) threeListening overtaken
      == [⟨"a.Service", ":1.2", ":1.3"⟩, ⟨"a.Service", "", ":1.2"⟩]) = true := by
  decide +kernel

/-- **Broadcasts overtake each other**: what a subscriber hears is no chain then. -/
theorem broadcasts_overtake : ¬ ∀ (bus : Bus) (n : String) (c : ConnectionEntry) (S₀ S : Daemon),
    Reachable bus S₀ → Attends (Step bus) n c S₀ S → Converges n c S₀ S := by
  intro h
  obtain ⟨hstays, hheard⟩ := Bool.and_eq_true_iff.mp heard_overtaken
  have hlinked := (h plainBus "a.Service" (peerConnection 1) threeListening overtaken
    (reachable_replay reachable_new threeScript)
    (attends_of_staysListening (fun _ _ => id) (steps_replay _ overtaking) hstays)).linked
  rw [beq_iff_eq.mp hheard] at hlinked
  have hnext := (List.isChain_cons_cons.mp hlinked).1
  exact absurd hnext (by decide)

end Daemon

end Oxibus
