import Oxibus.Daemon.Notices

/-!
# What a broadcast owes to a subscriber

A subscriber is a connection with a rule that matches every
`NameOwnerChanged` signal. Once the registry has announced a change, the task
that made it owes the subscriber the signal about it. What a task owes is
followed through its program here, one name and one subscriber at a time: it
is certain to be paid while the connection is a subscriber without a break,
and may be paid or not if there was a break since the announcement.

The result is about the programs alone, whoever runs beside them: a dispatch
that starts with nothing to pay makes at most one change, and when it returns
nothing is certain to be paid any more.
-/

namespace Oxibus

open BusProg Daemon

variable {bus : Bus} {n : String} {c c' : ConnectionEntry} {o : BusOp} {r : o.Res}
variable {s s' : BusState} {change : NameOwnerChange} {serial : UInt32} {msg : Message}

/-! ## Notices as messages -/

/-- **The driver's signal about a change.** -/
def noticeSignal (change : NameOwnerChange) (serial : UInt32) : Message :=
  ((((Dispatch.driverSignal WellKnown.nameOwnerChanged).arg (.string change.name)).arg
    (.string (change.oldOwner.getD ""))).arg (.string (change.newOwner.getD ""))).build serial

@[simp] theorem notice_noticeSignal : (noticeSignal change serial).notice = some change.notice :=
  rfl

/-- Only signals are notices. -/
theorem notice_of_messageType (h : msg.messageType ≠ .signal) : msg.notice = none :=
  if_neg fun hnotice => h hnotice.1

/-- No message of a client is a notice. -/
theorem notice_setSender : (msg.setSender c.uniqueName).notice = none := by
  refine if_neg fun hnotice => ?_
  have hsender := hnotice.2.1
  rw [Message.sender_setSender] at hsender
  exact uniqueName_ne_busName c.id (Option.some.inj hsender)

/-- The signals to the owners have one argument. -/
theorem notice_unicast (u member name : String) :
    ((((Dispatch.driverSignal member).destination u).arg (.string name)).build serial).notice
      = none := by
  unfold Message.notice
  split <;> rfl

/-- A rule that matches all notices. -/
def MatchRule.MatchesNotices (rule : MatchRule) : Prop :=
  ∀ change serial resolveOwner, rule.matches (noticeSignal change serial) resolveOwner = true

/-- **A subscriber**: the connection is there, it is no monitor, and it has a rule
that matches all notices. -/
structure BusState.Subscribed (s : BusState) (c : ConnectionEntry) : Prop where
  entry : s.registry.get c.uniqueName = some c
  notMonitor : s.isMonitor c = false
  rule : ∃ rule ∈ s.matchRules c, rule.MatchesNotices

namespace BusEvent

/-- **The notice about a name that a connection receives** with an operation. -/
def hears (c : ConnectionEntry) (n : String) (e : BusEvent) : Option Notice :=
  match e with
  | ⟨_, .write c' msg, true⟩ =>
    if c' = c then msg.notice.filter fun notice => notice.name == n else none
  | _ => none

/-- A notice about a name that a connection does not receive, because the write
fails. -/
def misses (c : ConnectionEntry) (n : String) (e : BusEvent) : Bool :=
  match e with
  | ⟨_, .write c' msg, false⟩ => c' == c && msg.notice.any fun notice => notice.name == n
  | _ => false

end BusEvent

/-- **A message that tells a connection nothing about a name.** -/
def Quiet (n : String) (c c' : ConnectionEntry) (msg : Message) : Prop :=
  c' = c → ∀ notice, msg.notice = some notice → notice.name ≠ n

theorem quiet_of_none (h : msg.notice = none) : Quiet n c c' msg := by
  intro _ notice hnotice
  rw [h] at hnotice
  cases hnotice

/-! ## What is owed -/

/-- **What a task owes a subscriber**: nothing, or a notice, which may be told or
is certain to be. -/
inductive Due where
  | nothing
  | maybe (notice : Notice)
  | certain (notice : Notice)

namespace Due

/-- What is owed after the connection was no subscriber. -/
def weaken : Due → Due
  | certain notice => maybe notice
  | due => due

/-- What is left while nothing is told. -/
def Left (due due' : Due) : Prop := due' = due ∨ due' = due.weaken

/-- This notice is owed. -/
def Owes (due : Due) (notice : Notice) : Prop := due = maybe notice ∨ due = certain notice

/-- **What an operation makes of what is owed**: a change adds to it, a notice that
is told settles it, and a write that fails takes the certainty. -/
inductive Next (n : String) (c : ConnectionEntry) (e : BusEvent) (due : Due) : Due → Prop where
  | changed {change : NameOwnerChange} {due' : Due}
    (h : Registry.changesFor n (e.op.changes e.res) = [change]) (hdue : due'.Owes change.notice) :
    Next n c e due due'
  | heard {notice : Notice} (h : Registry.changesFor n (e.op.changes e.res) = [])
    (hears : e.hears c n = some notice) : Next n c e due nothing
  | kept (h : Registry.changesFor n (e.op.changes e.res) = []) (hears : e.hears c n = none)
    (misses : e.misses c n = false) : Next n c e due due
  | weakened (h : Registry.changesFor n (e.op.changes e.res) = []) (hears : e.hears c n = none) :
    Next n c e due due.weaken

variable {due due' due'' : Due} {notice : Notice}

theorem Left.refl (due : Due) : due.Left due := .inl rfl

@[simp] theorem weaken_weaken : due.weaken.weaken = due.weaken := by
  cases due <;> rfl

theorem Left.trans (h : due.Left due') (h' : due'.Left due'') : due.Left due'' := by
  rcases h with rfl | rfl
  · exact h'
  · rcases h' with rfl | rfl
    · exact .inr rfl
    · exact .inr weaken_weaken

theorem Left.nothing (h : Due.nothing.Left due) : due = .nothing := h.elim id id

theorem Left.maybe (h : (Due.maybe notice).Left due) : due = .maybe notice := h.elim id id

/-- What is certain has been certain. -/
theorem Left.certain (h : due.Left (.certain notice)) : due = .certain notice := by
  rcases h with h | h
  · exact h.symm
  · cases due <;> cases h

theorem Left.certain_of (h : due.Left due') (hdue : due' = .certain notice) :
    due = .certain notice := (hdue ▸ h).certain

theorem Left.owes (h : due.Left due') (howes : due.Owes notice) : due'.Owes notice := by
  rcases howes with rfl | rfl
  · exact .inl h.maybe
  · rcases h with rfl | rfl
    · exact .inr rfl
    · exact .inl rfl

/-- Nothing is certain to be told. -/
def Settled (due : Due) : Prop := ∀ notice, due ≠ certain notice

theorem Left.settled (h : due.Left due') (hdue : due.Settled) : due'.Settled := by
  rintro notice rfl
  exact hdue notice h.certain

theorem Owes.maybe (h : due.Owes notice) (hdue : due.Settled) : due = .maybe notice :=
  h.resolve_right (hdue notice)

end Due

/-! ## Programs that pay -/

/-- **What a task can count on**: the connections are kept under their names, and
what is certain to be told is owed to a subscriber. -/
structure Valid (c : ConnectionEntry) (x : World × Due) : Prop where
  keyed : x.1.state.registry.Keyed
  subscribed : ∀ notice, x.2 = .certain notice → x.1.state.Subscribed c

/-- An operation, and what it makes of what is owed. -/
def Tracked (n : String) (c : ConnectionEntry) : Prog.Semantics BusOp BusOp.Res (World × Due) :=
  fun o x r x' =>
    World.Exec o x.1 r x'.1 ∧ x.2.Next n c ⟨x.1.state, o, r⟩ x'.2 ∧ Valid c x'

/-- What other tasks do meanwhile. -/
def Meanwhile (c : ConnectionEntry) (x x' : World × Due) : Prop := x.2.Left x'.2 ∧ Valid c x'

/-- **What a task guarantees**: it tells the subscriber only what it owes, does
nothing but telling as long as it owes something, and has no notice copied. -/
structure Pays (n : String) (c : ConnectionEntry) (o : BusOp) (x : World × Due) (r : o.Res) :
    Prop where
  telling : x.2 ≠ .nothing → Dispatch.Telling (fun _ _ => True) o
  hears : ∀ notice, (⟨x.1.state, o, r⟩ : BusEvent).hears c n = some notice → x.2.Owes notice
  copies : ∀ c' m, o = .spawnWrite c' m → m.notice = none

/-- A program that pays what it owes, amid other tasks. -/
abbrev Tracks {α : Type} (n : String) (c : ConnectionEntry) (p : BusProg α) (x : World × Due)
    (post : α → World × Due → Prop) : Prop :=
  p.Ensures (Tracked n c) (Meanwhile c) (fun o x r _ => Pays n c o x r) post x

/-- **The operations that change no owner and tell the subscriber nothing.** -/
def Calm (n : String) (c : ConnectionEntry) : BusOp → Prop
  | .write c' m => Quiet n c c' m
  | .spawnWrite _ m => m.notice = none
  | .swapRegistered _ => False
  | .requestName _ _ _ => False
  | .releaseName _ _ => False
  | .removeConnection _ => False
  | _ => True

theorem Dispatch.Telling.calm (ho : Dispatch.Telling (Quiet n c) o) : Calm n c o := by
  cases o with
  | write => exact ho
  | spawnWrite => exact ho.elim
  | swapRegistered => exact ho
  | requestName => exact ho
  | releaseName => exact ho
  | removeConnection => exact ho
  | _ => trivial

theorem Routing.calm (ho : Routing (Quiet n c) o) : Calm n c o := by
  cases o with
  | write => exact ho
  | spawnWrite => exact ho.elim
  | swapRegistered => exact ho
  | requestName => exact ho
  | releaseName => exact ho
  | removeConnection => exact ho
  | _ => trivial

namespace Calm

theorem mayChange (ho : Calm n c o) : o.mayChange = false := by
  cases o with
  | swapRegistered => exact ho.elim
  | requestName => exact ho.elim
  | releaseName => exact ho.elim
  | removeConnection => exact ho.elim
  | _ => rfl

theorem hears (ho : Calm n c o) : (⟨s, o, r⟩ : BusEvent).hears c n = none := by
  cases o with
  | write c' m =>
    have hquiet : Quiet n c c' m := ho
    cases r with
    | false => rfl
    | true =>
      show (if c' = c then _ else none) = none
      split
      · next hc =>
        rw [Option.filter_eq_none_iff]
        exact fun notice hnotice hn => hquiet hc notice hnotice (beq_iff_eq.mp hn)
      · rfl
  | _ => rfl

theorem copies {c' : ConnectionEntry} {m : Message} (ho : Calm n c (.spawnWrite c' m)) :
    m.notice = none := ho

end Calm

/-- What is owed stays, if nothing changes and nothing is told. -/
theorem Due.Next.left {e : BusEvent} {due due' : Due} (h : due.Next n c e due')
    (ho : e.op.mayChange = false) (hears : e.hears c n = none) : due.Left due' := by
  have hnone : Registry.changesFor n (e.op.changes e.res) = [] := by
    rw [BusOp.changes_eq_nil ho]
    rfl
  cases h with
  | changed h =>
    rw [hnone] at h
    cases h
  | heard _ hheard =>
    rw [hears] at hheard
    cases hheard
  | kept => exact .inl rfl
  | weakened => exact .inr rfl

variable {x x' : World × Due}

theorem Valid.refl (h : Valid c x) : Meanwhile c x x := ⟨.refl _, h⟩

theorem Meanwhile.trans {x'' : World × Due} (h : Meanwhile c x x') (h' : Meanwhile c x' x'') :
    Meanwhile c x x'' :=
  ⟨h.1.trans h'.1, h'.2⟩

/-- A calm operation leaves what is owed. -/
theorem Tracked.meanwhile (h : Tracked n c o x r x') (ho : Calm n c o) : Meanwhile c x x' :=
  ⟨h.2.1.left ho.mayChange ho.hears, h.2.2⟩

/-- **A program that tells the subscriber nothing** leaves what is owed. -/
theorem tracks_of_telling {α : Type} {p : BusProg α}
    (h : p.Only (Dispatch.Telling (Quiet n c))) (hx : Valid c x) :
    Tracks n c p x fun _ x' => Meanwhile c x x' := by
  refine h.ensures (fun _ _ => Meanwhile.trans) (fun o x₁ r x₂ ho hx₁ hexec => ⟨?_, ?_⟩) hx.refl
  · refine ⟨fun _ => ?_, fun notice hnotice => ?_, ?_⟩
    · cases o with
      | write => trivial
      | _ => exact ho
    · rw [ho.calm.hears] at hnotice
      cases hnotice
    · rintro c' m rfl
      exact ho.calm
  · exact hx₁.trans (hexec.meanwhile ho.calm)

/-- **A calm program that owes nothing** goes on owing nothing. -/
theorem tracks_of_calm {α : Type} {post : α → Prop} {p : BusProg α}
    (h : p.Yields (Calm n c) post) (hx : Valid c x) (hdue : x.2 = .nothing) :
    Tracks n c p x fun a x' => post a ∧ x'.2 = .nothing ∧ Valid c x' := by
  refine h.ensures (I := fun x' => x'.2 = .nothing ∧ Valid c x') (fun x₁ x₂ hx₁ henv => ?_)
    (fun o x₁ r x₂ ho hx₁ hexec => ⟨?_, ?_⟩) ⟨hdue, hx⟩
  · exact ⟨(hx₁.1 ▸ henv.1).nothing, henv.2⟩
  · refine ⟨fun hne => absurd hx₁.1 hne, fun notice hnotice => ?_, ?_⟩
    · rw [ho.hears] at hnotice
      cases hnotice
    · rintro c' m rfl
      exact ho
  · have hleft := (hexec.meanwhile ho).1
    exact ⟨(hx₁.1 ▸ hleft).nothing, hexec.2.2⟩

/-! ## The broadcast of a notice -/

namespace Dispatch

variable {rules : List MatchRule} {conns : List ConnectionEntry} {notice : Notice}

/-- What is told is what the signal says. -/
theorem eq_of_hears {written : Bool}
    (h : (⟨s, .write c' (noticeSignal change serial), written⟩ : BusEvent).hears c n
      = some notice) : notice = change.notice := by
  cases written with
  | false => cases h
  | true =>
    have hsome : (if c' = c then (noticeSignal change serial).notice.filter
        (fun notice => notice.name == n) else none) = some notice := h
    split at hsome
    · rw [notice_noticeSignal] at hsome
      exact (Option.some.inj (Option.filter_eq_some_iff.mp hsome).1).symm
    · cases hsome

/-- A write of the notice pays for it, or takes the certainty. -/
theorem next_write {x : World × Due} {due' : Due} {written : Bool} (hx : x.2.Owes change.notice)
    (hname : change.name = n)
    (h : x.2.Next n c ⟨x.1.state, .write c (noticeSignal change serial), written⟩ due') :
    due' = .nothing ∨ due' = .maybe change.notice := by
  have hhears : (⟨x.1.state, .write c (noticeSignal change serial), true⟩ : BusEvent).hears c n
      = some change.notice := by
    show (if c = c then _ else none) = _
    rw [if_pos rfl, notice_noticeSignal, Option.filter_some,
      if_pos (beq_iff_eq.mpr (show change.notice.name = n from hname))]
  have hweak : x.2.weaken = .maybe change.notice := by
    rcases hx with hx | hx
    · rw [hx]
      rfl
    · rw [hx]
      rfl
  cases h with
  | changed h => cases h
  | heard => exact .inl rfl
  | weakened => exact .inr hweak
  | kept _ hears hmiss =>
    cases written with
    | true =>
      rw [hhears] at hears
      cases hears
    | false =>
      have hmissed : (c == c && change.notice.name == n) = false := hmiss
      rw [beq_self_eq_true, show change.notice.name = n from hname, beq_self_eq_true] at hmissed
      cases hmissed

/-- A rule that matches all notices is found. -/
theorem tracks_anyMatches (hx : Valid c x) :
    Tracks n c (anyMatches (noticeSignal change serial) rules) x fun matched x' =>
      Meanwhile c x x' ∧ ((∃ rule ∈ rules, rule.MatchesNotices) → matched = true) := by
  induction rules generalizing x with
  | nil => exact ⟨hx.refl, fun ⟨_, hmem, _⟩ => absurd hmem List.not_mem_nil⟩
  | cons rule rules ih =>
    intro x₁ owner x₂ h₁ hexec
    have hcalm : Calm n c .ownerLookup := trivial
    have h₂ := h₁.trans (hexec.meanwhile hcalm)
    refine ⟨⟨fun _ => trivial, nofun, nofun⟩, ?_⟩
    show Tracks n c (if rule.matches (noticeSignal change serial) owner = true then _ else _) x₂ _
    split
    · exact ⟨h₂, fun _ => rfl⟩
    · next hrule =>
      refine (ih h₂.2).mono fun matched x' h' => ⟨h₂.trans h'.1, ?_⟩
      rintro ⟨rule', hmem, hmatches⟩
      rcases List.mem_cons.mp hmem with rfl | hmem
      · exact absurd (hmatches change serial owner) hrule
      · exact h'.2 ⟨rule', hmem, hmatches⟩

/-- **The broadcast reaches the subscriber**, if it is certain to be told. -/
theorem tracks_broadcastTo_self (hname : change.name = n)
    (howes : x.2.Owes change.notice) :
    Tracks n c (broadcastTo bus (noticeSignal change serial) false c) x fun _ x' =>
      Valid c x' ∧ (x'.2 = .nothing ∨ x'.2 = .maybe change.notice) := by
  intro x₁ isMonitor x₂ h₁ hmonitor
  have h₂ := h₁.trans (hmonitor.meanwhile (show Calm n c (.isMonitor c) from trivial))
  have howes₂ := h₂.1.owes howes
  refine ⟨⟨fun _ => trivial, nofun, nofun⟩, ?_⟩
  -- whoever is certain to be told is no monitor
  have hmon : ∀ e, x₂.2 = .certain e → isMonitor = false := by
    intro e he
    have hsub := h₂.2.subscribed e he
    rw [show isMonitor = _ from hmonitor.1.1.1, ← hsub.notMonitor]
    rw [show x₂.1.state = x₁.1.state from hmonitor.1.1.2]
  cases isMonitor with
  | true =>
    refine ⟨h₂.2, .inr (howes₂.maybe fun e he => ?_)⟩
    have := hmon e he
    cases this
  | false =>
    intro x₃ rules x₄ h₃ hrules
    have h₄ := (h₂.trans h₃).trans (hrules.meanwhile (show Calm n c (.matchRules c) from trivial))
    refine ⟨⟨fun _ => trivial, nofun, nofun⟩, ?_⟩
    -- it has a rule that matches
    have hrule : ∀ e, x₄.2 = .certain e → ∃ rule ∈ rules, rule.MatchesNotices := by
      intro e he
      have hsub := h₄.2.subscribed e he
      rw [show rules = _ from hrules.1.1.1]
      rw [show x₄.1.state = x₃.1.state from hrules.1.1.2] at hsub
      exact hsub.rule
    show Tracks n c (anyMatches (noticeSignal change serial) rules >>= fun matched => _) x₄ _
    refine Prog.ensures_bind ((tracks_anyMatches h₄.2).mono fun matched x₅ h₅ => ?_)
    have howes₅ := h₅.1.1.owes (h₄.1.owes howes)
    cases matched with
    | false =>
      refine ⟨h₅.1.2, .inr (howes₅.maybe fun e he => ?_)⟩
      have := h₅.2 (hrule e (h₅.1.1.certain_of he))
      cases this
    | true =>
      intro x₆ written x₇ h₆ hwrite
      have howes₆ := h₆.1.owes howes₅
      refine ⟨⟨fun _ => trivial, fun notice hnotice => ?_, nofun⟩, ?_⟩
      · rw [eq_of_hears hnotice]
        exact howes₆
      · intro x₈ _ x₉ h₈ hrecord
        refine ⟨⟨fun _ => trivial, nofun, nofun⟩, ?_⟩
        have hcalm : Calm n c (.record .signal) := trivial
        have h₉ := h₈.trans (hrecord.meanwhile hcalm)
        refine ⟨h₉.2, ?_⟩
        rcases next_write howes₆ hname hwrite.2.1 with hdue | hdue
        · exact .inl (hdue ▸ h₉.1).nothing
        · exact .inr (hdue ▸ h₉.1).maybe

/-- The broadcast for anybody else is none of the subscriber's business. -/
theorem telling_broadcastTo_of_ne (hne : c' ≠ c) :
    (broadcastTo bus (noticeSignal change serial) false c').Only (Telling (Quiet n c)) := by
  refine Prog.only_perform_bind trivial fun isMonitor => Prog.only_ite trivial ?_
  refine Prog.only_perform_bind trivial fun rules => ?_
  refine Prog.only_bind (telling_anyMatches rules) fun matched => Prog.only_ite trivial ?_
  exact telling_broadcastWrite fun hc => absurd hc hne

/-- **The rounds of a broadcast**: the subscriber's turn comes once, and if it is
certain to be told, its turn is still to come. -/
theorem tracks_rounds (hx : Valid c x) (hname : change.name = n) (hnodup : conns.Nodup)
    (hturn : (x.2 = .nothing ∧ c ∉ conns) ∨
      (x.2.Owes change.notice ∧ (x.2 = .certain change.notice → c ∈ conns))) :
    Tracks n c (Prog.forEach (broadcastTo bus (noticeSignal change serial) false) conns) x
      fun _ x' => Valid c x' ∧ (x'.2 = .nothing ∨ x'.2 = .maybe change.notice) := by
  induction conns generalizing x with
  | nil =>
    refine ⟨hx, ?_⟩
    rcases hturn with ⟨hnothing, -⟩ | ⟨howes, hmem⟩
    · exact .inl hnothing
    · exact .inr (howes.resolve_right fun hcertain => absurd (hmem hcertain) List.not_mem_nil)
  | cons conn conns ih =>
    obtain ⟨hnew, hrest⟩ := List.nodup_cons.mp hnodup
    by_cases hconn : conn = c
    · have howes : x.2.Owes change.notice := by
        rcases hturn with ⟨-, hmem⟩ | ⟨howes, -⟩
        · exact absurd (List.mem_cons.mpr (.inl hconn.symm)) hmem
        · exact howes
      rw [hconn] at hnew ⊢
      refine Prog.ensures_bind ((tracks_broadcastTo_self hname howes).mono fun _ x₁ h₁ => ?_)
      refine ih h₁.1 hrest ?_
      rcases h₁.2 with hnothing | hmaybe
      · exact .inl ⟨hnothing, hnew⟩
      · exact .inr ⟨.inl hmaybe, fun hcertain => by rw [hmaybe] at hcertain; cases hcertain⟩
    · refine Prog.ensures_bind ((tracks_of_telling (telling_broadcastTo_of_ne hconn) hx).mono
        fun _ x₁ h₁ => ?_)
      refine ih h₁.2 hrest ?_
      rcases hturn with ⟨hnothing, hmem⟩ | ⟨howes, hmem⟩
      · exact .inl ⟨(hnothing ▸ h₁.1).nothing, fun h => hmem (List.mem_cons_of_mem _ h)⟩
      · refine .inr ⟨h₁.1.owes howes, fun hcertain => ?_⟩
        exact (List.mem_cons.mp (hmem (h₁.1.certain_of hcertain))).resolve_left (Ne.symm hconn)

/-- **A notice is told in one broadcast.** -/
theorem tracks_broadcastSignal (hname : change.name = n)
    (howes : x.2.Owes change.notice) :
    Tracks n c (broadcastSignal bus (noticeSignal change serial) false) x fun _ x' =>
      Valid c x' ∧ (x'.2 = .nothing ∨ x'.2 = .maybe change.notice) := by
  intro x₁ conns x₂ h₁ hconns
  have h₂ := h₁.trans (hconns.meanwhile (show Calm n c .allConnections from trivial))
  refine ⟨⟨fun _ => trivial, nofun, nofun⟩, ?_⟩
  obtain ⟨hperm, hstate⟩ := hconns.1.1
  have hkeyed := h₂.2.keyed
  rw [show x₂.1.state = x₁.1.state from hstate] at hkeyed
  refine tracks_rounds h₂.2 hname (hperm.nodup_iff.mpr hkeyed.nodup_allConnections)
    (.inr ⟨h₂.1.owes howes, fun hcertain => ?_⟩)
  have hentry := (h₂.2.subscribed _ hcertain).entry
  rw [show x₂.1.state = x₁.1.state from hstate] at hentry
  exact hperm.mem_iff.mpr (Registry.mem_allConnections hentry)

/-- The signals to the owners tell the subscriber nothing. -/
theorem telling_owners (owner : Option String) (member : String) :
    (tellOwner owner member change.name).Only (Telling (Quiet n c)) :=
  telling_tellOwner (fun _ u member _ => quiet_of_none (notice_unicast u member _)) owner member

/-- The change of another name's owner is none of the subscriber's business. -/
theorem telling_broadcast_of_ne (hne : change.name ≠ n) :
    (broadcastNameOwnerChange bus change).Only (Telling (Quiet n c)) := by
  refine telling_broadcastNameOwnerChange (fun c' serial _ notice hnotice => ?_)
    fun c' u member serial => quiet_of_none (notice_unicast u member change.name)
  have heq : change.notice = notice := Option.some.inj (notice_noticeSignal.symm.trans hnotice)
  rw [← heq]
  exact hne

/-- **The broadcast of a change pays for it.** -/
theorem tracks_broadcastNameOwnerChange (hname : change.name = n)
    (howes : x.2.Owes change.notice) :
    Tracks n c (broadcastNameOwnerChange bus change) x fun _ x' =>
      Valid c x' ∧ (x'.2 = .nothing ∨ x'.2 = .maybe change.notice) := by
  intro x₁ serial x₂ h₁ hserial
  have h₂ := h₁.trans (hserial.meanwhile (show Calm n c .driverSerial from trivial))
  refine ⟨⟨fun _ => trivial, nofun, nofun⟩, ?_⟩
  show Tracks n c (broadcastSignal bus (noticeSignal change serial) false >>= fun _ => _) x₂ _
  refine Prog.ensures_bind ((tracks_broadcastSignal hname (h₂.1.owes howes)).mono
    fun _ x₃ h₃ => ?_)
  have hafter : ∀ {x' : World × Due}, Meanwhile c x₃ x' →
      Valid c x' ∧ (x'.2 = .nothing ∨ x'.2 = .maybe change.notice) := by
    intro x' h'
    refine ⟨h'.2, ?_⟩
    rcases h₃.2 with hdue | hdue
    · exact .inl (hdue ▸ h'.1).nothing
    · exact .inr (hdue ▸ h'.1).maybe
  refine (tracks_of_telling (Prog.only_bind (telling_owners _ _) fun _ => telling_owners _ _)
    h₃.1).mono fun _ x' h' => hafter h'

/-- **The broadcasts of some changes pay for the one about the name**, if there is
one. -/
theorem tracks_broadcastNameOwnerChanges {changes : List NameOwnerChange} (hx : Valid c x)
    (hdue : (Registry.changesFor n changes = [] ∧ x.2 = .nothing) ∨
      ∃ change, Registry.changesFor n changes = [change] ∧ x.2.Owes change.notice) :
    Tracks n c (broadcastNameOwnerChanges bus changes) x fun _ x' =>
      Valid c x' ∧ x'.2.Settled := by
  have hothers : ∀ {changes : List NameOwnerChange}, Registry.changesFor n changes = [] →
      (broadcastNameOwnerChanges bus changes).Only (Telling (Quiet n c)) := by
    intro changes hnone
    refine Prog.only_forEach fun change hmem => telling_broadcast_of_ne fun hname => ?_
    have hmem' : change ∈ Registry.changesFor n changes :=
      List.mem_filter.mpr ⟨hmem, beq_iff_eq.mpr hname⟩
    rw [hnone] at hmem'
    cases hmem'
  have hsettled : ∀ {x₁ x' : World × Due}, x₁.2.Settled → Meanwhile c x₁ x' →
      Valid c x' ∧ x'.2.Settled := fun h h' => ⟨h'.2, h'.1.settled h⟩
  induction changes generalizing x with
  | nil =>
    refine ⟨hx, ?_⟩
    rcases hdue with ⟨-, hnothing⟩ | ⟨change, hnone, -⟩
    · rw [hnothing]
      exact nofun
    · cases hnone
  | cons change changes ih =>
    by_cases hname : change.name = n
    · have hfilter : Registry.changesFor n (change :: changes)
          = change :: Registry.changesFor n changes :=
        List.filter_cons_of_pos (beq_iff_eq.mpr hname)
      rw [hfilter] at hdue
      rcases hdue with ⟨hnone, -⟩ | ⟨change', hone, howes⟩
      · cases hnone
      · obtain ⟨rfl, hrest⟩ := List.cons.inj hone
        refine Prog.ensures_bind ((tracks_broadcastNameOwnerChange hname howes).mono
          fun _ x₁ h₁ => ?_)
        refine (tracks_of_telling (hothers hrest) h₁.1).mono fun _ x' h' => hsettled ?_ h'
        rcases h₁.2 with hnothing | hmaybe
        · rw [hnothing]
          exact nofun
        · rw [hmaybe]
          exact nofun
    · have hfilter : Registry.changesFor n (change :: changes) = Registry.changesFor n changes :=
        List.filter_cons_of_neg fun h => hname (beq_iff_eq.mp h)
      rw [hfilter] at hdue
      refine Prog.ensures_bind ((tracks_of_telling (telling_broadcast_of_ne hname) hx).mono
        fun _ x₁ h₁ => ?_)
      refine ih h₁.2 ?_
      rcases hdue with ⟨hnone, hnothing⟩ | ⟨change', hone, howes⟩
      · exact .inl ⟨hnone, (hnothing ▸ h₁.1).nothing⟩
      · exact .inr ⟨change', hone, h₁.1.owes howes⟩

end Dispatch

/-! ## The methods of the driver -/

/-- Nobody has to be told of anything. -/
def NoChanges (outcome : DriverOutcome) : Prop := outcome.nameOwnerChanges = []

namespace Driver

variable {caller : ConnectionEntry} {args : List Value} {name : String}

theorem yields_withArgStr {f : String → BusProg DriverOutcome}
    (h : ∀ s, (f s).Yields (Calm n c) NoChanges) :
    (withArgStr args f).Yields (Calm n c) NoChanges := by
  unfold withArgStr
  split
  · exact h _
  · rfl

theorem calm_resolveConnection : (resolveConnection name).Only (Calm n c) :=
  routing_resolveConnection.mono fun _ => Routing.calm

theorem calm_activateAndWait : (activateAndWait name).Only (Calm n c) :=
  routing_activateAndWait.mono fun _ => Routing.calm

theorem yields_withConnection {f : ConnectionEntry → List Value} :
    (withConnection args f).Yields (Calm n c) NoChanges := by
  refine yields_withArgStr fun name => calm_resolveConnection.yields_bind fun conn => ?_
  cases conn <;> rfl

theorem yields_handleStartService :
    (handleStartService bus args).Yields (Calm n c) NoChanges := by
  refine yields_withArgStr fun name => ⟨trivial, fun owner => ?_⟩
  refine Prog.yields_ite rfl (Prog.yields_ite rfl ?_)
  refine calm_activateAndWait.yields_bind fun failure => ?_
  cases failure <;> rfl

theorem yields_handleAddMatch : (handleAddMatch bus caller args).Yields (Calm n c) NoChanges := by
  refine yields_withArgStr fun text => ⟨trivial, fun rules => ?_⟩
  refine Prog.yields_ite rfl ?_
  split
  · exact ⟨trivial, fun _ => rfl⟩
  · rfl
  · rfl

theorem yields_handleUpdateActivationEnv :
    (handleUpdateActivationEnv bus args).Yields (Calm n c) NoChanges := by
  refine Prog.yields_ite rfl ?_
  split
  · exact ⟨trivial, fun _ => rfl⟩
  · rfl

/-- **The methods that change no owner.** -/
theorem yields_handle {member : String} (hhello : member ≠ "Hello")
    (hrequest : member ≠ "RequestName") (hrelease : member ≠ "ReleaseName") :
    (handle bus caller member args).Yields (Calm n c) NoChanges := by
  have hremove : (handleRemoveMatch caller args).Yields (Calm n c) NoChanges := by
    refine yields_withArgStr fun rule => ⟨trivial, fun removed => ?_⟩
    cases removed <;> rfl
  have hhas : (handleNameHasOwner args).Yields (Calm n c) NoChanges := by
    unfold handleNameHasOwner
    split
    · exact ⟨trivial, fun _ => rfl⟩
    · rfl
  have hget : (handleGetNameOwner args).Yields (Calm n c) NoChanges := by
    refine yields_withArgStr fun name => ⟨trivial, fun owner => ?_⟩
    cases owner <;> rfl
  have hlist : (handleListQueuedOwners args).Yields (Calm n c) NoChanges :=
    yields_withArgStr fun name => ⟨trivial, fun _ => rfl⟩
  have hnames : (do
      let names ← op .listNames
      return ok [stringArray names] [] : BusProg DriverOutcome).Yields (Calm n c) NoChanges :=
    ⟨trivial, fun _ => rfl⟩
  unfold handle
  rw [if_neg hhello, if_neg hrequest, if_neg hrelease]
  refine Prog.yields_ite hnames ?_
  refine Prog.yields_ite rfl ?_
  refine Prog.yields_ite hhas ?_
  refine Prog.yields_ite hget ?_
  refine Prog.yields_ite hlist ?_
  refine Prog.yields_ite yields_handleStartService ?_
  refine Prog.yields_ite yields_handleAddMatch ?_
  refine Prog.yields_ite hremove ?_
  refine Prog.yields_ite yields_withConnection ?_
  refine Prog.yields_ite yields_withConnection ?_
  refine Prog.yields_ite yields_withConnection ?_
  refine Prog.yields_ite rfl ?_
  refine Prog.yields_ite yields_handleUpdateActivationEnv ?_
  exact Prog.yields_ite rfl rfl

end Driver

namespace Dispatch

/-! ## A dispatch -/

/-- What a call to the driver has changed is owed, or nothing is. -/
def OwesOutcome (n : String) (c : ConnectionEntry) (outcome : DriverOutcome) (x : World × Due) :
    Prop :=
  Valid c x ∧ ((Registry.changesFor n outcome.nameOwnerChanges = [] ∧ x.2 = .nothing) ∨
    ∃ change, Registry.changesFor n outcome.nameOwnerChanges = [change] ∧
      x.2.Owes change.notice)

variable {caller : ConnectionEntry}

theorem notice_outcomeReply (call : Message) (result : DriverResult) :
    ((outcomeReply call result).build serial).notice = none := by
  refine notice_of_messageType ?_
  show (outcomeReply call result).messageType ≠ .signal
  unfold outcomeReply errorReply Message.replyTo
  cases result <;> cases call.sender <;> exact nofun

/-- **A call to the driver is finished** when everyone has been told. -/
theorem tracks_finishDriverReply {outcome : DriverOutcome} (h : OwesOutcome n c outcome x) :
    Tracks n c (finishDriverReply bus caller msg outcome) x fun _ x' =>
      Valid c x' ∧ x'.2.Settled := by
  refine Prog.ensures_bind ((tracks_broadcastNameOwnerChanges h.1 h.2).mono fun _ x₁ h₁ => ?_)
  have hreply : (if msg.noReplyExpected then pure ()
      else sendFromDriver caller (outcomeReply msg outcome.result) : BusProg Unit).Only
        (Telling (Quiet n c)) :=
    Prog.only_ite trivial (telling_sendFromDriver fun _ =>
      quiet_of_none (notice_outcomeReply msg outcome.result))
  exact (tracks_of_telling hreply h₁.1).mono fun _ x' h' => ⟨h'.2, h'.1.settled h₁.2⟩

/-- The outcome of a program that changes nothing. -/
theorem owesOutcome_of_calm {p : BusProg DriverOutcome} (h : p.Yields (Calm n c) NoChanges)
    (hx : Valid c x) (hdue : x.2 = .nothing) : Tracks n c p x (OwesOutcome n c) :=
  (tracks_of_calm h hx hdue).mono fun _ _ h' =>
    ⟨h'.2.2, .inl ⟨by rw [show _ = [] from h'.1]; rfl, h'.2.1⟩⟩

/-- **The outcome made of an operation's changes.** -/
theorem owesOutcome_of_changes {outcome : DriverOutcome} (h : Tracked n c o x r x')
    (hdue : x.2 = .nothing) (houtcome : outcome.nameOwnerChanges = o.changes r) :
    OwesOutcome n c outcome x' := by
  obtain ⟨w', due'⟩ := x'
  refine ⟨h.2.2, ?_⟩
  rw [houtcome]
  cases h.2.1 with
  | changed hchange howes => exact .inr ⟨_, hchange, howes⟩
  | heard hnone => exact .inl ⟨hnone, rfl⟩
  | kept hnone => exact .inl ⟨hnone, hdue⟩
  | weakened hnone =>
    refine .inl ⟨hnone, ?_⟩
    rw [hdue]

/-- Operations that change owners tell nobody, and are performed while nothing is
owed. -/
theorem pays_of_mayChange (ho : o.mayChange = true) (hdue : x.2 = .nothing) : Pays n c o x r := by
  refine ⟨fun hne => absurd hdue hne, fun notice hnotice => ?_, ?_⟩
  · cases o with
    | write => cases ho
    | _ => cases hnotice
  · rintro c' m rfl
    cases ho

theorem tracks_handleHello (hdue : x.2 = .nothing) :
    Tracks n c (Driver.handleHello caller) x (OwesOutcome n c) := by
  intro x₁ wasRegistered x₂ h₁ hswap
  have hdue₁ := (hdue ▸ h₁.1).nothing
  refine ⟨pays_of_mayChange rfl hdue₁, ?_⟩
  cases wasRegistered with
  | true => exact owesOutcome_of_changes hswap hdue₁ rfl
  | false => exact owesOutcome_of_changes hswap hdue₁ rfl

theorem tracks_requestChecked {name : String} {flags : UInt32} (hx : Valid c x)
    (hdue : x.2 = .nothing) :
    Tracks n c (Driver.requestChecked bus caller name flags) x (OwesOutcome n c) := by
  refine Prog.ensures_ite (fun _ => owesOutcome_of_calm ⟨trivial, fun _ => rfl⟩ hx hdue) fun _ => ?_
  refine Prog.ensures_ite (fun _ => owesOutcome_of_calm ⟨trivial, fun _ => rfl⟩ hx hdue) fun _ => ?_
  intro x₁ held x₂ h₁ hheld
  have hcalm : Calm n c (.namesHeldBy caller.uniqueName) := trivial
  have hdue₂ := (hdue ▸ (h₁.trans (hheld.meanwhile hcalm)).1).nothing
  refine ⟨⟨fun hne => absurd (hdue ▸ h₁.1).nothing hne, nofun, nofun⟩, ?_⟩
  refine Prog.ensures_ite (fun _ => ⟨hheld.2.2, .inl ⟨rfl, hdue₂⟩⟩) fun _ => ?_
  intro x₃ reply x₄ h₃ hrequest
  have hdue₃ := (hdue₂ ▸ h₃.1).nothing
  exact ⟨pays_of_mayChange rfl hdue₃, owesOutcome_of_changes hrequest hdue₃ rfl⟩

theorem tracks_withArgStr {args : List Value} {f : String → BusProg DriverOutcome}
    (h : ∀ s, Tracks n c (f s) x (OwesOutcome n c)) (hx : Valid c x) (hdue : x.2 = .nothing) :
    Tracks n c (Driver.withArgStr args f) x (OwesOutcome n c) := by
  unfold Driver.withArgStr
  split
  · exact h _
  · exact ⟨hx, .inl ⟨rfl, hdue⟩⟩

/-- **The driver owes what its methods change.** -/
theorem tracks_handle {member : String} {args : List Value} (hx : Valid c x)
    (hdue : x.2 = .nothing) :
    Tracks n c (Driver.handle bus caller member args) x (OwesOutcome n c) := by
  by_cases hhello : member = "Hello"
  · rw [hhello]
    exact tracks_handleHello hdue
  by_cases hrequest : member = "RequestName"
  · rw [hrequest]
    refine tracks_withArgStr (fun name => ?_) hx hdue
    split
    · exact ⟨hx, .inl ⟨rfl, hdue⟩⟩
    · exact ⟨hx, .inl ⟨rfl, hdue⟩⟩
    · exact tracks_requestChecked hx hdue
  by_cases hrelease : member = "ReleaseName"
  · rw [hrelease]
    refine tracks_withArgStr (fun name => ?_) hx hdue
    intro x₁ reply x₂ h₁ hrelease
    have hdue₁ := (hdue ▸ h₁.1).nothing
    exact ⟨pays_of_mayChange rfl hdue₁, owesOutcome_of_changes hrelease hdue₁ rfl⟩
  exact owesOutcome_of_calm (Driver.yields_handle hhello hrequest hrelease) hx hdue

theorem yields_handleSideInterface {interface : Option String} {member : String}
    {args : List Value} {outcome : BusProg DriverOutcome}
    (h : handleSideInterface bus caller interface member args = some outcome) :
    outcome.Yields (Calm n c) NoChanges := by
  unfold handleSideInterface at h
  split at h
  · rw [← Option.some.inj h]
    show NoChanges (if _ then _ else _)
    split
    · rfl
    · split <;> rfl
  split at h
  · rw [← Option.some.inj h]
    show NoChanges (if _ then _ else _)
    split <;> rfl
  split at h
  · rw [← Option.some.inj h]
    have hstats : getStats.Yields (Calm n c) NoChanges :=
      ⟨trivial, fun _ => ⟨trivial, fun _ => ⟨trivial, fun _ => ⟨trivial, fun _ => rfl⟩⟩⟩⟩
    have hconnection : (getConnectionStats args).Yields (Calm n c) NoChanges := by
      unfold getConnectionStats
      split
      · refine Driver.calm_resolveConnection.yields_bind fun conn => ?_
        cases conn with
        | some conn => exact ⟨trivial, fun _ => rfl⟩
        | none => rfl
      · rfl
    exact Prog.yields_ite hstats (Prog.yields_ite hconnection rfl)
  split at h
  · rw [← Option.some.inj h]
    exact Prog.yields_ite ⟨trivial, fun _ => ⟨trivial, fun _ => rfl⟩⟩ rfl
  · cases h

/-- **A call to the driver pays for what it changes.** -/
theorem tracks_handleDriverCall (hx : Valid c x) (hdue : x.2 = .nothing) :
    Tracks n c (handleDriverCall bus caller msg) x fun _ x' => Valid c x' ∧ x'.2.Settled := by
  have houtcome : Tracks n c (driverOutcome bus caller msg) x (OwesOutcome n c) := by
    unfold driverOutcome
    dsimp only
    split
    · next outcome h => exact owesOutcome_of_calm (yields_handleSideInterface h) hx hdue
    · exact tracks_handle hx hdue
  exact Prog.ensures_bind (houtcome.mono fun _ _ h => tracks_finishDriverReply h)

/-- A calm program that owes nothing has settled everything. -/
theorem tracks_settled_of_calm {p : BusProg Unit} (h : p.Only (Calm n c)) (hx : Valid c x)
    (hdue : x.2 = .nothing) : Tracks n c p x fun _ x' => Valid c x' ∧ x'.2.Settled :=
  (tracks_of_calm h.yields hx hdue).mono fun _ _ h' => ⟨h'.2.2, by rw [h'.2.1]; exact nofun⟩

/-- **A dispatch pays for what it changes.** -/
theorem tracks_dispatchIncoming (hx : Valid c x) (hdue : x.2 = .nothing) :
    Tracks n c (dispatchIncoming bus caller msg) x fun _ x' => Valid c x' ∧ x'.2.Settled := by
  have hcopies : (deliverToMonitors (msg.setSender caller.uniqueName)).Only (Calm n c) := by
    refine ⟨trivial, fun conns => Prog.only_forEach fun conn _ => ⟨trivial, fun isMonitor => ?_⟩⟩
    exact Prog.only_ite ⟨notice_setSender, fun _ => trivial⟩ trivial
  have hstamped : ∀ c', Quiet n c c' (msg.setSender caller.uniqueName) :=
    fun _ => quiet_of_none notice_setSender
  have herror : ∀ m, DriverBuilt m → m.messageType = .error → Quiet n c caller m := by
    intro m _ hm
    refine quiet_of_none (notice_of_messageType ?_)
    rw [hm]
    exact nofun
  have hrouting : ∀ {p : BusProg Unit} {x : World × Due}, p.Only (Routing (Quiet n c)) →
      Valid c x → x.2 = .nothing → Tracks n c p x fun _ x' => Valid c x' ∧ x'.2.Settled :=
    fun h => tracks_settled_of_calm (h.mono fun _ => Routing.calm)
  refine Prog.ensures_bind ((tracks_of_calm hcopies.yields hx hdue).mono fun _ x₁ h₁ => ?_)
  intro x₂ isRegistered x₃ h₂ hexec
  have h₃ := h₂.trans (hexec.meanwhile (show Calm n c (.isRegistered caller) from trivial))
  have hdue₃ := (h₁.2.1 ▸ h₃.1).nothing
  refine ⟨⟨fun hne => absurd (h₁.2.1 ▸ h₂.1).nothing hne, nofun, nofun⟩, ?_⟩
  refine Prog.ensures_ite (fun _ => hrouting (routing_replyError herror _ _ _) h₃.2 hdue₃)
    fun _ => ?_
  show Tracks n c (dispatchByType bus caller _) x₃ _
  unfold dispatchByType
  split
  · exact hrouting (routing_dispatchSignal fun c' _ _ => hstamped c') h₃.2 hdue₃
  · by_cases hdest : (msg.setSender caller.uniqueName).destination = some WellKnown.busName
    · rw [dispatchMethodCall_driver hdest]
      exact tracks_handleDriverCall h₃.2 hdue₃
    · exact hrouting (routing_dispatchMethodCall hdest herror fun c' _ _ => hstamped c') h₃.2 hdue₃
  · exact hrouting (routing_dispatchReply hstamped) h₃.2 hdue₃
  · exact hrouting (routing_dispatchReply hstamped) h₃.2 hdue₃

end Dispatch

end Oxibus
