import Oxibus.Daemon.Replay

/-!
# The name a message is addressed to

A connection can be addressed by its unique name or by a name it owns, and
the router finds it either way. The policy does not look for owners: a
pattern is compared with the destination as it is written. What a pattern
says of a well-known name it does not say of its owner's unique name.

So a decision about one name carries over to the other when no pattern that
applies to the sender tells the two apart, and need not when one does.
-/

namespace Oxibus

open Daemon

/-- Whether the field names the destination. -/
def HeaderField.isDestination : HeaderField → Bool
  | destination _ => true
  | _ => false

/-- **Two messages that differ in their destination only.** -/
structure Readdressed (m m' : Message) : Prop where
  header : m'.header = { m.header with fields := m'.header.fields }
  fields : (m'.header.fields.filter fun f => !f.isDestination)
    = m.header.fields.filter fun f => !f.isDestination
  body : m'.body = m.body
  fds : m'.fds = m.fds

namespace Readdressed

variable {m m' : Message}

/-- The other fields are found in both. -/
theorem findSome?_eq {β : Type} {g : HeaderField → Option β} (h : Readdressed m m')
    (hg : ∀ s, g (.destination s) = none) :
    m'.header.fields.findSome? g = m.header.fields.findSome? g := by
  have hdest : ∀ f : HeaderField, f.isDestination = true → g f = none := by
    intro f hf
    cases f with
    | destination s => exact hg s
    | _ => cases hf
  calc m'.header.fields.findSome? g
      = (m'.header.fields.filter fun f => !f.isDestination).findSome? g :=
        (HeaderField.findSome?_filter hdest).symm
    _ = (m.header.fields.filter fun f => !f.isDestination).findSome? g := by rw [h.fields]
    _ = m.header.fields.findSome? g := HeaderField.findSome?_filter hdest

theorem messageType_eq (h : Readdressed m m') : m'.messageType = m.messageType := by
  have hheader := congrArg MessageHeader.messageType h.header
  exact hheader

end Readdressed

/-! ## Patterns -/

namespace SendReceivePattern

/-- The pattern for the other party, if there is one. -/
def otherParty : SendReceivePattern → Option String
  | destination pat => some pat
  | full dest _ _ _ _ => dest

variable {m m' : Message} {N u : String}

/-- **A pattern that does not tell two names apart** matches both of two messages
addressed to them, or neither. -/
theorem matches_readdressed {pat : SendReceivePattern} (h : Readdressed m m')
    (hpat : ∀ d, pat.otherParty = some d → globMatch d N = globMatch d u) :
    pat.matches m (some N) = pat.matches m' (some u) := by
  have hinterface : m'.interface = m.interface := h.findSome?_eq fun _ => rfl
  have hmember : m'.member = m.member := h.findSome?_eq fun _ => rfl
  have hpath : m'.path = m.path := h.findSome?_eq fun _ => rfl
  have htype : matchesType m' = matchesType m := by
    funext type
    unfold matchesType
    rw [h.messageType_eq]
  cases pat with
  | destination pat => exact hpat pat rfl
  | full dest iface memb path type =>
    have hdest :
        mentions dest (fun d => globMatch d N) = mentions dest (fun d => globMatch d u) := by
      cases dest with
      | none => rfl
      | some d => exact hpat d rfl
    show (mentions dest (fun d => globMatch d N) && _ && _ && _ && _)
      = (mentions dest (fun d => globMatch d u) && _ && _ && _ && _)
    rw [hdest, hinterface, hmember, hpath, htype]

end SendReceivePattern

/-! ## Decisions -/

namespace Policy

variable {policy : Policy} {identity : Identity}

/-- Two questions that every applicable rule answers alike have one verdict. -/
theorem verdict_congr {allows denies allows' denies' : PolicyRule → Bool}
    (h : ∀ rule ∈ policy.applicable identity,
      allows rule = allows' rule ∧ denies rule = denies' rule) :
    policy.verdict identity allows denies = policy.verdict identity allows' denies' := by
  unfold verdict
  split
  · rfl
  · refine List.foldl_ext _ _ _ fun verdict rule hrule => ?_
    rw [(h rule hrule).1, (h rule hrule).2]

/-- **No pattern that decides what an identity may send tells two names
apart.** -/
def Blind (policy : Policy) (identity : Identity) (N u : String) : Prop :=
  ∀ rule ∈ policy.applicable identity, ∀ pat ∈ rule.allowSend ++ rule.denySend,
    ∀ d, pat.otherParty = some d → globMatch d N = globMatch d u

theorem canSend_readdressed {m m' : Message} {N u : String} (h : Readdressed m m')
    (hblind : policy.Blind identity N u) :
    policy.canSend identity m (some N) = policy.canSend identity m' (some u) := by
  have hpatterns : ∀ rule ∈ policy.applicable identity, ∀ pats : List SendReceivePattern,
      pats ⊆ rule.allowSend ++ rule.denySend →
      (pats.any fun p => p.matches m (some N)) = pats.any fun p => p.matches m' (some u) := by
    intro rule hrule pats hpats
    rw [Bool.eq_iff_iff, List.any_eq_true, List.any_eq_true]
    refine exists_congr fun pat => and_congr_right fun hpat => ?_
    rw [pat.matches_readdressed h (hblind rule hrule pat (hpats hpat))]
  exact verdict_congr fun rule hrule =>
    ⟨hpatterns rule hrule _ (List.subset_append_left _ _),
      hpatterns rule hrule _ (List.subset_append_right _ _)⟩

end Policy

namespace Dispatch

variable {bus : Bus} {sender : ConnectionEntry} {msg : Message}

/-- **The send decision about a call**: calls of the driver are let through, and
others are as the policy says. -/
def sendDecision (bus : Bus) (sender : ConnectionEntry) (msg : Message) : Bool :=
  msg.destination == some WellKnown.busName || canSend bus sender msg

/-- A call that is decided against is not routed, whoever owns what. -/
theorem dispatchMethodCall_of_denied {dest : String} (hdest : msg.destination = some dest)
    (h : sendDecision bus sender msg = false) :
    dispatchMethodCall bus sender msg = (do
      BusProg.op (.record .denial)
      replyError sender msg Errors.accessDenied
        ("Connection is not allowed to send to \"" ++ dest ++ "\"")) := by
  obtain ⟨hbus, hsend⟩ := Bool.or_eq_false_iff.mp h
  rw [hdest, beq_eq_false_iff_ne] at hbus
  unfold dispatchMethodCall
  rw [hdest]
  show (if dest = WellKnown.busName then _ else _) = _
  rw [if_neg fun heq => hbus (congrArg some heq), hsend]
  rfl

/-- **A call is decided alike under both names** of its recipient, its own and one
other than the driver's, if no pattern for what the sender may send tells the
two apart. Who owns the name does not matter. -/
theorem sendDecision_readdressed (bus : Bus) (sender U : ConnectionEntry) (m m' : Message)
    (N : String) (h : Readdressed m m') (hm : m.destination = some N)
    (hm' : m'.destination = some U.uniqueName) (hN : N ≠ WellKnown.busName)
    (hblind : bus.policy.Blind (bus.identity sender) N U.uniqueName) :
    sendDecision bus sender m = sendDecision bus sender m' := by
  have hleft : (some N == some WellKnown.busName) = false :=
    beq_eq_false_iff_ne.mpr fun heq => hN (Option.some.inj heq)
  have hright : (some U.uniqueName == some WellKnown.busName) = false :=
    beq_eq_false_iff_ne.mpr fun heq => uniqueName_ne_busName U.id (Option.some.inj heq)
  unfold sendDecision canSend
  rw [hm, hm', hleft, hright, Bool.false_or, Bool.false_or]
  exact Policy.canSend_readdressed h hblind

/-! ## A policy that tells the names apart -/

/-- Everybody may send anything, but not to one service. -/
def wallBus : Bus :=
  { plainBus with
    policy := ⟨[⟨.default, none, none, ["*"], [], [.destination "*"], [.destination "a.Service"],
      [.destination "*"], []⟩]⟩ }

/-- A client connects, says Hello and asks for the name of the service. -/
def serviceScript : List Instruction :=
  [.accept ⟨1000, 1000, 4711⟩, .run 0 8, .receive 0 (frameOf (driverCall "Hello" [] 1)),
    .run 0 50, .receive 0 (frameOf (driverCall "RequestName"
      [.string "a.Service", .uint32 0] 2)), .run 0 50]

/-- The service. -/
def service : ConnectionEntry := ⟨1, ⟨1000, 1000, 4711⟩, none⟩

/-- A call to a name. -/
def callTo (name : String) : Message :=
  ((Message.Builder.methodCall ⟨"/a"⟩ "M").destination name).build 7

theorem readdressed_callTo (N u : String) : Readdressed (callTo N) (callTo u) :=
  ⟨rfl, rfl, rfl, rfl⟩

/-- **What is denied under the name is allowed under the owner's unique
name.** -/
theorem sendDecision_dodged : ¬ ∀ (bus : Bus) (S : Daemon) (sender U : ConnectionEntry)
    (m m' : Message) (N : String), Reachable bus S → startsWithColon N = false →
    S.world.state.registry.getNameOwner N = some U.uniqueName → Readdressed m m' →
    m.destination = some N → m'.destination = some U.uniqueName →
    sendDecision bus sender m = sendDecision bus sender m' := by
  intro h
  have hsame := h wallBus _ service service (callTo "a.Service") (callTo service.uniqueName)
    "a.Service" (reachable_replay reachable_new serviceScript) (by decide) (by decide +kernel)
    (readdressed_callTo _ _) rfl rfl
  exact absurd hsame (by decide +kernel)

/-- Another service is not walled off. -/
theorem sendDecision_readdressed_callTo :
    sendDecision wallBus service (callTo "b.Service")
      = sendDecision wallBus service (callTo service.uniqueName) := by
  refine sendDecision_readdressed wallBus service service _ _ "b.Service"
    (readdressed_callTo _ _) rfl rfl (by decide) fun rule hrule pat hpat d hd => ?_
  obtain rfl : rule = _ := List.mem_singleton.mp hrule
  simp only [List.cons_append, List.nil_append, List.mem_cons, List.not_mem_nil, or_false] at hpat
  rcases hpat with rfl | rfl
  · cases hd
    decide +kernel
  · cases hd
    decide +kernel

end Dispatch

end Oxibus
