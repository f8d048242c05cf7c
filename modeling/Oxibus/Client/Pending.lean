import Oxibus.Client.Calls

/-!
# The table of pending calls

A call enters the table before its message is written, and leaves it in one of
four ways: its reply comes, its message cannot be written, another call takes
its serial number, or the reader stops. Two things that end a call or the
reader do not look at the table. A call that is cancelled leaves its entry
behind, and a call may enter the table when the reader has stopped and nothing
will take it out again.

Where neither happens (`Orderly`), the table holds exactly the calls whose
reply is still to come (`Tabled`), and the rest follows.
-/

namespace Oxibus

namespace Client

/-- Whether nothing has come out of the channel, and something may. -/
def Slot.isEmpty : Slot → Bool
  | .empty => true
  | _ => false

namespace Call

/-- **A call that waits for its reply**: its message is written, and nothing
has been sent into its channel. -/
def awaits (call : Call) : Bool :=
  match call.phase with
  | .waiting => call.slot.isEmpty
  | _ => false

/-- Whether its message is being written. -/
def isWriting (call : Call) : Bool :=
  match call.phase with
  | .writing => true
  | _ => false

/-- **A call whose reply is to come**, from its entry into the table on. -/
def expects (call : Call) : Bool :=
  match call.phase with
  | .writing => call.slot.isEmpty
  | .waiting => call.slot.isEmpty
  | _ => false

@[simp] theorem isEmpty_slot_drop (call : Call) : call.drop.slot.isEmpty = false := by
  unfold drop
  cases hslot : call.slot <;> simp [Slot.isEmpty, hslot]

@[simp] theorem isEmpty_slot_fill (n : ℕ) (reply : Message) (call : Call) :
    (call.fill n reply).slot.isEmpty = false := by
  unfold fill
  cases hslot : call.slot <;> simp [Slot.isEmpty, hslot]

@[simp] theorem phase_drop (call : Call) : call.drop.phase = call.phase := by
  unfold drop
  split <;> rfl

@[simp] theorem phase_fill (n : ℕ) (reply : Message) (call : Call) :
    (call.fill n reply).phase = call.phase := by
  unfold fill
  split <;> rfl

theorem not_expects_of_slot {call : Call} (h : call.slot.isEmpty = false) :
    call.expects = false := by
  unfold expects
  split
  · exact h
  · exact h
  · rfl

end Call

namespace Connection

variable {c c' : Connection} {e : Event} {es : List Event} {i j : ℕ} {serial serial' : UInt32}

/-- **The property of the table**: when no message is being written, it holds
the calls that wait, and when the reader has stopped, none. -/
def TableExact (c : Connection) : Prop :=
  (∀ (i : ℕ) (call : Call), c.calls[i]? = some call → call.isWriting = false) →
    (∀ serial, serial ∈ c.pending ↔
      ∃ (i : ℕ) (call : Call), c.calls[i]? = some call ∧ call.serial = serial ∧
        call.awaits = true) ∧
    (c.reader = .stopped → c.pending = ∅ ∧
      ∀ (i : ℕ) (call : Call), c.calls[i]? = some call → call.awaits = false)

/-! ## Orderly runs -/

/-- **A step that keeps the table in order**: no call is cancelled before its
reply has come, and no message is written for a call that entered the table
when the reader had stopped. -/
def Keeps (c : Connection) : Event → Prop
  | .cancel i => ∀ call, c.calls[i]? = some call → call.slot.isEmpty = false
  | .written i => c.reader = .stopped → ∀ call, c.calls[i]? = some call → call.slot.isEmpty = false
  | _ => True

/-- **A run whose steps all do.** -/
inductive Orderly : Connection → List Event → Connection → Prop where
  | nil (c : Connection) : Orderly c [] c
  | cons {c c₁ c' : Connection} {e : Event} {es : List Event} (hkeeps : c.Keeps e)
    (hstep : c.step e = some c₁) (hrun : Orderly c₁ es c') : Orderly c (e :: es) c'

/-! ## The invariant -/

/-- The call at a position has a serial number and expects its reply. -/
def Expecting (c : Connection) (i : ℕ) (serial : UInt32) : Prop :=
  ∃ call, c.calls[i]? = some call ∧ call.serial = serial ∧ call.expects = true

/-- **The table holds the calls whose reply is to come**, and when the reader
has stopped none of them has written its message. -/
structure Tabled (c : Connection) : Prop where
  lookup_iff : ∀ serial i, c.pending.lookup serial = some i ↔ c.Expecting i serial
  started : ∀ (i : ℕ) (call : Call), c.calls[i]? = some call → call.phase = .started →
    call.slot = .empty
  stopped : c.reader = .stopped → ∀ (i : ℕ) (call : Call), c.calls[i]? = some call →
    call.awaits = false

theorem Expecting.serial_eq (h : c.Expecting i serial) (h' : c.Expecting i serial') :
    serial = serial' := by
  obtain ⟨call, hcall, rfl, -⟩ := h
  obtain ⟨call', hcall', rfl, -⟩ := h'
  rw [Option.some.inj (hcall.symm.trans hcall')]

/-- A call that was modified so that it expects nothing. -/
theorem expecting_modifyCall_of_not {f : Call → Call}
    (hf : ∀ call, c.calls[i]? = some call → (f call).expects = false) :
    (c.modifyCall i f).Expecting j serial ↔ j ≠ i ∧ c.Expecting j serial := by
  constructor
  · rintro ⟨call, hcall, hserial, hexpects⟩
    obtain ⟨call₀, hcall₀, rfl⟩ := getElem?_modifyCall hcall
    split at hexpects
    · next hij =>
      rw [hf call₀ (hij ▸ hcall₀)] at hexpects
      cases hexpects
    · next hij =>
      rw [if_neg hij] at hserial
      exact ⟨fun hji => hij hji.symm, call₀, hcall₀, hserial, hexpects⟩
  · rintro ⟨hji, call, hcall, hserial, hexpects⟩
    refine ⟨call, ?_, hserial, hexpects⟩
    show (c.calls.modify i f)[j]? = _
    have hij : i ≠ j := hji.symm
    rw [List.getElem?_modify, hcall]
    simp [hij]

/-- A call that was modified and expects what it expected. -/
theorem expecting_modifyCall_of_same {f : Call → Call}
    (hf : ∀ call, c.calls[i]? = some call → (f call).serial = call.serial ∧
      (f call).expects = call.expects) :
    (c.modifyCall i f).Expecting j serial ↔ c.Expecting j serial := by
  constructor
  · rintro ⟨call, hcall, hserial, hexpects⟩
    obtain ⟨call₀, hcall₀, rfl⟩ := getElem?_modifyCall hcall
    split at hexpects
    · next hij =>
      obtain ⟨hsame, hsame'⟩ := hf call₀ (hij ▸ hcall₀)
      rw [if_pos hij, hsame] at hserial
      exact ⟨call₀, hcall₀, hserial, hsame' ▸ hexpects⟩
    · next hij =>
      rw [if_neg hij] at hserial
      exact ⟨call₀, hcall₀, hserial, hexpects⟩
  · rintro ⟨call, hcall, hserial, hexpects⟩
    refine ⟨if i = j then f call else call, ?_, ?_, ?_⟩
    · show (c.calls.modify i f)[j]? = _
      rw [List.getElem?_modify, hcall]
      rfl
    · split
      · next hij => rw [(hf call (hij ▸ hcall)).1, hserial]
      · exact hserial
    · split
      · next hij => rw [(hf call (hij ▸ hcall)).2, hexpects]
      · exact hexpects

/-- What the table held under a serial number left; a call keeps its number
and its phase. -/
theorem exists_dropPending {call : Call} (hcall : c.calls[i]? = some call) (serial : UInt32) :
    ∃ call', (c.dropPending serial).calls[i]? = some call' ∧ call'.serial = call.serial ∧
      call'.phase = call.phase ∧ (call.slot.isEmpty = false → call'.slot.isEmpty = false) := by
  unfold Connection.dropPending
  split
  · next k hk =>
    have hfound : (c.modifyCall k Call.drop).calls[i]?
        = some (if k = i then call.drop else call) := by
      show (c.calls.modify k Call.drop)[i]? = _
      rw [List.getElem?_modify, hcall]
      rfl
    refine ⟨_, hfound, ?_⟩
    split
    · exact ⟨call.serial_drop, call.phase_drop, fun _ => call.isEmpty_slot_drop⟩
    · exact ⟨rfl, rfl, id⟩
  · exact ⟨call, hcall, rfl, rfl, id⟩

/-- Whether a call is in the table. -/
theorem isPending_iff : c.isPending j = true ↔ ∃ serial, c.pending.lookup serial = some j := by
  rw [Connection.isPending, List.any_eq_true]
  constructor
  · rintro ⟨⟨serial, k⟩, hmem, hkj⟩
    obtain rfl : k = j := beq_iff_eq.mp hkj
    exact ⟨serial, AList.mem_lookup_iff.mpr hmem⟩
  · rintro ⟨serial, hj⟩
    exact ⟨⟨serial, j⟩, AList.mem_lookup_iff.mp hj, beq_self_eq_true j⟩

/-- A call after the reader has stopped. -/
theorem getElem?_stop {call : Call} (hcall : c.stop.calls[j]? = some call) :
    ∃ call₀, c.calls[j]? = some call₀ ∧ call = if c.isPending j then call₀.drop else call₀ := by
  have hmap : (c.calls.mapIdx fun i call => if c.isPending i then call.drop else call)[j]?
      = some call := hcall
  rw [List.getElem?_mapIdx] at hmap
  obtain ⟨call₀, hcall₀, hsame⟩ := Option.map_eq_some_iff.mp hmap
  exact ⟨call₀, hcall₀, hsame.symm⟩

/-! ## Whoever expects a reply is in the table

One half of the invariant needs no condition: the ways out of the table all
end the expectation. -/

/-- **A call whose reply is to come is in the table**, whatever else is. -/
def Backed (c : Connection) : Prop :=
  ∀ (i : ℕ) (serial : UInt32), c.Expecting i serial → c.pending.lookup serial = some i

theorem Expecting.of_modifyCall {f : Call → Call} (h : (c.modifyCall i f).Expecting j serial)
    (hf : ∀ call, c.calls[i]? = some call → (f call).expects = true →
      call.expects = true ∧ (f call).serial = call.serial) : c.Expecting j serial := by
  obtain ⟨call, hcall, hserial, hexpects⟩ := h
  obtain ⟨call₀, hcall₀, rfl⟩ := getElem?_modifyCall hcall
  split at hexpects
  · next hij =>
    obtain ⟨hexpects₀, hsame⟩ := hf call₀ (hij ▸ hcall₀) hexpects
    rw [if_pos hij, hsame] at hserial
    exact ⟨call₀, hcall₀, hserial, hexpects₀⟩
  · next hij =>
    rw [if_neg hij] at hserial
    exact ⟨call₀, hcall₀, hserial, hexpects⟩

namespace Backed

theorem start (server : ObjectServer) (replySerials : UInt32) :
    (Connection.start server replySerials).Backed := by
  rintro i serial ⟨call, hcall, -⟩
  exact absurd (List.getElem?_nil.symm.trans hcall) nofun

/-- What is pending under a serial number is dropped, so nobody expects a reply
to it. -/
theorem expecting_dropPending (h : c.Backed) (hj : (c.dropPending serial).Expecting j serial') :
    serial' ≠ serial ∧ c.Expecting j serial' := by
  unfold Connection.dropPending at hj
  split at hj
  · next i hi =>
    rw [expecting_modifyCall_of_not fun call _ =>
      Call.not_expects_of_slot call.isEmpty_slot_drop] at hj
    refine ⟨fun hserial => hj.1 ?_, hj.2⟩
    subst hserial
    exact Option.some.inj ((h j _ hj.2).symm.trans hi)
  · next hnone =>
    refine ⟨fun hserial => ?_, hj⟩
    subst hserial
    rw [h j _ hj] at hnone
    cases hnone

/-- Nothing new is expected, and the table is the same. -/
theorem of_expecting (h : c.Backed) (hpending : c'.pending = c.pending)
    (hexpecting : ∀ i serial, c'.Expecting i serial → c.Expecting i serial) : c'.Backed := by
  intro i serial hi
  rw [hpending]
  exact h i serial (hexpecting i serial hi)

/-- What was pending under a serial number leaves the table, and nobody expects
a reply to it. -/
theorem erase (h : c.Backed) (hpending : c'.pending = c.pending.erase serial)
    (hexpecting : ∀ i serial', c'.Expecting i serial' → serial' ≠ serial ∧ c.Expecting i serial') :
    c'.Backed := by
  intro i serial' hi
  obtain ⟨hne, hi⟩ := hexpecting i serial' hi
  rw [hpending, AList.lookup_erase_ne hne]
  exact h i serial' hi

theorem handleReply (h : c.Backed) (msg : Message) : (c.handleReply msg).Backed := by
  unfold Connection.handleReply
  split
  · exact h
  · next serial hserial =>
    split
    · exact h
    · next i hi =>
      refine h.erase rfl fun j serial' hj => ?_
      obtain ⟨hji, hexpecting⟩ := (expecting_modifyCall_of_not (c := c) fun call _ =>
        Call.not_expects_of_slot (call.isEmpty_slot_fill c.received.length msg)).mp hj
      refine ⟨fun hsame => hji ?_, hexpecting⟩
      subst hsame
      exact Option.some.inj ((h j _ hexpecting).symm.trans hi)

theorem receive (h : c.Backed) (msg : Message) : (c.receive msg).Backed := by
  have hcall : (c.handleCall msg).Backed := by
    unfold handleCall
    split
    · exact h
    · split
      · exact h
      · exact h
  unfold Connection.receive handleIncoming
  split
  · exact h.handleReply msg
  · exact h.handleReply msg
  · exact h
  · exact hcall

/-- When the reader has stopped, nobody expects a reply. -/
theorem not_expecting_stop (h : c.Backed) (j : ℕ) (serial : UInt32) :
    ¬ c.stop.Expecting j serial := by
  rintro ⟨call, hcall, -, hexpects⟩
  obtain ⟨call₀, hcall₀, rfl⟩ := getElem?_stop hcall
  split at hexpects
  · rw [Call.not_expects_of_slot call₀.isEmpty_slot_drop] at hexpects
    cases hexpects
  · next hnot => exact hnot (isPending_iff.mpr ⟨_, h j _ ⟨call₀, hcall₀, rfl, hexpects⟩⟩)

/-- **Every step keeps it.** -/
theorem step (h : c.Backed) (hstep : c.step e = some c') : c'.Backed := by
  cases steps_of_step hstep with
  | call hello request =>
    refine h.of_expecting rfl fun i serial hi => ?_
    obtain ⟨call, hcall, hserial, hexpects⟩ := hi
    rcases Slots.getElem?_concat_eq_some.mp hcall with hcall | ⟨-, rfl⟩
    · exact ⟨call, hcall, hserial, hexpects⟩
    · cases hexpects
  | @insert i request hello slot hcall =>
    intro j serial hj
    obtain ⟨call, hcall', hserial, hexpects⟩ := hj
    obtain ⟨call₀, hcall₀, rfl⟩ :=
      getElem?_modifyCall (c := c.insertPending request.serial i) hcall'
    show (c.pending.insert request.serial i).lookup serial = some j
    split at hserial
    · next hij =>
      obtain ⟨call₁, hcall₁, hsame, -⟩ := exists_dropPending hcall request.serial
      have heq : call₀ = call₁ := Option.some.inj (hcall₀.symm.trans (hij ▸ hcall₁))
      have hown : request.serial = serial := by
        rw [← hserial]
        show request.serial = call₀.serial
        rw [heq, hsame]
        rfl
      rw [← hown, AList.lookup_insert, hij]
    · next hij =>
      rw [if_neg hij] at hexpects
      obtain ⟨hne, hj⟩ := h.expecting_dropPending ⟨call₀, hcall₀, hserial, hexpects⟩
      rw [AList.lookup_insert_ne hne]
      exact h j serial hj
  | @writeFailed i request hello slot hcall =>
    refine h.erase rfl fun j serial' hj => h.expecting_dropPending ?_
    exact Expecting.of_modifyCall (c := c.removePending request.serial)
      (f := fun call => { call with phase := .returned (.error .io) }) hj
      fun call _ hexpects => nomatch hexpects
  | @written i request hello slot hcall hok =>
    refine h.of_expecting rfl fun j serial hj => hj.of_modifyCall fun call hcall' hexpects => ?_
    obtain rfl : call = _ := Option.some.inj (hcall'.symm.trans hcall)
    exact ⟨hexpects, rfl⟩
  | resume hcall =>
    exact h.of_expecting rfl fun j serial hj => hj.of_modifyCall fun call _ hexpects =>
      nomatch hexpects
  | resumeClosed hcall =>
    exact h.of_expecting rfl fun j serial hj => hj.of_modifyCall fun call _ hexpects =>
      nomatch hexpects
  | cancel hcall hphase =>
    exact h.of_expecting rfl fun j serial hj => hj.of_modifyCall fun call _ hexpects =>
      nomatch hexpects
  | named hcall hname =>
    refine h.of_expecting rfl fun j serial hj => Expecting.of_modifyCall (c := c)
      (f := fun call => { call with hello := false }) hj fun call _ hexpects => ⟨hexpects, rfl⟩
  | drawSerial => exact h
  | drawReplySerial => exact h
  | exported server => exact h
  | receive msg hreader => exact h.receive msg
  | serve hreader =>
    unfold Connection.serve
    simp only
    split
    · exact h
    · exact h
  | stop hreader => exact fun j serial hj => absurd hj (h.not_expecting_stop j serial)

end Backed

namespace Tabled

/-- A call changes, and its place in the table does not. -/
theorem modifyCall {f : Call → Call} (h : c.Tabled)
    (hf : ∀ call, c.calls[i]? = some call → (f call).serial = call.serial ∧
      (f call).expects = call.expects ∧ (f call).phase ≠ .started ∧
      (c.reader = .stopped → (f call).awaits = false)) : (c.modifyCall i f).Tabled := by
  refine ⟨fun serial j => ?_, fun j call hcall hstarted => ?_, fun hreader j call hcall => ?_⟩
  · rw [expecting_modifyCall_of_same fun call hcall => ⟨(hf call hcall).1, (hf call hcall).2.1⟩]
    exact h.lookup_iff serial j
  · obtain ⟨call₀, hcall₀, rfl⟩ := getElem?_modifyCall hcall
    split at hstarted
    · next hij => exact absurd hstarted (hf call₀ (hij ▸ hcall₀)).2.2.1
    · next hij =>
      rw [if_neg hij]
      exact h.started j call₀ hcall₀ hstarted
  · obtain ⟨call₀, hcall₀, rfl⟩ := getElem?_modifyCall hcall
    split
    · next hij => exact (hf call₀ (hij ▸ hcall₀)).2.2.2 hreader
    · exact h.stopped hreader j call₀ hcall₀

/-- The channel of a call that is in the table is dropped or filled, and it
leaves the table. -/
theorem leave {f : Call → Call} (h : c.Tabled) (hi : c.pending.lookup serial = some i)
    (hslot : ∀ call, (f call).slot.isEmpty = false) (hphase : ∀ call, (f call).phase = call.phase) :
    ({ c.modifyCall i f with pending := c.pending.erase serial } : Connection).Tabled := by
  have hexpecting := (h.lookup_iff serial i).mp hi
  have hgone : ∀ serial' j, (c.modifyCall i f).Expecting j serial' ↔
      j ≠ i ∧ c.Expecting j serial' := fun serial' j =>
    expecting_modifyCall_of_not fun call _ => Call.not_expects_of_slot (hslot call)
  refine ⟨fun serial' j => ?_, fun j call hcall hstarted => ?_, fun hreader j call hcall => ?_⟩
  · show (c.pending.erase serial).lookup serial' = some j ↔ (c.modifyCall i f).Expecting j serial'
    rw [hgone]
    by_cases hserial : serial' = serial
    · subst hserial
      rw [AList.lookup_erase]
      refine ⟨nofun, fun ⟨hji, hj⟩ => absurd ?_ hji⟩
      exact Option.some.inj (((h.lookup_iff _ j).mpr hj).symm.trans hi)
    · rw [AList.lookup_erase_ne hserial, h.lookup_iff]
      refine ⟨fun hj => ⟨fun hji => hserial ?_, hj⟩, fun hj => hj.2⟩
      subst hji
      exact hj.serial_eq hexpecting
  · obtain ⟨call₀, hcall₀, rfl⟩ := getElem?_modifyCall (c := c) hcall
    split at hstarted
    · next hij =>
      -- a call in the table is not one that has just begun
      obtain ⟨call₁, hcall₁, -, hexp⟩ := hexpecting
      subst hij
      rw [Option.some.inj (hcall₀.symm.trans hcall₁), hphase] at hstarted
      rw [Call.expects, hstarted] at hexp
      cases hexp
    · next hij =>
      rw [if_neg hij]
      exact h.started j call₀ hcall₀ hstarted
  · obtain ⟨call₀, hcall₀, rfl⟩ := getElem?_modifyCall (c := c) hcall
    split
    · unfold Call.awaits
      split
      · exact hslot call₀
      · rfl
    · exact h.stopped hreader j call₀ hcall₀

/-- **A reply that is read keeps the table in order.** -/
theorem handleReply (h : c.Tabled) (msg : Message) : (c.handleReply msg).Tabled := by
  unfold Connection.handleReply
  split
  · exact h
  · split
    · exact h
    · next i hi => exact h.leave hi (Call.isEmpty_slot_fill _ _) (Call.phase_fill _ _)

/-- The table has no entry for a serial number, and no call expects a reply to
it, when what was pending under it has left. -/
theorem removePending (h : c.Tabled) (serial : UInt32) : (c.removePending serial).Tabled := by
  unfold Connection.removePending Connection.dropPending
  split
  · next i hi => exact h.leave hi Call.isEmpty_slot_drop Call.phase_drop
  · next hnone =>
    refine ⟨fun serial' j => ?_, h.started, h.stopped⟩
    show (c.pending.erase serial).lookup serial' = some j ↔ c.Expecting j serial'
    by_cases hserial : serial' = serial
    · subst hserial
      rw [AList.lookup_erase, ← h.lookup_iff, hnone]
    · rw [AList.lookup_erase_ne hserial, h.lookup_iff]

/-- A call that writes its message expects a reply, and the others do what they did. -/
theorem expecting_writing {call : Call} (hcall : c.calls[i]? = some call)
    (hphase : call.phase = .started) (hslot : call.slot = .empty) (j : ℕ) (serial : UInt32) :
    (c.setPhase i .writing).Expecting j serial
      ↔ (j = i ∧ serial = call.serial) ∨ c.Expecting j serial := by
  have hgone : call.expects = false := by
    rw [Call.expects, hphase]
  constructor
  · rintro ⟨call', hj, hserial, hexpects⟩
    obtain ⟨call₀, hcall₀, rfl⟩ := getElem?_modifyCall hj
    split at hserial
    · next hij =>
      subst hij
      cases hcall.symm.trans hcall₀
      exact .inl ⟨rfl, hserial.symm⟩
    · next hij =>
      rw [if_neg hij] at hexpects
      exact .inr ⟨call₀, hcall₀, hserial, hexpects⟩
  · rintro (⟨rfl, rfl⟩ | ⟨call', hj, hserial, hexpects⟩)
    · refine ⟨{ call with phase := .writing }, ?_, rfl, ?_⟩
      · show (c.calls.modify j _)[j]? = _
        rw [List.getElem?_modify, hcall]
        simp
      · rw [Call.expects, hslot]
        rfl
    · have hij : i ≠ j := by
        rintro rfl
        rw [Option.some.inj (hj.symm.trans hcall), hgone] at hexpects
        cases hexpects
      refine ⟨call', ?_, hserial, hexpects⟩
      show (c.calls.modify i _)[j]? = _
      rw [List.getElem?_modify, hj]
      simp [hij]

/-- **A call enters the table.** -/
theorem insert {request : Message} {hello : Bool} {slot : Slot} (h : c.Tabled)
    (hcall : c.calls[i]? = some ⟨request, hello, slot, .started⟩) :
    ((c.insertPending request.serial i).setPhase i .writing).Tabled := by
  -- whatever was pending under its number leaves first
  have hleft := h.removePending request.serial
  obtain ⟨call, hcall', hserial, hphase, -⟩ := exists_dropPending hcall request.serial
  have hslot : call.slot = .empty := hleft.started i call hcall' hphase
  have hexpecting := expecting_writing (c := c.dropPending request.serial) hcall' hphase hslot
  have hleft_iff : ∀ serial j, (c.pending.erase request.serial).lookup serial = some j
      ↔ (c.dropPending request.serial).Expecting j serial := hleft.lookup_iff
  refine ⟨fun serial j => ?_, fun j call' hj hstarted => ?_, fun hreader j call' hj => ?_⟩
  · show (c.pending.insert request.serial i).lookup serial = some j ↔
      ((c.dropPending request.serial).setPhase i .writing).Expecting j serial
    rw [hexpecting, ← hleft_iff, hserial]
    by_cases hsame : serial = request.serial
    · subst hsame
      rw [AList.lookup_insert, AList.lookup_erase]
      constructor
      · rintro ⟨⟩
        exact .inl ⟨rfl, rfl⟩
      · rintro (⟨rfl, -⟩ | hnone)
        · rfl
        · cases hnone
    · rw [AList.lookup_insert_ne hsame, AList.lookup_erase_ne hsame]
      exact (or_iff_right fun hnew => hsame hnew.2).symm
  · obtain ⟨call₀, hcall₀, rfl⟩ := getElem?_modifyCall (c := c.dropPending request.serial) hj
    split at hstarted
    · cases hstarted
    · next hij =>
      rw [if_neg hij]
      exact hleft.started j call₀ hcall₀ hstarted
  · obtain ⟨call₀, hcall₀, rfl⟩ := getElem?_modifyCall (c := c.dropPending request.serial) hj
    split
    · rfl
    · exact hleft.stopped hreader j call₀ hcall₀

theorem backed (h : c.Tabled) : c.Backed := fun i serial => (h.lookup_iff serial i).mpr

/-- **The reader stops**, and every call in the table is dropped. -/
theorem stop (h : c.Tabled) : c.stop.Tabled := by
  refine ⟨fun serial j => ?_, fun j call hcall hstarted => ?_, fun _ j call hcall => ?_⟩
  · show (∅ : AList fun _ : UInt32 => ℕ).lookup serial = some j ↔ _
    rw [AList.lookup_empty]
    exact ⟨nofun, fun hj => absurd hj (h.backed.not_expecting_stop j serial)⟩
  · obtain ⟨call₀, hcall₀, rfl⟩ := getElem?_stop hcall
    split at hstarted
    · next hpend =>
      obtain ⟨serial, hj⟩ := isPending_iff.mp hpend
      obtain ⟨call₁, hcall₁, -, hexpects⟩ := (h.lookup_iff serial j).mp hj
      rw [Call.phase_drop, Option.some.inj (hcall₀.symm.trans hcall₁)] at hstarted
      rw [Call.expects, hstarted] at hexpects
      cases hexpects
    · next hnot =>
      rw [if_neg hnot]
      exact h.started j call₀ hcall₀ hstarted
  · have hexpects : call.expects = false := by
      cases hexpects : call.expects with
      | false => rfl
      | true =>
        exact absurd ⟨call, hcall, rfl, hexpects⟩ (h.backed.not_expecting_stop j call.serial)
    unfold Call.expects at hexpects
    unfold Call.awaits
    split
    · next hphase =>
      rw [hphase] at hexpects
      exact hexpects
    · rfl

theorem start (server : ObjectServer) (replySerials : UInt32) :
    (Connection.start server replySerials).Tabled := by
  refine ⟨fun serial i => ⟨fun hi => ?_, fun ⟨call, hcall, _⟩ => ?_⟩, fun i call hcall => ?_,
    fun hstopped => ?_⟩
  · have hlookup : (∅ : AList fun _ : UInt32 => ℕ).lookup serial = some i := hi
    rw [AList.lookup_empty] at hlookup
    cases hlookup
  · exact absurd (List.getElem?_nil.symm.trans hcall) nofun
  · exact absurd (List.getElem?_nil.symm.trans hcall) nofun
  · cases hstopped

/-- What a step does beside the calls and the table is of no consequence. -/
theorem of_calls (h : c.Tabled) (hcalls : c'.calls = c.calls) (hpending : c'.pending = c.pending)
    (hreader : c'.reader = .stopped → c.reader = .stopped) : c'.Tabled := by
  refine ⟨fun serial i => ?_, ?_, fun hstopped => ?_⟩
  · rw [hpending, h.lookup_iff, Expecting, Expecting, hcalls]
  · rw [hcalls]
    exact h.started
  · rw [hcalls]
    exact h.stopped (hreader hstopped)

/-- A call begins. -/
theorem call {request : Message} {hello : Bool} {serials : UInt32} (h : c.Tabled) :
    ({ c with serials, calls := c.calls ++ [⟨request, hello, .empty, .started⟩] } :
      Connection).Tabled := by
  refine ⟨fun serial i => ?_, fun i call hcall hstarted => ?_, fun hreader i call hcall => ?_⟩
  · rw [h.lookup_iff]
    constructor
    · rintro ⟨call, hcall, hrest⟩
      exact ⟨call, Slots.getElem?_concat_eq_some.mpr (.inl hcall), hrest⟩
    · rintro ⟨call, hcall, hserial, hexpects⟩
      rcases Slots.getElem?_concat_eq_some.mp hcall with hcall | ⟨-, rfl⟩
      · exact ⟨call, hcall, hserial, hexpects⟩
      · cases hexpects
  · rcases Slots.getElem?_concat_eq_some.mp hcall with hcall | ⟨-, rfl⟩
    · exact h.started i call hcall hstarted
    · rfl
  · rcases Slots.getElem?_concat_eq_some.mp hcall with hcall | ⟨-, rfl⟩
    · exact h.stopped hreader i call hcall
    · rfl

theorem receive (h : c.Tabled) (hreading : c.reader = .reading) (msg : Message) :
    (c.receive msg).Tabled := by
  have hread : c.reader ≠ .stopped := by rw [hreading]; nofun
  unfold Connection.receive handleIncoming
  split
  · exact (h.handleReply msg).of_calls rfl rfl id
  · exact (h.handleReply msg).of_calls rfl rfl id
  · exact h.of_calls rfl rfl id
  · unfold handleCall
    split
    · exact h.of_calls rfl rfl id
    · split
      · exact h.of_calls rfl rfl nofun
      · exact h.of_calls rfl rfl id

/-- **Every step that keeps the table in order does.** -/
theorem step (h : c.Tabled) (hkeeps : c.Keeps e) (hstep : c.step e = some c') : c'.Tabled := by
  cases steps_of_step hstep with
  | call hello request => exact h.call
  | insert hcall => exact h.insert hcall
  | @written i request hello slot hcall hok =>
    refine h.modifyCall fun call hcall' => ?_
    obtain rfl : call = _ := Option.some.inj (hcall'.symm.trans hcall)
    refine ⟨rfl, rfl, nofun, fun hstopped => ?_⟩
    have hslot := hkeeps hstopped _ hcall
    exact hslot
  | @writeFailed i request hello slot hcall =>
    have hleft := h.removePending request.serial
    refine hleft.modifyCall fun call hcall' => ⟨rfl, ?_, nofun, fun _ => rfl⟩
    -- what was pending under its number left, the call itself too
    cases hexpects : call.expects with
    | false => rfl
    | true =>
      obtain ⟨call₁, hcall₁, hserial, -⟩ := exists_dropPending hcall request.serial
      have hsame : call.serial = request.serial := by
        rw [Option.some.inj (hcall'.symm.trans hcall₁)]
        exact hserial
      have hlookup := (hleft.lookup_iff _ i).mpr ⟨call, hcall', rfl, hexpects⟩
      rw [hsame, show (c.removePending request.serial).pending = c.pending.erase request.serial
        from rfl, AList.lookup_erase] at hlookup
      cases hlookup
  | resume hcall =>
    refine h.modifyCall fun call hcall' => ?_
    obtain rfl : call = _ := Option.some.inj (hcall'.symm.trans hcall)
    exact ⟨rfl, rfl, nofun, fun _ => rfl⟩
  | resumeClosed hcall =>
    refine h.modifyCall fun call hcall' => ?_
    obtain rfl : call = _ := Option.some.inj (hcall'.symm.trans hcall)
    exact ⟨rfl, rfl, nofun, fun _ => rfl⟩
  | cancel hcall hphase =>
    refine h.modifyCall fun call hcall' => ⟨rfl, ?_, nofun, fun _ => rfl⟩
    exact (Call.not_expects_of_slot (hkeeps call hcall')).symm
  | named hcall hname =>
    refine (h.modifyCall (f := fun call => { call with hello := false }) fun call hcall' =>
      ?_).of_calls
      rfl rfl id
    obtain rfl : call = _ := Option.some.inj (hcall'.symm.trans hcall)
    exact ⟨rfl, rfl, nofun, fun _ => rfl⟩
  | drawSerial => exact h.of_calls rfl rfl id
  | drawReplySerial => exact h.of_calls rfl rfl id
  | exported server => exact h.of_calls rfl rfl id
  | receive msg hreader => exact h.receive hreader msg
  | serve hreader =>
    unfold Connection.serve
    simp only
    split
    · exact h.of_calls rfl rfl nofun
    · exact h.of_calls rfl rfl nofun
  | stop hreader => exact h.stop

theorem run (h : c.Tabled) (hrun : Orderly c es c') : c'.Tabled := by
  induction hrun with
  | nil c => exact h
  | cons hkeeps hstep hrun ih => exact ih (h.step hkeeps hstep)

/-- A table in order is exact. -/
theorem tableExact (h : c.Tabled) : c.TableExact := by
  intro hwriting
  -- nobody is writing, so who expects a reply waits for it
  have hawaits : ∀ (i : ℕ) (call : Call), c.calls[i]? = some call → call.expects = call.awaits := by
    intro i call hcall
    have hnot := hwriting i call hcall
    unfold Call.isWriting at hnot
    unfold Call.expects Call.awaits
    cases hphase : call.phase <;> simp [hphase] at hnot ⊢
  have hmem : ∀ serial, serial ∈ c.pending ↔
      ∃ (i : ℕ) (call : Call), c.calls[i]? = some call ∧ call.serial = serial ∧
      call.awaits = true := by
    intro serial
    rw [← AList.lookup_isSome, Option.isSome_iff_exists]
    constructor
    · rintro ⟨i, hi⟩
      obtain ⟨call, hcall, hserial, hexpects⟩ := (h.lookup_iff serial i).mp hi
      exact ⟨i, call, hcall, hserial, hawaits i call hcall ▸ hexpects⟩
    · rintro ⟨i, call, hcall, hserial, hwaits⟩
      exact ⟨i, (h.lookup_iff serial i).mpr ⟨call, hcall, hserial, hawaits i call hcall ▸ hwaits⟩⟩
  refine ⟨hmem, fun hstopped => ⟨?_, h.stopped hstopped⟩⟩
  refine AList.ext (List.eq_nil_iff_forall_not_mem.mpr fun entry hentry => ?_)
  have hlookup : c.pending.lookup entry.1 = some entry.2 := AList.mem_lookup_iff.mpr hentry
  have hpending : entry.1 ∈ c.pending := by
    rw [← AList.lookup_isSome, hlookup]
    rfl
  obtain ⟨i, call, hcall, -, hwaits⟩ := (hmem entry.1).mp hpending
  rw [h.stopped hstopped i call hcall] at hwaits
  cases hwaits

end Tabled

/-- **In an orderly run the table of pending calls is exact in every state.** -/
theorem tableExact_of_orderly {server : ObjectServer} {replySerials : UInt32}
    (h : Orderly (start server replySerials) es c) : c.TableExact :=
  ((Tabled.start server replySerials).run h).tableExact

/-- The message of Hello can be written. -/
theorem isOk_toBytes_hello : (helloRequest.build 1).toBytes.isOk = true := by decide +kernel

/-- A call of Hello and its reply. -/
theorem tableExact_of_answered : ∃ c : Connection, Orderly (start .new 1)
    [.call true helloRequest, .insert 0, .written 0,
      .receive ((Message.Builder.methodReturn 1).build 1), .cancel 0, .stop] c ∧ c.TableExact := by
  have horderly : ∃ c : Connection, Orderly (start .new 1)
      [.call true helloRequest, .insert 0, .written 0,
        .receive ((Message.Builder.methodReturn 1).build 1), .cancel 0, .stop] c := by
    refine ⟨_, .cons trivial rfl (.cons trivial rfl (.cons nofun
      (if_pos (e := none) isOk_toBytes_hello) (.cons trivial rfl
        (.cons ?_ rfl (.cons trivial rfl (.nil _))))))⟩
    rintro call hcall
    cases hcall
    rfl
  obtain ⟨c, hc⟩ := horderly
  exact ⟨c, hc, tableExact_of_orderly hc⟩

/-- **A cancelled call leaves its entry behind, and a call that comes when the
reader has stopped waits without end.** -/
theorem table_not_exact :
    (∃ c : Connection, (start .new 1).run
      [.call true helloRequest, .insert 0, .written 0, .cancel 0] = some c ∧ ¬ c.TableExact) ∧
    ∃ c : Connection, (start .new 1).run
      [.call true helloRequest, .stop, .insert 0, .written 0] = some c ∧ ¬ c.TableExact := by
  constructor
  · obtain ⟨c, hrun, hpending, hcalls⟩ : ∃ c : Connection, (start .new 1).run
        [.call true helloRequest, .insert 0, .written 0, .cancel 0] = some c ∧
          c.pending.lookup 1 = some 0 ∧
          c.calls = [⟨helloRequest.build 1, true, .empty, .cancelled⟩] :=
      ⟨_, run_cons.mpr ⟨_, rfl, run_cons.mpr ⟨_, rfl, run_cons.mpr ⟨_,
        if_pos (e := none) isOk_toBytes_hello, rfl⟩⟩⟩, rfl, rfl⟩
    have hcall : ∀ (i : ℕ) (call : Call), c.calls[i]? = some call →
        call.isWriting = false ∧ call.awaits = false := by
      intro i call hi
      rw [hcalls] at hi
      rw [List.mem_singleton.mp (List.mem_of_getElem? hi)]
      exact ⟨rfl, rfl⟩
    refine ⟨c, hrun, fun hexact => ?_⟩
    have hmem : (1 : UInt32) ∈ c.pending := AList.lookup_isSome.mp (by rw [hpending]; rfl)
    obtain ⟨i, call, hi, -, hwaits⟩ := ((hexact fun i call hi => (hcall i call hi).1).1 1).mp hmem
    rw [(hcall i call hi).2] at hwaits
    cases hwaits
  · obtain ⟨c, hrun, hreader, hcalls⟩ : ∃ c : Connection, (start .new 1).run
        [.call true helloRequest, .stop, .insert 0, .written 0] = some c ∧ c.reader = .stopped ∧
          c.calls = [⟨helloRequest.build 1, true, .empty, .waiting⟩] :=
      ⟨_, run_cons.mpr ⟨_, rfl, run_cons.mpr ⟨_, rfl, run_cons.mpr ⟨_, rfl, run_cons.mpr ⟨_,
        if_pos (e := none) isOk_toBytes_hello, rfl⟩⟩⟩⟩, rfl, rfl⟩
    refine ⟨c, hrun, fun hexact => ?_⟩
    have hwriting : ∀ (i : ℕ) (call : Call), c.calls[i]? = some call → call.isWriting = false := by
      intro i call hi
      rw [hcalls] at hi
      rw [List.mem_singleton.mp (List.mem_of_getElem? hi)]
      rfl
    have hwaits := ((hexact hwriting).2 hreader).2 0 _ (by rw [hcalls]; rfl)
    cases hwaits

end Connection

end Client

end Oxibus
