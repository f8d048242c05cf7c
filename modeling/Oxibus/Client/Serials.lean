import Oxibus.Client.Calls

/-!
# The serial numbers of outstanding calls

The counter of a connection goes round: after 2^32 - 1 draws it gives the
number it gave first, with zero left out. So two calls have the same serial
number only if that many numbers were drawn from the one to the other
(`eq_of_serial_eq`), and a reply, which names a serial number, can be meant
for one outstanding call only.

Which draw a call made is not in the connection; it is read off the events
of a run (`drawsSince`).
-/

namespace Oxibus

/-! ## A counter that goes round -/

/-- The number of different serial numbers. -/
def serialPeriod : ℕ := 2 ^ 32 - 1

/-- The serial number that is drawn when `k` others were. -/
def serialAt (k : ℕ) : UInt32 := UInt32.ofNat (k % serialPeriod + 1)

theorem toNat_serialAt (k : ℕ) : (serialAt k).toNat = k % serialPeriod + 1 := by
  have hlt : k % serialPeriod < serialPeriod := Nat.mod_lt _ (by decide)
  refine UInt32.toNat_ofNat_of_lt' ?_
  show k % serialPeriod + 1 < 2 ^ 32
  simp only [serialPeriod] at hlt ⊢
  omega

theorem serialAt_ne_zero (k : ℕ) : serialAt k ≠ 0 := by
  intro h
  have hnum := toNat_serialAt k
  rw [h, UInt32.toNat_zero] at hnum
  omega

/-- **Less than a period apart, serial numbers differ.** -/
theorem serialAt_ne {k l : ℕ} (hlt : k < l) (hclose : l - k < serialPeriod) :
    serialAt k ≠ serialAt l := by
  intro h
  have hnum := congrArg UInt32.toNat h
  rw [toNat_serialAt, toNat_serialAt] at hnum
  have hmod : (l - k) % serialPeriod = 0 := Nat.sub_mod_eq_zero_of_mod_eq (by omega)
  rw [Nat.mod_eq_of_lt hclose] at hmod
  omega

/-- The first draw. -/
theorem nextSerial_one : (nextSerial 1).1 = serialAt 0 := rfl

/-- **A counter goes on**: the draw after the draw of `serialAt k` is
`serialAt (k + 1)`. -/
theorem nextSerial_nextSerial {counter : UInt32} {k : ℕ} (h : (nextSerial counter).1 = serialAt k) :
    (nextSerial (nextSerial counter).2).1 = serialAt (k + 1) := by
  have hsucc : ∀ counter : UInt32, (nextSerial counter).2 = (nextSerial counter).1 + 1 := by
    intro counter
    unfold nextSerial
    split
    · rfl
    · rfl
  have hmod : k % serialPeriod < serialPeriod := Nat.mod_lt _ (by decide)
  have hnum : (serialAt k + 1).toNat = (k % serialPeriod + 2) % 2 ^ 32 := by
    rw [UInt32.toNat_add, toNat_serialAt]
    rfl
  rw [hsucc, h]
  unfold nextSerial
  apply UInt32.toNat_inj.mp
  rw [toNat_serialAt, Nat.add_mod k 1]
  simp only [serialPeriod] at hmod hnum ⊢
  split
  · next hzero =>
    rw [hzero, UInt32.toNat_zero] at hnum
    show 1 = _
    omega
  · next hne =>
    have hne' : (serialAt k + 1).toNat ≠ 0 := fun h => hne (UInt32.toNat_inj.mp h)
    rw [hnum] at hne'
    show (serialAt k + 1).toNat = _
    rw [hnum]
    omega

namespace Client

/-! ## The draws of a run -/

/-- Whether a serial number is drawn. -/
def Event.draws : Event → Bool
  | .call _ _ => true
  | .drawSerial => true
  | _ => false

/-- **The serial numbers drawn since the call began** that was the `i`-th to
begin. -/
def drawsSince : List Event → ℕ → ℕ
  | [], _ => 0
  | .call _ _ :: es, 0 => es.countP Event.draws
  | .call _ _ :: es, i + 1 => drawsSince es i
  | _ :: es, i => drawsSince es i

/-- **A call that is outstanding**: it has begun, and has neither returned nor
been cancelled. -/
def Call.isOutstanding (call : Call) : Bool :=
  match call.phase with
  | .started => true
  | .writing => true
  | .waiting => true
  | _ => false

namespace Connection

variable {c c' : Connection} {e : Event} {es : List Event} {i j k : ℕ} {f : Call → Call}

/-- The serial numbers of the calls. -/
def callSerials (c : Connection) : List UInt32 := c.calls.map Call.serial

theorem callSerials_modifyCall (hf : ∀ call, (f call).serial = call.serial) :
    (c.modifyCall i f).callSerials = c.callSerials := by
  refine List.ext_getElem? fun j => ?_
  simp only [callSerials, modifyCall, List.getElem?_map, List.getElem?_modify]
  cases c.calls[j]? with
  | none => rfl
  | some call =>
    show some (if i = j then f call else call).serial = some call.serial
    split
    · rw [hf call]
    · rfl

@[simp] theorem callSerials_dropPending (c : Connection) (serial : UInt32) :
    (c.dropPending serial).callSerials = c.callSerials := by
  unfold dropPending
  split
  · exact callSerials_modifyCall Call.serial_drop
  · rfl

@[simp] theorem serials_dropPending (c : Connection) (serial : UInt32) :
    (c.dropPending serial).serials = c.serials := by
  unfold dropPending
  split <;> rfl

theorem callSerials_receive (msg : Message) : (c.receive msg).callSerials = c.callSerials := by
  have hreply : (c.handleReply msg).callSerials = c.callSerials := by
    unfold handleReply
    split
    · rfl
    · split
      · rfl
      · exact callSerials_modifyCall (c := c) (Call.serial_fill _ _)
  have hhandled : (c.handleIncoming msg).callSerials = c.callSerials := by
    unfold handleIncoming handleCall
    split
    · exact hreply
    · exact hreply
    · rfl
    · split
      · rfl
      · split <;> rfl
  exact hhandled

theorem serials_receive (msg : Message) : (c.receive msg).serials = c.serials := by
  have hreply : (c.handleReply msg).serials = c.serials := by
    unfold handleReply
    split
    · rfl
    · split <;> rfl
  have hhandled : (c.handleIncoming msg).serials = c.serials := by
    unfold handleIncoming handleCall
    split
    · exact hreply
    · exact hreply
    · rfl
    · split
      · rfl
      · split <;> rfl
  exact hhandled

theorem callSerials_stop : c.stop.callSerials = c.callSerials := by
  refine List.ext_getElem? fun j => ?_
  simp only [callSerials, stop, List.getElem?_map, List.getElem?_mapIdx]
  cases c.calls[j]? with
  | none => rfl
  | some call =>
    show some (if c.isPending j then call.drop else call).serial = some call.serial
    split
    · rw [call.serial_drop]
    · rfl

/-- **What a step does to the serial numbers**: a call draws its own, and
nothing changes the number of a call that has begun. -/
theorem serials_step (hstep : c.step e = some c') :
    (∃ hello request, e = .call hello request ∧ c'.serials = (nextSerial c.serials).2 ∧
      c'.callSerials = c.callSerials ++ [(nextSerial c.serials).1]) ∨
    (e = .drawSerial ∧ c'.serials = (nextSerial c.serials).2 ∧ c'.callSerials = c.callSerials) ∨
    ((∀ i, drawsSince (e :: es) i = drawsSince es i) ∧ e.draws = false ∧ c'.serials = c.serials ∧
      c'.callSerials = c.callSerials) := by
  have hphase : ∀ (c : Connection) i phase, (c.setPhase i phase).callSerials = c.callSerials :=
    fun c i phase => callSerials_modifyCall fun _ => rfl
  cases steps_of_step hstep with
  | call hello request =>
    refine .inl ⟨hello, request, rfl, rfl, ?_⟩
    simp only [callSerials, List.map_append, List.map_cons, List.map_nil]
    rfl
  | drawSerial => exact .inr (.inl ⟨rfl, rfl, rfl⟩)
  | insert hcall =>
    exact .inr (.inr ⟨fun _ => rfl, rfl, serials_dropPending c _,
      (hphase _ _ _).trans (callSerials_dropPending c _)⟩)
  | writeFailed hcall =>
    exact .inr (.inr ⟨fun _ => rfl, rfl, serials_dropPending c _,
      (hphase _ _ _).trans (callSerials_dropPending c _)⟩)
  | named hcall hname =>
    exact .inr (.inr ⟨fun _ => rfl, rfl, rfl, callSerials_modifyCall (c := c) fun _ => rfl⟩)
  | receive msg hreader =>
    exact .inr (.inr ⟨fun _ => rfl, rfl, serials_receive msg, callSerials_receive msg⟩)
  | serve hreader =>
    refine .inr (.inr ⟨fun _ => rfl, rfl, ?_, ?_⟩)
    · unfold serve
      simp only
      split <;> rfl
    · unfold serve
      simp only
      split <;> rfl
  | stop hreader => exact .inr (.inr ⟨fun _ => rfl, rfl, rfl, callSerials_stop⟩)
  | written hcall hok => exact .inr (.inr ⟨fun _ => rfl, rfl, rfl, hphase c _ _⟩)
  | resume hcall => exact .inr (.inr ⟨fun _ => rfl, rfl, rfl, hphase c _ _⟩)
  | resumeClosed hcall => exact .inr (.inr ⟨fun _ => rfl, rfl, rfl, hphase c _ _⟩)
  | cancel hcall hphase' => exact .inr (.inr ⟨fun _ => rfl, rfl, rfl, hphase c _ _⟩)
  | drawReplySerial => exact .inr (.inr ⟨fun _ => rfl, rfl, rfl, rfl⟩)
  | exported server => exact .inr (.inr ⟨fun _ => rfl, rfl, rfl, rfl⟩)

/-- **The numbers of the calls of a run**, in the order they began, when `k`
numbers were drawn before it: the call that began `i`-th drew the number that
as many draws followed as `drawsSince` says. -/
structure Numbered (k : ℕ) (es : List Event) (news : List UInt32) : Prop where
  serial : ∀ (i : ℕ) (serial : UInt32), news[i]? = some serial →
    ∃ d, d + 1 + drawsSince es i = es.countP Event.draws ∧ serial = serialAt (k + d)
  since_lt : ∀ i j : ℕ, i < j → j < news.length → drawsSince es j < drawsSince es i

namespace Numbered

variable {news : List UInt32}

theorem nil (k : ℕ) : Numbered k [] [] :=
  ⟨fun _ _ hi => absurd (List.getElem?_nil.symm.trans hi) nofun,
    fun _ j _ hj => absurd hj (Nat.not_lt_zero j)⟩

/-- A call begins and draws the next number. -/
theorem call (h : Numbered (k + 1) es news) (hello : Bool) (request : Request) :
    Numbered k (.call hello request :: es) (serialAt k :: news) := by
  refine ⟨fun i serial hi => ?_, fun i j hij hj => ?_⟩
  · rw [List.countP_cons, Event.draws, if_pos rfl]
    cases i with
    | zero =>
      cases hi
      exact ⟨0, by rw [drawsSince]; omega, rfl⟩
    | succ i =>
      obtain ⟨d, hd, hserial⟩ := h.serial i serial hi
      exact ⟨d + 1, by rw [drawsSince]; omega, by rw [hserial, Nat.add_assoc, Nat.add_comm 1]⟩
  · cases j with
    | zero => exact absurd hij (Nat.not_lt_zero i)
    | succ j =>
      have hj' : j < news.length := Nat.lt_of_succ_lt_succ hj
      cases i with
      | zero =>
        obtain ⟨d, hd, -⟩ := h.serial j _ (List.getElem?_eq_getElem hj')
        rw [drawsSince, drawsSince]
        omega
      | succ i => exact h.since_lt i j (Nat.lt_of_succ_lt_succ hij) hj'

/-- A number is drawn by something else. -/
theorem drawSerial (h : Numbered (k + 1) es news) : Numbered k (.drawSerial :: es) news := by
  refine ⟨fun i serial hi => ?_, h.since_lt⟩
  obtain ⟨d, hd, hserial⟩ := h.serial i serial hi
  refine ⟨d + 1, ?_, by rw [hserial, Nat.add_assoc, Nat.add_comm 1]⟩
  rw [List.countP_cons, Event.draws, if_pos rfl]
  show d + 1 + 1 + drawsSince es i = _
  omega

/-- No number is drawn. -/
theorem skip (h : Numbered k es news) (hsince : ∀ i, drawsSince (e :: es) i = drawsSince es i)
    (hdraws : e.draws = false) : Numbered k (e :: es) news := by
  refine ⟨fun i serial hi => ?_, fun i j hij hj => ?_⟩
  · rw [hsince, List.countP_cons_of_neg (by rw [hdraws]; decide)]
    exact h.serial i serial hi
  · rw [hsince, hsince]
    exact h.since_lt i j hij hj

end Numbered

/-- **Every call of a run is numbered by its draw.** -/
theorem numbered_run (h : c.run es = some c') (hk : (nextSerial c.serials).1 = serialAt k) :
    ∃ news, c'.callSerials = c.callSerials ++ news ∧ Numbered k es news := by
  induction es generalizing c k with
  | nil =>
    cases h
    exact ⟨[], (List.append_nil _).symm, .nil k⟩
  | cons e es ih =>
    obtain ⟨c₁, hc₁, hrun⟩ := run_cons.mp h
    rcases serials_step hc₁ with ⟨hello, request, rfl, hcounter, hcalls⟩ | ⟨rfl, hcounter, hcalls⟩ |
      ⟨hsince, hdraws, hcounter, hcalls⟩
    · obtain ⟨news, hnews, hnum⟩ := ih hrun (hcounter ▸ nextSerial_nextSerial hk)
      refine ⟨serialAt k :: news, ?_, hnum.call hello request⟩
      rw [hnews, hcalls, hk, List.append_assoc]
      rfl
    · obtain ⟨news, hnews, hnum⟩ := ih hrun (hcounter ▸ nextSerial_nextSerial hk)
      exact ⟨news, by rw [hnews, hcalls], hnum.drawSerial⟩
    · obtain ⟨news, hnews, hnum⟩ := ih hrun (hcounter.symm ▸ hk)
      exact ⟨news, by rw [hnews, hcalls], hnum.skip hsince hdraws⟩

/-- **Calls since which less than a period was drawn have different serial
numbers**, and no call has the number zero. -/
theorem serials_of_run {server : ObjectServer} {replySerials : UInt32}
    (h : (start server replySerials).run es = some c) :
    (∀ (i : ℕ) (call : Call), c.calls[i]? = some call → call.serial ≠ 0) ∧
      ∀ (i j : ℕ) (call call' : Call), i < j → c.calls[i]? = some call → c.calls[j]? = some call' →
        drawsSince es i < serialPeriod → call.serial ≠ call'.serial := by
  obtain ⟨news, hnews, hnum⟩ := numbered_run h nextSerial_one
  have hserial :
      ∀ (i : ℕ) (call : Call), c.calls[i]? = some call → news[i]? = some call.serial := by
    intro i call hcall
    have hmap : c.callSerials[i]? = some call.serial := by
      rw [callSerials, List.getElem?_map, hcall]
      rfl
    rwa [hnews] at hmap
  refine ⟨fun i call hcall => ?_, fun i j call call' hij hcall hcall' hfew => ?_⟩
  · obtain ⟨d, -, hd⟩ := hnum.serial i _ (hserial i call hcall)
    rw [hd]
    exact serialAt_ne_zero _
  · obtain ⟨d, hcount, hd⟩ := hnum.serial i _ (hserial i call hcall)
    obtain ⟨d', hcount', hd'⟩ := hnum.serial j _ (hserial j call' hcall')
    have hlt := hnum.since_lt i j hij (Slots.lt_length_of_getElem? (hserial j call' hcall'))
    rw [hd, hd']
    exact serialAt_ne (by omega) (by omega)

/-! ## A message completes one call -/

/-- A call has been sent the message that was read when `n` others had been. -/
def FilledAt (c : Connection) (i n : ℕ) : Prop :=
  ∃ call reply, c.calls[i]? = some call ∧ call.slot = .filled n reply

theorem filledAt_modifyCall {n : ℕ}
    (hf : ∀ call n reply, (f call).slot = .filled n reply → call.slot = .filled n reply) (i j : ℕ)
    (h : (c.modifyCall j f).FilledAt i n) : c.FilledAt i n := by
  obtain ⟨call, reply, hcall, hslot⟩ := h
  obtain ⟨call₀, hcall₀, rfl⟩ := getElem?_modifyCall hcall
  refine ⟨call₀, reply, hcall₀, ?_⟩
  split at hslot
  · exact hf call₀ n reply hslot
  · exact hslot

theorem filled_of_drop {call : Call} {n : ℕ} {reply : Message}
    (h : call.drop.slot = .filled n reply) : call.slot = .filled n reply := by
  unfold Call.drop at h
  split at h
  · cases h
  · exact h

theorem filledAt_dropPending {n : ℕ} {serial : UInt32} (h : (c.dropPending serial).FilledAt i n) :
    c.FilledAt i n := by
  unfold dropPending at h
  split at h
  · exact filledAt_modifyCall (fun _ _ _ => filled_of_drop) i _ h
  · exact h

/-- A message that was read is sent to one call, if to any. -/
theorem filledAt_receive (c : Connection) (msg : Message) :
    ∃ k, ∀ i n, (c.receive msg).FilledAt i n → c.FilledAt i n ∨
    (n = c.received.length ∧ i = k) := by
  have hreply : ∃ k, ∀ i n, (c.handleReply msg).FilledAt i n →
      c.FilledAt i n ∨ (n = c.received.length ∧ i = k) := by
    unfold handleReply
    split
    · exact ⟨0, fun _ _ => .inl⟩
    · next serial hserial =>
      split
      · exact ⟨0, fun _ _ => .inl⟩
      · next k hk =>
        refine ⟨k, fun i n hi => ?_⟩
        obtain ⟨call, reply, hcall, hslot⟩ := hi
        obtain ⟨call₀, hcall₀, rfl⟩ := getElem?_modifyCall (c := c) hcall
        split at hslot
        · next hki =>
          unfold Call.fill at hslot
          split at hslot
          · cases hslot
            exact .inr ⟨rfl, hki.symm⟩
          · exact .inl ⟨call₀, reply, hcall₀, hslot⟩
        · exact .inl ⟨call₀, reply, hcall₀, hslot⟩
  unfold receive handleIncoming handleCall
  split
  · exact hreply
  · exact hreply
  · exact ⟨0, fun _ _ => .inl⟩
  · split
    · exact ⟨0, fun _ _ => .inl⟩
    · split
      · exact ⟨0, fun _ _ => .inl⟩
      · exact ⟨0, fun _ _ => .inl⟩

/-- **A step sends at most one message, and to one call**: the one it read. -/
theorem filledAt_step (hstep : c.step e = some c') :
    ∃ k, ∀ i n, c'.FilledAt i n → c.FilledAt i n ∨ (n = c.received.length ∧ i = k) := by
  have hphase :
      ∀ (c : Connection) j phase i n, (c.setPhase j phase).FilledAt i n → c.FilledAt i n :=
    fun c j phase i n => filledAt_modifyCall (f := fun call => { call with phase })
      (fun _ _ _ hslot => hslot) i j
  cases steps_of_step hstep with
  | call hello request =>
    refine ⟨0, fun i n hi => ?_⟩
    obtain ⟨call, reply, hcall, hslot⟩ := hi
    rcases Slots.getElem?_concat_eq_some.mp hcall with hcall | ⟨-, rfl⟩
    · exact .inl ⟨call, reply, hcall, hslot⟩
    · cases hslot
  | insert hcall =>
    exact ⟨0, fun i n hi => .inl (filledAt_dropPending (hphase _ _ _ _ _ hi))⟩
  | writeFailed hcall =>
    exact ⟨0, fun i n hi => .inl (filledAt_dropPending (hphase _ _ _ _ _ hi))⟩
  | written hcall hok => exact ⟨0, fun i n hi => .inl (hphase c _ _ i n hi)⟩
  | resume hcall => exact ⟨0, fun i n hi => .inl (hphase c _ _ i n hi)⟩
  | resumeClosed hcall => exact ⟨0, fun i n hi => .inl (hphase c _ _ i n hi)⟩
  | cancel hcall hphase' => exact ⟨0, fun i n hi => .inl (hphase c _ _ i n hi)⟩
  | named hcall hname =>
    exact ⟨0, fun i n hi => .inl (filledAt_modifyCall (c := c)
      (f := fun call => { call with hello := false }) (fun _ _ _ hslot => hslot) i _ hi)⟩
  | drawSerial => exact ⟨0, fun _ _ => .inl⟩
  | drawReplySerial => exact ⟨0, fun _ _ => .inl⟩
  | exported server => exact ⟨0, fun _ _ => .inl⟩
  | receive msg hreader => exact filledAt_receive c msg
  | serve hreader =>
    unfold serve
    simp only
    split
    · exact ⟨0, fun _ _ => .inl⟩
    · exact ⟨0, fun _ _ => .inl⟩
  | stop hreader =>
    refine ⟨0, fun i n hi => ?_⟩
    obtain ⟨call, reply, hcall, hslot⟩ := hi
    have hmap : (c.calls.mapIdx fun i call => if c.isPending i then call.drop else call)[i]?
        = some call := hcall
    rw [List.getElem?_mapIdx] at hmap
    obtain ⟨call₀, hcall₀, rfl⟩ := Option.map_eq_some_iff.mp hmap
    split at hslot
    · exact .inl ⟨call₀, reply, hcall₀, filled_of_drop hslot⟩
    · exact .inl ⟨call₀, reply, hcall₀, hslot⟩

/-- **No message completes two calls.** -/
theorem filledAt_unique {server : ObjectServer} {replySerials : UInt32}
    (h : (start server replySerials).run es = some c) {n : ℕ} (hi : c.FilledAt i n)
    (hj : c.FilledAt j n) : i = j := by
  have hinv : c.Matched ∧ ∀ i j n, c.FilledAt i n → c.FilledAt j n → i = j := by
    refine run_induction
      (P := fun c => c.Matched ∧ ∀ i j n, c.FilledAt i n → c.FilledAt j n → i = j)
      (fun c e c' hc hstep => ⟨hc.1.step hstep, fun i j n hi hj => ?_⟩) h
      ⟨matched_start server replySerials, fun i j n hi => ?_⟩
    · have hlt : ∀ i n, c.FilledAt i n → n < c.received.length := by
        rintro i n ⟨call, reply, hcall, hslot⟩
        exact Slots.lt_length_of_getElem? ((hc.1.calls i call hcall).filled n reply hslot).1
      obtain ⟨k, hk⟩ := filledAt_step hstep
      rcases hk i n hi with hi | ⟨hni, hik⟩
      · rcases hk j n hj with hj | ⟨hnj, hjk⟩
        · exact hc.2 i j n hi hj
        · exact absurd (hlt i n hi) (by omega)
      · rcases hk j n hj with hj | ⟨hnj, hjk⟩
        · exact absurd (hlt j n hj) (by omega)
        · rw [hik, hjk]
    · obtain ⟨call, reply, hcall, -⟩ := hi
      exact absurd (List.getElem?_nil.symm.trans hcall) nofun
  exact hinv.2 i j n hi hj

/-- **Replies reach the right call.** In a run in which less than a period of
serial numbers was drawn since each outstanding call began: a call is sent,
and returns, only a message that names its serial number; no message is sent
to two calls; no two outstanding calls have the same serial number; and no
call has the serial number zero. -/
theorem replies_of_run {server : ObjectServer} {replySerials : UInt32}
    (h : (start server replySerials).run es = some c)
    (hfew : ∀ (i : ℕ) (call : Call), c.calls[i]? = some call → call.isOutstanding = true →
      drawsSince es i < 2 ^ 32 - 1) :
    (∀ (i n : ℕ) (call : Call) (reply : Message), c.calls[i]? = some call →
      call.slot = .filled n reply →
        c.received[n]? = some reply ∧ reply.replySerial = some call.serial) ∧
    (∀ (i : ℕ) (call : Call) (result : Except Error (List Value)), c.calls[i]? = some call →
      call.phase = .returned result → result = .error .io ∨ result = .error .closed ∨
        ∃ n reply, call.slot = .filled n reply ∧ result = outcome reply) ∧
    (∀ (i j n : ℕ) (call call' : Call) (reply reply' : Message), c.calls[i]? = some call →
      c.calls[j]? = some call' → call.slot = .filled n reply → call'.slot = .filled n reply' →
        i = j) ∧
    (∀ (i j : ℕ) (call call' : Call), c.calls[i]? = some call → c.calls[j]? = some call' →
      call.isOutstanding = true → call'.isOutstanding = true → call.serial = call'.serial →
        i = j) ∧
    ∀ (i : ℕ) (call : Call), c.calls[i]? = some call → call.serial ≠ 0 := by
  have hmatched : c.Matched := run_induction (fun _ _ _ hc => hc.step) h (matched_start _ _)
  obtain ⟨hzero, hserials⟩ := serials_of_run h
  refine ⟨fun i n call reply hcall hslot => ?_, fun i call result hcall hresult => ?_,
    fun i j n call call' reply reply' hcall hcall' hslot hslot' => ?_,
    fun i j call call' hcall hcall' hout hout' hserial => ?_, hzero⟩
  · obtain ⟨hread, -, hnames⟩ := (hmatched.calls i call hcall).filled n reply hslot
    exact ⟨hread, hnames⟩
  · exact (hmatched.calls i call hcall).returned result hresult
  · exact filledAt_unique h ⟨call, reply, hcall, hslot⟩ ⟨call', reply', hcall', hslot'⟩
  · rcases Nat.lt_trichotomy i j with hij | rfl | hji
    · exact absurd hserial (hserials i j call call' hij hcall hcall' (hfew i call hcall hout))
    · rfl
    · exact absurd hserial.symm
        (hserials j i call' call hji hcall' hcall (hfew j call' hcall' hout'))

/-- Two calls that wait at the same time. -/
theorem replies_of_two_calls : ∃ c : Connection,
    (start .new 1).run [.call true helloRequest, .drawSerial, .call false (nameRequest "a.b" 0)]
      = some c ∧
    ∀ (i j : ℕ) (call call' : Call), c.calls[i]? = some call → c.calls[j]? = some call' →
      call.isOutstanding = true → call'.isOutstanding = true → call.serial = call'.serial →
        i = j := by
  obtain ⟨c, hrun, hlen⟩ : ∃ c : Connection, (start .new 1).run [.call true helloRequest,
      .drawSerial, .call false (nameRequest "a.b" 0)] = some c ∧ c.calls.length = 2 := ⟨_, rfl, rfl⟩
  refine ⟨c, hrun, (replies_of_run hrun fun i call hcall hout => ?_).2.2.2.1⟩
  have hi : i < 2 := hlen ▸ Slots.lt_length_of_getElem? hcall
  match i with
  | 0 => decide
  | 1 => decide

end Connection

end Client

end Oxibus
