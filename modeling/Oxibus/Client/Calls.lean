import Oxibus.Lib.Slots
import Oxibus.Client.Connection

/-!
# What a call returns

A call is matched with a reply by its serial number and by nothing else. The
invariant is that the channel of a call holds a message that was read, a
return or an error, and whose reply serial is the serial of the call; and that
a call has returned what its channel held, or without a reply.
-/

namespace Oxibus

/-- A return or an error. -/
def Message.isReply (m : Message) : Bool :=
  m.messageType == .methodReturn || m.messageType == .error

namespace Client

/-- **A call and its reply**: what is in its channel answers it, and what it has
returned was in its channel. -/
structure Call.Answered (received : List Message) (call : Call) : Prop where
  filled : ∀ (n : ℕ) (reply : Message), call.slot = .filled n reply → received[n]? = some reply ∧
    reply.isReply = true ∧ reply.replySerial = some call.serial
  returned : ∀ result, call.phase = .returned result → result = .error .io ∨
    result = .error .closed ∨ ∃ n reply, call.slot = .filled n reply ∧ result = outcome reply

namespace Call.Answered

variable {received : List Message} {call : Call} {phase : Phase} {reply : Message}

/-- A call that begins. -/
theorem started (request : Message) (hello : Bool) :
    (⟨request, hello, .empty, .started⟩ : Call).Answered received :=
  ⟨nofun, nofun⟩

theorem drop (h : call.Answered received) : call.drop.Answered received := by
  unfold Call.drop
  split
  · next hslot =>
    refine ⟨nofun, fun result hresult => ?_⟩
    rcases h.returned result hresult with hio | hclosed | ⟨n, reply, hfilled, -⟩
    · exact .inl hio
    · exact .inr (.inl hclosed)
    · rw [hslot] at hfilled
      cases hfilled
  · exact h

/-- A reply that was just read is sent into the channel. -/
theorem fill (h : call.Answered received) (hn : received[received.length - 1]? = some reply)
    (hreply : reply.isReply = true) (hserial : reply.replySerial = some call.serial) :
    (call.fill (received.length - 1) reply).Answered received := by
  unfold Call.fill
  split
  · next hslot =>
    refine ⟨fun n m hfilled => ?_, fun result hresult => ?_⟩
    · cases hfilled
      exact ⟨hn, hreply, hserial⟩
    · rcases h.returned result hresult with hio | hclosed | ⟨n, m, hfilled, -⟩
      · exact .inl hio
      · exact .inr (.inl hclosed)
      · rw [hslot] at hfilled
        cases hfilled
  · exact h

/-- The call comes to another phase. -/
theorem withPhase (h : call.Answered received)
    (hphase : ∀ result, phase = .returned result → result = .error .io ∨
      result = .error .closed ∨ ∃ n reply, call.slot = .filled n reply ∧ result = outcome reply) :
    ({ call with phase } : Call).Answered received :=
  ⟨h.filled, hphase⟩

/-- More is read. -/
theorem concat (h : call.Answered received) (m : Message) : call.Answered (received ++ [m]) := by
  refine ⟨fun n reply hfilled => ?_, h.returned⟩
  obtain ⟨hn, hreply⟩ := h.filled n reply hfilled
  have hlt : n < received.length := (List.getElem?_eq_some_iff.mp hn).1
  rw [List.getElem?_append_left hlt]
  exact ⟨hn, hreply⟩

end Call.Answered

@[simp] theorem Call.serial_drop (call : Call) : call.drop.serial = call.serial := by
  unfold drop
  split <;> rfl

@[simp] theorem Call.serial_fill (n : ℕ) (reply : Message) (call : Call) :
    (call.fill n reply).serial = call.serial := by
  unfold fill
  split <;> rfl

namespace Connection

/-- **Calls and replies match.** -/
structure Matched (c : Connection) : Prop where
  calls : ∀ (i : ℕ) (call : Call), c.calls[i]? = some call → call.Answered c.received
  /-- What is pending under a serial number is a call with this number. -/
  pending : ∀ serial i, c.pending.lookup serial = some i →
    ∃ call, c.calls[i]? = some call ∧ call.serial = serial

theorem matched_start (server : ObjectServer) (replySerials : UInt32) :
    (start server replySerials).Matched := by
  refine ⟨fun i call h => ?_, fun serial i h => ?_⟩
  · have hcall : ([] : List Call)[i]? = some call := h
    rw [List.getElem?_nil] at hcall
    cases hcall
  · have hlookup : (∅ : AList fun _ : UInt32 => ℕ).lookup serial = some i := h
    rw [AList.lookup_empty] at hlookup
    cases hlookup

variable {c c' : Connection} {e : Event} {es : List Event} {i : ℕ} {f : Call → Call}

/-- What is found at a number after one call was modified. -/
theorem getElem?_modifyCall {j : ℕ} {call : Call}
    (h : (c.modifyCall i f).calls[j]? = some call) :
    ∃ call₀, c.calls[j]? = some call₀ ∧ call = if i = j then f call₀ else call₀ := by
  have hmodify : (c.calls.modify i f)[j]? = some call := h
  rw [List.getElem?_modify] at hmodify
  obtain ⟨call₀, hcall₀, heq⟩ := Option.map_eq_some_iff.mp hmodify
  exact ⟨call₀, hcall₀, heq.symm⟩

/-- A call is found where it was, as it was or modified. -/
theorem exists_modifyCall {j : ℕ} {call : Call} (h : c.calls[j]? = some call)
    (hserial : ∀ call, (f call).serial = call.serial) :
    ∃ call', (c.modifyCall i f).calls[j]? = some call' ∧ call'.serial = call.serial := by
  refine ⟨if i = j then f call else call, ?_, ?_⟩
  · show (c.calls.modify i f)[j]? = _
    rw [List.getElem?_modify, h]
    rfl
  · split
    · exact hserial call
    · rfl

namespace Matched

/-- A change of one call that keeps what holds of it. -/
theorem modifyCall (h : c.Matched)
    (hf : ∀ call, c.calls[i]? = some call → (f call).Answered c.received)
    (hserial : ∀ call, (f call).serial = call.serial) : (c.modifyCall i f).Matched := by
  refine ⟨fun j call hcall => ?_, fun serial j hpending => ?_⟩
  · obtain ⟨call₀, hcall₀, rfl⟩ := getElem?_modifyCall hcall
    split
    · next hij => exact hf call₀ (hij ▸ hcall₀)
    · exact h.calls j call₀ hcall₀
  · obtain ⟨call, hcall, rfl⟩ := h.pending serial j hpending
    exact exists_modifyCall hcall hserial

theorem setPhase {phase : Phase} (h : c.Matched)
    (hphase : ∀ call, c.calls[i]? = some call → ∀ result, phase = .returned result →
      result = .error .io ∨ result = .error .closed ∨
        ∃ n reply, call.slot = .filled n reply ∧ result = outcome reply) :
    (c.setPhase i phase).Matched :=
  h.modifyCall (fun call hcall => (h.calls i call hcall).withPhase (hphase call hcall))
    fun _ => rfl

theorem dropPending (h : c.Matched) (serial : UInt32) : (c.dropPending serial).Matched := by
  unfold Connection.dropPending
  split
  · exact h.modifyCall (fun call hcall => (h.calls _ call hcall).drop) Call.serial_drop
  · exact h

/-- Fewer calls are pending. -/
theorem of_pending {pending : AList fun _ : UInt32 => ℕ} (h : c.Matched)
    (hpending : ∀ serial i, pending.lookup serial = some i → c.pending.lookup serial = some i) :
    ({ c with pending } : Connection).Matched :=
  ⟨h.calls, fun serial i hi => h.pending serial i (hpending serial i hi)⟩

end Matched

theorem lookup_erase_eq_some {pending : AList fun _ : UInt32 => ℕ} {serial serial' : UInt32}
    (h : (pending.erase serial').lookup serial = some i) : pending.lookup serial = some i := by
  by_cases heq : serial = serial'
  · rw [heq, AList.lookup_erase] at h
    cases h
  · rwa [AList.lookup_erase_ne heq] at h

@[simp] theorem reader_dropPending (c : Connection) (serial : UInt32) :
    (c.dropPending serial).reader = c.reader := by
  unfold dropPending
  split <;> rfl

@[simp] theorem pending_dropPending (c : Connection) (serial : UInt32) :
    (c.dropPending serial).pending = c.pending := by
  unfold dropPending
  split <;> rfl

namespace Matched

/-- A call enters the table under its own serial number. -/
theorem insertPending {request : Message} {hello : Bool} {slot : Slot} {phase : Phase}
    (h : c.Matched) (hcall : c.calls[i]? = some ⟨request, hello, slot, phase⟩) :
    (c.insertPending request.serial i).Matched := by
  refine ⟨(h.dropPending request.serial).calls, fun serial j hj => ?_⟩
  have hlookup : (c.pending.insert request.serial i).lookup serial = some j := hj
  by_cases hserial : serial = request.serial
  · rw [hserial, AList.lookup_insert, Option.some.injEq] at hlookup
    subst hlookup
    obtain ⟨call, hcall', hcall''⟩ : ∃ call, (c.dropPending request.serial).calls[i]? = some call ∧
        call.serial = request.serial := by
      unfold Connection.dropPending
      split
      · exact exists_modifyCall hcall Call.serial_drop
      · exact ⟨_, hcall, rfl⟩
    exact ⟨call, hcall', hserial ▸ hcall''⟩
  · rw [AList.lookup_insert_ne hserial] at hlookup
    exact (h.dropPending request.serial).pending serial j
      ((pending_dropPending c _).symm ▸ hlookup)

theorem removePending (h : c.Matched) (serial : UInt32) : (c.removePending serial).Matched := by
  refine (h.dropPending serial).of_pending fun serial' j hj => ?_
  rw [pending_dropPending]
  exact lookup_erase_eq_some hj

/-- A message is read, and not handled yet. -/
theorem read (h : c.Matched) (msg : Message) :
    ({ c with received := c.received ++ [msg] } : Connection).Matched :=
  ⟨fun j call hcall => (h.calls j call hcall).concat msg, h.pending⟩

/-- **A reply goes to the call whose serial it names.** -/
theorem handleReply {msg : Message} (h : c.Matched) (hreply : msg.isReply = true) :
    ({ c.handleReply msg with received := c.received ++ [msg] } : Connection).Matched := by
  unfold Connection.handleReply
  split
  · exact h.read msg
  · next serial hserial =>
    split
    · exact h.read msg
    · next j hj =>
      obtain ⟨call, hcall, hsame⟩ := h.pending serial j hj
      have hlen : (c.received ++ [msg]).length - 1 = c.received.length := by simp
      refine ((h.read msg).modifyCall (i := j) (f := Call.fill c.received.length msg)
        (fun call' hcall' => ?_) (Call.serial_fill _ _)).of_pending
        fun serial' i hi => lookup_erase_eq_some hi
      have heq : call' = call := Option.some.inj (hcall'.symm.trans hcall)
      rw [← hlen]
      refine ((h.read msg).calls j call' hcall').fill ?_ hreply ?_
      · show (c.received ++ [msg])[_]? = some msg
        rw [hlen, List.getElem?_concat_length]
      · rw [heq, hsame, hserial]

/-- **Reading a message keeps calls and replies matched.** -/
theorem receive (h : c.Matched) (msg : Message) : (c.receive msg).Matched := by
  unfold Connection.receive handleIncoming
  split
  · next htype => exact h.handleReply (by rw [Message.isReply, htype]; rfl)
  · next htype => exact h.handleReply (by rw [Message.isReply, htype]; rfl)
  · exact h.read msg
  · unfold handleCall
    split
    · exact h.read msg
    · split
      · exact ⟨(h.read msg).calls, h.pending⟩
      · exact h.read msg

theorem stop (h : c.Matched) : c.stop.Matched := by
  refine ⟨fun j call hcall => ?_, fun serial j hj => ?_⟩
  · have hmap : (c.calls.mapIdx fun i call => if c.isPending i then call.drop else call)[j]?
        = some call := hcall
    rw [List.getElem?_mapIdx] at hmap
    obtain ⟨call₀, hcall₀, rfl⟩ := Option.map_eq_some_iff.mp hmap
    split
    · exact (h.calls j call₀ hcall₀).drop
    · exact h.calls j call₀ hcall₀
  · have hlookup : (∅ : AList fun _ : UInt32 => ℕ).lookup serial = some j := hj
    rw [AList.lookup_empty] at hlookup
    cases hlookup

/-- A call begins. -/
theorem call {request : Message} {hello : Bool} {serials : UInt32} (h : c.Matched) :
    ({ c with serials, calls := c.calls ++ [⟨request, hello, .empty, .started⟩] } :
      Connection).Matched := by
  refine ⟨fun j call hcall => ?_, fun serial j hj => ?_⟩
  · rcases Slots.getElem?_concat_eq_some.mp hcall with hcall | ⟨-, rfl⟩
    · exact h.calls j call hcall
    · exact .started request hello
  · obtain ⟨call, hcall, hserial⟩ := h.pending serial j hj
    exact ⟨call, Slots.getElem?_concat_eq_some.mpr (.inl hcall), hserial⟩

/-- **Every step keeps calls and replies matched.** -/
theorem step (h : c.Matched) (hstep : c.step e = some c') : c'.Matched := by
  cases steps_of_step hstep with
  | call hello request => exact h.call
  | insert hcall => exact (h.insertPending hcall).setPhase fun _ _ _ => nofun
  | written hcall hok => exact h.setPhase fun _ _ _ => nofun
  | writeFailed hcall =>
    refine (h.removePending _).setPhase fun _ _ result hresult => ?_
    cases hresult
    exact .inl rfl
  | @resume i n request reply hello hcall =>
    refine h.setPhase fun call' hcall' result hresult => ?_
    obtain rfl : call' = _ := Option.some.inj (hcall'.symm.trans hcall)
    cases hresult
    exact .inr (.inr ⟨n, reply, rfl, rfl⟩)
  | resumeClosed hcall =>
    refine h.setPhase fun _ _ result hresult => ?_
    cases hresult
    exact .inr (.inl rfl)
  | cancel hcall hphase => exact h.setPhase fun _ _ _ => nofun
  | @named i request slot values name hcall hname =>
    have hsame : (c.modifyCall i fun call => { call with hello := false }).Matched :=
      h.modifyCall (fun call hcall => ⟨(h.calls i call hcall).filled,
        (h.calls i call hcall).returned⟩) fun _ => rfl
    exact ⟨hsame.calls, hsame.pending⟩
  | drawSerial => exact ⟨h.calls, h.pending⟩
  | drawReplySerial => exact ⟨h.calls, h.pending⟩
  | exported server => exact ⟨h.calls, h.pending⟩
  | receive msg hreader => exact h.receive msg
  | serve hreader =>
    unfold Connection.serve
    simp only
    split
    · exact ⟨h.calls, h.pending⟩
    · exact ⟨h.calls, h.pending⟩
  | stop hreader => exact h.stop

end Matched

@[simp] theorem received_dropPending (c : Connection) (serial : UInt32) :
    (c.dropPending serial).received = c.received := by
  unfold dropPending
  split <;> rfl

/-- **Only the reader's messages are added** to what was read. -/
theorem received_step (hstep : c.step e = some c') :
    c'.received = c.received ∨ ∃ msg, e = .receive msg ∧ c'.received = c.received ++ [msg] := by
  cases steps_of_step hstep with
  | receive msg hreader => exact .inr ⟨msg, rfl, rfl⟩
  | insert hcall => exact .inl (received_dropPending c _)
  | writeFailed hcall => exact .inl (received_dropPending c _)
  | serve hreader =>
    left
    unfold Connection.serve
    simp only
    split
    · rfl
    · rfl
  | _ => exact .inl rfl

/-- What was read in a run was there, or is read by one of its events. -/
theorem received_run (h : c.run es = some c') :
    ∀ msg ∈ c'.received, msg ∈ c.received ∨ .receive msg ∈ es := by
  induction es generalizing c with
  | nil =>
    cases h
    exact fun _ => .inl
  | cons e es ih =>
    obtain ⟨c₁, hc₁, hrun⟩ := run_cons.mp h
    intro msg hmsg
    rcases ih hrun msg hmsg with hmsg | hmsg
    · rcases received_step hc₁ with hsame | ⟨m, rfl, hconcat⟩
      · exact .inl (hsame ▸ hmsg)
      · rw [hconcat] at hmsg
        rcases List.mem_append.mp hmsg with hmsg | hmsg
        · exact .inl hmsg
        · rw [List.mem_singleton.mp hmsg]
          exact .inr List.mem_cons_self
    · exact .inr (List.mem_cons_of_mem _ hmsg)

/-- **A call that returns has failed, or returns a reply to its serial number**
that the connection has read. -/
theorem returned_of_run {server : ObjectServer} {replySerials : UInt32} {call : Call}
    {result : Except Error (List Value)} (h : (start server replySerials).run es = some c)
    (hcall : c.calls[i]? = some call) (hresult : call.phase = .returned result) :
    result = .error .io ∨ result = .error .closed ∨ ∃ reply, .receive reply ∈ es ∧
      reply.isReply = true ∧ reply.replySerial = some call.serial ∧ result = outcome reply := by
  have hmatched : c.Matched := run_induction (fun _ _ _ hc => hc.step) h (matched_start _ _)
  have hanswered := hmatched.calls i call hcall
  rcases hanswered.returned result hresult with hio | hclosed | ⟨n, reply, hfilled, hsame⟩
  · exact .inl hio
  · exact .inr (.inl hclosed)
  · obtain ⟨hn, hreply, hserial⟩ := hanswered.filled n reply hfilled
    have hread := (received_run h reply (List.mem_of_getElem? hn)).resolve_left List.not_mem_nil
    exact .inr (.inr ⟨reply, hread, hreply, hserial, hsame⟩)

end Connection

end Client

end Oxibus
