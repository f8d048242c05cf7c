import Mathlib.Data.List.Induction
import Oxibus.Client.Nested
import Oxibus.Client.Serving

/-!
# Where the messages of a client come from

A run of a connection is a list of events, and each event found the
connection in some state. Every call in the table of calls was begun by one
of the events, with the number that was next; every reply that was written
answers a call that one of the events has read, with what the objects
answered that were exported then.

As long as the counter has not gone round, the number of a message says which
event has drawn it.
-/

namespace Oxibus

namespace Client

namespace Connection

variable {c₀ c c' c₁ c₂ : Connection} {e e₁ e₂ : Event} {es : List Event} {i : ℕ}
variable {server : ObjectServer} {replySerials : UInt32}

/-! ## Events and what they found -/

/-- **An event of a run, and the connection it found.** -/
def Found (c₀ : Connection) (es : List Event) (e : Event) (c : Connection) : Prop :=
  ∃ pre post, es = pre ++ e :: post ∧ c₀.run pre = some c

theorem run_concat : c₀.run (es ++ [e]) = some c ↔
    ∃ c₁, c₀.run es = some c₁ ∧ c₁.step e = some c := by
  rw [run_append, Option.bind_eq_some_iff]
  refine exists_congr fun c₁ => and_congr_right fun _ => ?_
  show (c₁.step e).bind some = _ ↔ _
  rw [Option.bind_fun_some]

/-- More events happen. -/
theorem Found.concat (h : Found c₀ es e c) (e' : Event) : Found c₀ (es ++ [e']) e c := by
  obtain ⟨pre, post, rfl, hrun⟩ := h
  exact ⟨pre, post ++ [e'], by simp, hrun⟩

/-- The last event found what the others had left. -/
theorem found_last (h : c₀.run es = some c) (e : Event) : Found c₀ (es ++ [e]) e c :=
  ⟨es, [], rfl, h⟩

theorem Found.mem (h : Found c₀ es e c) : e ∈ es := by
  obtain ⟨pre, post, rfl, -⟩ := h
  simp

/-- **Induction along a run**, with what has happened so far. -/
theorem history_induction {P : List Event → Connection → Prop} (hnil : P [] c₀)
    (hstep : ∀ es c e c', c₀.run es = some c → P es c → c.step e = some c' → P (es ++ [e]) c')
    (h : c₀.run es = some c) : P es c := by
  induction es using List.reverseRecOn generalizing c with
  | nil =>
    cases h
    exact hnil
  | append_singleton es e ih =>
    obtain ⟨c₁, hrun, hlast⟩ := run_concat.mp h
    exact hstep es c₁ e c hrun (ih hrun) hlast

/-! ## Numbers -/

/-- The messages of the calls, in the order they began. -/
def requests (c : Connection) : List Message := c.calls.map Call.request

@[simp] theorem request_drop (call : Call) : call.drop.request = call.request := by
  unfold Call.drop
  split <;> rfl

@[simp] theorem request_fill (n : ℕ) (reply : Message) (call : Call) :
    (call.fill n reply).request = call.request := by
  unfold Call.fill
  split <;> rfl

theorem requests_modifyCall {f : Call → Call} (hf : ∀ call, (f call).request = call.request) :
    (c.modifyCall i f).requests = c.requests := by
  refine List.ext_getElem? fun j => ?_
  simp only [requests, modifyCall, List.getElem?_map, List.getElem?_modify]
  cases c.calls[j]? with
  | none => rfl
  | some call =>
    show some (if i = j then f call else call).request = some call.request
    split
    · rw [hf call]
    · rfl

@[simp] theorem requests_dropPending (c : Connection) (serial : UInt32) :
    (c.dropPending serial).requests = c.requests := by
  unfold dropPending
  split
  · exact requests_modifyCall request_drop
  · rfl

theorem requests_receive (msg : Message) : (c.receive msg).requests = c.requests := by
  have hreply : (c.handleReply msg).requests = c.requests := by
    unfold handleReply
    split
    · rfl
    · split
      · rfl
      · exact requests_modifyCall (c := c) (request_fill _ _)
  show (c.handleIncoming msg).requests = c.requests
  unfold handleIncoming handleCall
  split
  · exact hreply
  · exact hreply
  · rfl
  · split
    · rfl
    · split <;> rfl

theorem requests_stop : c.stop.requests = c.requests := by
  refine List.ext_getElem? fun j => ?_
  simp only [requests, stop, List.getElem?_map, List.getElem?_mapIdx]
  cases c.calls[j]? with
  | none => rfl
  | some call =>
    show some (if c.isPending j then call.drop else call).request = some call.request
    split
    · rw [request_drop]
    · rfl

/-- **What a step does to the messages of the calls**: a call adds its own, and
nothing else changes them. -/
theorem requests_step (hstep : c.step e = some c') :
    (∃ hello r, e = .call hello r ∧
      c'.requests = c.requests ++ [r.build (nextSerial c.serials).1]) ∨
    c'.requests = c.requests := by
  have hphase : ∀ (c : Connection) i phase, (c.setPhase i phase).requests = c.requests :=
    fun c i phase => requests_modifyCall fun _ => rfl
  cases steps_of_step hstep with
  | call hello r =>
    refine .inl ⟨hello, r, rfl, ?_⟩
    show (c.calls ++ [_]).map Call.request = _
    rw [List.map_append]
    rfl
  | insert => exact .inr ((hphase _ _ _).trans (requests_dropPending c _))
  | writeFailed => exact .inr ((hphase _ _ _).trans (requests_dropPending c _))
  | named => exact .inr (requests_modifyCall (c := c) fun _ => rfl)
  | receive msg => exact .inr (requests_receive msg)
  | serve =>
    right
    unfold serve
    dsimp only
    split <;> rfl
  | stop => exact .inr requests_stop
  | written => exact .inr (hphase c _ _)
  | resume => exact .inr (hphase c _ _)
  | resumeClosed => exact .inr (hphase c _ _)
  | cancel => exact .inr (hphase c _ _)
  | drawSerial => exact .inr rfl
  | drawReplySerial => exact .inr rfl
  | exported => exact .inr rfl

/-- **Every call was begun by an event**, with the number that was next. -/
theorem found_call (h : (start server replySerials).run es = some c) {m : Message}
    (hi : c.requests[i]? = some m) : ∃ hello r c₁,
      Found (start server replySerials) es (.call hello r) c₁ ∧ c₁.requests.length = i ∧
        m = r.build (nextSerial c₁.serials).1 := by
  refine history_induction (P := fun es c => ∀ i m,
    c.requests[i]? = some m → ∃ hello r c₁,
      Found (start server replySerials) es (.call hello r) c₁ ∧ c₁.requests.length = i ∧
        m = r.build (nextSerial c₁.serials).1) ?_ ?_ h i m hi
  · intro i m hi
    exact absurd (List.getElem?_nil.symm.trans hi) nofun
  · intro es c e c' hrun hall hstep i m hi
    rcases requests_step hstep with ⟨hello, r, rfl, hnew⟩ | hsame
    · rw [hnew] at hi
      rcases Slots.getElem?_concat_eq_some.mp hi with hi | ⟨rfl, rfl⟩
      · obtain ⟨hello', r', c₁, hfound, hrest⟩ := hall i m hi
        exact ⟨hello', r', c₁, hfound.concat _, hrest⟩
      · exact ⟨hello, r, c, found_last hrun _, rfl, rfl⟩
    · rw [hsame] at hi
      obtain ⟨hello, r, c₁, hfound, hrest⟩ := hall i m hi
      exact ⟨hello, r, c₁, hfound.concat _, hrest⟩

/-! ## Replies -/

/-- **A call that the reader takes up**: it was read while the connection was in the
state that is given here, and is for it. -/
structure TakenUp (c₀ : Connection) (es : List Event) (asked : Message) (c : Connection) :
    Prop where
  found : Found c₀ es (.receive asked) c
  messageType : asked.messageType = .methodCall
  forUs : c.isForUs asked = true
  path : asked.path.isSome = true
  member : asked.member.isSome = true

theorem TakenUp.concat {asked : Message} (h : TakenUp c₀ es asked c) (e : Event) :
    TakenUp c₀ (es ++ [e]) asked c :=
  ⟨h.found.concat e, h.messageType, h.forUs, h.path, h.member⟩

/-- **A reply that answers a call**: what the objects have answered that were
exported when the call was read. -/
def Answers (c₀ : Connection) (es : List Event) (m : Message) : Prop :=
  ∃ asked c serial, TakenUp c₀ es asked c ∧ asked.noReplyExpected = false ∧
    m = (reply asked (c.result asked)).build serial

theorem Answers.concat {m : Message} (h : Answers c₀ es m) (e : Event) :
    Answers c₀ (es ++ [e]) m := by
  obtain ⟨asked, c, serial, htaken, hrest⟩ := h
  exact ⟨asked, c, serial, htaken.concat e, hrest⟩

/-- What the reader is busy with is a call that it has taken up. -/
def Busy (c₀ : Connection) (es : List Event) (c : Connection) : Prop :=
  ∀ asked member found, c.reader = .serving asked member found → ∃ c₁, TakenUp c₀ es asked c₁ ∧
    ObjectServer.answer found member asked.body = c₁.result asked

/-- A message is read: the reader may be busy with it afterwards. -/
theorem busy_receive (hrun : c₀.run es = some c) (hreader : c.reader = .reading) (msg : Message) :
    Busy c₀ (es ++ [.receive msg]) (c.receive msg) := by
  intro asked member found hserving
  rcases (receive_cases hreader msg).2 with hidle |
    ⟨path, member', htype, hforUs, hpath, hmember, hserves⟩
  · rw [hidle] at hserving
    cases hserving
  · rw [hserves] at hserving
    cases hserving
    refine ⟨c, ⟨found_last hrun _, htype, hforUs, ?_, ?_⟩, ?_⟩
    · rw [hpath]
      rfl
    · rw [hmember]
      rfl
    · unfold result
      rw [hpath, hmember]
      rfl

/-- What is answered is written once it can be encoded. -/
theorem mem_answered {call m : Message} {result : MethodResult} {serial : UInt32}
    (h : m ∈ answered call result serial) :
    call.noReplyExpected = false ∧ m = (reply call result).build serial := by
  unfold answered written at h
  split at h
  · cases h
  · next hreply =>
    refine ⟨by simpa using hreply, ?_⟩
    split at h
    · exact List.mem_singleton.mp h
    · cases h

theorem replies_receive (msg : Message) : (c.receive msg).replies = c.replies := by
  have hreply : (c.handleReply msg).replies = c.replies := by
    unfold handleReply
    split
    · rfl
    · split <;> rfl
  show (c.handleIncoming msg).replies = c.replies
  unfold handleIncoming handleCall
  split
  · exact hreply
  · exact hreply
  · rfl
  · split
    · rfl
    · split <;> rfl

/-- **Every reply answers a call that was read**, with what was exported then. -/
theorem answers_of_mem_replies (h : (start server replySerials).run es = some c) {m : Message}
    (hm : m ∈ c.replies) : Answers (start server replySerials) es m := by
  have hall : (∀ m ∈ c.replies, Answers (start server replySerials) es m) ∧
      Busy (start server replySerials) es c := by
    refine history_induction (P := fun es c =>
      (∀ m ∈ c.replies, Answers (start server replySerials) es m) ∧
        Busy (start server replySerials) es c) ?_ ?_ h
    · exact ⟨nofun, nofun⟩
    intro es c e c' hrun hc hstep
    obtain ⟨hreplies, hbusy⟩ := hc
    by_cases hread : ∃ msg, e = .receive msg
    · obtain ⟨msg, rfl⟩ := hread
      cases steps_of_step hstep with
      | receive msg hreader =>
        refine ⟨fun m hm => ?_, busy_receive hrun hreader msg⟩
        rw [replies_receive] at hm
        exact (hreplies m hm).concat _
    rcases step_reader hstep (fun m hm => hread ⟨m, hm⟩) with
      ⟨asked, member, found, hserving, rfl⟩ | ⟨hsame, hreader⟩
    · obtain ⟨hreading, serial, hwritten⟩ := c.serve_spec asked member found
      refine ⟨fun m hm => ?_, fun _ _ _ hserves => ?_⟩
      · rw [hwritten] at hm
        rcases List.mem_append.mp hm with hm | hm
        · exact (hreplies m hm).concat _
        · obtain ⟨c₁, htaken, hresult⟩ := hbusy asked member found hserving
          obtain ⟨hwants, rfl⟩ := mem_answered hm
          exact ⟨asked, c₁, serial, htaken.concat _, hwants, by rw [hresult]⟩
      · rw [hreading] at hserves
        cases hserves
    · rw [hsame]
      refine ⟨fun m hm => (hreplies m hm).concat _, fun asked member found hserves => ?_⟩
      rcases hreader with hreader | ⟨-, hidle⟩
      · rw [hreader] at hserves
        obtain ⟨c₁, htaken, hresult⟩ := hbusy asked member found hserves
        exact ⟨c₁, htaken.concat _, hresult⟩
      · rw [hserves] at hidle
        cases hidle
  exact hall.1 m hm

end Connection

end Client

end Oxibus
