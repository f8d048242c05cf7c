import Oxibus.Lib.Once
import Oxibus.Daemon.Mediation
import Oxibus.Daemon.Replay

/-!
# One dispatch from beginning to end

What becomes of one message is a matter of one dispatch: the operations it
performs from the copies for the monitors to its end, and what it finds when
it performs them. A world that starts with an empty log keeps them all.

Between two operations the other tasks may take steps. They are a parameter:
any steps for what holds whatever the others do, none for what is exact only
if they do nothing.
-/

namespace Oxibus

open BusProg Relation

/-- Other tasks take some steps, and the dispatch none. -/
def World.Amid (others : BusState → BusState → Prop) (w w' : World) : Prop :=
  ReflTransGen others w.state w'.state ∧ w'.log = w.log

/-- **A message is dispatched**, from a state to a world whose log has the
operations that took, the latest first. -/
def Dispatched (others : BusState → BusState → Prop) (bus : Bus) (sender : ConnectionEntry)
    (msg : Message) (s : BusState) (w : World) : Prop :=
  ∃ es, Prog.Runs World.Exec (World.Amid others) ⟨s, []⟩
    (Dispatch.dispatchIncoming bus sender msg) es w (.ret ())

/-- What the program of a dispatch does amid the steps of others. -/
abbrev LeavesLog {α : Type} (others : BusState → BusState → Prop) (p : BusProg α) (w : World)
    (post : α → World → Prop) : Prop :=
  p.Ensures World.Exec (World.Amid others) (fun _ _ _ _ => True) post w

/-- A message is carried to a connection: it is written by the dispatch, or left to a
task that writes it. -/
def BusOp.Carries (conn : ConnectionEntry) (msg : Message) : BusOp → Prop
  | .write c m => c = conn ∧ m = msg
  | .spawnWrite c m => c = conn ∧ m = msg
  | _ => False

variable {others : BusState → BusState → Prop} {bus : Bus} {sender : ConnectionEntry}
variable {msg : Message} {s : BusState} {w w' w'' : World}

namespace World

theorem Amid.refl (w : World) : w.Amid others w := ⟨.refl, rfl⟩

theorem Amid.trans (h : w.Amid others w') (h' : w'.Amid others w'') : w.Amid others w'' :=
  ⟨h.1.trans h'.1, h'.2.trans h.2⟩

theorem amid_state {s s' : BusState} (h : ReflTransGen others s s') (log : List BusEvent) :
    World.Amid others ⟨s, log⟩ ⟨s', log⟩ := ⟨h, rfl⟩

theorem exec_state {o : BusOp} {r : o.Res} {s s' : BusState} (h : o.Exec s r s')
    (log : List BusEvent) : World.Exec o ⟨s, log⟩ r ⟨s', ⟨s, o, r⟩ :: log⟩ := ⟨h, rfl⟩

end World

/-- **What a dispatch leaves behind**, if the others cannot undo it. -/
theorem Dispatched.post {post : World → Prop} (h : Dispatched others bus sender msg s w)
    (hensures : LeavesLog others (Dispatch.dispatchIncoming bus sender msg) ⟨s, []⟩ fun _ => post)
    (hpost : ∀ w w', w.Amid others w' → post w → post w') : post w := by
  obtain ⟨es, hruns⟩ := h
  exact hensures.post_of_runs hruns World.Amid.refl (fun _ _ _ => World.Amid.trans)
    fun _ => hpost

/-- An operation of a run, as it is logged. -/
def Prog.Event.logged (e : Prog.Event BusOp BusOp.Res BusState) : BusEvent :=
  ⟨e.before, e.op, e.res⟩

/-- **A run leaves its operations in the log.** -/
theorem Prog.Runs.logged {α : Type} {p q : BusProg α} {t : BusState}
    {es : List (Prog.Event BusOp BusOp.Res BusState)}
    (h : Prog.Runs BusOp.Exec (ReflTransGen others) s p es t q) (log : List BusEvent) :
    ∃ es', Prog.Runs World.Exec (World.Amid others) ⟨s, log⟩ p es'
      ⟨t, (es.map Prog.Event.logged).reverse ++ log⟩ q := by
  induction h generalizing log with
  | refl s p => exact ⟨[], .refl _ _⟩
  | other henv _ ih =>
    obtain ⟨es', hruns⟩ := ih log
    exact ⟨es', .other (World.amid_state henv log) hruns⟩
  | @call s s' t o r k q es hexec _ ih =>
    obtain ⟨es', hruns⟩ := ih (⟨s, o, r⟩ :: log)
    rw [List.map_cons, List.reverse_cons, List.append_assoc]
    exact ⟨_, .call (World.exec_state hexec log) hruns⟩

/-- A run of a dispatch to its end. -/
theorem Dispatched.of_runs {t : BusState} {es : List (Prog.Event BusOp BusOp.Res BusState)}
    (h : Prog.Runs BusOp.Exec (ReflTransGen others) s
      (Dispatch.dispatchIncoming bus sender msg) es t
      (.ret ())) :
    Dispatched others bus sender msg s ⟨t, (es.map Prog.Event.logged).reverse⟩ := by
  obtain ⟨es', hruns⟩ := h.logged []
  rw [List.append_nil] at hruns
  exact ⟨es', hruns⟩

/-! ## Dispatches that can be computed -/

/-- The answers of a world that is peaceful, but for the peer of one connection: it
is gone. -/
def BusOp.answerWithout (gone : ConnectionEntry) : (o : BusOp) → BusState → o.Res × BusState
  | .write c msg, s => (msg.toBytes.isOk && c != gone, s)
  | o, s => o.answer s

theorem BusOp.exec_answerWithout (gone : ConnectionEntry) (o : BusOp) (s : BusState) :
    o.Exec s (o.answerWithout gone s).1 (o.answerWithout gone s).2 := by
  cases o with
  | write c msg =>
    refine ⟨fun h => ?_, rfl⟩
    exact (Bool.and_eq_true_iff.mp h).1
  | _ => exact BusOp.exec_answer _ s

namespace BusProg

/-- Perform a program to its end, with certain answers. -/
def play {α : Type} (answer : (o : BusOp) → BusState → o.Res × BusState) :
    BusProg α → World → World × α
  | .ret a, w => (w, a)
  | .call o k, w => play answer (k (answer o w.state).1)
      ⟨(answer o w.state).2, ⟨w.state, o, (answer o w.state).1⟩ :: w.log⟩

theorem runs_play {α : Type} {answer : (o : BusOp) → BusState → o.Res × BusState}
    (hanswer : ∀ (o : BusOp) (s : BusState), o.Exec s (answer o s).1 (answer o s).2) (p : BusProg α)
    (w : World) :
    ∃ es, Prog.Runs World.Exec (World.Amid others) w p es (p.play answer w).1
      (.ret (p.play answer w).2) := by
  induction p generalizing w with
  | ret a => exact ⟨[], .refl w _⟩
  | call o k ih =>
    obtain ⟨es, hruns⟩ := ih (answer o w.state).1
      ⟨(answer o w.state).2, ⟨w.state, o, (answer o w.state).1⟩ :: w.log⟩
    exact ⟨_, .call ⟨hanswer o w.state, rfl⟩ hruns⟩

end BusProg

/-- The world a dispatch leads to if the world is peaceful. -/
def playDispatch (bus : Bus) (sender : ConnectionEntry) (msg : Message) (s : BusState) : World :=
  ((Dispatch.dispatchIncoming bus sender msg).play BusOp.answer ⟨s, []⟩).1

theorem dispatched_play : Dispatched others bus sender msg s (playDispatch bus sender msg s) :=
  runs_play BusOp.exec_answer _ _

/-- The world it leads to if the peer of a connection is gone. -/
def playWithout (gone : ConnectionEntry) (bus : Bus) (sender : ConnectionEntry) (msg : Message)
    (s : BusState) : World :=
  ((Dispatch.dispatchIncoming bus sender msg).play (BusOp.answerWithout gone) ⟨s, []⟩).1

theorem dispatched_playWithout (gone : ConnectionEntry) :
    Dispatched others bus sender msg s (playWithout gone bus sender msg s) :=
  runs_play (BusOp.exec_answerWithout gone) _ _

end Oxibus
