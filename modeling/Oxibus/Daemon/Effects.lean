import Oxibus.Daemon.Bus

/-!
# What the operations change

Most operations change one part of the shared state, or nothing. For the
parts that invariants are about – the table of connections, the next number,
the flags and rules of connections, the counter of incomplete ones – what an
operation does is a function of the operation and the part alone. An
invariant of a part is then a statement about that function.
-/

namespace Oxibus

namespace BusOp

/-- The table of connections after an operation. -/
def connectionsAfter (connections : AList fun _ : String => ConnectionEntry) :
    BusOp → AList fun _ : String => ConnectionEntry
  | addConnection c => connections.insert c.uniqueName c
  | removeConnection name => connections.erase name
  | _ => connections

/-- The next number after an operation. -/
def nextIdAfter (nextId : ℕ) : BusOp → ℕ
  | allocateUniqueName => nextId + 1
  | _ => nextId

/-- The flags and rules of a connection after an operation on it. -/
def cellAfter (cells : Cells) : BusOp → Cells
  | storeMonitor _ => { cells with isMonitor := true }
  | swapRegistered _ => { cells with isRegistered := true }
  | setMatchRules _ rules => { cells with matchRules := rules }
  | pushMatchRule _ rule => { cells with matchRules := cells.matchRules ++ [rule] }
  | removeMatchRules _ raw =>
    { cells with matchRules := cells.matchRules.filter fun rule => rule.raw != raw }
  | _ => cells

/-- The connection whose flags or rules an operation changes. -/
def cellOwner : BusOp → Option ConnectionEntry
  | storeMonitor c => some c
  | swapRegistered c => some c
  | setMatchRules c _ => some c
  | pushMatchRule c _ => some c
  | removeMatchRules c _ => some c
  | _ => none

namespace Exec

variable {o : BusOp} {s s' : BusState} {r : o.Res}

/-- **What becomes of the table of connections.** -/
theorem connections (h : o.Exec s r s') :
    s'.registry.connections = o.connectionsAfter s.registry.connections := by
  cases o with
  | removeConnection name =>
    obtain ⟨order, -, -, hs⟩ := h
    rw [hs]
    exact Registry.connections_removeConnection _ _ _
  | requestName uniqueName name flags =>
    rw [h.2]
    exact (Registry.namesOnly_requestName _ _ _ _).connections
  | releaseName uniqueName name =>
    rw [h.2]
    exact (Registry.namesOnly_releaseName _ _ _).connections
  | tryBeginIncomplete max =>
    rw [h.2]
    show (s.registry.tryBeginIncomplete max).2.connections = _
    unfold Registry.tryBeginIncomplete
    split <;> rfl
  | _ => first | (rw [h.eq_of_not_isUpdate rfl]; rfl) | (rw [h]; rfl) | (rw [h.2]; rfl)

/-- **What becomes of the next number.** -/
theorem nextId (h : o.Exec s r s') : s'.registry.nextId = o.nextIdAfter s.registry.nextId := by
  cases o with
  | removeConnection name =>
    obtain ⟨order, -, -, hs⟩ := h
    rw [hs]
    exact (Registry.namesOnly_releaseNames _ _ _).nextId
  | requestName uniqueName name flags =>
    rw [h.2]
    exact (Registry.namesOnly_requestName _ _ _ _).nextId
  | releaseName uniqueName name =>
    rw [h.2]
    exact (Registry.namesOnly_releaseName _ _ _).nextId
  | tryBeginIncomplete max =>
    rw [h.2]
    show (s.registry.tryBeginIncomplete max).2.nextId = _
    unfold Registry.tryBeginIncomplete
    split <;> rfl
  | _ => first | (rw [h.eq_of_not_isUpdate rfl]; rfl) | (rw [h]; rfl) | (rw [h.2]; rfl)

/-- **What becomes of the flags and rules**: only those of one connection can
change. -/
theorem cells (h : o.Exec s r s') (id : ℕ) : s'.cells id =
    if o.cellOwner.map ConnectionEntry.id = some id then o.cellAfter (s.cells id)
    else s.cells id := by
  have hset : ∀ (c : ConnectionEntry) (after : Cells → Cells),
      (s.setCells c (after (s.cells c.id))).cells id
        = if some c.id = some id then after (s.cells id) else s.cells id := by
    intro c after
    show Function.update s.cells c.id (after (s.cells c.id)) id = _
    by_cases hid : c.id = id
    · rw [if_pos (congrArg some hid), hid, Function.update_self]
    · rw [if_neg fun h => hid (Option.some.inj h), Function.update_of_ne (Ne.symm hid)]
  cases o with
  | storeMonitor c =>
    rw [h]
    exact hset c fun cells => { cells with isMonitor := true }
  | swapRegistered c =>
    rw [h.2]
    exact hset c fun cells => { cells with isRegistered := true }
  | setMatchRules c rules =>
    rw [h]
    exact hset c fun cells => { cells with matchRules := rules }
  | pushMatchRule c rule =>
    rw [h]
    exact hset c fun cells => { cells with matchRules := cells.matchRules ++ [rule] }
  | removeMatchRules c raw =>
    rw [h.2]
    exact hset c fun cells =>
      { cells with matchRules := cells.matchRules.filter fun rule => rule.raw != raw }
  | removeConnection name =>
    obtain ⟨order, -, -, hs⟩ := h
    rw [hs]
    rfl
  | _ => first | (rw [h.eq_of_not_isUpdate rfl]; rfl) | (rw [h]; rfl) | (rw [h.2]; rfl)

end Exec

end BusOp

end Oxibus
