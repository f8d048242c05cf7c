import Oxibus.Daemon.Replay
import Oxibus.Daemon.Sessions

/-!
# The limit of connections of one user

Before its handshake a connection is counted against those its user has in the
table, and turned down if there are as many as the limit allows. It enters
the table after the handshake. What is counted is the table: connections of
the same user that have passed the check and are not in the table yet do not
count, and a handshake may take its time.

The limit holds as long as they are few enough to be counted too (`Careful`).
If ever they are not, nothing holds them back any more: all of them may enter
the table, and then it is over the limit.
-/

namespace Oxibus

open Relation

/-- A connection of a user that has passed the check and is not in the table of
connections yet. -/
def Job.isEntering (uid : UInt32) : Job → Bool
  | handshaking peer => peer.uid == uid
  | authenticated peer => peer.uid == uid
  | labelled peer _ => peer.uid == uid
  | named c => c.credentials.uid == uid
  | _ => false

namespace Daemon

/-- The connections of a user in the table. -/
def connectionsOf (S : Daemon) (uid : UInt32) : ℕ :=
  S.world.state.registry.connectionCountForUid uid

/-- The connections of a user on their way into the table. -/
def entering (S : Daemon) (uid : UInt32) : ℕ := S.jobs.countP (Job.isEntering uid)

/-- **A careful step**: if it lets a connection pass the check, the connections
of its user are fewer than the limit, with those counted that are on their
way. -/
structure Careful (bus : Bus) (S S' : Daemon) : Prop where
  step : Step bus S S'
  room : ∀ (i : ℕ) (peer : PeerCredentials), S.jobs[i]? = some (.wrapped peer) →
    S'.jobs[i]? = some (.handshaking peer) →
    S.connectionsOf peer.uid + S.entering peer.uid < bus.limits.maxConnectionsPerUser

end Daemon

/-! ## The count after an operation -/

namespace Registry

variable {reg : Registry} (uid : UInt32)

theorem connectionCountForUid_erase_le {reg' : Registry} {name : String}
    (h : reg'.connections = reg.connections.erase name) :
    reg'.connectionCountForUid uid ≤ reg.connectionCountForUid uid := by
  unfold connectionCountForUid allConnections
  rw [h]
  exact (((List.kerase_sublist name reg.connections.entries).map _).filter _).length_le

theorem connectionCountForUid_insert_le {reg' : Registry} {c : ConnectionEntry}
    (h : reg'.connections = reg.connections.insert c.uniqueName c) :
    reg'.connectionCountForUid uid ≤
      reg.connectionCountForUid uid + if c.credentials.uid == uid then 1 else 0 := by
  unfold connectionCountForUid allConnections
  rw [h, AList.entries_insert, List.map_cons, List.filter_cons]
  have hle := (((List.kerase_sublist c.uniqueName reg.connections.entries).map Sigma.snd).filter
    fun c => c.credentials.uid == uid).length_le
  split
  · exact Nat.succ_le_succ hle
  · exact hle

/-- A connection that is not in the table yet is counted once it is. -/
theorem connectionCountForUid_insert {reg' : Registry} {c : ConnectionEntry}
    (hc : reg.get c.uniqueName = none)
    (h : reg'.connections = reg.connections.insert c.uniqueName c) :
    reg'.connectionCountForUid uid =
      reg.connectionCountForUid uid + if c.credentials.uid == uid then 1 else 0 := by
  have hnone : c.uniqueName ∉ reg.connections := AList.lookup_eq_none.mp hc
  unfold connectionCountForUid allConnections
  rw [h, AList.entries_insert_of_notMem hnone, List.map_cons, List.filter_cons]
  split
  · rfl
  · rfl

end Registry

variable {bus : Bus} {S S' : Daemon} {j j' : Job} {o : BusOp} {r : o.Res}
variable {s s' : BusState} {w : World} {uid : UInt32}

/-- While the table of connections is the same, the count is. -/
theorem Registry.connectionCountForUid_congr {reg reg' : Registry}
    (h : reg'.connections = reg.connections) :
    reg'.connectionCountForUid uid = reg.connectionCountForUid uid := by
  unfold connectionCountForUid allConnections
  rw [h]

/-- **A step of a job that passes no check** brings no connection on its way, and
none into the table that was not. -/
theorem JobStep.connectionCountForUid_le (uid : UInt32) (hstep : JobStep bus j o r j')
    (hsettled : j.Settled s) (hexec : o.Exec s r s')
    (hpass : ∀ peer, j = .wrapped peer → j' ≠ .handshaking peer) :
    s'.registry.connectionCountForUid uid + (if j'.isEntering uid then 1 else 0) ≤
      s.registry.connectionCountForUid uid + if j.isEntering uid then 1 else 0 := by
  cases hstep with
  | counted hmax => exact absurd rfl (hpass _ rfl)
  | add => exact Registry.connectionCountForUid_insert_le uid hexec.connections
  | remove => exact Registry.connectionCountForUid_erase_le uid hexec.connections
  | dispatch =>
    rw [Registry.connectionCountForUid_congr (hsettled.2.1.connections hexec)]
    exact le_rfl
  | announce =>
    rw [Registry.connectionCountForUid_congr
      ((hsettled ⟨0, ⟨0, 0, 0⟩, none⟩).1.connections hexec)]
    exact le_rfl
  | handshakeFailed =>
    rw [Registry.connectionCountForUid_congr hexec.connections]
    exact Nat.le_add_right _ _
  | _ =>
    rw [Registry.connectionCountForUid_congr hexec.connections]
    exact le_rfl

theorem isEntering_spawned (h : j ∈ o.spawned) : j.isEntering uid = false := by
  obtain ⟨c, msg, rfl⟩ := BusOp.entry_of_mem_spawned h
  rfl

namespace Daemon

variable {i : ℕ}

/-- The connections on their way after a step of a job. -/
theorem entering_job (w : World) (o : BusOp) (j' : Job) (uid : UInt32)
    (hj : S.jobs[i]? = some j) :
    entering ⟨w, S.jobs.set i j' ++ o.spawned⟩ uid + (if j.isEntering uid then 1 else 0) =
      S.entering uid + if j'.isEntering uid then 1 else 0 := by
  have hspawned : o.spawned.countP (Job.isEntering uid) = 0 :=
    List.countP_eq_zero.mpr fun j hj => by simp [isEntering_spawned hj]
  unfold entering
  rw [List.countP_append, hspawned]
  exact Slots.countP_set hj

/-! ## Careful runs -/

/-- **A careful step keeps to the limit**, with the connections on their way
counted. -/
theorem Careful.limit (h : Careful bus S S') (hsessions : S.Sessions)
    (hlimit : ∀ uid, S.connectionsOf uid + S.entering uid ≤ bus.limits.maxConnectionsPerUser)
    (uid : UInt32) :
    S'.connectionsOf uid + S'.entering uid ≤ bus.limits.maxConnectionsPerUser := by
  obtain ⟨hstep, hroom⟩ := h
  cases hstep with
  | accept peer =>
    unfold entering
    rw [List.countP_append]
    exact hlimit uid
  | @job i j j' o r w hj hjob hexec =>
    have hcount := entering_job w o j' uid hj
    have hle := hlimit uid
    unfold connectionsOf at hle hroom ⊢
    by_cases hpass : ∃ peer, j = .wrapped peer ∧ j' = .handshaking peer
    · -- the check is passed: there was room for one more
      obtain ⟨peer, rfl, rfl⟩ := hpass
      have hnext : (S.jobs.set i (.handshaking peer) ++ o.spawned)[i]? = some (.handshaking peer) :=
        Slots.getElem?_set_append_self hj
      have hfew := hroom i peer hj hnext
      have hsame : w.state.registry.connectionCountForUid uid =
          S.world.state.registry.connectionCountForUid uid := by
        cases hjob with
        | counted hmax => rw [hexec.1.2]
      show w.state.registry.connectionCountForUid uid + _ ≤ _
      rw [hsame]
      by_cases huid : peer.uid = uid
      · rw [huid] at hfew
        have hentering : Job.isEntering uid (.handshaking peer) = true := beq_iff_eq.mpr huid
        rw [hentering] at hcount
        have hwrapped : Job.isEntering uid (.wrapped peer) = false := rfl
        rw [hwrapped] at hcount
        simp only [if_true, Bool.false_eq_true, if_false] at hcount
        omega
      · have hentering : Job.isEntering uid (.handshaking peer) = false :=
          beq_eq_false_iff_ne.mpr huid
        rw [hentering] at hcount
        have hwrapped : Job.isEntering uid (.wrapped peer) = false := rfl
        rw [hwrapped] at hcount
        simp only [Bool.false_eq_true, if_false] at hcount
        omega
    · have hstep := hjob.connectionCountForUid_le uid (hsessions.settled hj) hexec.1
        fun peer hj hj' => hpass ⟨peer, hj, hj'⟩
      show w.state.registry.connectionCountForUid uid + _ ≤ _
      omega

theorem reachable_of_careful (h : ReflTransGen (Careful bus) new S) : Reachable bus S :=
  ReflTransGen.mono (fun _ _ hs => Careful.step hs) _ _ h

/-- **A run of careful steps keeps to the limit.** -/
theorem connectionsOf_add_entering_le (h : ReflTransGen (Careful bus) new S) (uid : UInt32) :
    S.connectionsOf uid + S.entering uid ≤ bus.limits.maxConnectionsPerUser := by
  induction h generalizing uid with
  | refl => exact Nat.zero_le _
  | tail hrun hs ih => exact hs.limit (reachable_of_careful hrun).sessions ih uid

/-! ## What the others may lead to -/

/-- A job on its way goes on: the table of connections is the same. -/
theorem entering_goes_on (uid : UInt32) (hj : S.jobs[i]? = some j)
    (hstep : JobStep bus j o r j') (hexec : o.Exec S.world.state r s)
    (hconn : s.registry.connections = S.world.state.registry.connections)
    (hentering : j'.isEntering uid = j.isEntering uid) :
    ∃ S', ReflTransGen (Step bus) S S' ∧ S'.jobs[i]? = some j' ∧
      S'.entering uid = S.entering uid ∧ S'.connectionsOf uid = S.connectionsOf uid := by
  have hi := Slots.lt_length_of_getElem? hj
  refine ⟨⟨⟨s, ⟨S.world.state, o, r⟩ :: S.world.log⟩, S.jobs.set i j' ++ o.spawned⟩,
    .single (.job hj hstep ⟨hexec, rfl⟩), ?_, ?_, Registry.connectionCountForUid_congr hconn⟩
  · rw [List.getElem?_append_left (by simpa using hi)]
    exact List.getElem?_set_self hi
  · have hcount := entering_job ⟨s, ⟨S.world.state, o, r⟩ :: S.world.log⟩ o j' uid hj
    rw [hentering] at hcount
    exact Nat.add_right_cancel hcount

/-- One of the connections of a user on their way can get into the table. -/
def Enters (bus : Bus) (S : Daemon) (uid : UInt32) : Prop :=
  ∃ S', ReflTransGen (Step bus) S S' ∧ S'.entering uid + 1 = S.entering uid ∧
    S'.connectionsOf uid = S.connectionsOf uid + 1

/-- What holds further on the way holds now. -/
theorem Enters.of_steps (h : Enters bus S' uid) (hsteps : ReflTransGen (Step bus) S S')
    (hentering : S'.entering uid = S.entering uid)
    (hconn : S'.connectionsOf uid = S.connectionsOf uid) : Enters bus S uid := by
  obtain ⟨S'', hrest, hleft, hmore⟩ := h
  exact ⟨S'', hsteps.trans hrest, hleft.trans hentering, by rw [hmore, hconn]⟩

/-- A connection that has its name is put into the table. -/
theorem enters_of_named {c : ConnectionEntry} (h : Reachable bus S)
    (hj : S.jobs[i]? = some (.named c)) (huid : c.credentials.uid = uid) : Enters bus S uid := by
  let added : BusState :=
    { S.world.state with registry := S.world.state.registry.addConnection c }
  have hexec : BusOp.Exec (.addConnection c) S.world.state () added := rfl
  refine ⟨⟨⟨added, ⟨S.world.state, .addConnection c, ()⟩ :: S.world.log⟩,
    S.jobs.set i (.serving c (.ret ())) ++ []⟩, .single (.job hj .add ⟨hexec, rfl⟩), ?_, ?_⟩
  · have hcount := entering_job ⟨added, ⟨S.world.state, .addConnection c, ()⟩ :: S.world.log⟩
      (.addConnection c) (.serving c (.ret ())) uid hj
    have hnamed : Job.isEntering uid (.named c) = true := beq_iff_eq.mpr huid
    rw [hnamed] at hcount
    exact hcount
  · have hcount := Registry.connectionCountForUid_insert uid (h.sessions.settled hj).2
      hexec.connections
    rw [beq_iff_eq.mpr huid] at hcount
    exact hcount

theorem enters_of_labelled {peer : PeerCredentials} {label : Option String}
    (h : Reachable bus S) (hj : S.jobs[i]? = some (.labelled peer label))
    (huid : peer.uid = uid) : Enters bus S uid := by
  obtain ⟨S', hsteps, hj', hentering, hconn⟩ := entering_goes_on uid
    (s := { S.world.state with registry := S.world.state.registry.allocateUniqueName.2 }) hj
    .allocate ⟨rfl, rfl⟩ rfl rfl
  exact (enters_of_named (h.trans hsteps) hj' huid).of_steps hsteps hentering hconn

theorem enters_of_authenticated {peer : PeerCredentials} (h : Reachable bus S)
    (hj : S.jobs[i]? = some (.authenticated peer)) (huid : peer.uid = uid) :
    Enters bus S uid := by
  obtain ⟨S', hsteps, hj', hentering, hconn⟩ := entering_goes_on uid hj
    (.readLabel : JobStep bus _ _ _ (.labelled peer none)) rfl rfl rfl
  exact (enters_of_labelled (h.trans hsteps) hj' huid).of_steps hsteps hentering hconn

theorem enters_of_handshaking {peer : PeerCredentials} (h : Reachable bus S)
    (hj : S.jobs[i]? = some (.handshaking peer)) (huid : peer.uid = uid) :
    Enters bus S uid := by
  obtain ⟨S', hsteps, hj', hentering, hconn⟩ := entering_goes_on uid hj
    .handshakeDone rfl rfl rfl
  exact (enters_of_authenticated (h.trans hsteps) hj' huid).of_steps hsteps hentering hconn

/-- **Nothing holds back a connection on its way.** -/
theorem enters_of_isEntering (h : Reachable bus S) (hj : S.jobs[i]? = some j)
    (hentering : j.isEntering uid = true) : Enters bus S uid := by
  cases j with
  | handshaking peer => exact enters_of_handshaking h hj (beq_iff_eq.mp hentering)
  | authenticated peer => exact enters_of_authenticated h hj (beq_iff_eq.mp hentering)
  | labelled peer label => exact enters_of_labelled h hj (beq_iff_eq.mp hentering)
  | named c => exact enters_of_named h hj (beq_iff_eq.mp hentering)
  | _ => cases hentering

/-- All of them can get into the table. -/
theorem exists_entered (h : Reachable bus S) (uid : UInt32) :
    ∃ S', ReflTransGen (Step bus) S S' ∧
      S'.connectionsOf uid = S.connectionsOf uid + S.entering uid := by
  generalize hn : S.entering uid = n
  induction n generalizing S with
  | zero => exact ⟨S, .refl, rfl⟩
  | succ n ih =>
    have hpos : 0 < S.jobs.countP (Job.isEntering uid) := by
      rw [show S.jobs.countP (Job.isEntering uid) = n + 1 from hn]
      exact Nat.succ_pos n
    obtain ⟨j, hmem, hentering⟩ := List.countP_pos_iff.mp hpos
    obtain ⟨i, hj⟩ := List.mem_iff_getElem?.mp hmem
    obtain ⟨S', hsteps, hleft, hmore⟩ := enters_of_isEntering h hj hentering
    obtain ⟨S'', hrest, hall⟩ := ih (h.trans hsteps) (by omega)
    exact ⟨S'', hsteps.trans hrest, by omega⟩

/-- The job that passes the check is the one that makes the step. -/
theorem eq_of_passes {k : ℕ} {peer : PeerCredentials}
    (hwrapped : S.jobs[k]? = some (.wrapped peer))
    (hpassed : (S.jobs.set i j' ++ o.spawned)[k]? = some (.handshaking peer)) :
    k = i ∧ j' = .handshaking peer := by
  rcases getElem?_next hpassed with ⟨hki, hj'⟩ | ⟨-, hsame⟩ | hspawned
  · exact ⟨hki, hj'.symm⟩
  · rw [hwrapped] at hsame
    cases hsame
  · obtain ⟨c, msg, heq⟩ := BusOp.entry_of_mem_spawned hspawned
    cases heq

/-- A step that is not careful brings too many on their way. -/
theorem lt_of_not_careful (hstep : Step bus S S') (hcareless : ¬ Careful bus S S') :
    ∃ uid, bus.limits.maxConnectionsPerUser < S'.connectionsOf uid + S'.entering uid := by
  have hroom : ∃ (i : ℕ) (peer : PeerCredentials), S.jobs[i]? = some (.wrapped peer) ∧
      S'.jobs[i]? = some (.handshaking peer) ∧
      bus.limits.maxConnectionsPerUser ≤ S.connectionsOf peer.uid + S.entering peer.uid := by
    by_contra hnone
    refine hcareless ⟨hstep, fun i peer hwrapped hpassed => ?_⟩
    by_contra hfull
    exact hnone ⟨i, peer, hwrapped, hpassed, not_lt.mp hfull⟩
  obtain ⟨i, peer, hwrapped, hpassed, hfull⟩ := hroom
  refine ⟨peer.uid, ?_⟩
  cases hstep with
  | accept other =>
    rcases getElem?_accept hpassed with hpassed | heq
    · rw [hwrapped] at hpassed
      cases hpassed
    · cases heq
  | @job l j j' o r w hj hjob hexec =>
    obtain ⟨rfl, rfl⟩ := eq_of_passes hwrapped hpassed
    rw [hwrapped] at hj
    cases hj
    have hcount := entering_job w o (.handshaking peer) peer.uid hwrapped
    have hentering : Job.isEntering peer.uid (.handshaking peer) = true := beq_iff_eq.mpr rfl
    have hwrapped' : Job.isEntering peer.uid (.wrapped peer) = false := rfl
    rw [hentering, hwrapped'] at hcount
    simp only [Bool.false_eq_true, if_false, if_true] at hcount
    have hconn : connectionsOf ⟨w, S.jobs.set i (.handshaking peer) ++ o.spawned⟩ peer.uid =
        S.connectionsOf peer.uid := by
      cases hjob with
      | counted hmax => exact Registry.connectionCountForUid_congr hexec.1.connections
    omega

/-- **The limit of connections of one user is kept by careful steps, and by no
others.** In every state of a run of careful steps, no user has more
connections in the table than the limit allows; and from every other step on,
what is on its way may lead to a state in which a user has. -/
theorem userLimit_of_careful (bus : Bus) :
    (∀ S, ReflTransGen (Careful bus) new S →
      ∀ uid, S.connectionsOf uid ≤ bus.limits.maxConnectionsPerUser) ∧
    ∀ S S', Reachable bus S → Step bus S S' → ¬ Careful bus S S' →
      ∃ S'' uid, ReflTransGen (Step bus) S' S'' ∧
        bus.limits.maxConnectionsPerUser < S''.connectionsOf uid := by
  refine ⟨fun S h uid => ?_, fun S S' h hstep hcareless => ?_⟩
  · exact (Nat.le_add_right _ _).trans (connectionsOf_add_entering_le h uid)
  · obtain ⟨uid, hmany⟩ := lt_of_not_careful hstep hcareless
    obtain ⟨S'', hsteps, hall⟩ := exists_entered (h.step hstep) uid
    exact ⟨S'', uid, hsteps, by omega⟩

/-! ## Two handshakes at once -/

/-- A session bus on which a user may have one connection. -/
def onePerUser : Bus := { plainBus with limits := ⟨64, 1, 512, 512⟩ }

/-- Two connections of one user are counted before either is in the table. -/
def twoAtOnce : List Instruction :=
  [.accept ⟨1000, 1000, 4711⟩, .accept ⟨1000, 1000, 4712⟩, .run 0 3, .run 1 3, .run 0 4, .run 1 4]

/-- **Both get in.** -/
theorem userLimit_exceeded : ¬ ∀ (bus : Bus) (S : Daemon), Reachable bus S →
    ∀ uid, S.connectionsOf uid ≤ bus.limits.maxConnectionsPerUser := by
  intro h
  have hle := h onePerUser _ (reachable_replay reachable_new twoAtOnce) 1000
  exact absurd hle (by decide +kernel)

/-! ## One connection after the other -/

/-- Whether a move of a job is careful: it passes no check, or there is room. -/
def movesCarefully (bus : Bus) (i : ℕ) (S : Daemon) : Bool :=
  match S.jobs[i]?, (S.advance bus i).jobs[i]? with
  | some (.wrapped peer), some (.handshaking _) =>
    decide (S.connectionsOf peer.uid + S.entering peer.uid < bus.limits.maxConnectionsPerUser)
  | _, _ => true

theorem careful_advance (h : S.movesCarefully bus i = true) :
    ReflTransGen (Careful bus) S (S.advance bus i) := by
  rcases S.advance_cases bus i with hsame | ⟨j, m, hj, hstep, hexec, hnext⟩
  · rw [hsame]
  · refine .single ⟨?_, fun k peer hwrapped hpassed => ?_⟩
    · rw [hnext]
      exact .job hj hstep ⟨hexec, rfl⟩
    · have hpassed' := hpassed
      rw [hnext] at hpassed'
      obtain ⟨rfl, -⟩ := eq_of_passes hwrapped hpassed'
      unfold movesCarefully at h
      rw [hwrapped, hpassed] at h
      exact of_decide_eq_true h

/-- Nobody passes the check when a connection is accepted. -/
theorem careful_accept (S : Daemon) (peer : PeerCredentials) :
    Careful bus S { S with jobs := S.jobs ++ [.accepted peer] } := by
  refine ⟨.accept S peer, fun i p hwrapped hpassed => ?_⟩
  have hsame : (S.jobs ++ [.accepted peer])[i]? = S.jobs[i]? :=
    List.getElem?_append_left (Slots.lt_length_of_getElem? hwrapped)
  rw [show _ = some _ from hpassed, hwrapped] at hsame
  cases hsame

/-- Nor when a frame is read. -/
theorem careful_receive (S : Daemon) (i : ℕ) (frame : List UInt8) :
    ReflTransGen (Careful bus) S (S.receive bus i frame) := by
  rcases S.receive_cases bus i frame with hsame | ⟨c, msg, hj, hexec, hnext⟩
  · rw [hsame]
  · rw [hnext]
    refine .single ⟨.job hj .read hexec, fun k peer hwrapped hpassed => ?_⟩
    obtain ⟨-, hserving⟩ := eq_of_passes (o := .readMessage c) hwrapped hpassed
    cases hserving

/-- **A replay whose moves are careful is a careful run.** -/
theorem careful_replay {instructions : List Instruction}
    (h : replaysWhere bus (movesCarefully bus) instructions S = true) :
    ReflTransGen (Careful bus) S (S.replay bus instructions) :=
  steps_replayWhere (fun _ _ => careful_advance) careful_accept careful_receive h

/-- A session bus on which a user may have two connections. -/
def twoPerUser : Bus := { plainBus with limits := ⟨64, 2, 512, 512⟩ }

/-- Three connections of one user come, each when the one before is in the table. -/
def threeInTurn : List Instruction :=
  [.accept ⟨1000, 1000, 4711⟩, .run 0 8, .accept ⟨1000, 1000, 4712⟩, .run 1 8,
    .accept ⟨1000, 1000, 4713⟩, .run 2 8]

/-- Two of them are let in, and the limit is kept. -/
theorem userLimit_of_careful_inTurn :
    (new.replay twoPerUser threeInTurn).connectionsOf 1000 = 2 ∧
      ∀ uid, (new.replay twoPerUser threeInTurn).connectionsOf uid ≤
        twoPerUser.limits.maxConnectionsPerUser :=
  ⟨by decide +kernel, (userLimit_of_careful twoPerUser).1 _ (careful_replay (by decide +kernel))⟩

end Daemon

end Oxibus
