import Oxibus.Auth.Keyring
import Mathlib.Logic.Function.Basic

/-!
# Processes that share a keyring

Servers that run as the same user have one keyring between them. `best_key`
reads the file, makes a key where there is no recent one, and writes the file
as it read it, with the new key. There is a lock, but it is held for nothing
before the file is read, and then again while it is written: what another
process writes in between is lost.

A key that was handed out stays in the file as long as nobody writes over what
they have not read, and nobody goes on with a keyring that they could not
write (`kept_of_orderly`).
-/

namespace Oxibus

namespace Keyring

/-! ## Processes -/

/-- **Where a process is in `best_key`**, with the keys it has in memory. -/
inductive Progress where
  /-- It has no keyring. -/
  | away
  /-- No call runs. -/
  | ready (keys : List Key)
  /-- No call runs; the last one made a key and could not write it. -/
  | unsaved (keys : List Key)
  /-- It wants the lock, to give it back at once. -/
  | locking (keys : List Key)
  | unlocking (keys : List Key)
  | rereading (keys : List Key)
  /-- It has made a key for the file as it was when it was read, and wants the
  lock again. -/
  | saving (seen : KeyringFile) (kept : List Key) (key : Key)
  | writing (seen : KeyringFile) (kept : List Key) (key : Key)
  /-- It has written the file. -/
  | written (keys : List Key) (key : Key)

/-- No call of the process runs. -/
def Progress.atRest : Progress → Bool
  | .away | .ready _ | .unsaved _ => true
  | _ => false

/-- **Processes, and the disk that they share.** -/
structure Shared where
  disk : Disk
  /-- Who holds the lock of the keyring. -/
  lock : Option ℕ
  procs : ℕ → Progress
  /-- The keys whose numbers were returned. -/
  handed : List Key
  /-- The readings of the clock at which expired keys were left out. -/
  prunings : List Int64

/-- **What a process does next**, and what the machine gives it. -/
inductive Move where
  /-- It loads the keyring. -/
  | load (p : ℕ) (machine : Machine)
  /-- It calls `best_key`. -/
  | call (p : ℕ) (machine : Machine)
  /-- It goes on with the call. -/
  | proceed (p : ℕ) (machine : Machine)

/-- The key that is added. -/
def newKey (machine : Machine) (now : Int64) (keys : List Key) : Key :=
  ⟨newId keys machine.lastDraw machine.draws, now, machine.secret.toList⟩

theorem addNewKey_eq (machine : Machine) (now : Int64) (keys : List Key) :
    addNewKey machine now keys
      = ((newKey machine now keys).id, keys ++ [newKey machine now keys]) := rfl

theorem written_newKey (machine : Machine) (now : Int64) (keys : List Key) :
    (newKey machine now keys).Written := by
  intro hnil
  have hlength : machine.secret.toList.length = 24 := machine.secret.length_toList
  rw [show machine.secret.toList = [] from hnil] at hlength
  cases hlength

namespace Shared

/-- Processes that have not begun. -/
def start (disk : Disk) : Shared := ⟨disk, none, fun _ => .away, [], []⟩

/-- A process gets on. -/
def advance (S : Shared) (p : ℕ) (progress : Progress) : Shared :=
  { S with procs := Function.update S.procs p progress }

/-- A call returns the number of a key. -/
def hand (S : Shared) (key : Key) : Shared := { S with handed := key :: S.handed }

/-- A call goes on: the steps of `best_key` after it has looked at the keys in
memory. -/
def proceed (home context : String) (S : Shared) (p : ℕ) (machine : Machine) : Option Shared :=
  match S.procs p with
  | .locking keys =>
    match machine.lockError with
    | some _ => some (S.advance p (.ready keys))
    | none =>
      if S.lock = none then some { S.advance p (.unlocking keys) with lock := some p } else none
  | .unlocking keys => some { S.advance p (.rereading keys) with lock := none }
  | .rereading keys =>
    match reread S.disk ⟨home, context, keys⟩ with
    | .error _ => some (S.advance p (.ready keys))
    | .ok keys =>
      match findRecent (machine.clock 1) keys with
      | some k => some ((S.advance p (.ready keys)).hand k)
      | none =>
        let kept := pruneExpired (machine.clock 2) keys
        let key := newKey machine (machine.clock 3) kept
        some { S.advance p (.saving (S.disk home context) kept key) with
          prunings := machine.clock 2 :: S.prunings }
  | .saving seen kept key =>
    match machine.lockError with
    | some _ => some (S.advance p (.unsaved (kept ++ [key])))
    | none =>
      if S.lock = none then some { S.advance p (.writing seen kept key) with lock := some p }
      else none
  | .writing _ kept key =>
    match save machine S.disk home context (kept ++ [key]) with
    | .error _ => some { S.advance p (.unsaved (kept ++ [key])) with lock := none }
    | .ok disk => some { S.advance p (.written (kept ++ [key]) key) with disk }
  | .written keys key => some { (S.advance p (.ready keys)).hand key with lock := none }
  | _ => none

/-- **One step of a process**, if it can take it. -/
def step (home context : String) (S : Shared) : Move → Option Shared
  | .load p machine =>
    if (S.procs p).atRest then
      match Keyring.load machine S.disk home context with
      | .error _ => some (S.advance p .away)
      | .ok keyring => some (S.advance p (.ready keyring.keys))
    else none
  | .call p machine =>
    match S.procs p with
    | .ready keys | .unsaved keys =>
      match findRecent (machine.clock 0) keys with
      | some k => some (S.hand k)
      | none => some (S.advance p (.locking keys))
    | _ => none
  | .proceed p machine => S.proceed home context p machine

/-- A run: one step after the other. -/
def run (home context : String) (S : Shared) : List Move → Option Shared
  | [] => some S
  | e :: es => (S.step home context e).bind fun S => S.run home context es

/-- The keys of a file, if it can be read. -/
def readable (file : KeyringFile) : List Key :=
  match parseFile file with
  | .ok keys => keys
  | .error _ => []

/-- The keys that are in the file. -/
def keys (home context : String) (S : Shared) : List Key := readable (S.disk home context)

/-- A key has not expired: no process has found it too old. -/
def Unexpired (S : Shared) (k : Key) : Prop :=
  ∀ now ∈ S.prunings, now - k.created < expireKeysTimeoutSeconds

/-- **No key is lost**: those whose numbers were returned are in the file. -/
def Kept (home context : String) (S : Shared) : Prop :=
  ∀ k ∈ S.handed, S.Unexpired k → k ∈ S.keys home context

/-- **A step in good time**: who writes the file has read it as it is, and who
could not write it does not call again before they have loaded it. -/
def isTimely (home context : String) (S : Shared) : Move → Bool
  | .load _ _ => true
  | .call p _ =>
    match S.procs p with
    | .unsaved _ => false
    | _ => true
  | .proceed p machine =>
    match S.procs p with
    | .writing seen _ _ => machine.saveError.isSome || S.disk home context == seen
    | _ => true

/-- Every step of a run is in good time. -/
def isOrderly (home context : String) (S : Shared) : List Move → Bool
  | [] => true
  | e :: es => S.isTimely home context e &&
    (S.step home context e).all fun S => S.isOrderly home context es

end Shared

/-! ## What is in memory is in the file -/

namespace Shared

variable {home context : String} {S S' : Shared} {p : ℕ} {progress : Progress}

/-- Keys that are in the file, those of them that have not expired. -/
def Backs (home context : String) (S : Shared) (keys : List Key) : Prop :=
  ∀ k ∈ keys, k.Written ∧ (S.Unexpired k → k ∈ S.keys home context)

/-- **What holds of a process**, by how far it is. -/
def Fits (home context : String) (S : Shared) : Progress → Prop
  | .away | .unsaved _ => True
  | .ready keys | .locking keys | .unlocking keys | .rereading keys => S.Backs home context keys
  | .saving seen kept key | .writing seen kept key => S.Backs home context kept ∧ key.Written ∧
    ∀ k ∈ readable seen, S.Unexpired k → k ∈ kept
  | .written keys key => S.Backs home context keys ∧ key ∈ keys

/-- **The invariant.** -/
structure Sound (home context : String) (S : Shared) : Prop where
  kept : S.Kept home context
  fits : ∀ p, S.Fits home context (S.procs p)

/-- Nothing is lost from one state to another but what has expired. -/
structure Keeps (home context : String) (S S' : Shared) : Prop where
  unexpired : ∀ {k}, S'.Unexpired k → S.Unexpired k
  keys : ∀ {k}, S'.Unexpired k → k ∈ S.keys home context → k ∈ S'.keys home context

theorem Backs.keeps {keys : List Key} (h : S.Backs home context keys)
    (hkeeps : S.Keeps home context S') : S'.Backs home context keys := by
  intro k hk
  obtain ⟨hwritten, hin⟩ := h k hk
  exact ⟨hwritten, fun hfresh => hkeeps.keys hfresh (hin (hkeeps.unexpired hfresh))⟩

theorem Fits.keeps (h : S.Fits home context progress) (hkeeps : S.Keeps home context S') :
    S'.Fits home context progress := by
  cases progress with
  | away => trivial
  | unsaved => trivial
  | ready | locking | unlocking | rereading => exact Backs.keeps h hkeeps
  | saving seen kept key | writing seen kept key =>
    obtain ⟨hbacks, hwritten, hall⟩ := h
    exact ⟨hbacks.keeps hkeeps, hwritten, fun k hk hfresh =>
      hall k hk (hkeeps.unexpired hfresh)⟩
  | written keys key => exact ⟨h.1.keeps hkeeps, h.2⟩

/-- **One process takes a step**: the others keep what they have. -/
theorem Sound.advance (h : S.Sound home context) (hkeeps : S.Keeps home context S')
    (hprocs : S'.procs = Function.update S.procs p progress)
    (hfits : S'.Fits home context progress)
    (hhanded : ∀ k ∈ S'.handed, k ∈ S.handed ∨
      (S'.Unexpired k → k ∈ S'.keys home context)) : S'.Sound home context where
  kept := by
    intro k hk hfresh
    rcases hhanded k hk with hold | hnew
    · exact hkeeps.keys hfresh (h.kept k hold (hkeeps.unexpired hfresh))
    · exact hnew hfresh
  fits := by
    intro q
    rw [hprocs]
    by_cases hq : q = p
    · rw [hq, Function.update_self]
      exact hfits
    · rw [Function.update_of_ne hq]
      exact (h.fits q).keeps hkeeps

/-- The file stays as it is. -/
theorem keeps_of_same (hdisk : S'.disk = S.disk)
    (hprunings : ∀ now ∈ S.prunings, now ∈ S'.prunings) : S.Keeps home context S' where
  unexpired := fun h now hnow => h now (hprunings now hnow)
  keys := by
    intro k _ hk
    unfold Shared.keys at hk ⊢
    rwa [hdisk]

/-- **One process takes a step and does not write.** -/
theorem Sound.quiet (h : S.Sound home context) (progress : Progress) (hdisk : S'.disk = S.disk)
    (hprunings : S'.prunings = S.prunings)
    (hprocs : S'.procs = Function.update S.procs p progress)
    (hfits : S.Fits home context progress)
    (hhanded : ∀ k ∈ S'.handed, k ∈ S.handed ∨ (S.Unexpired k → k ∈ S.keys home context)) :
    S'.Sound home context := by
  have hkeeps : S.Keeps home context S' :=
    keeps_of_same hdisk fun now hnow => hprunings ▸ hnow
  refine h.advance hkeeps hprocs (hfits.keeps hkeeps) fun k hk => ?_
  rcases hhanded k hk with hold | hnew
  · exact .inl hold
  · exact .inr fun hfresh => hkeeps.keys hfresh (hnew (hkeeps.unexpired hfresh))

theorem readable_eq {file : KeyringFile} {keys : List Key} (h : parseFile file = .ok keys) :
    readable file = keys := by
  rw [readable, h]

/-- The keys that are read are in the file. -/
theorem backs_of_parseFile {keys : List Key} (h : parseFile (S.disk home context) = .ok keys) :
    S.Backs home context keys := by
  intro k hk
  refine ⟨written_of_parseFile h k hk, fun _ => ?_⟩
  rw [Shared.keys, readable_eq h]
  exact hk

theorem backs_of_load {machine : Machine} {keyring : Keyring}
    (h : Keyring.load machine S.disk home context = .ok keyring) :
    S.Backs home context keyring.keys := by
  unfold Keyring.load at h
  split at h
  · cases h
  · obtain ⟨keys, hkeys, h⟩ := AuthResult.bind_eq_ok.mp h
    rw [← Except.ok.inj h]
    exact backs_of_parseFile hkeys

/-- What is read again is in the file, and is all that is in it; if there is no
file the keys in memory stay. -/
theorem backs_of_reread {keys keys' : List Key} (hbacks : S.Backs home context keys)
    (h : reread S.disk ⟨home, context, keys⟩ = .ok keys') :
    S.Backs home context keys' ∧ ∀ k ∈ readable (S.disk home context), k ∈ keys' := by
  unfold reread at h
  dsimp only at h
  split at h
  · next habsent =>
    rw [← Except.ok.inj h, habsent]
    exact ⟨hbacks, fun k hk => nomatch hk⟩
  · refine ⟨backs_of_parseFile h, fun k hk => ?_⟩
    rwa [readable_eq h] at hk

/-- The file that a process writes is the one that it read, with its key. -/
theorem keeps_of_save {machine : Machine} {kept : List Key} {key : Key} {disk : Disk} (S' : Shared)
    (hfits : S.Fits home context (.writing (S.disk home context) kept key))
    (hsave : save machine S.disk home context (kept ++ [key]) = .ok disk)
    (hdisk : S'.disk = disk) (hprunings : S'.prunings = S.prunings) :
    S.Keeps home context S' ∧ S'.keys home context = kept ++ [key] := by
  obtain ⟨hbacks, hwritten, hall⟩ := hfits
  have hkeys : S'.keys home context = kept ++ [key] := by
    unfold save at hsave
    split at hsave
    · cases hsave
    · rw [Shared.keys, hdisk, ← Except.ok.inj hsave, Disk.write, if_pos ⟨rfl, rfl⟩]
      refine readable_eq (parseKeys_keyLines ?_)
      intro k hk
      rcases List.mem_append.mp hk with hk | hk
      · exact (hbacks k hk).1
      · rw [List.mem_singleton.mp hk]
        exact hwritten
  have hunexpired : ∀ {k}, S'.Unexpired k → S.Unexpired k := by
    intro k hfresh now hnow
    exact hfresh now (hprunings ▸ hnow)
  refine ⟨⟨hunexpired, ?_⟩, hkeys⟩
  intro k hfresh hk
  rw [hkeys]
  exact List.mem_append_left _ (hall k hk (hunexpired hfresh))

/-! ## One step -/

/-- The key that a call returns is one of those it has. -/
theorem handed_cons {k : Key} {keys : List Key} (hbacks : S.Backs home context keys)
    (hk : k ∈ keys) : ∀ k' ∈ k :: S.handed, k' ∈ S.handed ∨
      (S.Unexpired k' → k' ∈ S.keys home context) := by
  intro k' hk'
  rcases List.mem_cons.mp hk' with rfl | hold
  · exact .inr (hbacks k' hk).2
  · exact .inl hold

/-- The file is read again, and a key made if there is no recent one. -/
theorem Sound.reread (h : S.Sound home context) {machine : Machine} {keys : List Key}
    (hp : S.procs p = .rereading keys)
    (hstep : S.proceed home context p machine = some S') : S'.Sound home context := by
  have hfits := h.fits p
  rw [hp] at hfits
  simp only [Shared.proceed, hp] at hstep
  split at hstep
  · rw [← Option.some.inj hstep]
    exact h.quiet (.ready keys) rfl rfl rfl hfits fun k hk => .inl hk
  · next keys' hread =>
    obtain ⟨hbacks, hall⟩ := backs_of_reread hfits hread
    split at hstep
    · next k hrecent =>
      rw [← Option.some.inj hstep]
      exact h.quiet (.ready keys') rfl rfl rfl hbacks
        (handed_cons hbacks (findRecent_mem hrecent))
    · rw [← Option.some.inj hstep]
      refine h.advance (keeps_of_same rfl fun _ hnow => List.mem_cons_of_mem _ hnow) rfl
        ⟨fun k hk => ?_, Keyring.written_newKey _ _ _, fun k hk hfresh => ?_⟩ fun k hk => .inl hk
      · obtain ⟨hwritten, hin⟩ := hbacks k (List.mem_of_mem_filter hk)
        exact ⟨hwritten, fun hfresh => hin fun now hnow => hfresh now (List.mem_cons_of_mem _ hnow)⟩
      -- what is left out here has expired
      · exact List.mem_filter.mpr ⟨hall k hk, decide_eq_true (hfresh _ List.mem_cons_self)⟩

/-- The file is written by a process that has read it as it is. -/
theorem Sound.write (h : S.Sound home context) {machine : Machine} {seen : KeyringFile}
    {kept : List Key} {key : Key} (htimely : S.isTimely home context (.proceed p machine) = true)
    (hp : S.procs p = .writing seen kept key)
    (hstep : S.proceed home context p machine = some S') : S'.Sound home context := by
  have hfits := h.fits p
  rw [hp] at hfits
  simp only [Shared.proceed, hp] at hstep
  split at hstep
  · rw [← Option.some.inj hstep]
    exact h.quiet (.unsaved (kept ++ [key])) rfl rfl rfl trivial fun k hk => .inl hk
  · next disk hsave =>
    have hseen : S.disk home context = seen := by
      simp only [isTimely, hp, Bool.or_eq_true, beq_iff_eq] at htimely
      rcases htimely with hfails | hseen
      · obtain ⟨text, htext⟩ := Option.isSome_iff_exists.mp hfails
        rw [save, htext] at hsave
        cases hsave
      · exact hseen
    rw [← hseen] at hfits
    rw [← Option.some.inj hstep]
    obtain ⟨hkeeps, hkeys⟩ :=
      keeps_of_save { S.advance p (.written (kept ++ [key]) key) with disk } hfits hsave rfl rfl
    refine h.advance hkeeps rfl ⟨fun k hk => ⟨?_, fun _ => ?_⟩, ?_⟩ fun k hk => .inl hk
    · rcases List.mem_append.mp hk with hk | hk
      · exact (hfits.1 k hk).1
      · rw [List.mem_singleton.mp hk]
        exact hfits.2.1
    · rw [hkeys]
      exact hk
    · exact List.mem_append_right _ List.mem_cons_self

/-- **A call goes on in good time.** -/
theorem Sound.proceed (h : S.Sound home context) {machine : Machine}
    (htimely : S.isTimely home context (.proceed p machine) = true)
    (hstep : S.proceed home context p machine = some S') : S'.Sound home context := by
  have hfits := h.fits p
  cases hp : S.procs p with
  | rereading keys => exact h.reread hp hstep
  | writing seen kept key => exact h.write htimely hp hstep
  | away | ready keys | unsaved keys =>
    simp only [Shared.proceed, hp] at hstep
    cases hstep
  | locking keys =>
    rw [hp] at hfits
    simp only [Shared.proceed, hp] at hstep
    split at hstep
    · rw [← Option.some.inj hstep]
      exact h.quiet (.ready keys) rfl rfl rfl hfits fun k hk => .inl hk
    · split at hstep
      · rw [← Option.some.inj hstep]
        exact h.quiet (.unlocking keys) rfl rfl rfl hfits fun k hk => .inl hk
      · cases hstep
  | unlocking keys =>
    rw [hp] at hfits
    simp only [Shared.proceed, hp] at hstep
    rw [← Option.some.inj hstep]
    exact h.quiet (.rereading keys) rfl rfl rfl hfits fun k hk => .inl hk
  | saving seen kept key =>
    rw [hp] at hfits
    simp only [Shared.proceed, hp] at hstep
    split at hstep
    · rw [← Option.some.inj hstep]
      exact h.quiet (.unsaved (kept ++ [key])) rfl rfl rfl trivial fun k hk => .inl hk
    · split at hstep
      · rw [← Option.some.inj hstep]
        exact h.quiet (.writing seen kept key) rfl rfl rfl hfits fun k hk => .inl hk
      · cases hstep
  | written keys key =>
    rw [hp] at hfits
    simp only [Shared.proceed, hp] at hstep
    rw [← Option.some.inj hstep]
    exact h.quiet (.ready keys) rfl rfl rfl hfits.1 (handed_cons hfits.1 hfits.2)

/-- **The invariant is kept by a step in good time.** -/
theorem Sound.step (h : S.Sound home context) {e : Move}
    (htimely : S.isTimely home context e = true)
    (hstep : S.step home context e = some S') : S'.Sound home context := by
  cases e with
  | proceed p machine => exact h.proceed htimely hstep
  | load p machine =>
    unfold Shared.step at hstep
    dsimp only at hstep
    split at hstep
    · split at hstep
      · rw [← Option.some.inj hstep]
        exact h.quiet .away rfl rfl rfl trivial fun k hk => .inl hk
      · next keyring hload =>
        rw [← Option.some.inj hstep]
        exact h.quiet (.ready keyring.keys) rfl rfl rfl (backs_of_load hload)
          fun k hk => .inl hk
    · cases hstep
  | call p machine =>
    have hfits := h.fits p
    cases hp : S.procs p with
    | ready keys =>
      rw [hp] at hfits
      simp only [Shared.step, hp] at hstep
      split at hstep
      · next k hrecent =>
        rw [← Option.some.inj hstep]
        have hprocs : S.procs = Function.update S.procs p (.ready keys) := by
          rw [← hp, Function.update_eq_self]
        exact h.quiet (.ready keys) rfl rfl hprocs hfits
          (handed_cons hfits (findRecent_mem hrecent))
      · rw [← Option.some.inj hstep]
        exact h.quiet (.locking keys) rfl rfl rfl hfits fun k hk => .inl hk
    | unsaved keys =>
      simp only [isTimely, hp] at htimely
      cases htimely
    | away | locking | unlocking | rereading | saving | writing | written =>
      simp only [Shared.step, hp] at hstep
      cases hstep

theorem sound_start (home context : String) (disk : Disk) : (start disk).Sound home context where
  kept := fun _ hk => nomatch hk
  fits := fun _ => trivial

theorem Sound.run (h : S.Sound home context) {es : List Move}
    (horderly : S.isOrderly home context es = true) (hrun : S.run home context es = some S') :
    S'.Sound home context := by
  induction es generalizing S with
  | nil =>
    rw [← Option.some.inj hrun]
    exact h
  | cons e es ih =>
    obtain ⟨S₁, hstep, hrun⟩ := Option.bind_eq_some_iff.mp hrun
    rw [isOrderly, hstep, Bool.and_eq_true] at horderly
    exact ih (h.step horderly.1 hstep) horderly.2 hrun

/-! ## A process that is alone -/

theorem lockError_of_withLock {α : Type} {machine : Machine} {f : AuthResult α} {a : α}
    (h : withLock machine f = .ok a) : machine.lockError = none ∧ f = .ok a := by
  unfold withLock at h
  split at h
  · cases h
  · exact ⟨‹_›, h⟩

theorem run_append (es es' : List Move) : S.run home context (es ++ es')
    = (S.run home context es).bind fun S => S.run home context es' := by
  induction es generalizing S with
  | nil => rfl
  | cons e es ih =>
    rw [List.cons_append, Shared.run, Shared.run, Option.bind_assoc]
    exact congrArg _ (funext fun S => ih)

/-- **`best_key` is what a process does that nobody disturbs.** -/
theorem run_alone {machine : Machine} {keys : List Key} {id : UInt32} {disk : Disk}
    (hp : S.procs p = .ready keys) (hlock : S.lock = none)
    (hbest : bestKey machine S.disk ⟨home, context, keys⟩ = .ok (id, disk)) :
    ∃ n k keys' S', S.run home context (.call p machine :: .replicate n (.proceed p machine))
        = some S' ∧ S'.disk = disk ∧ S'.lock = none ∧ S'.procs p = .ready keys' ∧
      S'.handed = k :: S.handed ∧ k.id = id := by
  unfold bestKey at hbest
  cases hrecent : findRecent (machine.clock 0) keys with
  | some k =>
    rw [hrecent] at hbest
    obtain ⟨hid, hdisk⟩ := Prod.mk.inj (Except.ok.inj hbest)
    refine ⟨0, k, keys, S.hand k, ?_, hdisk, hlock, hp, rfl, hid⟩
    simp only [List.replicate_zero, Shared.run, Shared.step, hp, hrecent, Option.bind_some]
  | none =>
    rw [hrecent] at hbest
    obtain ⟨_, hfirst, hbest⟩ := AuthResult.bind_eq_ok.mp hbest
    obtain ⟨keys', hread, hbest⟩ := AuthResult.bind_eq_ok.mp hbest
    have herror := (lockError_of_withLock hfirst).1
    -- the lock is taken and given back, and the file is read
    have hreading : S.run home context (.call p machine :: .replicate 2 (.proceed p machine))
        = some { S.advance p (.rereading keys) with lock := none } := by
      simp only [List.replicate, Shared.run, Shared.step, hp, hrecent, Option.bind_some,
        Shared.proceed, advance, Function.update_self, herror, hlock, if_true,
        Function.update_idem]
    have hmore : ∀ n S', Shared.run home context { S.advance p (.rereading keys) with lock := none }
        (.replicate n (.proceed p machine)) = some S' →
        S.run home context (.call p machine :: .replicate (2 + n) (.proceed p machine))
          = some S' := by
      intro n S' hrun
      rw [List.replicate_add, ← List.cons_append, run_append, hreading]
      exact hrun
    cases hagain : findRecent (machine.clock 1) keys' with
    | some k =>
      rw [hagain] at hbest
      obtain ⟨hid, hdisk⟩ := Prod.mk.inj (Except.ok.inj hbest)
      refine ⟨2 + 1, k, keys', { (S.advance p (.ready keys')).hand k with lock := none },
        hmore 1 _ ?_, hdisk, rfl, Function.update_self .., rfl, hid⟩
      simp only [List.replicate, Shared.run, Shared.step, Shared.proceed, advance, hand,
        Function.update_self, hread, hagain, Option.bind_some, Function.update_idem]
    | none =>
      rw [hagain] at hbest
      unfold makeKey at hbest
      rw [addNewKey_eq] at hbest
      obtain ⟨disk', hsaved, hbest⟩ := AuthResult.bind_eq_ok.mp hbest
      have hsave := (lockError_of_withLock hsaved).2
      obtain ⟨hid, hdisk⟩ := Prod.mk.inj (Except.ok.inj hbest)
      let kept := pruneExpired (machine.clock 2) keys'
      let key := newKey machine (machine.clock 3) kept
      refine ⟨2 + 4, key, kept ++ [key], { (S.advance p (.ready (kept ++ [key]))).hand key with
        lock := none, disk := disk', prunings := machine.clock 2 :: S.prunings }, hmore 4 _ ?_,
        hdisk, rfl, Function.update_self .., rfl, hid⟩
      simp only [List.replicate, Shared.run, Shared.step, Shared.proceed, advance, hand,
        Function.update_self, hread, hagain, herror, hsave, if_true, Option.bind_some,
        Function.update_idem, kept, key]

/-! ## Lost keys -/

/-- **No key is lost in good time**: in every run, of any number of processes,
in which each writes the file only as they have read it, with their key, and
none calls again with a keyring they could not write, every key whose number
was returned is in the file until it expires. -/
theorem kept_of_orderly (home context : String) (disk : Disk) {es : List Move} {S : Shared}
    (hrun : (start disk).run home context es = some S)
    (horderly : (start disk).isOrderly home context es = true) : S.Kept home context :=
  ((sound_start home context disk).run horderly hrun).kept

/-- A machine whose clock stands still. -/
def stillMachine (draw : UInt32) : Machine where
  uid := 0
  clock := fun _ => 0
  dirError := none
  lockError := none
  saveError := none
  draws := []
  lastDraw := draw
  secret := Vector.replicate 24 (UInt8.ofNat draw.toNat)
  challenge := Vector.replicate 16 0

/-- A process loads the keyring, which is empty, and makes a key; it has not
taken the lock to write the file. -/
def making (p : ℕ) (machine : Machine) : List Move :=
  [.load p machine, .call p machine, .proceed p machine, .proceed p machine, .proceed p machine]

/-- It takes the lock, writes the file, and gives the lock back. -/
def finishing (p : ℕ) (machine : Machine) : List Move :=
  [.proceed p machine, .proceed p machine, .proceed p machine]

/-- Two processes make a key each before either writes the file. -/
def crossing : List Move :=
  making 0 (stillMachine 1) ++ making 1 (stillMachine 2) ++
    finishing 0 (stillMachine 1) ++ finishing 1 (stillMachine 2)

/-- One process loads the keyring, and the other makes a key before it calls. -/
def waiting : List Move :=
  .load 1 (stillMachine 2) :: making 0 (stillMachine 1) ++ finishing 0 (stillMachine 1) ++
    [.call 1 (stillMachine 2), .proceed 1 (stillMachine 2), .proceed 1 (stillMachine 2),
      .proceed 1 (stillMachine 2)]

/-- Both processes return the number of one key, and it is in the file. -/
theorem kept_of_waiting : ∃ S, (start fun _ _ => .absent).run "" "" waiting = some S ∧
    S.handed.map (·.id) = [1, 1] ∧ S.Kept "" "" := by
  have hcheck : ((start fun _ _ => .absent).run "" "" waiting).any (fun S =>
      S.handed.map (·.id) == [1, 1]) = true := by decide +kernel
  obtain ⟨S, hrun, hhanded⟩ := (Option.any_eq_true _ _).mp hcheck
  have horderly : (start fun _ _ => .absent).isOrderly "" "" waiting = true := by decide +kernel
  exact ⟨S, hrun, beq_iff_eq.mp hhanded, kept_of_orderly "" "" _ hrun horderly⟩

/-- **The key of the first is lost**: the second writes over it. -/
theorem not_kept_of_crossing : ∃ S, (start fun _ _ => .absent).run "" "" crossing = some S ∧
    ¬ S.Kept "" "" := by
  have hcheck : ((start fun _ _ => .absent).run "" "" crossing).any (fun S =>
      S.handed.any fun k => (S.prunings.all fun now => now - k.created < expireKeysTimeoutSeconds)
        && !decide (k ∈ S.keys "" "")) = true := by decide +kernel
  obtain ⟨S, hrun, hlost⟩ := (Option.any_eq_true _ _).mp hcheck
  obtain ⟨k, hk, hlost⟩ := List.any_eq_true.mp hlost
  rw [Bool.and_eq_true, Bool.not_eq_true', decide_eq_false_iff_not] at hlost
  refine ⟨S, hrun, fun hkept => hlost.2 (hkept k hk fun now hnow => ?_)⟩
  exact of_decide_eq_true (List.all_eq_true.mp hlost.1 now hnow)

end Shared

end Keyring

end Oxibus
