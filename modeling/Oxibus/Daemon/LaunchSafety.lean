import Oxibus.Lib.Simulate
import Oxibus.Daemon.LaunchHelper

/-!
# What the launch helper executes

The helper is owned by root and everybody may call it, so what it executes must
not depend on the one who does, except for the name of the service. Whatever is
answered to its calls, in every run: it executes nothing but the command of the
service that has the name it was given, in the files of the directories that its
own configuration names; it was called by the user of the bus, and runs as root;
by then it has become the user of that service, with its groups, and cannot go
back; and of the environment it was called with no variable is left
(`exec_as_service_user`).

If it executes nothing, its exit code says which of these has failed
(`exit_code_explained`).

Both are read off one walk along the program, from one call to the next. What has
been established is a fact about the answers that are logged (`Loaded`,
`Permitted`, `Chosen`), and a later call takes none of them away.
-/

namespace Oxibus

namespace LaunchHelper

open Prog

/-! ## What is established -/

/-- A call that executes a program. -/
def HelperOp.isExec : HelperOp → Bool
  | exec _ _ => true
  | _ => false

/-- Nothing has been executed. -/
def Quiet (log : List Answered) : Prop := ∀ a ∈ log, a.op.isExec = false

/-- The entry that a variable becomes. -/
def starterEntry (pair : String × String) : EnvEntry := ⟨asBytes pair.1, some (asBytes pair.2)⟩

/-- **The environment of a service**: the lines that are no variables, and the four
variables of the helper. -/
def cleaned (environment : List EnvEntry) : List EnvEntry :=
  environment.filter (·.value.isNone) ++ starterVars.map starterEntry

/-- A process with another environment. -/
def Process.withEnvironment (p : Process) (environment : List EnvEntry) : Process :=
  { p with environment := environment }

/-- **The process is the one that was started**, but for its environment, and it has executed
nothing. -/
structure Cleared (start : Process) (s : HelperState) : Prop where
  process : s.process = start.withEnvironment (cleaned start.environment)
  quiet : Quiet s.log

/-- A configuration was loaded. -/
def Loaded (config : HelperConfig) (log : List Answered) : Prop :=
  ∃ path ∈ pathsToTry, ⟨.loadConfig path, .ok config⟩ ∈ log

/-- **The helper was called by the user of the bus, and runs as root.** -/
structure Permitted (start : Process) (config : HelperConfig) (log : List Answered) : Prop where
  loaded : Loaded config log
  caller : ∃ pw, ⟨.getpwnam config.user, some pw⟩ ∈ log ∧ start.realUid = pw.uid
  root : start.effectiveUid = 0

section

variable (parseToml : String → Option ServiceDef)

/-- **The service of a name was looked up** in the directories of the configuration, and
has a user. -/
structure Chosen (start : Process) (name : String) (service : ServiceDef) (user : String)
    (log : List Answered) : Prop where
  valid : isValidBusName name = true
  found : ∃ config, Permitted start config log ∧ ∃ dirs, ⟨.readServices config.dirs, dirs⟩ ∈ log ∧
    (ActivationRegistry.load parseToml dirs).lookup name = some service
  user : service.user = some user

end

/-- The user database has no such user. -/
def NoUser (user : String) (log : List Answered) : Prop :=
  '\x00' ∈ user.toList ∨ ⟨.getpwnam user, none⟩ ∈ log

/-- **The process is a user**, and cannot become another one. -/
structure RunsAs (p : Process) (user : String) (pw : Passwd) : Prop where
  uids : p.realUid = pw.uid ∧ p.effectiveUid = pw.uid ∧ p.savedUid = pw.uid
  gids : p.realGid = pw.gid ∧ p.effectiveGid = pw.gid ∧ p.savedGid = pw.gid
  groups : p.groups = .ofUser user pw.gid

variable {parseToml : String → Option ServiceDef} {start : Process} {name : String}
  {config : HelperConfig} {service : ServiceDef} {user : String} {log : List Answered}
  {s : HelperState}

theorem Loaded.cons (h : Loaded config log) (a : Answered) : Loaded config (a :: log) := by
  obtain ⟨path, hpath, hmem⟩ := h
  exact ⟨path, hpath, List.mem_cons_of_mem a hmem⟩

theorem Permitted.cons (h : Permitted start config log) (a : Answered) :
    Permitted start config (a :: log) where
  loaded := h.loaded.cons a
  caller := by
    obtain ⟨pw, hmem, huid⟩ := h.caller
    exact ⟨pw, List.mem_cons_of_mem a hmem, huid⟩
  root := h.root

theorem Chosen.cons (h : Chosen parseToml start name service user log) (a : Answered) :
    Chosen parseToml start name service user (a :: log) where
  valid := h.valid
  found := by
    obtain ⟨config, hpermitted, dirs, hmem, hlookup⟩ := h.found
    exact ⟨config, hpermitted.cons a, dirs, List.mem_cons_of_mem a hmem, hlookup⟩
  user := h.user

theorem Chosen.root (h : Chosen parseToml start name service user log) :
    start.effectiveUid = 0 := by
  obtain ⟨config, hpermitted, -⟩ := h.found
  exact hpermitted.root

theorem Quiet.cons (h : Quiet log) {a : Answered} (ha : a.op.isExec = false) :
    Quiet (a :: log) :=
  List.forall_mem_cons.mpr ⟨ha, h⟩

/-- A call that leaves the process alone. -/
theorem Cleared.cons (h : Cleared start s) {a : Answered} (ha : a.op.isExec = false) :
    Cleared start ⟨s.process, a :: s.log⟩ where
  process := h.process
  quiet := h.quiet.cons ha

/-! ## What is to be shown -/

section

variable (parseToml)

/-- **What justifies that the helper executes something.** -/
structure Justified (start : Process) (name program : String) (argv : List String)
    (s : HelperState) : Prop where
  service : ∃ service user pw, Chosen parseToml start name service user s.log ∧
    program = service.exec ∧ argv = service.args ∧ ⟨.getpwnam user, some pw⟩ ∈ s.log ∧
      RunsAs s.process user pw
  environment : s.process.environment = cleaned start.environment

/-- **What an error says**, of the answers that were logged. -/
inductive Explains (start : Process) (name : String) (log : List Answered) :
    HelperError → Prop where
  | invalidBusName (h : isValidBusName name = false) :
    Explains start name log (.invalidBusName name)
  | noConfig (h : ∀ path ∈ pathsToTry, ⟨.pathExists path, false⟩ ∈ log) :
    Explains start name log (.configInvalid trustedConfigPath "Config file not found")
  | badConfig {path message : String} (hpath : path ∈ pathsToTry)
      (h : ⟨.loadConfig path, .error message⟩ ∈ log) :
    Explains start name log (.configInvalid path message)
  | noBusUser {config : HelperConfig} (hconfig : Loaded config log) (h : NoUser config.user log) :
    Explains start name log (.permissionsInvalid ("cannot find user '" ++ config.user ++ "'"))
  | otherCaller {config : HelperConfig} {pw : Passwd} (hconfig : Loaded config log)
      (hpw : ⟨.getpwnam config.user, some pw⟩ ∈ log) (h : start.realUid ≠ pw.uid) :
    Explains start name log (.permissionsInvalid ("not invoked from user '" ++ config.user ++ "'"))
  | notRoot (h : start.effectiveUid ≠ 0) :
    Explains start name log (.permissionsInvalid "not setuid root")
  | notFound {config : HelperConfig} {dirs : List ServiceDir}
      (hpermitted : Permitted start config log)
      (hdirs : ⟨.readServices config.dirs, dirs⟩ ∈ log)
      (h : (ActivationRegistry.load parseToml dirs).lookup name = none) :
    Explains start name log (.serviceNotFound name)
  | noUser {config : HelperConfig} {dirs : List ServiceDir} {service : ServiceDef}
      (hpermitted : Permitted start config log) (hdirs : ⟨.readServices config.dirs, dirs⟩ ∈ log)
      (hservice : (ActivationRegistry.load parseToml dirs).lookup name = some service)
      (h : service.user = none) :
    Explains start name log (.noUserConfigured name)
  | unknownUser {service : ServiceDef} {user : String}
      (hchosen : Chosen parseToml start name service user log) (h : NoUser user log) :
    Explains start name log (.unknownUser user)
  | groups {service : ServiceDef} {user : String} {gid : UInt32}
      (hchosen : Chosen parseToml start name service user log)
      (h : ⟨.initgroups user gid, false⟩ ∈ log) :
    Explains start name log (.setupFailed "could not initialize groups")
  | gid {service : ServiceDef} {user : String} {gid : UInt32}
      (hchosen : Chosen parseToml start name service user log) (h : ⟨.setgid gid, false⟩ ∈ log) :
    Explains start name log (.setupFailed ("cannot setgid to " ++ decimal gid.toNat))
  | uid {service : ServiceDef} {user : String} {uid : UInt32}
      (hchosen : Chosen parseToml start name service user log) (h : ⟨.setuid uid, false⟩ ∈ log) :
    Explains start name log (.setupFailed ("cannot setuid to " ++ decimal uid.toNat))
  | exec {service : ServiceDef} {user err : String}
      (hchosen : Chosen parseToml start name service user log)
      (h : ⟨.exec service.exec service.args, some err⟩ ∈ log) :
    Explains start name log
      (.execFailed ("failed to exec '" ++ service.exec ++ "': " ++ err))

/-- **What holds when the helper gives up**: its error says why; up to the search for
the user of the service it is still the process that was started, and only a
failed execution is one. -/
structure GaveUp (start : Process) (name : String) (e : HelperError) (s : HelperState) : Prop where
  explained : Explains parseToml start name s.log e
  cleared : e.exitCode ≤ 8 → Cleared start s
  quiet : e.exitCode ≤ 9 → Quiet s.log

/-- An entry of the environment that the helper can remove. -/
def EnvEntry.Removable (entry : EnvEntry) : Prop :=
  ∀ value, entry.value = some value → (fromUtf8 value).isSome ∧
    ∃ key, fromUtf8 entry.key = some key ∧ isVarName key = true

/-- **What holds when the helper panics**: an entry of the environment cannot be removed. It is
still the process that was started, but for its environment, and it has
executed nothing. -/
structure Choked (start : Process) (s : HelperState) : Prop where
  entry : ∃ entry ∈ start.environment, ¬ entry.Removable
  process : ∃ environment, s.process = start.withEnvironment environment
  quiet : Quiet s.log

/-- What holds when the helper stops. -/
def Stopped (start : Process) (name : String) (stop : Stop) (s : HelperState) : Prop :=
  match stop with
  | .failed e => GaveUp parseToml start name e s
  | .panicked => Choked start s

/-- Whatever is executed is justified. -/
def OnlyJustified (start : Process) (name : String) : Semantics HelperOp HelperOp.Res HelperState :=
  fun o s _ _ => ∀ program argv, o = .exec program argv →
  Justified parseToml start name program argv s

/-- **A part of the helper keeps to this**, and ensures something where it returns. -/
abbrev Keeps (start : Process) (name : String) {α : Type} (post : α → HelperState → Prop)
    (p : Helper α) (s : HelperState) : Prop :=
  Attempts HelperOp.Exec Eq (OnlyJustified parseToml start name) post
    (Stopped parseToml start name) p s

end

variable {α β : Type} {post : α → HelperState → Prop}

/-- **A call that executes nothing.** -/
theorem keeps_sys {o : HelperOp} {f : o.Res → Helper α} (ho : o.isExec = false)
    (h : ∀ r p, o.Does s.process r p →
      Keeps parseToml start name post (f r) ⟨p, ⟨o, r⟩ :: s.log⟩) :
    Keeps parseToml start name post (sys o >>= f) s := by
  refine attempts_attempt_bind fun s₁ r s₂ hs hexec => ⟨fun program argv hop => ?_, ?_⟩
  · rw [hop] at ho
    cases ho
  · subst hs
    obtain ⟨p, log⟩ := s₂
    obtain ⟨hdoes, hlog⟩ := hexec
    obtain rfl : log = _ := hlog
    exact h r p hdoes

/-- The helper gives up. -/
theorem keeps_fail {e : HelperError} (h : GaveUp parseToml start name e s) :
    Keeps parseToml start name post (fail e) s :=
  attempts_throw h

/-! ## The environment -/

/-- The entries that are left once some variables are removed. -/
def withoutAll (keys : List String) (environment : List EnvEntry) : List EnvEntry :=
  keys.foldl (fun environment key => without key environment) environment

theorem withoutAll_eq_filter (keys : List String) (environment : List EnvEntry) :
    withoutAll keys environment = environment.filter fun entry =>
      entry.value.isNone || keys.all fun key => entry.key != asBytes key := by
  unfold withoutAll
  induction keys generalizing environment with
  | nil => simp
  | cons key keys ih =>
    rw [List.foldl_cons, ih, without, List.filter_filter]
    refine List.filter_congr fun entry _ => ?_
    rw [List.all_cons]
    cases entry.value.isNone with
    | true => rfl
    | false => simp [Bool.and_comm]

/-- **The names of the variables** are the keys of the entries with a value. -/
theorem varKeys_cons {entry : EnvEntry} {environment : List EnvEntry} {keys : List String}
    (h : varKeys (entry :: environment) = some keys) : (entry.value = none ∧
      varKeys environment = some keys) ∨ ∃ value key rest, entry.value = some value ∧
        fromUtf8 entry.key = some key ∧ varKeys environment = some rest ∧ keys = key :: rest := by
  unfold varKeys at h ⊢
  rw [List.foldr_cons] at h
  cases hvalue : entry.value with
  | none =>
    rw [hvalue] at h
    exact .inl ⟨rfl, h⟩
  | some value =>
    rw [hvalue] at h
    obtain ⟨key, hkey, h⟩ := Option.bind_eq_some_iff.mp h
    obtain ⟨_, -, h⟩ := Option.bind_eq_some_iff.mp h
    obtain ⟨rest, hrest, h⟩ := Option.bind_eq_some_iff.mp h
    exact .inr ⟨value, key, rest, rfl, hkey, hrest, (Option.some.inj h).symm⟩

/-- Every variable is named. -/
theorem mem_varKeys {environment : List EnvEntry} {keys : List String}
    (h : varKeys environment = some keys) {entry : EnvEntry} (hmem : entry ∈ environment)
    (hvalue : entry.value ≠ none) : ∃ key ∈ keys, entry.key = asBytes key := by
  induction environment generalizing keys with
  | nil => exact absurd hmem List.not_mem_nil
  | cons first environment ih =>
    rcases varKeys_cons h with ⟨hnone, hrest⟩ | ⟨_, key, rest, -, hkey, hrest, rfl⟩
    · rcases List.mem_cons.mp hmem with rfl | hmem
      · exact absurd hnone hvalue
      · exact ih hrest hmem
    · rcases List.mem_cons.mp hmem with rfl | hmem
      · exact ⟨key, List.mem_cons_self, (asBytes_of_fromUtf8 hkey).symm⟩
      · obtain ⟨key', hkey', heq⟩ := ih hrest hmem
        exact ⟨key', List.mem_cons_of_mem _ hkey', heq⟩

/-- **Once all variables are removed, no variable is left.** -/
theorem withoutAll_varKeys {environment : List EnvEntry} {keys : List String}
    (h : varKeys environment = some keys) :
    withoutAll keys environment = environment.filter (·.value.isNone) := by
  rw [withoutAll_eq_filter]
  refine List.filter_congr fun entry hmem => ?_
  cases hvalue : entry.value with
  | none => rfl
  | some value =>
    obtain ⟨key, hkey, heq⟩ := mem_varKeys h hmem (by rw [hvalue]; exact nofun)
    rw [Option.isNone_some, Bool.false_or, List.all_eq_false]
    exact ⟨key, hkey, by rw [heq, bne_self_eq_false]; exact Bool.false_ne_true⟩

/-- What cannot be named or removed is an entry of the environment. -/
theorem exists_not_removable {environment : List EnvEntry} (h : varKeys environment = none) :
    ∃ entry ∈ environment, ¬ entry.Removable := by
  induction environment with
  | nil => cases h
  | cons entry environment ih =>
    by_cases hrest : varKeys environment = none
    · obtain ⟨other, hmem, hother⟩ := ih hrest
      exact ⟨other, List.mem_cons_of_mem _ hmem, hother⟩
    · refine ⟨entry, List.mem_cons_self, fun hentry => ?_⟩
      obtain ⟨keys, hkeys⟩ := Option.ne_none_iff_exists'.mp hrest
      unfold varKeys at h hkeys
      rw [List.foldr_cons, hkeys] at h
      cases hvalue : entry.value with
      | none =>
        rw [hvalue] at h
        cases h
      | some value =>
        obtain ⟨htext, key, hkey, -⟩ := hentry value hvalue
        obtain ⟨text, htext⟩ := Option.isSome_iff_exists.mp htext
        rw [hvalue, hkey] at h
        dsimp only [Option.bind_eq_bind, Option.bind_some] at h
        rw [htext] at h
        cases h

/-- The key of a variable is that of an entry. -/
theorem exists_of_mem_varKeys {environment : List EnvEntry} {keys : List String}
    (h : varKeys environment = some keys) {key : String} (hmem : key ∈ keys) :
    ∃ entry ∈ environment, entry.value ≠ none ∧ fromUtf8 entry.key = some key := by
  induction environment generalizing keys with
  | nil =>
    cases h
    exact absurd hmem List.not_mem_nil
  | cons entry environment ih =>
    rcases varKeys_cons h with ⟨-, hrest⟩ | ⟨value, first, rest, hvalue, hkey, hrest, rfl⟩
    · obtain ⟨other, hother, hfound⟩ := ih hrest hmem
      exact ⟨other, List.mem_cons_of_mem _ hother, hfound⟩
    · rcases List.mem_cons.mp hmem with rfl | hmem
      · exact ⟨entry, List.mem_cons_self, by rw [hvalue]; exact nofun, hkey⟩
      · obtain ⟨other, hother, hfound⟩ := ih hrest hmem
        exact ⟨other, List.mem_cons_of_mem _ hother, hfound⟩

/-- The variables are removed, or one of them has no name. -/
theorem keeps_removeVars {environment : List EnvEntry} {keys : List String}
    (hquiet : Quiet s.log) (hs : s.process = start.withEnvironment environment)
    (hkeys : ∀ key ∈ keys, ∃ entry ∈ start.environment, entry.value ≠ none ∧
      fromUtf8 entry.key = some key) :
    Keeps parseToml start name
      (fun _ s' => Quiet s'.log ∧ s'.process = start.withEnvironment (withoutAll keys environment))
      (removeVars keys) s := by
  induction keys generalizing s environment with
  | nil => exact attempts_pure ⟨hquiet, hs⟩
  | cons key keys ih =>
    obtain ⟨⟨entry, hmem, hvalue, hkey⟩, hkeys⟩ := List.forall_mem_cons.mp hkeys
    refine keeps_sys rfl fun removed p' hdoes => ?_
    obtain ⟨rfl, hp⟩ := hdoes
    refine attempts_ite (fun hname => ?_) fun hname => attempts_throw ?_
    · rw [if_pos hname, hs] at hp
      exact ih (hquiet.cons rfl) hp hkeys
    · rw [if_neg hname, hs] at hp
      refine ⟨⟨entry, hmem, fun hentry => hname ?_⟩, ⟨environment, hp⟩, hquiet.cons rfl⟩
      obtain ⟨value, hvalue⟩ := Option.ne_none_iff_exists'.mp hvalue
      obtain ⟨-, key', hkey', hname'⟩ := hentry value hvalue
      rw [Option.some.inj (hkey.symm.trans hkey')]
      exact hname'

/-- A variable that is not there does not have to be removed. -/
theorem without_settings {environment : List EnvEntry} {pairs : List (String × String)}
    {key : String} (hbare : ∀ entry ∈ environment, entry.value.isNone = true)
    (hkey : key ∉ pairs.map Prod.fst) :
    without key (environment ++ pairs.map starterEntry) =
      environment ++ pairs.map starterEntry := by
  unfold without
  refine List.filter_eq_self.mpr fun entry hmem => ?_
  rw [Bool.or_eq_true, bne_iff_ne]
  rcases List.mem_append.mp hmem with hmem | hmem
  · exact .inl (hbare entry hmem)
  · obtain ⟨pair, hpair, rfl⟩ := List.mem_map.mp hmem
    refine .inr fun heq => hkey (List.mem_map.mpr ⟨pair, hpair, ?_⟩)
    exact asBytes_inj.mp heq

/-- **Variables are set** beside lines that are none. -/
theorem keeps_setVars {p : Process} {environment : List EnvEntry}
    {done pairs : List (String × String)}
    (hbare : ∀ entry ∈ environment, entry.value.isNone = true)
    (hnodup : ((done ++ pairs).map Prod.fst).Nodup) (hquiet : Quiet s.log)
    (hs : s.process = p.withEnvironment (environment ++ done.map starterEntry)) :
    Keeps parseToml start name (fun _ s' => Quiet s'.log ∧ s'.process =
      p.withEnvironment (environment ++ (done ++ pairs).map starterEntry)) (setVars pairs) s := by
  induction pairs generalizing s done with
  | nil =>
    refine attempts_pure ⟨hquiet, ?_⟩
    rw [List.append_nil, ← hs]
  | cons pair pairs ih =>
    obtain ⟨key, value⟩ := pair
    refine keeps_sys rfl fun _ p' hdoes => ?_
    have hkey : key ∉ done.map Prod.fst := by
      rw [List.map_append, List.map_cons, List.nodup_append] at hnodup
      exact fun hmem => hnodup.2.2 key hmem key List.mem_cons_self rfl
    have hp : p' = p.withEnvironment
        (environment ++ (done ++ [(key, value)]).map starterEntry) := by
      rw [hdoes, hs, List.map_append, ← List.append_assoc]
      show p.withEnvironment (without key (environment ++ done.map starterEntry)
        ++ [starterEntry (key, value)]) = _
      rw [without_settings hbare hkey]
      rfl
    rw [List.append_cons] at hnodup ⊢
    exact ih hnodup (hquiet.cons rfl) hp

/-- **The environment is cleared**, or has an entry that cannot be removed. -/
theorem keeps_clearEnvironment : Keeps parseToml start name (fun _ => Cleared start)
    clearEnvironment ⟨start, []⟩ := by
  refine keeps_sys rfl fun keys p hdoes => ?_
  obtain ⟨hkeys, rfl⟩ := hdoes
  have hquiet : Quiet [⟨.vars, keys⟩] := Quiet.cons (fun _ h => absurd h List.not_mem_nil) rfl
  cases keys with
  | none => exact attempts_throw ⟨exists_not_removable hkeys.symm, ⟨_, rfl⟩, hquiet⟩
  | some keys =>
    have hremove : Keeps parseToml p name (fun _ s' => Quiet s'.log ∧ s'.process =
        p.withEnvironment (withoutAll keys p.environment)) (removeVars keys) ⟨p, [⟨.vars, _⟩]⟩ :=
      keeps_removeVars hquiet rfl fun key hmem => exists_of_mem_varKeys hkeys.symm hmem
    refine attempts_bind (hremove.mono (fun _ s hs => ?_) fun _ _ => id)
    obtain ⟨hquiet, hprocess⟩ := hs
    rw [withoutAll_varKeys hkeys.symm, ← List.append_nil (p.environment.filter _)] at hprocess
    have hbare : ∀ entry ∈ p.environment.filter (·.value.isNone), entry.value.isNone = true :=
      fun entry hmem => (List.mem_filter.mp hmem).2
    have hnodup : (([] ++ starterVars).map Prod.fst).Nodup := by decide
    exact (keeps_setVars hbare hnodup hquiet hprocess).mono
      (fun _ s' hs' => ⟨hs'.2, hs'.1⟩) fun _ _ => id

/-! ## The configuration and the caller -/

/-- The calls that read leave the process alone. -/
theorem keeps_read {o : HelperOp} {f : o.Res → Helper α} (ho : o.isExec = false)
    (hdoes : ∀ p r p', o.Does p r p' → p' = p) (hs : Cleared start s)
    (h : ∀ r s', o.Does s.process r s.process → s'.log = ⟨o, r⟩ :: s.log → Cleared start s' →
      Keeps parseToml start name post (f r) s') :
    Keeps parseToml start name post (sys o >>= f) s := by
  refine keeps_sys ho fun r p hp => ?_
  obtain rfl := hdoes _ _ _ hp
  exact h r _ hp rfl (hs.cons ho)

/-- What the last error says, when some paths have been tried. -/
def Tried (tried : List String) (log : List Answered) : Option HelperError → Prop
  | none => ∀ path ∈ tried, ⟨.pathExists path, false⟩ ∈ log
  | some e => ∃ path ∈ tried, ∃ message, e = .configInvalid path message ∧
      ⟨.loadConfig path, .error message⟩ ∈ log

theorem Tried.cons {tried : List String} {lastErr : Option HelperError}
    (h : Tried tried log lastErr) (a : Answered) : Tried tried (a :: log) lastErr := by
  cases lastErr with
  | none => exact fun path hpath => List.mem_cons_of_mem a (h path hpath)
  | some e =>
    obtain ⟨path, hpath, message, he, hmem⟩ := h
    exact ⟨path, hpath, message, he, List.mem_cons_of_mem a hmem⟩

/-- Another path is not there. -/
theorem Tried.concat {tried : List String} {lastErr : Option HelperError}
    (h : Tried tried log lastErr) {path : String} (hmem : ⟨.pathExists path, false⟩ ∈ log) :
    Tried (tried ++ [path]) log lastErr := by
  cases lastErr with
  | none =>
    intro p hp
    rcases List.mem_append.mp hp with hp | hp
    · exact h p hp
    · rwa [List.mem_singleton.mp hp]
  | some e =>
    obtain ⟨p, hp, message, he, hlog⟩ := h
    exact ⟨p, List.mem_append_left _ hp, message, he, hlog⟩

/-- **A configuration is loaded**, or the last error says why not. -/
theorem keeps_tryPaths {tried paths : List String} {lastErr : Option HelperError}
    (hpaths : tried ++ paths = pathsToTry) (hs : Cleared start s)
    (htried : Tried tried s.log lastErr) :
    Keeps parseToml start name (fun config s' => Cleared start s' ∧ Loaded config s'.log)
      (tryPaths paths lastErr) s := by
  induction paths generalizing s tried lastErr with
  | nil =>
    rw [List.append_nil] at hpaths
    refine keeps_fail ⟨?_, fun _ => hs, fun _ => hs.quiet⟩
    cases lastErr with
    | none => exact .noConfig (hpaths ▸ htried)
    | some e =>
      obtain ⟨path, hpath, message, rfl, hmem⟩ := htried
      exact .badConfig (hpaths ▸ hpath) hmem
  | cons path paths ih =>
    have hpath : path ∈ pathsToTry := by
      rw [← hpaths]
      exact List.mem_append_right _ List.mem_cons_self
    have hnext : (tried ++ [path]) ++ paths = pathsToTry := by
      rw [← hpaths, List.append_assoc, List.singleton_append]
    refine keeps_read rfl (fun _ _ _ h => h) hs fun found s₁ _ hlog hs₁ => ?_
    cases found with
    | false =>
      refine ih hnext hs₁ (Tried.concat ?_ ?_)
      · rw [hlog]
        exact htried.cons _
      · rw [hlog]
        exact List.mem_cons_self
    | true =>
      refine keeps_read rfl (fun _ _ _ h => h) hs₁ fun config s₂ _ hlog hs₂ => ?_
      cases config with
      | ok config =>
        refine attempts_pure ⟨hs₂, path, hpath, ?_⟩
        rw [hlog]
        exact List.mem_cons_self
      | error message =>
        refine ih hnext hs₂ ⟨path, List.mem_append_right _ (List.mem_singleton_self path), message,
          rfl, ?_⟩
        rw [hlog]
        exact List.mem_cons_self

/-- **The caller is the user of the bus, and the helper runs as root**, or the error says
which of the two fails. -/
theorem keeps_checkPermissions {realUid effectiveUid : UInt32} (hs : Cleared start s)
    (hconfig : Loaded config s.log) (hreal : realUid = start.realUid)
    (heffective : effectiveUid = start.effectiveUid) :
    Keeps parseToml start name
      (fun _ s' => Cleared start s' ∧ Permitted start config s'.log)
      (checkPermissions config.user realUid effectiveUid) s := by
  subst hreal heffective
  have hgaveUp {e : HelperError} {s : HelperState} (hs : Cleared start s)
      (h : Explains parseToml start name s.log e) : GaveUp parseToml start name e s :=
    ⟨h, fun _ => hs, fun _ => hs.quiet⟩
  -- the two ways in which there is no such user
  refine attempts_bind (attempts_ite (fun hnul => attempts_pure ?_) fun _ => ?_)
  · refine keeps_fail (hgaveUp hs (.noBusUser hconfig (.inl ?_)))
    exact List.contains_iff_mem.mp hnul
  · refine keeps_read rfl (fun _ _ _ h => h) hs fun passwd s₁ _ hlog hs₁ => attempts_pure ?_
    have hconfig₁ : Loaded config s₁.log := by
      rw [hlog]
      exact hconfig.cons _
    have hmem : ⟨.getpwnam config.user, passwd⟩ ∈ s₁.log := by
      rw [hlog]
      exact List.mem_cons_self
    cases passwd with
    | none => exact keeps_fail (hgaveUp hs₁ (.noBusUser hconfig₁ (.inr hmem)))
    | some pw =>
      refine attempts_ite (fun hne => ?_) fun heq => ?_
      · exact keeps_fail (hgaveUp hs₁ (.otherCaller hconfig₁ hmem hne))
      · refine attempts_ite (fun hroot => ?_) fun hroot => attempts_pure ?_
        · exact keeps_fail (hgaveUp hs₁ (.notRoot hroot))
        · exact ⟨hs₁, hconfig₁, ⟨pw, hmem, not_not.mp heq⟩, not_not.mp hroot⟩

/-! ## The user of the service -/

/-- What holds once the process has become the user of a service. -/
structure Switched (start : Process) (user : String) (s : HelperState) : Prop where
  quiet : Quiet s.log
  runsAs : ∃ pw, ⟨.getpwnam user, some pw⟩ ∈ s.log ∧ RunsAs s.process user pw
  environment : s.process.environment = cleaned start.environment

/-- Root sets all three groups at once. -/
theorem setgid_of_root {p p' : Process} {gid : UInt32} (h : (HelperOp.setgid gid).Does p true p')
    (hroot : p.effectiveUid = 0) :
    p' = { p with realGid := gid, effectiveGid := gid, savedGid := gid } := by
  dsimp only [HelperOp.Does] at h
  rwa [if_neg Bool.false_ne_true.symm, if_pos hroot] at h

/-- Root sets all three users at once, and is no longer root. -/
theorem setuid_of_root {p p' : Process} {uid : UInt32} (h : (HelperOp.setuid uid).Does p true p')
    (hroot : p.effectiveUid = 0) :
    p' = { p with realUid := uid, effectiveUid := uid, savedUid := uid } := by
  dsimp only [HelperOp.Does] at h
  rwa [if_neg Bool.false_ne_true.symm, if_pos hroot] at h

/-- **The process becomes the user of the service**, or the error says which step fails. -/
theorem keeps_switchUser (hs : Cleared start s)
    (hchosen : Chosen parseToml start name service user s.log) :
    Keeps parseToml start name
      (fun _ s' => Switched start user s' ∧ Chosen parseToml start name service user s'.log)
      (switchUser user) s := by
  have hroot := hchosen.root
  refine attempts_ite (fun hnul => keeps_fail ⟨?_, fun _ => hs, fun _ => hs.quiet⟩) fun _ => ?_
  · exact .unknownUser hchosen (.inl (List.contains_iff_mem.mp hnul))
  refine keeps_read rfl (fun _ _ _ h => h) hs fun passwd s₁ _ hlog hs₁ => ?_
  have hchosen₁ : Chosen parseToml start name service user s₁.log := by
    rw [hlog]
    exact hchosen.cons _
  have hmem : ⟨.getpwnam user, passwd⟩ ∈ s₁.log := by
    rw [hlog]
    exact List.mem_cons_self
  cases passwd with
  | none => exact keeps_fail ⟨.unknownUser hchosen₁ (.inr hmem), fun _ => hs₁, fun _ => hs₁.quiet⟩
  | some pw =>
    -- the groups
    refine keeps_sys rfl fun grouped p₂ hdoes => ?_
    have hquiet₂ := hs₁.quiet.cons (a := ⟨.initgroups user pw.gid, grouped⟩) rfl
    have hchosen₂ := hchosen₁.cons ⟨.initgroups user pw.gid, grouped⟩
    cases grouped with
    | false => exact keeps_fail ⟨.groups hchosen₂ List.mem_cons_self,
        fun h => absurd h (by decide), fun _ => hquiet₂⟩
    | true =>
      have hp₂ : p₂ = { s₁.process with groups := .ofUser user pw.gid } := hdoes.2
      have hroot₂ : p₂.effectiveUid = 0 := by rwa [hp₂, hs₁.process]
      -- the group
      refine keeps_sys rfl fun gidSet p₃ hdoes => ?_
      have hquiet₃ := hquiet₂.cons (a := ⟨.setgid pw.gid, gidSet⟩) rfl
      have hchosen₃ := hchosen₂.cons ⟨.setgid pw.gid, gidSet⟩
      cases gidSet with
      | false => exact keeps_fail ⟨.gid hchosen₃ List.mem_cons_self,
          fun h => absurd h (Nat.not_succ_le_self 8), fun _ => hquiet₃⟩
      | true =>
        have hp₃ := setgid_of_root hdoes hroot₂
        have hroot₃ : p₃.effectiveUid = 0 := by rwa [hp₃]
        -- itself
        refine keeps_sys rfl fun uidSet p₄ hdoes => ?_
        have hquiet₄ := hquiet₃.cons (a := ⟨.setuid pw.uid, uidSet⟩) rfl
        have hchosen₄ := hchosen₃.cons ⟨.setuid pw.uid, uidSet⟩
        cases uidSet with
        | false => exact keeps_fail ⟨.uid hchosen₄ List.mem_cons_self,
            fun h => absurd h (Nat.not_succ_le_self 8), fun _ => hquiet₄⟩
        | true =>
          have hp₄ := setuid_of_root hdoes hroot₃
          refine attempts_pure ⟨⟨hquiet₄, ⟨pw, ?_, ?_⟩, ?_⟩, hchosen₄⟩
          · exact List.mem_cons_of_mem _ (List.mem_cons_of_mem _ (List.mem_cons_of_mem _ hmem))
          · subst hp₄ hp₃ hp₂
            exact ⟨⟨rfl, rfl, rfl⟩, ⟨rfl, rfl, rfl⟩, rfl⟩
          · subst hp₄ hp₃ hp₂
            show s₁.process.environment = _
            rw [hs₁.process]
            rfl

/-- The helper has been replaced by a program. -/
def Executed (log : List Answered) : Prop := ∃ program argv, ⟨.exec program argv, none⟩ ∈ log

/-- **The service is executed as its user**, if it is. -/
theorem keeps_launch (hs : Cleared start s)
    (hchosen : Chosen parseToml start name service user s.log) :
    Keeps parseToml start name (fun _ s' => Executed s'.log) (launch service user) s := by
  refine attempts_bind ((keeps_switchUser hs hchosen).mono (fun _ s hs => ?_) fun _ _ => id)
  obtain ⟨hswitched, hchosen⟩ := hs
  obtain ⟨pw, hmem, hruns⟩ := hswitched.runsAs
  refine attempts_attempt_bind fun s₁ err s₂ hs₁ hexec => ⟨?_, ?_⟩
  · rintro program argv ⟨⟩
    subst hs₁
    exact ⟨⟨service, user, pw, hchosen, rfl, rfl, hmem, hruns⟩, hswitched.environment⟩
  · subst hs₁
    cases err with
    | none =>
      refine attempts_pure ⟨service.exec, service.args, ?_⟩
      rw [hexec.2]
      exact List.mem_cons_self
    | some err =>
      refine keeps_fail ⟨?_, fun h => absurd h (by show ¬ 10 ≤ 8; decide),
        fun h => absurd h (Nat.not_succ_le_self 9)⟩
      rw [hexec.2]
      exact .exec (hchosen.cons _) List.mem_cons_self

/-- The service of a name is chosen and executed. -/
theorem keeps_activate (hvalid : isValidBusName name = true) (hs : Cleared start s)
    (hpermitted : Permitted start config s.log) :
    Keeps parseToml start name (fun _ s' => Executed s'.log)
    (activate parseToml config name) s := by
  refine keeps_read rfl (fun _ _ _ h => h) hs fun dirs s₁ _ hlog hs₁ => ?_
  have hpermitted₁ : Permitted start config s₁.log := by
    rw [hlog]
    exact hpermitted.cons _
  have hdirs : ⟨.readServices config.dirs, dirs⟩ ∈ s₁.log := by
    rw [hlog]
    exact List.mem_cons_self
  unfold findService
  cases hlookup : (ActivationRegistry.load parseToml dirs).lookup name with
  | none => exact keeps_fail ⟨.notFound hpermitted₁ hdirs hlookup, fun _ => hs₁, fun _ => hs₁.quiet⟩
  | some service =>
    have hname := ActivationRegistry.name_of_lookup hlookup
    dsimp only
    rw [if_neg (not_not.mpr hname)]
    cases huser : service.user with
    | none =>
      exact keeps_fail ⟨.noUser hpermitted₁ hdirs hlookup huser, fun _ => hs₁, fun _ => hs₁.quiet⟩
    | some user =>
      rw [Option.isNone_some, if_neg Bool.false_ne_true]
      dsimp only
      rw [huser]
      exact keeps_launch hs₁ ⟨hvalid, ⟨config, hpermitted₁, dirs, hdirs, hlookup⟩, huser⟩

/-- **The helper keeps to what it is for.** -/
theorem keeps_run : Keeps parseToml start name (fun _ s' => Executed s'.log) (run parseToml name)
    ⟨start, []⟩ := by
  refine attempts_bind (keeps_clearEnvironment.mono (fun _ s hs => ?_) fun _ _ => id)
  refine attempts_ite (fun hinvalid => ?_) fun hvalid => ?_
  · exact keeps_fail ⟨.invalidBusName hinvalid, fun _ => hs, fun _ => hs.quiet⟩
  have htried : Tried [] s.log none := nofun
  refine attempts_bind ((keeps_tryPaths (List.nil_append _) hs htried).mono (fun config s hs => ?_)
    fun _ _ => id)
  obtain ⟨hs, hconfig⟩ := hs
  refine keeps_read rfl (fun _ _ _ h => h.2) hs fun realUid s₁ hreal hlog₁ hs₁ => ?_
  refine keeps_read rfl (fun _ _ _ h => h.2) hs₁ fun effectiveUid s₂ heffective hlog₂ hs₂ => ?_
  have hconfig₂ : Loaded config s₂.log := by
    rw [hlog₂, hlog₁]
    exact (hconfig.cons _).cons _
  have hreal : realUid = start.realUid := by rw [hreal.1, hs.process]; rfl
  have heffective : effectiveUid = start.effectiveUid := by rw [heffective.1, hs₁.process]; rfl
  refine attempts_bind ((keeps_checkPermissions hs₂ hconfig₂ hreal heffective).mono
    (fun _ s hs => ?_) fun _ _ => id)
  exact keeps_activate (Bool.not_eq_false _ ▸ hvalid) hs.1 hs.2

/-! ## All runs -/

section

variable (parseToml)

/-- What the helper prints without one argument that is a name. -/
def usageLine : String :=
  "dbus-daemon-launch-helper: usage: dbus-daemon-launch-helper SERVICE.NAME.TO.ACTIVATE"

/-- **How the helper may end**, and what that says: it was asked for help, or was not given
one argument, and has made no call; it gives up with an error; it has been
replaced by a program; or it has choked on its environment. -/
inductive Ends (args : List String) (start : Process) (s : HelperState) : Ended → Prop where
  | help (h : args.any isHelp = true) (hs : s = ⟨start, []⟩) :
    Ends args start s (.exited 0 usageLine)
  | usage (h : args.length ≠ 1) (hhelp : args.any isHelp = false) (hs : s = ⟨start, []⟩) :
    Ends args start s (.exited 2 usageLine)
  | gaveUp {name : String} {e : HelperError} (hargs : args = [name])
      (h : GaveUp parseToml start name e s) :
    Ends args start s (.exited e.exitCode ("dbus-daemon-launch-helper: " ++ e.toString))
  | replaced (h : Executed s.log) : Ends args start s .replaced
  | panicked (h : Choked start s) : Ends args start s .panicked

/-- Whatever is executed is justified for the name that is the argument. -/
def OnlyArgument (args : List String) (start : Process) :
    Semantics HelperOp HelperOp.Res HelperState :=
  fun o s _ _ => ∀ program argv, o = .exec program argv →
    ∃ name, args = [name] ∧ Justified parseToml start name program argv s

end

theorem eq_of_parseArgs {args : List String} (h : parseArgs args = .ok name) : args = [name] := by
  unfold parseArgs at h
  split at h
  · split at h
    · rw [Except.ok.inj h]
    · cases h
  · cases h

/-- Arguments that are refused ask for help, or are not one. -/
theorem help_of_parseArgs {args : List String} {e : HelperError} (h : parseArgs args = .error e) :
    e = .invalidArgs ∧ (args.any isHelp = true ∨ args.length ≠ 1) := by
  unfold parseArgs at h
  split at h
  · next name =>
    split at h
    · cases h
    · next hname =>
      refine ⟨(Except.error.inj h).symm, .inl ?_⟩
      rw [List.any_cons, List.any_nil, Bool.or_false]
      unfold isHelp
      simp only [Bool.or_eq_true, beq_iff_eq]
      tauto
  · next hne =>
    refine ⟨(Except.error.inj h).symm, .inr fun hlength => ?_⟩
    obtain ⟨name, rfl⟩ := List.length_eq_one_iff.mp hlength
    exact hne name rfl

/-- **The helper keeps to what it is for**, for its arguments. -/
theorem ensures_main (args : List String) : (main parseToml args).Ensures HelperOp.Exec Eq
    (OnlyArgument parseToml args start) (fun ended s => Ends parseToml args start s ended)
    ⟨start, []⟩ := by
  unfold main
  cases hargs : parseArgs args with
  | error e =>
    obtain ⟨rfl, hwhy⟩ := help_of_parseArgs hargs
    show Ends parseToml args start _ (.exited _ _)
    by_cases hhelp : args.any isHelp = true
    · rw [if_pos hhelp]
      exact .help hhelp rfl
    · rw [if_neg hhelp]
      exact .usage (hwhy.resolve_left hhelp) (Bool.not_eq_true _ ▸ hhelp) rfl
  | ok name =>
    have hname := eq_of_parseArgs hargs
    have hrun : Keeps parseToml start name _ (run parseToml name) ⟨start, []⟩ := keeps_run
    refine ensures_bind ((Ensures.weaken hrun fun o s r s' h program argv ho =>
      ⟨name, hname, h program argv ho⟩).mono fun result s hs => ?_)
    cases result with
    | ok _ => exact .replaced hs
    | error stop =>
      cases stop with
      | failed e => exact .gaveUp hname hs
      | panicked => exact .panicked hs

/-- **What the helper executes.** In every run of the helper, whatever the file system, the
user database and the kernel answer: it executes only the command of the service of
the valid name that is its one argument, as the directories of its configuration
define it, and only when it was called by the user of the bus and runs as root. By
then it runs as the user of the service in every respect, with the groups of that
user, and of its environment no variable is left but the four it has set. -/
theorem exec_as_service_user (parseToml : String → Option ServiceDef) (args : List String)
    (start : Process) {es : List (Event HelperOp HelperOp.Res HelperState)} {t : HelperState}
    {q : Prog HelperOp HelperOp.Res Ended}
    (hruns : Runs HelperOp.Exec Eq ⟨start, []⟩ (main parseToml args) es t q)
    (e : Event HelperOp HelperOp.Res HelperState) (he : e ∈ es) (program : String)
    (argv : List String) (hop : e.op = .exec program argv) :
    ∃ name, args = [name] ∧ Justified parseToml start name program argv e.before :=
  (ensures_main args).of_runs hruns (fun _ => rfl) (fun _ _ _ => Eq.trans)
    (fun _ _ _ hs h => hs ▸ h) e he program argv hop

/-- The configuration of an example. -/
def plainConfig : HelperConfig where
  user := "messagebus"
  prefixDir := "/overlayer/syshub"
  servicesDir := "/etc/oxibus/services"
  vendorServicesDir := "/lib/oxibus/services"
  launchHelper := "/libexec/dbus-daemon-launch-helper"

/-- Its files: one service, in one of the directories. -/
def plainFiles (dir : String) : ServiceDir :=
  if dir = "/etc/oxibus/services" then
    ⟨some [some ⟨asBytes "org.example.Bar.service", .ok
      "[D-BUS Service]\nName=org.example.Bar\nExec=/bin/bar --arg1\nUser=nobody"⟩]⟩
  else ⟨none⟩

/-- The users of an example. -/
def plainUser (user : String) : Option Passwd :=
  if user = "messagebus" then some ⟨81, 81⟩
  else if user = "nobody" then some ⟨65534, 65533⟩
  else none

/-- What a machine answers on which everything is in order. -/
def plainAnswer : (o : HelperOp) → Process → o.Res × Process
  | .vars, p => (varKeys p.environment, p)
  | .removeVar key, p =>
    (isVarName key,
      if isVarName key then { p with environment := without key p.environment } else p)
  | .setVar key value, p =>
    ((), { p with
      environment := without key p.environment ++ [⟨asBytes key, some (asBytes value)⟩] })
  | .pathExists path, p => (path == trustedConfigPath, p)
  | .loadConfig _, p => (.ok plainConfig, p)
  | .getuid, p => (p.realUid, p)
  | .geteuid, p => (p.effectiveUid, p)
  | .getpwnam user, p => (plainUser user, p)
  | .readServices dirs, p => (dirs.map plainFiles, p)
  | .initgroups user gid, p =>
    if p.effectiveUid = 0 then (true, { p with groups := .ofUser user gid }) else (false, p)
  | .setgid gid, p =>
    if p.effectiveUid = 0 then
      (true, { p with realGid := gid, effectiveGid := gid, savedGid := gid })
    else (false, p)
  | .setuid uid, p =>
    if p.effectiveUid = 0 then
      (true, { p with realUid := uid, effectiveUid := uid, savedUid := uid })
    else (false, p)
  | .exec _ _, p => (none, p)

theorem does_plainAnswer (o : HelperOp) (p : Process) :
    o.Does p (plainAnswer o p).1 (plainAnswer o p).2 := by
  cases o with
  | vars => exact ⟨rfl, rfl⟩
  | removeVar key => exact ⟨rfl, rfl⟩
  | getuid => exact ⟨rfl, rfl⟩
  | geteuid => exact ⟨rfl, rfl⟩
  | initgroups user gid =>
    show (_ → p.effectiveUid = 0) ∧ _ = _
    unfold plainAnswer
    by_cases hroot : p.effectiveUid = 0
    · simp [hroot]
    · simp [hroot]
  | setgid gid =>
    show if _ then _ else if _ then _ else _
    unfold plainAnswer
    by_cases hroot : p.effectiveUid = 0
    · simp [hroot]
    · simp [hroot]
  | setuid uid =>
    show if _ then _ else if _ then _ else _
    unfold plainAnswer
    by_cases hroot : p.effectiveUid = 0
    · simp [hroot]
    · simp [hroot]
  | _ => rfl

/-- The machine, with its log. -/
def plainMachine (o : HelperOp) (s : HelperState) : o.Res × HelperState :=
  ((plainAnswer o s.process).1,
    ⟨(plainAnswer o s.process).2, ⟨o, (plainAnswer o s.process).1⟩ :: s.log⟩)

theorem exec_plainMachine (o : HelperOp) (s : HelperState) :
    o.Exec s (plainMachine o s).1 (plainMachine o s).2 :=
  ⟨does_plainAnswer o s.process, rfl⟩

/-- The helper as the user of the bus calls it, with a variable that would make the
service load a library. -/
def plainStart : Process where
  realUid := 81
  effectiveUid := 0
  savedUid := 0
  realGid := 81
  effectiveGid := 0
  savedGid := 0
  groups := .inherited
  environment := [⟨asBytes "LD_PRELOAD", some (asBytes "/tmp/evil.so")⟩]

/-- A run of the helper on that machine. -/
def plainRun (args : List String) :
    List (Event HelperOp HelperOp.Res HelperState) × HelperState × Ended :=
  (main (fun _ => none) args).simulate plainMachine ⟨plainStart, []⟩

/-- **The last call of that run executes the service, and is justified.** -/
theorem exec_as_service_user_plain : ∃ e ∈ (plainRun ["org.example.Bar"]).1,
    e.op = .exec "/bin/bar" ["--arg1"] ∧ ∃ name, ["org.example.Bar"] = [name] ∧
      Justified (fun _ => none) plainStart name "/bin/bar" ["--arg1"] e.before := by
  have hexec : (plainRun ["org.example.Bar"]).1.any
      (fun e => decide (e.op = .exec "/bin/bar" ["--arg1"])) = true := by decide +kernel
  obtain ⟨e, he, hop⟩ := List.any_eq_true.mp hexec
  exact ⟨e, he, of_decide_eq_true hop, exec_as_service_user _ _ plainStart
    (runs_simulate exec_plainMachine _ _) e he _ _ (of_decide_eq_true hop)⟩

end LaunchHelper

end Oxibus
