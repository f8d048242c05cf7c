import Oxibus.Daemon.Bus
import Oxibus.Daemon.PolicyFiles
import Oxibus.Daemon.ServiceFiles
import Mathlib.Data.List.Induction

/-!
# The services that can be activated

The daemon reads the service files of some directories when it starts. What a
directory says is the list of the services that its files define
(`definitions`): a directory that cannot be listed, a file that cannot be read
and one that does not parse are skipped, and so is every file that is not named
as one. Of the definitions of one name the last one counts
(`lookup_load`), in whatever directory it stands.

A registry keeps every service under the name that its own file gives it, and
no two under one name; both are part of the type, so that a service is never
started for the name of another.

The parser of `.toml` files is a parameter.
-/

namespace Oxibus

/-- **A directory of service files**: what listing it gives, entry by entry. -/
structure ServiceDir where
  readDir : Option (List (Option PolicyPath))

/-- **The services of a bus**, each under its name. -/
structure ActivationRegistry where
  services : List (String × ServiceDef)
  /-- Every service stands under the name it has. -/
  named : ∀ entry ∈ services, entry.2.name = entry.1
  /-- There is one service for a name. -/
  nodup : (services.map Prod.fst).Nodup

namespace ActivationRegistry

/-- The registry without services. -/
def empty : ActivationRegistry := ⟨[], nofun, List.nodup_nil⟩

/-- A service takes the place of an earlier one of its name. -/
def insert (registry : ActivationRegistry) (service : ServiceDef) : ActivationRegistry where
  services := registry.services.filter (fun entry => entry.1 != service.name)
    ++ [(service.name, service)]
  named := by
    intro entry hentry
    rcases List.mem_append.mp hentry with hold | hnew
    · exact registry.named entry (List.mem_of_mem_filter hold)
    · rw [List.mem_singleton.mp hnew]
  nodup := by
    rw [List.map_append, List.map_singleton]
    refine List.nodup_append.mpr ⟨?_, List.nodup_singleton _, ?_⟩
    · exact registry.nodup.sublist (List.filter_sublist.map Prod.fst)
    · intro name hname other hother
      obtain ⟨entry, hentry, rfl⟩ := List.mem_map.mp hname
      rw [List.mem_singleton.mp hother]
      exact bne_iff_ne.mp (List.mem_filter.mp hentry).2

/-- Whether a name has a service. -/
def isActivatable (registry : ActivationRegistry) (name : String) : Bool :=
  registry.services.any fun entry => entry.1 == name

/-- The names that have one. -/
def listActivatableNames (registry : ActivationRegistry) : List String :=
  registry.services.map Prod.fst

/-- **The service of a name.** -/
def lookup (registry : ActivationRegistry) (name : String) : Option ServiceDef :=
  (registry.services.find? fun entry => entry.1 == name).map Prod.snd

section

variable (parseToml : String → Option ServiceDef)

/-- **The service that a file defines**, if it is named as a service file, can be
read and parses. -/
def readServiceFile (path : PolicyPath) : Option ServiceDef :=
  if path.extension == some (asBytes "toml") then
    match path.readToString with
    | .ok text => parseToml text
    | _ => none
  else if path.extension == some (asBytes "service") then
    match path.readToString with
    | .ok text => parseIniService text
    | _ => none
  else none

/-- An entry of a directory is loaded. -/
def loadEntry (registry : ActivationRegistry) (entry : Option PolicyPath) : ActivationRegistry :=
  match entry with
  | none => registry
  | some path =>
    match readServiceFile parseToml path with
    | none => registry
    | some service => registry.insert service

/-- A directory is loaded. -/
def loadDir (registry : ActivationRegistry) (dir : ServiceDir) : ActivationRegistry :=
  match dir.readDir with
  | none => registry
  | some entries => entries.foldl (loadEntry parseToml) registry

/-- **The services of a list of directories.** -/
def load (dirs : List ServiceDir) : ActivationRegistry := dirs.foldl (loadDir parseToml) empty

/-- The services that a list of entries defines. -/
def definedBy (entries : List (Option PolicyPath)) : List ServiceDef :=
  entries.filterMap fun entry => entry.bind (readServiceFile parseToml)

/-- **All definitions of a list of directories**, in their order. -/
def definitions (dirs : List ServiceDir) : List ServiceDef :=
  dirs.flatMap fun dir => definedBy parseToml (dir.readDir.getD [])

end

/-! ## One service -/

variable {registry : ActivationRegistry} {name : String} {service : ServiceDef}

/-- **What is looked up stands in the registry.** -/
theorem lookup_eq_some_iff :
    registry.lookup name = some service ↔ (name, service) ∈ registry.services := by
  constructor
  · intro h
    obtain ⟨entry, hfind, rfl⟩ := Option.map_eq_some_iff.mp h
    have hname : (entry.1 == name) = true :=
      List.find?_some (p := fun e : String × ServiceDef => e.1 == name) hfind
    rw [← beq_iff_eq.mp hname]
    exact List.mem_of_find?_eq_some hfind
  · intro h
    have hsome : (registry.services.find? fun entry => entry.1 == name).isSome := by
      rw [List.find?_isSome]
      exact ⟨_, h, beq_self_eq_true name⟩
    obtain ⟨entry, hfind⟩ := Option.isSome_iff_exists.mp hsome
    have hname : (entry.1 == name) = true :=
      List.find?_some (p := fun e : String × ServiceDef => e.1 == name) hfind
    have hsame : entry = (name, service) := List.inj_on_of_nodup_map registry.nodup
      (List.mem_of_find?_eq_some hfind) h (beq_iff_eq.mp hname)
    rw [lookup, hfind, hsame, Option.map_some]

/-- **A service is never found under another name.** -/
theorem name_of_lookup (h : registry.lookup name = some service) : service.name = name :=
  registry.named _ (lookup_eq_some_iff.mp h)

theorem mem_listActivatableNames :
    name ∈ registry.listActivatableNames ↔ ∃ service, registry.lookup name = some service := by
  unfold listActivatableNames
  simp only [lookup_eq_some_iff, List.mem_map, Prod.exists, exists_and_right, exists_eq_right]

theorem isActivatable_iff :
    registry.isActivatable name = true ↔ ∃ service, registry.lookup name = some service := by
  unfold isActivatable
  simp only [lookup_eq_some_iff, List.any_eq_true, Prod.exists, beq_iff_eq, exists_and_right,
    exists_eq_right]

/-- **What a service changes**: its name, and no other. -/
theorem lookup_insert : (registry.insert service).lookup name =
    if service.name = name then some service else registry.lookup name := by
  refine Option.ext fun found => ?_
  have hmem : (name, found) ∈ (registry.insert service).services ↔
      ((name, found) ∈ registry.services ∧ name ≠ service.name) ∨
        (name = service.name ∧ found = service) := by
    show (name, found) ∈ _ ++ _ ↔ _
    rw [List.mem_append, List.mem_filter, List.mem_singleton, Prod.mk.injEq, bne_iff_ne]
  rw [lookup_eq_some_iff, hmem]
  by_cases hname : service.name = name
  · rw [if_pos hname, Option.some_inj]
    simp [hname, eq_comm]
  · rw [if_neg hname, lookup_eq_some_iff]
    simp [Ne.symm hname]

theorem lookup_empty : empty.lookup name = none := rfl

/-! ## All services -/

variable {parseToml : String → Option ServiceDef}

theorem foldl_loadEntry (entries : List (Option PolicyPath)) :
    entries.foldl (loadEntry parseToml) registry
      = (definedBy parseToml entries).foldl insert registry := by
  induction entries generalizing registry with
  | nil => rfl
  | cons entry entries ih =>
    rw [List.foldl_cons, ih]
    unfold definedBy loadEntry
    cases entry with
    | none => rfl
    | some path =>
      rw [List.filterMap_cons, Option.bind_some]
      dsimp only
      cases readServiceFile parseToml path with
      | none => rfl
      | some service => rfl

/-- **A registry is loaded definition by definition.** -/
theorem load_eq (dirs : List ServiceDir) :
    load parseToml dirs = (definitions parseToml dirs).foldl insert empty := by
  unfold load definitions
  generalize empty = registry
  induction dirs generalizing registry with
  | nil => rfl
  | cons dir dirs ih =>
    rw [List.foldl_cons, ih, List.flatMap_cons, List.foldl_append]
    congr 1
    unfold loadDir
    cases dir.readDir with
    | none => rfl
    | some entries => exact foldl_loadEntry entries

/-- The last of some definitions of a name. -/
def lastOf (name : String) (services : List ServiceDef) : Option ServiceDef :=
  services.reverse.find? fun service => service.name == name

theorem lookup_foldl_insert (services : List ServiceDef) :
    (services.foldl insert registry).lookup name
      = (lastOf name services).or (registry.lookup name) := by
  unfold lastOf
  induction services using List.reverseRecOn with
  | nil => rfl
  | append_singleton services service ih =>
    rw [List.foldl_append, List.foldl_cons, List.foldl_nil, lookup_insert, ih, List.reverse_append,
      List.reverse_singleton, List.singleton_append, List.find?_cons]
    by_cases hname : service.name = name
    · rw [if_pos hname, beq_iff_eq.mpr hname, Option.some_or]
    · rw [if_neg hname, beq_eq_false_iff_ne.mpr hname]

/-- **The last definition of a name counts.** -/
theorem lookup_load_eq (dirs : List ServiceDir) :
    (load parseToml dirs).lookup name = lastOf name (definitions parseToml dirs) := by
  rw [load_eq, lookup_foldl_insert, lookup_empty, Option.or_none]

theorem exists_lastOf_iff {services : List ServiceDef} :
    (∃ service, lastOf name services = some service) ↔
      ∃ service ∈ services, service.name = name := by
  unfold lastOf
  rw [← Option.isSome_iff_exists, List.find?_isSome]
  simp

/-- A definition is that of a file of a directory. -/
theorem mem_definitions {dirs : List ServiceDir} :
    service ∈ definitions parseToml dirs ↔ ∃ dir ∈ dirs, ∃ entries, dir.readDir = some entries ∧
      ∃ path, some path ∈ entries ∧ readServiceFile parseToml path = some service := by
  unfold definitions definedBy
  simp only [List.mem_flatMap, List.mem_filterMap, Option.bind_eq_some_iff]
  constructor
  · rintro ⟨dir, hdir, entry, hentry, path, rfl, hread⟩
    cases hlist : dir.readDir with
    | none =>
      rw [hlist] at hentry
      exact absurd hentry List.not_mem_nil
    | some entries =>
      rw [hlist] at hentry
      exact ⟨dir, hdir, entries, hlist, path, hentry, hread⟩
  · rintro ⟨dir, hdir, entries, hlist, path, hmem, hread⟩
    refine ⟨dir, hdir, some path, ?_, path, rfl, hread⟩
    rw [hlist]
    exact hmem

/-- **Which services a bus has.** A name can be activated exactly where a file that is
named as a service file, can be read and parses defines it; it is listed once,
and of several definitions the last one is used. -/
theorem services_of_files (parseToml : String → Option ServiceDef) (dirs : List ServiceDir)
    (name : String) :
    ((load parseToml dirs).isActivatable name = true ↔ ∃ dir ∈ dirs, ∃ entries,
      dir.readDir = some entries ∧ ∃ path, some path ∈ entries ∧
        ∃ service, readServiceFile parseToml path = some service ∧ service.name = name) ∧
    (load parseToml dirs).listActivatableNames.count name
      = (if (load parseToml dirs).isActivatable name then 1 else 0) ∧
    (load parseToml dirs).lookup name = lastOf name (definitions parseToml dirs) := by
  refine ⟨?_, ?_, lookup_load_eq dirs⟩
  · simp only [isActivatable_iff, lookup_load_eq, exists_lastOf_iff, mem_definitions]
    constructor
    · rintro ⟨service, ⟨dir, hdir, entries, hlist, path, hmem, hread⟩, hname⟩
      exact ⟨dir, hdir, entries, hlist, path, hmem, service, hread, hname⟩
    · rintro ⟨dir, hdir, entries, hlist, path, hmem, service, hread, hname⟩
      exact ⟨service, ⟨dir, hdir, entries, hlist, path, hmem, hread⟩, hname⟩
  · unfold listActivatableNames
    rw [(load parseToml dirs).nodup.count]
    refine if_congr ?_ rfl rfl
    exact mem_listActivatableNames.trans isActivatable_iff.symm

/-! ## Starting a service -/

/-- How a service is started. -/
inductive SpawnStrategy where
  /-- By the daemon itself. -/
  | direct
  /-- By the helper at a path, as the user of the service. -/
  | viaLaunchHelper (helperPath : String)
  deriving DecidableEq, Repr

/-- **A command to start**: a program, its arguments, and the variables that it has beside
those of the daemon or in their place. -/
structure Command where
  program : String
  args : List String
  envs : String → Option String

/-- A variable of a process that is started. -/
def Command.value (command : Command) (inherited : String → Option String) (key : String) :
    Option String :=
  (command.envs key).or (inherited key)

/-- The value of a key in a table of pairs. -/
def valueIn (pairs : List (String × String)) (key : String) : Option String :=
  (pairs.find? fun pair => pair.1 == key).map Prod.snd

section

variable (getpwnam : String → Option UInt32) (currentUid : UInt32)

/-- The number of a user, who is a number or has a name. A name with a zero byte is
none. -/
def resolveUid (user : String) : Option UInt32 :=
  match parseU32 user with
  | some uid => some uid
  | none => if user.toList.contains '\x00' then none else getpwnam user

/-- **What is started for a name**, if anything is. The helper is told the name and
nothing else; the daemon starts a service itself only as the user that it is. -/
def spawn (registry : ActivationRegistry) (name : String) (extraEnv : List (String × String))
    (strategy : SpawnStrategy) : Except ActivationError Command :=
  match registry.lookup name with
  | none => .error (.serviceUnknown name)
  | some service =>
    match strategy with
    | .viaLaunchHelper helperPath =>
      if service.user.isNone then
        .error (.execFailed ("service '" ++ name
          ++ "' has no `user =` set — required for system-bus activation"))
      else .ok ⟨helperPath, [name], fun _ => none⟩
    | .direct =>
      let command : Command := ⟨service.exec, service.args, fun key =>
        (valueIn service.environment key).or (valueIn extraEnv key)⟩
      match service.user with
      | none => .ok command
      | some user =>
        match resolveUid getpwnam user with
        | none => .error (.execFailed ("unknown user '" ++ user ++ "'"))
        | some targetUid =>
          if targetUid ≠ currentUid then
            .error (.execFailed ("cannot activate '" ++ name ++ "' as user '" ++ user
              ++ "': not running as that user and no launch helper configured for this bus"))
          else .ok command

end

variable {getpwnam : String → Option UInt32} {currentUid : UInt32}
  {extraEnv : List (String × String)} {command : Command}

/-- **What the helper is told.** -/
theorem spawn_viaLaunchHelper {helperPath : String}
    (h : registry.spawn getpwnam currentUid name extraEnv (.viaLaunchHelper helperPath)
      = .ok command) : ∃ service user, registry.lookup name = some service ∧
        service.user = some user ∧ command = ⟨helperPath, [name], fun _ => none⟩ := by
  unfold spawn at h
  split at h
  · cases h
  · next service hservice =>
    dsimp only at h
    cases huser : service.user with
    | none =>
      rw [huser, Option.isNone_none, if_pos rfl] at h
      cases h
    | some user =>
      rw [huser, Option.isNone_some, if_neg Bool.false_ne_true] at h
      exact ⟨service, user, hservice, huser, (Except.ok.inj h).symm⟩

/-- **What the daemon starts itself**: the command of the service, as its user if it has
one. -/
theorem spawn_direct (h : registry.spawn getpwnam currentUid name extraEnv .direct = .ok command) :
    ∃ service, registry.lookup name = some service ∧ command = ⟨service.exec, service.args,
      fun key => (valueIn service.environment key).or (valueIn extraEnv key)⟩ ∧
      ∀ user, service.user = some user → resolveUid getpwnam user = some currentUid := by
  unfold spawn at h
  split at h
  · cases h
  · next service hservice =>
    dsimp only at h
    split at h
    · next huser =>
      refine ⟨service, hservice, (Except.ok.inj h).symm, fun user hsome => ?_⟩
      rw [huser] at hsome
      cases hsome
    · next user huser =>
      split at h
      · cases h
      · next uid huid =>
        split at h
        · cases h
        · next hsame =>
          refine ⟨service, hservice, (Except.ok.inj h).symm, fun other hother => ?_⟩
          rw [huser] at hother
          rw [← Option.some.inj hother, huid, not_not.mp hsame]

end ActivationRegistry

end Oxibus
