import Oxibus.Daemon.LaunchSafety

/-!
# From the daemon to the helper

The daemon of a system bus looks a service up and starts the helper with its name;
the helper looks the service up once more. That the two mean the same service is
nowhere said in so many words: the daemon and the helper have each a list of
directories of their own, and each a check that the service has a user. The lists
are the same, and so is the service: started by the daemon, and with the same
configuration and the same files before it, the helper executes the service that
the daemon has found or nothing, and never complains of its argument, of the name
or of a user that is not set.
-/

namespace Oxibus

namespace LaunchHelper

open Prog

/-- **Where a bus looks for service files.** -/
def busServiceDirs (kind : BusKind) (config : HelperConfig) : List String :=
  [config.servicesDir, config.vendorServicesDir] ++
    match kind with
    | .system =>
      [joinPath config.prefixDir "share/dbus-1/system-services",
        joinPath config.prefixDir "etc/dbus-1/system-services",
        joinPath config.prefixDir "lib/dbus-1/system-services", "/etc/dbus-1/system-services",
        "/usr/share/dbus-1/system-services", "/usr/lib/dbus-1/system-services"]
    | .session =>
      [joinPath config.prefixDir "share/dbus-1/services",
        joinPath config.prefixDir "etc/dbus-1/services",
        joinPath config.prefixDir "lib/dbus-1/services", "/etc/dbus-1/services",
        "/usr/share/dbus-1/services", "/usr/lib/dbus-1/services"]

/-- A path below the prefix. -/
def joined (prefixDir sub : String) : String :=
  joinPath prefixDir (String.ofList (sub.toList.dropWhile (· == '/')))

/-- Where the helper is. -/
def HelperConfig.launchHelperPath (config : HelperConfig) : String :=
  joined config.prefixDir config.launchHelper

/-- **The services of the daemon**, as it has found them when it started. -/
def busRegistry (parseToml : String → Option ServiceDef) (kind : BusKind) (config : HelperConfig)
    (files : String → ServiceDir) : ActivationRegistry :=
  .load parseToml ((busServiceDirs kind config).map files)

/-- Which strategy a bus has: the helper is for a system bus that has one. -/
def strategyOf (kind : BusKind) (config : HelperConfig) (helperExists : Bool) :
    ActivationRegistry.SpawnStrategy :=
  if kind = .system ∧ helperExists = true then .viaLaunchHelper config.launchHelperPath else .direct

variable {parseToml : String → Option ServiceDef} {config : HelperConfig}
  {files : String → ServiceDir} {start : Process} {name : String} {log : List Answered}

/-- **The helper looks where the daemon looked.** -/
theorem busServiceDirs_system (config : HelperConfig) :
    busServiceDirs .system config = config.dirs := rfl

/-- **What was answered is what the daemon has seen**: the configuration is its own, and the
directories hold the same files. -/
structure SameFiles (config : HelperConfig) (files : String → ServiceDir) (log : List Answered) :
    Prop where
  config : ∀ path c, ⟨.loadConfig path, .ok c⟩ ∈ log → c = config
  files : ∀ dirs found, ⟨.readServices dirs, found⟩ ∈ log → found = dirs.map files

/-- Fewer answers. -/
theorem SameFiles.suffix {log' : List Answered} (h : SameFiles config files log')
    (hlog : log <:+ log') : SameFiles config files log :=
  ⟨fun path c hmem => h.config path c (hlog.subset hmem),
    fun dirs found hmem => h.files dirs found (hlog.subset hmem)⟩

/-- The services the helper has looked through are those of the daemon. -/
theorem SameFiles.registry (h : SameFiles config files log) {c : HelperConfig}
    {dirs : List ServiceDir} (hpermitted : Permitted start c log)
    (hdirs : ⟨.readServices c.dirs, dirs⟩ ∈ log) :
    ActivationRegistry.load parseToml dirs = busRegistry parseToml .system config files := by
  obtain ⟨path, -, hloaded⟩ := hpermitted.loaded
  unfold busRegistry
  rw [h.files _ _ hdirs, h.config path c hloaded, busServiceDirs_system]

/-- **The service the helper has chosen is the one the daemon has found.** -/
theorem SameFiles.chosen (h : SameFiles config files log) {service : ServiceDef} {user : String}
    (hchosen : Chosen parseToml start name service user log) :
    (busRegistry parseToml .system config files).lookup name = some service := by
  obtain ⟨c, hpermitted, dirs, hdirs, hlookup⟩ := hchosen.found
  rwa [h.registry hpermitted hdirs] at hlookup

/-- **The log only grows.** -/
theorem suffix_of_runs {α : Type} {s t : HelperState} {p q : Prog HelperOp HelperOp.Res α}
    {es : List (Event HelperOp HelperOp.Res HelperState)}
    (hruns : Runs HelperOp.Exec Eq s p es t q) :
    s.log <:+ t.log ∧ ∀ e ∈ es, e.before.log <:+ t.log := by
  induction hruns with
  | refl s p => exact ⟨List.suffix_refl _, nofun⟩
  | other henv _ ih =>
    rw [henv]
    exact ih
  | call hexec _ ih =>
    obtain ⟨hsuffix, hall⟩ := ih
    rw [hexec.2] at hsuffix
    have hbefore := (List.suffix_cons _ _).trans hsuffix
    exact ⟨hbefore, List.forall_mem_cons.mpr ⟨hbefore, hall⟩⟩

/-- **What the daemon hands over.** When the daemon of a system bus starts the helper for a
name, every run of the helper that finds the same configuration and the same files
executes nothing but the service that the daemon has found for the name, as its
user, by the entry that the user database gave for it; and it does not end with
the codes for a wrong argument, for a name without a service or for a service
without a user, unless the name is one that asks for help. -/
theorem helper_executes_what_daemon_found (parseToml : String → Option ServiceDef)
    (config : HelperConfig) (files : String → ServiceDir) (getpwnam : String → Option UInt32)
    (currentUid : UInt32) (extraEnv : List (String × String)) (name : String)
    (command : ActivationRegistry.Command) (start : Process)
    {es : List (Event HelperOp HelperOp.Res HelperState)} {t : HelperState}
    {q : Prog HelperOp HelperOp.Res Ended}
    (hspawn : (busRegistry parseToml .system config files).spawn getpwnam currentUid name extraEnv
      (strategyOf .system config true) = .ok command)
    (hruns : Runs HelperOp.Exec Eq ⟨start, []⟩ (main parseToml command.args) es t q)
    (hsame : SameFiles config files t.log) :
    ∃ service user, (busRegistry parseToml .system config files).lookup name = some service ∧
      service.user = some user ∧
      (∀ e ∈ es, ∀ program argv, e.op = .exec program argv → program = service.exec ∧
        argv = service.args ∧ ∃ pw, ⟨.getpwnam user, some pw⟩ ∈ e.before.log ∧
          RunsAs e.before.process user pw) ∧
      ∀ code line, q = .ret (.exited code line) → isHelp name = true ∨ code ∉ [2, 6, 7] := by
  unfold strategyOf at hspawn
  rw [if_pos ⟨rfl, rfl⟩] at hspawn
  obtain ⟨service, user, hservice, huser, rfl⟩ := ActivationRegistry.spawn_viaLaunchHelper hspawn
  have hrefl (s : HelperState) : s = s := rfl
  refine ⟨service, user, hservice, huser, fun e he program argv hop => ?_, fun code line hq => ?_⟩
  · -- what is executed was chosen, and what was chosen is what the daemon has found
    obtain ⟨n, hn, hjustified⟩ := (ensures_main [name]).of_runs hruns hrefl (fun _ _ _ => Eq.trans)
      (fun _ _ _ hs h => hs ▸ h) e he program argv hop
    obtain rfl : name = n := List.singleton_inj.mp hn
    obtain ⟨chosen, chosenUser, pw, hchosen, hprogram, hargv, hpw, hruns'⟩ := hjustified.service
    have hfound := (hsame.suffix ((suffix_of_runs hruns).2 e he)).chosen hchosen
    obtain rfl : service = chosen := Option.some.inj (hservice.symm.trans hfound)
    obtain rfl : user = chosenUser := Option.some.inj (huser.symm.trans hchosen.user)
    exact ⟨hprogram, hargv, pw, hpw, hruns'⟩
  · -- how it ends is explained by the same files
    subst hq
    have hends := (ensures_main [name]).post_of_runs hruns hrefl (fun _ _ _ => Eq.trans)
      fun _ _ _ hs h => hs ▸ h
    cases hends with
    | help h _ =>
      rw [List.any_cons, List.any_nil, Bool.or_false] at h
      exact .inl h
    | usage h _ => exact absurd rfl h
    | gaveUp hargs h =>
      obtain rfl := List.singleton_inj.mp hargs
      refine .inr ?_
      cases h.explained with
      | notFound hpermitted hdirs hnone =>
        rw [hsame.registry hpermitted hdirs, hservice] at hnone
        cases hnone
      | noUser hpermitted hdirs hfound hnone =>
        rw [hsame.registry hpermitted hdirs, hservice] at hfound
        obtain rfl := Option.some.inj hfound
        rw [huser] at hnone
        cases hnone
      | _ => simp [HelperError.exitCode]

/-- The machine of the example answers with its own files. -/
theorem sameFiles_plainMachine (o : HelperOp) (s : HelperState)
    (h : SameFiles plainConfig plainFiles s.log) :
    SameFiles plainConfig plainFiles (plainMachine o s).2.log where
  config path c hmem := by
    rcases List.mem_cons.mp hmem with heq | hmem
    · obtain ⟨rfl, heq⟩ := Answered.mk.inj heq
      exact Except.ok.inj (eq_of_heq heq)
    · exact h.config path c hmem
  files dirs found hmem := by
    rcases List.mem_cons.mp hmem with heq | hmem
    · obtain ⟨rfl, heq⟩ := Answered.mk.inj heq
      exact eq_of_heq heq
    · exact h.files dirs found hmem

/-- **What is handed over on the machine of the example**: the helper is started, and executes
the service. -/
theorem helper_executes_what_daemon_found_plain : ∃ command,
    (busRegistry (fun _ => none) .system plainConfig plainFiles).spawn (fun _ => none) 81
      "org.example.Bar" [] (strategyOf .system plainConfig true) = .ok command ∧
    command.program = "/overlayer/syshub/libexec/dbus-daemon-launch-helper" ∧
    ∃ service user, (busRegistry (fun _ => none) .system plainConfig plainFiles).lookup
        "org.example.Bar" = some service ∧ service.user = some user ∧
      (∀ e ∈ (plainRun command.args).1, ∀ program argv, e.op = .exec program argv →
        program = service.exec ∧ argv = service.args ∧ ∃ pw,
          ⟨.getpwnam user, some pw⟩ ∈ e.before.log ∧ RunsAs e.before.process user pw) ∧
      ∀ code line, .ret (plainRun command.args).2.2 = (.ret (.exited code line) :
        Prog HelperOp HelperOp.Res Ended) → isHelp "org.example.Bar" = true ∨ code ∉ [2, 6, 7] := by
  have hspawn : (busRegistry (fun _ => none) .system plainConfig plainFiles).spawn (fun _ => none)
      81 "org.example.Bar" [] (strategyOf .system plainConfig true)
      = .ok ⟨plainConfig.launchHelperPath, ["org.example.Bar"], fun _ => none⟩ := rfl
  refine ⟨_, hspawn, by decide +kernel, ?_⟩
  refine helper_executes_what_daemon_found _ plainConfig plainFiles _ 81 [] _ _ plainStart hspawn
    (runs_simulate exec_plainMachine _ _) ?_
  exact simulate_keeps sameFiles_plainMachine _ ⟨nofun, nofun⟩

end LaunchHelper

end Oxibus
