import Oxibus.Daemon.RuleScope
import Mathlib.Data.List.Sort

/-!
# Loading the policy

The daemon reads its policy from directories: in each of them, in the order
of their names, the `.toml` and the `.conf` files. A directory that is not
there is skipped, and so is a `.toml` file that does not parse; a directory
that cannot be listed or a file that cannot be read ends the whole load.

A bus that starts without having loaded its policy takes the default one, and
the default policy has no rules, which means that everything is allowed. So
does one whose only files were skipped. A broken file is harmless only beside
others that are read and have rules (`failsClosed_iff`). A running bus that
loads its policy again keeps the one it has if that fails
(`reloadPolicy_of_not_loadable`).

The parser of `.toml` files is a parameter.
-/

namespace Oxibus

/-- An operation on the file system that can fail with a message. -/
abbrev IoResult (α : Type) : Type := Outcome String α

namespace IoResult

/-- What is found one after the other; the first failure ends it. -/
def gather {α β : Type} (f : α → IoResult (List β)) : List α → IoResult (List β)
  | [] => .ok []
  | a :: as => do
    let found ← f a
    let rest ← gather f as
    .ok (found ++ rest)

variable {α β : Type} {f : α → IoResult (List β)}

/-- **Gathering succeeds where everything does.** -/
theorem exists_gather_iff {as : List α} :
    (∃ bs, gather f as = .ok bs) ↔ ∀ a ∈ as, ∃ bs, f a = .ok bs := by
  induction as with
  | nil => simp [gather]
  | cons a as ih =>
    rw [List.forall_mem_cons, ← ih]
    constructor
    · rintro ⟨bs, h⟩
      obtain ⟨found, hfound, hnext⟩ := Outcome.bind_eq_ok.mp h
      obtain ⟨rest, hrest, -⟩ := Outcome.bind_eq_ok.mp hnext
      exact ⟨⟨found, hfound⟩, rest, hrest⟩
    · rintro ⟨⟨found, hfound⟩, rest, hrest⟩
      refine ⟨found ++ rest, ?_⟩
      rw [gather, hfound, Outcome.ok_bind, hrest, Outcome.ok_bind]

/-- What was gathered is what was found. -/
theorem mem_of_gather {as : List α} {bs : List β} (h : gather f as = .ok bs) (b : β) :
    b ∈ bs ↔ ∃ a ∈ as, ∃ found, f a = .ok found ∧ b ∈ found := by
  induction as generalizing bs with
  | nil =>
    cases h
    simp
  | cons a as ih =>
    obtain ⟨found, hfound, hnext⟩ := Outcome.bind_eq_ok.mp h
    obtain ⟨rest, hrest, hbs⟩ := Outcome.bind_eq_ok.mp hnext
    cases hbs
    rw [List.mem_append, ih hrest, List.exists_mem_cons_iff, hfound]
    simp

end IoResult

/-! ## Directories and files -/

/-- **A file**, by the bytes of its name and what reading it as text gives. -/
structure PolicyPath where
  name : List UInt8
  readToString : IoResult String

/-- **A directory of the configuration**, if it is one, and what listing it
gives. -/
structure PolicyDir where
  isDir : Bool
  readDir : IoResult (List (IoResult PolicyPath))

namespace PolicyPath

/-- What stands behind the last dot of a name, if something stands before
it. -/
def extension (path : PolicyPath) : Option (List UInt8) :=
  match path.name.reverse.span (· != 46) with
  | (_, []) => none
  | (_, [_]) => none
  | (after, _ :: _) => some after.reverse

/-- Whether a file has one of the names of policy files. -/
def isPolicyFile (path : PolicyPath) : Bool :=
  path.extension == some (asBytes "toml") || path.extension == some (asBytes "conf")

end PolicyPath

section

variable (parseToml : String → Option (List PolicyRule))

/-- The rules of a file. -/
def loadFile (path : PolicyPath) : IoResult (List PolicyRule) := do
  let text ← path.readToString
  if path.extension == some (asBytes "toml") then .ok ((parseToml text).getD [])
  else if path.extension == some (asBytes "conf") then .ok (Xml.parseXmlPolicy text)
  else .ok []

/-- The files of a directory, in the order of their names. -/
def policyPaths (entries : List PolicyPath) : List PolicyPath :=
  (entries.filter PolicyPath.isPolicyFile).insertionSort fun a b => a.name ≤ b.name

/-- The rules of a directory. -/
def loadPolicyDir (dir : PolicyDir) : IoResult (List PolicyRule) :=
  if !dir.isDir then .ok []
  else do
    let entries ← dir.readDir
    let entries ← IoResult.gather (fun entry => do
      let path ← entry
      .ok [path]) entries
    IoResult.gather (loadFile parseToml) (policyPaths entries)

/-- **The policy of a list of directories.** -/
def loadDirs (dirs : List PolicyDir) : IoResult Policy := do
  let rules ← IoResult.gather (loadPolicyDir parseToml) dirs
  .ok ⟨rules⟩

/-- **The policy of a bus that starts.** -/
def busPolicy (dirs : List PolicyDir) : Policy :=
  match loadDirs parseToml dirs with
  | .ok policy => policy
  | _ => ⟨[]⟩

/-- The policy of a bus that loads it again. -/
def reloadPolicy (policy : Policy) (dirs : List PolicyDir) : Policy :=
  match loadDirs parseToml dirs with
  | .ok policy => policy
  | _ => policy

end

/-! ## What is loaded -/

/-- **Whether all directories can be listed and all policy files read.** -/
def Loadable (dirs : List PolicyDir) : Prop :=
  ∀ dir ∈ dirs, dir.isDir = true → ∃ entries, dir.readDir = .ok entries ∧
    ∀ entry ∈ entries, ∃ path, entry = .ok path ∧
      (path.isPolicyFile = true → ∃ text, path.readToString = .ok text)

/-- **Whether a rule is one of a file that can be read and parsed.** -/
def Parsed (parseToml : String → Option (List PolicyRule)) (dirs : List PolicyDir)
    (rule : PolicyRule) : Prop :=
  ∃ dir ∈ dirs, dir.isDir = true ∧ ∃ entries, dir.readDir = .ok entries ∧
    ∃ path, .ok path ∈ entries ∧ ∃ text, path.readToString = .ok text ∧
      ((path.extension = some (asBytes "toml") ∧ ∃ rules, parseToml text = some rules ∧
          rule ∈ rules) ∨
        (path.extension = some (asBytes "conf") ∧ rule ∈ Xml.parseXmlPolicy text))

variable {parseToml : String → Option (List PolicyRule)}

/-- The rules of a policy file. -/
theorem mem_loadFile {path : PolicyPath} {rules : List PolicyRule}
    (h : loadFile parseToml path = .ok rules) (rule : PolicyRule) :
    rule ∈ rules ↔ ∃ text, path.readToString = .ok text ∧
      ((path.extension = some (asBytes "toml") ∧ ∃ rules, parseToml text = some rules ∧
          rule ∈ rules) ∨
        (path.extension = some (asBytes "conf") ∧ rule ∈ Xml.parseXmlPolicy text)) := by
  obtain ⟨text, htext, hrules⟩ := Outcome.bind_eq_ok.mp h
  have hne : asBytes "toml" ≠ asBytes "conf" := by decide +kernel
  rw [htext]
  simp only [Outcome.ok.injEq, exists_eq_left']
  split at hrules
  · next htoml =>
    rw [beq_iff_eq] at htoml
    cases hrules
    rw [htoml]
    cases parseToml text <;> simp [hne]
  split at hrules
  · next htoml hconf =>
    rw [beq_iff_eq] at hconf
    cases hrules
    rw [hconf]
    simp [Ne.symm hne]
  · next htoml hconf =>
    rw [beq_iff_eq] at htoml hconf
    cases hrules
    simp [htoml, hconf]

/-- A file is loaded where it can be read. -/
theorem exists_loadFile_iff {path : PolicyPath} :
    (∃ rules, loadFile parseToml path = .ok rules) ↔ ∃ text, path.readToString = .ok text := by
  constructor
  · rintro ⟨rules, h⟩
    obtain ⟨text, htext, -⟩ := Outcome.bind_eq_ok.mp h
    exact ⟨text, htext⟩
  · rintro ⟨text, htext⟩
    unfold loadFile
    rw [htext, Outcome.ok_bind]
    split
    · exact ⟨_, rfl⟩
    split
    · exact ⟨_, rfl⟩
    · exact ⟨_, rfl⟩

theorem mem_policyPaths {entries : List PolicyPath} {path : PolicyPath} :
    path ∈ policyPaths entries ↔ path ∈ entries ∧ path.isPolicyFile = true := by
  rw [policyPaths, List.mem_insertionSort, List.mem_filter]

/-- The entries of a directory that could be listed. -/
theorem mem_of_listed {entries : List (IoResult PolicyPath)} {paths : List PolicyPath}
    (h : IoResult.gather (fun entry => do
      let path ← entry
      .ok [path]) entries = .ok paths) (path : PolicyPath) :
    path ∈ paths ↔ .ok path ∈ entries := by
  rw [IoResult.mem_of_gather h]
  constructor
  · rintro ⟨entry, hentry, found, hfound, hmem⟩
    obtain ⟨path', rfl, hsingle⟩ := Outcome.bind_eq_ok.mp hfound
    cases hsingle
    rw [List.mem_singleton.mp hmem]
    exact hentry
  · exact fun hentry => ⟨.ok path, hentry, [path], rfl, List.mem_singleton_self path⟩

/-- **A directory is loaded where it is none, or can be listed and its policy
files read.** -/
theorem exists_loadPolicyDir_iff {dir : PolicyDir} :
    (∃ rules, loadPolicyDir parseToml dir = .ok rules)
      ↔ (dir.isDir = true → ∃ entries, dir.readDir = .ok entries ∧
          ∀ entry ∈ entries, ∃ path, entry = .ok path ∧
            (path.isPolicyFile = true → ∃ text, path.readToString = .ok text)) := by
  cases hdir : dir.isDir with
  | false => simp [loadPolicyDir, hdir]
  | true =>
    rw [loadPolicyDir, hdir, if_neg (by decide)]
    constructor
    · rintro ⟨rules, h⟩ -
      obtain ⟨entries, hentries, h⟩ := Outcome.bind_eq_ok.mp h
      obtain ⟨paths, hpaths, h⟩ := Outcome.bind_eq_ok.mp h
      refine ⟨entries, hentries, fun entry hentry => ?_⟩
      obtain ⟨found, hfound⟩ := IoResult.exists_gather_iff.mp ⟨paths, hpaths⟩ entry hentry
      obtain ⟨path, rfl, -⟩ := Outcome.bind_eq_ok.mp hfound
      refine ⟨path, rfl, fun hpolicy => ?_⟩
      have hmem := mem_policyPaths.mpr ⟨(mem_of_listed hpaths path).mpr hentry, hpolicy⟩
      exact exists_loadFile_iff.mp (IoResult.exists_gather_iff.mp ⟨rules, h⟩ path hmem)
    · intro h
      obtain ⟨entries, hentries, hall⟩ := h rfl
      obtain ⟨paths, hpaths⟩ : ∃ paths, IoResult.gather (fun entry => do
          let path ← entry
          .ok [path]) entries = .ok paths := by
        rw [IoResult.exists_gather_iff]
        intro entry hentry
        obtain ⟨path, rfl, -⟩ := hall entry hentry
        exact ⟨[path], rfl⟩
      rw [hentries, Outcome.ok_bind, hpaths, Outcome.ok_bind, IoResult.exists_gather_iff]
      intro path hpath
      obtain ⟨hlisted, hpolicy⟩ := mem_policyPaths.mp hpath
      obtain ⟨path', hpath', hread⟩ := hall _ ((mem_of_listed hpaths path).mp hlisted)
      cases hpath'
      exact exists_loadFile_iff.mpr (hread hpolicy)

/-- The rules of a directory. -/
theorem mem_loadPolicyDir {dir : PolicyDir} {rules : List PolicyRule}
    (h : loadPolicyDir parseToml dir = .ok rules) (rule : PolicyRule) :
    rule ∈ rules ↔ Parsed parseToml [dir] rule := by
  unfold Parsed
  rw [List.exists_mem_cons_iff]
  cases hdir : dir.isDir with
  | false =>
    rw [loadPolicyDir, hdir, if_pos (by decide)] at h
    cases h
    simp
  | true =>
    rw [loadPolicyDir, hdir, if_neg (by decide)] at h
    obtain ⟨entries, hentries, hlist⟩ := Outcome.bind_eq_ok.mp h
    obtain ⟨paths, hpaths, hfiles⟩ := Outcome.bind_eq_ok.mp hlist
    have hread : ∀ path, .ok path ∈ entries ∧ path.isPolicyFile = true ↔
        path ∈ policyPaths paths := by
      intro path
      rw [mem_policyPaths, mem_of_listed hpaths]
    have hmem : rule ∈ rules ↔ ∃ path, .ok path ∈ entries ∧ ∃ text,
        path.readToString = .ok text ∧
          ((path.extension = some (asBytes "toml") ∧ ∃ rules, parseToml text = some rules ∧
              rule ∈ rules) ∨
            (path.extension = some (asBytes "conf") ∧ rule ∈ Xml.parseXmlPolicy text)) := by
      rw [IoResult.mem_of_gather hfiles]
      constructor
      · rintro ⟨path, hpath, found, hfound, hrule⟩
        exact ⟨path, ((hread path).mpr hpath).1, (mem_loadFile hfound rule).mp hrule⟩
      · rintro ⟨path, hentry, hparsed⟩
        obtain ⟨text, htext, hext⟩ := id hparsed
        have hpolicy : path.isPolicyFile = true := by
          rw [PolicyPath.isPolicyFile, Bool.or_eq_true, beq_iff_eq, beq_iff_eq]
          exact hext.imp And.left And.left
        obtain ⟨found, hfound⟩ : ∃ found, loadFile parseToml path = .ok found :=
          exists_loadFile_iff.mpr ⟨text, htext⟩
        exact ⟨path, (hread path).mp ⟨hentry, hpolicy⟩, found, hfound,
          (mem_loadFile hfound rule).mpr hparsed⟩
    rw [hmem, hentries]
    simp

/-- **A policy is loaded where the directories are loadable.** -/
theorem exists_loadDirs_iff {dirs : List PolicyDir} :
    (∃ policy, loadDirs parseToml dirs = .ok policy) ↔ Loadable dirs := by
  have hgather : (∃ policy, loadDirs parseToml dirs = .ok policy)
      ↔ ∃ rules, IoResult.gather (loadPolicyDir parseToml) dirs = .ok rules := by
    constructor
    · rintro ⟨policy, h⟩
      obtain ⟨rules, hrules, -⟩ := Outcome.bind_eq_ok.mp h
      exact ⟨rules, hrules⟩
    · rintro ⟨rules, hrules⟩
      refine ⟨⟨rules⟩, ?_⟩
      rw [loadDirs, hrules, Outcome.ok_bind]
  rw [hgather, IoResult.exists_gather_iff]
  exact forall₂_congr fun dir _ => exists_loadPolicyDir_iff

/-- **It has the rules that were parsed.** -/
theorem mem_loadDirs {dirs : List PolicyDir} {policy : Policy}
    (h : loadDirs parseToml dirs = .ok policy) (rule : PolicyRule) :
    rule ∈ policy.rules ↔ Parsed parseToml dirs rule := by
  obtain ⟨rules, hrules, hpolicy⟩ := Outcome.bind_eq_ok.mp h
  cases hpolicy
  show rule ∈ rules ↔ _
  rw [IoResult.mem_of_gather hrules]
  constructor
  · rintro ⟨dir, hdir, found, hfound, hrule⟩
    obtain ⟨dir', hdir', hparsed⟩ := (mem_loadPolicyDir hfound rule).mp hrule
    rw [List.mem_singleton.mp hdir'] at hparsed
    exact ⟨dir, hdir, hparsed⟩
  · rintro ⟨dir, hdir, hparsed⟩
    obtain ⟨found, hfound⟩ := IoResult.exists_gather_iff.mp ⟨rules, hrules⟩ dir hdir
    exact ⟨dir, hdir, found, hfound,
      (mem_loadPolicyDir hfound rule).mpr ⟨dir, List.mem_singleton_self dir, hparsed⟩⟩

/-- A bus that cannot load its policy starts without rules. -/
theorem busPolicy_of_not_loadable {dirs : List PolicyDir} (h : ¬ Loadable dirs) :
    busPolicy parseToml dirs = ⟨[]⟩ := by
  unfold busPolicy
  split
  · next policy hload => exact absurd (exists_loadDirs_iff.mp ⟨policy, hload⟩) h
  · rfl

/-- **One that runs keeps the rules it has.** -/
theorem reloadPolicy_of_not_loadable {dirs : List PolicyDir} (h : ¬ Loadable dirs)
    (policy : Policy) : reloadPolicy parseToml policy dirs = policy := by
  unfold reloadPolicy
  split
  · next loaded hload => exact absurd (exists_loadDirs_iff.mp ⟨loaded, hload⟩) h
  · rfl

/-- A bus that can load its policy starts with the rules that were parsed. -/
theorem mem_busPolicy {dirs : List PolicyDir} (h : Loadable dirs) (rule : PolicyRule) :
    rule ∈ (busPolicy parseToml dirs).rules ↔ Parsed parseToml dirs rule := by
  obtain ⟨policy, hload⟩ : ∃ policy, loadDirs parseToml dirs = .ok policy :=
    exists_loadDirs_iff.mpr h
  have hbus : busPolicy parseToml dirs = policy := by
    unfold busPolicy
    rw [hload]
  rw [hbus]
  exact mem_loadDirs hload rule

/-! ## What the bus allows -/

open Xml (Operation decides decides_eq allowed denied)

/-- **With rules, what is allowed is allowed by one that applies.** -/
theorem exists_allowed_of_decides {policy : Policy} (hne : policy.rules ≠ [])
    {identity : Identity} {op : Operation} (h : decides policy identity op = true) :
    ∃ rule ∈ policy.applicable identity, allowed rule op = true := by
  rw [decides_eq, Policy.verdict_eq_foldl hne] at h
  generalize policy.applicable identity = rules at h ⊢
  have hfold : ∀ verdict, rules.foldl (Policy.step (fun rule => allowed rule op)
      fun rule => denied rule op) verdict = true →
      verdict = true ∨ ∃ rule ∈ rules, allowed rule op = true := by
    clear h
    induction rules with
    | nil => exact fun verdict h => .inl h
    | cons rule rules ih =>
      intro verdict h
      rw [List.exists_mem_cons_iff]
      rcases ih _ h with hstep | hrest
      · unfold Policy.step at hstep
        split at hstep
        · cases hstep
        split at hstep
        · next hallowed => exact .inr (.inl hallowed)
        · exact .inl hstep
      · exact .inr (.inr hrest)
  rcases hfold false h with hfalse | hrule
  · cases hfalse
  · exact hrule

/-- Without rules everything is allowed. -/
theorem decides_of_no_rules {policy : Policy} (h : policy.rules = []) (identity : Identity)
    (op : Operation) : decides policy identity op = true := by
  rw [decides_eq, Policy.verdict, Policy.isEmpty, h]
  rfl

/-- **The bus allows only what a rule allows** that was parsed and applies. -/
def FailsClosed (parseToml : String → Option (List PolicyRule)) (dirs : List PolicyDir) : Prop :=
  ∀ identity op, decides (busPolicy parseToml dirs) identity op = true →
    ∃ rule, Parsed parseToml dirs rule ∧
      rule ∈ (busPolicy parseToml dirs).applicable identity ∧ allowed rule op = true

/-- **When loading the policy fails closed.** The bus allows only what a parsed
rule allows if and only if every directory can be listed, every policy file
read, and some rule was parsed. -/
theorem failsClosed_iff (parseToml : String → Option (List PolicyRule)) (dirs : List PolicyDir) :
    FailsClosed parseToml dirs ↔ Loadable dirs ∧ ∃ rule, Parsed parseToml dirs rule := by
  have happlicable : ∀ identity rule,
      rule ∈ (busPolicy parseToml dirs).applicable identity →
        rule ∈ (busPolicy parseToml dirs).rules := by
    intro identity rule hrule
    rw [Policy.applicable_eq, List.mem_flatMap] at hrule
    obtain ⟨context, -, hrule⟩ := hrule
    exact (List.mem_filter.mp hrule).1
  constructor
  · intro hclosed
    have hrules : (busPolicy parseToml dirs).rules ≠ [] := by
      intro hnil
      obtain ⟨rule, -, hrule, -⟩ := hclosed ⟨0, none, []⟩ (.own "") (decides_of_no_rules hnil _ _)
      have hmem := happlicable _ _ hrule
      rw [hnil] at hmem
      cases hmem
    have hload : Loadable dirs := by
      by_contra hnot
      rw [busPolicy_of_not_loadable hnot] at hrules
      exact hrules rfl
    obtain ⟨rule, hrule⟩ := List.exists_mem_of_ne_nil _ hrules
    exact ⟨hload, rule, (mem_busPolicy hload rule).mp hrule⟩
  · rintro ⟨hload, rule, hparsed⟩ identity op hdecides
    have hne := List.ne_nil_of_mem ((mem_busPolicy hload rule).mpr hparsed)
    obtain ⟨decider, happlies, hallowed⟩ := exists_allowed_of_decides hne hdecides
    exact ⟨decider, (mem_busPolicy hload decider).mp (happlicable _ _ happlies), happlies,
      hallowed⟩

/-- A directory with one file, which cannot be read. -/
def brokenDir : PolicyDir :=
  ⟨true, .ok [.ok ⟨asBytes "site.conf", .err "Permission denied (os error 13)"⟩]⟩

/-- A bus with one unreadable file allows everything. -/
theorem not_failsClosed_broken :
    busPolicy (fun _ => none) [brokenDir] = ⟨[]⟩ ∧ ¬ FailsClosed (fun _ => none) [brokenDir] := by
  have hempty : busPolicy (fun _ => none) [brokenDir] = ⟨[]⟩ := by decide +kernel
  refine ⟨hempty, fun hclosed => ?_⟩
  obtain ⟨rule, -, hrule, -⟩ := hclosed ⟨1000, none, []⟩ (.own "a.b") (by rw [hempty]; rfl)
  rw [hempty] at hrule
  cases hrule

end Oxibus
