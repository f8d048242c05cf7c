import Oxibus.Lib.Text

/-!
# Service files

A service file in the old format has a section that says how the service of a
name is started. What a file says is one thing: the entries of its sections of
this title, of which a later one counts for an earlier one (`serviceEntries`,
`valueOf`). How the daemon reads it is another: line by line, with what it has
seen so far. The two agree (`foldl_parseIniLine`).

The command of a service is taken apart at white space, except between double
quotes. The arguments that can be written are those without a quote that are not
empty (`exists_splitExec_iff`): an empty one between two quotes is dropped, and
nothing else is changed (`splitExec_execValue`).
-/

namespace Oxibus

/-- **How the service of a name is started.** -/
structure ServiceDef where
  name : String
  exec : String
  args : List String
  user : Option String
  environment : List (String × String)
  deriving DecidableEq, Repr

def eqIgnoreAsciiCase (s t : String) : Bool :=
  decide (s.toList.map Char.toLower = t.toList.map Char.toLower)

/-! ## The splitter -/

/-- Where the splitter is in a command. -/
structure ExecSplit where
  parts : List String := []
  current : String := ""
  inQuotes : Bool := false
  deriving DecidableEq, Repr

namespace ExecSplit

/-- The argument that has been read, if it is not empty. -/
def flush (split : ExecSplit) : ExecSplit :=
  if split.current ≠ "" then { split with parts := split.parts ++ [split.current], current := "" }
  else split

def step (split : ExecSplit) (c : Char) : ExecSplit :=
  if c = '"' then { split with inQuotes := !split.inQuotes }
  else if isWhitespace c ∧ split.inQuotes = false then split.flush
  else { split with current := split.current.push c }

end ExecSplit

/-- **The arguments of a command.** -/
def splitExec (exec : String) : List String := (exec.toList.foldl ExecSplit.step {}).flush.parts

/-- A command that names its arguments, each between double quotes. -/
def execValue (argv : List String) : String :=
  " ".intercalate (argv.map fun arg => "\"" ++ arg ++ "\"")

theorem execValue_singleton (arg : String) : execValue [arg] = "\"" ++ arg ++ "\"" := by
  rw [← String.toList_inj]
  simp [execValue]

theorem execValue_cons_cons (arg next : String) (rest : List String) :
    execValue (arg :: next :: rest) = "\"" ++ arg ++ "\"" ++ " " ++ execValue (next :: rest) := by
  unfold execValue
  rw [← String.toList_inj, String.toList_intercalate, String.toList_append,
    String.toList_intercalate, List.map_cons, List.map_cons, List.map_cons, List.map_cons,
    List.intercalate_cons_cons]
  simp

/-- An argument that can stand between double quotes. -/
def Unquoted (arg : String) : Prop := '"' ∉ arg.toList

namespace ExecSplit

variable {split : ExecSplit} {c : Char}

/-- More of the word that is read. -/
def add (split : ExecSplit) (text : String) : ExecSplit :=
  { split with current := split.current ++ text }

theorem step_quote : split.step '"' = { split with inQuotes := !split.inQuotes } := if_pos rfl

theorem step_quoted (hc : c ≠ '"') (hquotes : split.inQuotes = true) :
    split.step c = { split with current := split.current.push c } := by
  have hspace : ¬ (isWhitespace c = true ∧ split.inQuotes = false) := by
    rw [hquotes]
    exact fun h => Bool.false_ne_true h.2.symm
  unfold step
  rw [if_neg hc, if_neg hspace]

theorem step_space (hquotes : split.inQuotes = false) : split.step ' ' = split.flush := by
  unfold step
  rw [if_neg (by decide), if_pos ⟨rfl, hquotes⟩]

theorem inQuotes_flush : split.flush.inQuotes = split.inQuotes := by
  unfold flush
  split <;> rfl

theorem current_flush : split.flush.current = "" := by
  unfold flush
  split
  · rfl
  · next h => exact not_not.mp h

theorem parts_flush :
    split.flush.parts = split.parts ++ [split.current].filter (fun arg => decide (arg ≠ "")) := by
  unfold flush
  split
  · next h => simp [h]
  · next h => simp [not_not.mp h]

theorem foldl_step_quoted {cs : List Char} (h : '"' ∉ cs) (hquotes : split.inQuotes = true) :
    cs.foldl step split = split.add (String.ofList cs) := by
  induction cs generalizing split with
  | nil =>
    unfold add
    rw [List.foldl_nil, String.ofList_nil, String.append_empty]
  | cons c cs ih =>
    obtain ⟨hc, hcs⟩ := List.ne_and_not_mem_of_not_mem_cons h
    have hstep : split.step c = split.add (String.singleton c) := by
      rw [step_quoted hc.symm hquotes, String.push_eq_append]
      rfl
    have htext : String.singleton c ++ String.ofList cs = String.ofList (c :: cs) := by
      rw [← String.toList_inj]
      simp
    have hadd : (split.add (String.singleton c)).inQuotes = true := hquotes
    rw [List.foldl_cons, hstep, ih hcs hadd]
    show ({ split with current := split.current ++ _ ++ _ } : ExecSplit) = _
    rw [String.append_assoc, htext]
    rfl

/-- **An argument between quotes is read as it is**, behind what has been read of
the word it stands in. -/
theorem foldl_step_word {arg : String} (h : Unquoted arg) (hquotes : split.inQuotes = false) :
    ("\"" ++ arg ++ "\"").toList.foldl step split = split.add arg := by
  have htext : ("\"" ++ arg ++ "\"").toList = '"' :: (arg.toList ++ ['"']) := by
    simp
  have hopen : ({ split with inQuotes := !split.inQuotes } : ExecSplit).inQuotes = true := by
    show (!split.inQuotes) = true
    rw [hquotes]
    rfl
  rw [htext, List.foldl_cons, List.foldl_append, step_quote,
    foldl_step_quoted h hopen,
    List.foldl_cons, List.foldl_nil, step_quote, String.ofList_toList]
  show ({ split with current := split.current ++ arg, inQuotes := !(!split.inQuotes) } : ExecSplit)
    = _
  rw [Bool.not_not]
  rfl

/-- **What is read of arguments between quotes**: those that are not empty. -/
theorem parts_foldl_execValue {argv : List String} (h : ∀ arg ∈ argv, Unquoted arg)
    (hcurrent : split.current = "") (hquotes : split.inQuotes = false) :
    ((execValue argv).toList.foldl step split).flush.parts
      = split.parts ++ argv.filter (fun arg => decide (arg ≠ "")) := by
  induction argv generalizing split with
  | nil =>
    show split.flush.parts = _
    rw [parts_flush, hcurrent]
    rfl
  | cons arg argv ih =>
    have harg := h arg List.mem_cons_self
    have hargv := fun arg hmem => h arg (List.mem_cons_of_mem _ hmem)
    have hword : (split.add arg).flush.parts
        = split.parts ++ [arg].filter (fun arg => decide (arg ≠ "")) := by
      rw [parts_flush]
      unfold add
      rw [hcurrent, String.empty_append]
    cases argv with
    | nil =>
      rw [execValue_singleton, foldl_step_word harg hquotes, hword]
    | cons next rest =>
      have hspace : " ".toList.foldl step (split.add arg) = (split.add arg).flush :=
        step_space hquotes
      have hflush : (split.add arg).flush.inQuotes = false := inQuotes_flush.trans hquotes
      rw [execValue_cons_cons, String.toList_append, String.toList_append, List.foldl_append,
        List.foldl_append, foldl_step_word harg hquotes, hspace, ih hargv current_flush hflush,
        hword, List.append_assoc, ← List.filter_append]
      rfl

/-- The arguments read so far can be written between quotes. -/
def Writable (split : ExecSplit) : Prop :=
  (∀ arg ∈ split.parts, arg ≠ "" ∧ Unquoted arg) ∧ Unquoted split.current

theorem Writable.flush (h : split.Writable) : split.flush.Writable := by
  unfold ExecSplit.flush
  split
  · next hne =>
    refine ⟨fun arg harg => ?_, List.not_mem_nil⟩
    rcases List.mem_append.mp harg with harg | harg
    · exact h.1 arg harg
    · rw [List.mem_singleton.mp harg]
      exact ⟨hne, h.2⟩
  · exact h

theorem Writable.step (h : split.Writable) (c : Char) : (split.step c).Writable := by
  unfold ExecSplit.step
  split
  · exact h
  · next hc =>
    split
    · exact h.flush
    · refine ⟨h.1, fun hmem => ?_⟩
      rw [String.toList_push, List.mem_append, List.mem_singleton] at hmem
      exact hmem.elim h.2 fun heq => hc heq.symm

theorem Writable.foldl (h : split.Writable) (cs : List Char) :
    (cs.foldl ExecSplit.step split).Writable := by
  induction cs generalizing split with
  | nil => exact h
  | cons c cs ih => exact ih (h.step c)

end ExecSplit

/-- **Arguments between quotes are kept**, but for the empty ones. -/
theorem splitExec_execValue {argv : List String} (h : ∀ arg ∈ argv, Unquoted arg) :
    splitExec (execValue argv) = argv.filter (fun arg => decide (arg ≠ "")) := by
  unfold splitExec
  rw [ExecSplit.parts_foldl_execValue h rfl rfl]
  rfl

/-- **The arguments that a command can have.** -/
theorem exists_splitExec_iff {argv : List String} :
    (∃ exec, splitExec exec = argv) ↔ ∀ arg ∈ argv, arg ≠ "" ∧ Unquoted arg := by
  constructor
  · rintro ⟨exec, rfl⟩
    have hstart : ({} : ExecSplit).Writable := ⟨List.forall_mem_nil _, List.not_mem_nil⟩
    exact (hstart.foldl exec.toList).flush.1
  · intro h
    refine ⟨execValue argv, ?_⟩
    rw [splitExec_execValue fun arg harg => (h arg harg).2]
    exact List.filter_eq_self.mpr fun arg harg => decide_eq_true (h arg harg).1

/-! ## The reader -/

/-- What has been read of a service file. -/
structure IniService where
  name : Option String := none
  exec : Option String := none
  user : Option String := none
  inSection : Bool := false
  deriving DecidableEq, Repr

def parseIniLine (ini : IniService) (line : String) : IniService :=
  let line := trim line
  if line = "" ∨ line.toList.head? = some '#' ∨ line.toList.head? = some ';' then ini
  else if line.toList.head? = some '[' ∧ line.toList.getLast? = some ']' then
    let title := trim (String.ofList (line.toList.drop 1).dropLast)
    { ini with inSection := eqIgnoreAsciiCase title "D-BUS Service" }
  else if ini.inSection then
    match splitOnce '=' line with
    | none => ini
    | some (key, val) =>
      let key := trim key
      let val := trim val
      if eqIgnoreAsciiCase key "Name" then { ini with name := some val }
      else if eqIgnoreAsciiCase key "Exec" then { ini with exec := some val }
      else if eqIgnoreAsciiCase key "User" then { ini with user := some val }
      else ini
  else ini

/-- **What a service file says of its service.** -/
def parseIniService (content : String) : Option ServiceDef :=
  let ini := (lines content).foldl parseIniLine {}
  match ini.name, ini.exec with
  | some name, some exec =>
    match splitExec exec with
    | [] => none
    | execBin :: args =>
      some { name := name, exec := execBin, args := args, user := ini.user, environment := [] }
  | _, _ => none

/-! ## What a service file says -/

/-- **What a line of a file in the old format is.** -/
inductive IniLine where
  /-- A blank line or a comment. -/
  | blank
  | header (title : String)
  | entry (key val : String)
  /-- Neither the title of a section nor an entry. -/
  | stray
  deriving DecidableEq, Repr

def iniLine (line : String) : IniLine :=
  let line := trim line
  if line = "" ∨ line.toList.head? = some '#' ∨ line.toList.head? = some ';' then .blank
  else if line.toList.head? = some '[' ∧ line.toList.getLast? = some ']' then
    .header (trim (String.ofList (line.toList.drop 1).dropLast))
  else
    match splitOnce '=' line with
    | none => .stray
    | some (key, val) => .entry (trim key) (trim val)

/-- Whether a title is the one of the sections that count. -/
def isServiceTitle (title : String) : Bool := eqIgnoreAsciiCase title "D-BUS Service"

/-- The entries of the sections that count, where the first line is in one or
not. -/
def serviceEntries : Bool → List String → List (String × String)
  | _, [] => []
  | inSection, line :: ls =>
    match iniLine line with
    | .header title => serviceEntries (isServiceTitle title) ls
    | .entry key val =>
      if inSection then (key, val) :: serviceEntries inSection ls else serviceEntries inSection ls
    | _ => serviceEntries inSection ls

/-- Whether what follows some lines is in a section that counts. -/
def endsInSection : Bool → List String → Bool
  | inSection, [] => inSection
  | inSection, line :: ls =>
    match iniLine line with
    | .header title => endsInSection (isServiceTitle title) ls
    | _ => endsInSection inSection ls

/-- **The value of a key**: the last one there is. -/
def valueOf (key : String) : List (String × String) → Option String
  | [] => none
  | (k, val) :: entries =>
    (valueOf key entries).or (if eqIgnoreAsciiCase k key then some val else none)

/-! ## The reader agrees -/

theorem eqIgnoreAsciiCase_iff {s t : String} :
    eqIgnoreAsciiCase s t = true ↔ s.toList.map Char.toLower = t.toList.map Char.toLower :=
  decide_eq_true_iff

/-- No key is two of the three that count. -/
theorem eqIgnoreAsciiCase_unique {key s t : String}
    (hne : s.toList.map Char.toLower ≠ t.toList.map Char.toLower)
    (h : eqIgnoreAsciiCase key s = true) : eqIgnoreAsciiCase key t = false := by
  refine Bool.eq_false_iff.mpr fun ht => hne ?_
  rw [← eqIgnoreAsciiCase_iff.mp h, ← eqIgnoreAsciiCase_iff.mp ht]

namespace IniService

variable {ini : IniService}

/-- What an entry of a section that counts says. -/
def enter (ini : IniService) (key val : String) : IniService :=
  { ini with
    name := (if eqIgnoreAsciiCase key "Name" then some val else none).or ini.name
    exec := (if eqIgnoreAsciiCase key "Exec" then some val else none).or ini.exec
    user := (if eqIgnoreAsciiCase key "User" then some val else none).or ini.user }

theorem enter_eq (ini : IniService) (key val : String) :
    (if eqIgnoreAsciiCase key "Name" then { ini with name := some val }
      else if eqIgnoreAsciiCase key "Exec" then { ini with exec := some val }
      else if eqIgnoreAsciiCase key "User" then { ini with user := some val }
      else ini) = ini.enter key val := by
  unfold enter
  by_cases hname : eqIgnoreAsciiCase key "Name" = true
  · have hexec : eqIgnoreAsciiCase key "Exec" = false := eqIgnoreAsciiCase_unique (by decide) hname
    have huser : eqIgnoreAsciiCase key "User" = false := eqIgnoreAsciiCase_unique (by decide) hname
    simp [hname, hexec, huser]
  · by_cases hexec : eqIgnoreAsciiCase key "Exec" = true
    · have huser : eqIgnoreAsciiCase key "User" = false :=
        eqIgnoreAsciiCase_unique (by decide) hexec
      simp [hname, hexec, huser]
    · by_cases huser : eqIgnoreAsciiCase key "User" = true
      · simp [hname, hexec, huser]
      · simp [hname, hexec, huser]

end IniService

/-- **What a line changes**, by what it is. -/
theorem parseIniLine_eq (ini : IniService) (line : String) :
    parseIniLine ini line =
      match iniLine line with
      | .header title => { ini with inSection := isServiceTitle title }
      | .entry key val => if ini.inSection then ini.enter key val else ini
      | _ => ini := by
  unfold parseIniLine iniLine
  dsimp only
  by_cases hblank : trim line = "" ∨ (trim line).toList.head? = some '#' ∨
      (trim line).toList.head? = some ';'
  · rw [if_pos hblank, if_pos hblank]
  · rw [if_neg hblank, if_neg hblank]
    by_cases hheader : (trim line).toList.head? = some '[' ∧ (trim line).toList.getLast? = some ']'
    · rw [if_pos hheader, if_pos hheader]
      rfl
    · rw [if_neg hheader, if_neg hheader]
      cases splitOnce '=' (trim line) with
      | none =>
        dsimp only
        exact ite_self ini
      | some entry =>
        obtain ⟨key, val⟩ := entry
        dsimp only
        split
        · exact ini.enter_eq (trim key) (trim val)
        · rfl

/-- What has been read in front of some lines counts for the keys that have no
value in them. -/
theorem foldl_parseIniLine (ini : IniService) (ls : List String) :
    ls.foldl parseIniLine ini =
      { name := (valueOf "Name" (serviceEntries ini.inSection ls)).or ini.name
        exec := (valueOf "Exec" (serviceEntries ini.inSection ls)).or ini.exec
        user := (valueOf "User" (serviceEntries ini.inSection ls)).or ini.user
        inSection := endsInSection ini.inSection ls } := by
  induction ls generalizing ini with
  | nil => rfl
  | cons line ls ih =>
    rw [List.foldl_cons, ih, parseIniLine_eq, serviceEntries, endsInSection]
    cases iniLine line with
    | blank => rfl
    | stray => rfl
    | header title => rfl
    | entry key val =>
      dsimp only
      cases hsection : ini.inSection with
      | false => rw [if_neg Bool.false_ne_true, if_neg Bool.false_ne_true, hsection]
      | true =>
        have henter : (ini.enter key val).inSection = true := hsection
        rw [if_pos rfl, if_pos rfl, henter]
        simp only [valueOf, Option.or_assoc, IniService.enter]

/-- The entries of a file. -/
def entriesOf (content : String) : List (String × String) := serviceEntries false (lines content)

/-- **What is read of a file is what its entries say.** -/
theorem parseIniService_eq (content : String) :
    parseIniService content =
      match valueOf "Name" (entriesOf content), valueOf "Exec" (entriesOf content) with
      | some name, some exec =>
        match splitExec exec with
        | [] => none
        | execBin :: args =>
          some { name := name, exec := execBin, args := args,
                 user := valueOf "User" (entriesOf content), environment := [] }
      | _, _ => none := by
  have hnone : ∀ value : Option String, value.or none = value := fun value => Option.or_none
  unfold parseIniService
  rw [foldl_parseIniLine]
  dsimp only
  rw [hnone, hnone, hnone]
  rfl

/-! ## A command in a file -/

theorem serviceEntries_append (inSection : Bool) (ls ls' : List String) :
    serviceEntries inSection (ls ++ ls')
      = serviceEntries inSection ls ++ serviceEntries (endsInSection inSection ls) ls' := by
  induction ls generalizing inSection with
  | nil => rfl
  | cons line ls ih =>
    rw [List.cons_append, serviceEntries, serviceEntries, endsInSection]
    cases iniLine line with
    | blank => exact ih inSection
    | stray => exact ih inSection
    | header title => exact ih (isServiceTitle title)
    | entry key val =>
      cases inSection with
      | false => exact ih false
      | true => exact congrArg (List.cons (key, val)) (ih true)

theorem valueOf_append (key : String) (entries entries' : List (String × String)) :
    valueOf key (entries ++ entries') = (valueOf key entries').or (valueOf key entries) := by
  induction entries with
  | nil => exact Option.or_none.symm
  | cons entry entries ih => rw [List.cons_append, valueOf, ih, valueOf, Option.or_assoc]

theorem valueOf_eq_none_iff {key : String} {entries : List (String × String)} :
    valueOf key entries = none ↔
      ∀ entry ∈ entries, eqIgnoreAsciiCase entry.1 key = false := by
  induction entries with
  | nil => simp [valueOf]
  | cons entry entries ih =>
    rw [valueOf, Option.or_eq_none_iff, ih, List.forall_mem_cons, and_comm]
    simp

/-- The line of a command. -/
def execLine (argv : List String) : String := "Exec=" ++ execValue argv

/-- A file with a command, between other lines. -/
def serviceFile (before : String) (argv : List String) (after : String) : String :=
  before ++ "\n" ++ execLine argv ++ "\n" ++ after

/-- A command stands between quotes. -/
theorem execValue_ends {argv : List String} (h : argv ≠ []) :
    (∃ cs, (execValue argv).toList = '"' :: cs) ∧ ∃ cs, (execValue argv).toList = cs ++ ['"'] := by
  induction argv with
  | nil => exact absurd rfl h
  | cons arg argv ih =>
    cases argv with
    | nil =>
      have htext : ("\"" ++ arg ++ "\"").toList = '"' :: arg.toList ++ ['"'] := by
        simp
      rw [execValue_singleton, htext]
      exact ⟨⟨_, rfl⟩, ⟨_, rfl⟩⟩
    | cons next rest =>
      obtain ⟨-, cs, hcs⟩ := ih (List.cons_ne_nil _ _)
      have htext : ("\"" ++ arg ++ "\"" ++ " " ++ execValue (next :: rest)).toList
          = '"' :: (arg.toList ++ ['"', ' '] ++ cs) ++ ['"'] := by
        rw [String.toList_append, hcs]
        simp
      rw [execValue_cons_cons, htext]
      exact ⟨⟨_, rfl⟩, ⟨_, rfl⟩⟩

/-- What stands between white space and does not start or end with any is not
trimmed. -/
theorem trim_of_cons_concat {s : String} {c d : Char} (hc : isWhitespace c = false)
    (hd : isWhitespace d = false) (hstart : ∃ cs, s.toList = c :: cs)
    (hend : ∃ cs, s.toList = cs ++ [d]) : trim s = s := by
  obtain ⟨start, hstart⟩ := hstart
  obtain ⟨rest, hend⟩ := hend
  refine trim_of_ends (fun a ha => ?_) (fun a ha => ?_)
  · rw [hstart] at ha
    rwa [← Option.some.inj ha]
  · rw [hend, List.getLast?_concat] at ha
    rwa [← Option.some.inj ha]

/-- **The line of a command is read as its entry**, whatever its arguments look
like. -/
theorem iniLine_execLine {argv : List String} (h : argv ≠ []) :
    iniLine (execLine argv) = .entry "Exec" (execValue argv) := by
  obtain ⟨hstart, rest, hend⟩ := execValue_ends h
  have htext : (execLine argv).toList = 'E' :: ("xec=".toList ++ (execValue argv).toList) := by
    simp [execLine]
  have htrim : trim (execLine argv) = execLine argv := by
    refine trim_of_cons_concat (c := 'E') (d := '"') rfl rfl ⟨_, htext⟩
      ⟨'E' :: ("xec=".toList ++ rest), ?_⟩
    rw [htext, hend, ← List.append_assoc, List.cons_append]
  have hvalue : trim (execValue argv) = execValue argv :=
    trim_of_cons_concat (c := '"') (d := '"') rfl rfl hstart ⟨rest, hend⟩
  have hsplit : splitOnce '=' (execLine argv) = some ("Exec", execValue argv) :=
    splitOnce_append (s := "Exec") (by decide) (execValue argv)
  have hblank : ¬ (execLine argv = "" ∨ (execLine argv).toList.head? = some '#' ∨
      (execLine argv).toList.head? = some ';') := by
    rw [← String.toList_inj, htext]
    simp
  have hheader : ¬ ((execLine argv).toList.head? = some '[' ∧
      (execLine argv).toList.getLast? = some ']') := by
    rw [htext]
    simp
  have hkey : trim "Exec" = "Exec" := by decide
  unfold iniLine
  dsimp only
  rw [htrim, if_neg hblank, if_neg hheader, hsplit]
  dsimp only
  rw [hkey, hvalue]

/-- A command of arguments in one line is in one line. -/
theorem not_mem_execLine {argv : List String} (h : ∀ arg ∈ argv, '\n' ∉ arg.toList) :
    '\n' ∉ (execLine argv).toList := by
  have hvalue : '\n' ∉ (execValue argv).toList := by
    induction argv with
    | nil => exact List.not_mem_nil
    | cons arg argv ih =>
      have harg := h arg List.mem_cons_self
      cases argv with
      | nil =>
        rw [execValue_singleton]
        simpa using harg
      | cons next rest =>
        have hrest := ih fun arg hmem => h arg (List.mem_cons_of_mem _ hmem)
        rw [execValue_cons_cons]
        simpa using ⟨harg, hrest⟩
  unfold execLine
  rw [String.toList_append, List.mem_append]
  exact fun hmem => hmem.elim (by decide) hvalue

/-- **The entries of a file with a command** are those of the lines around it
and the command, when the lines in front of it end in a section that counts. -/
theorem entriesOf_serviceFile {before : String} {argv : List String} (after : String)
    (hargv : argv ≠ []) (hline : ∀ arg ∈ argv, '\n' ∉ arg.toList)
    (hsection : endsInSection false (lines (before ++ "\n")) = true) :
    entriesOf (serviceFile before argv after) =
      serviceEntries false (lines (before ++ "\n")) ++
        ("Exec", execValue argv) :: serviceEntries true (lines after) := by
  have hreturn : (execLine argv).toList.getLast? ≠ some '\r' := by
    obtain ⟨-, cs, hcs⟩ := execValue_ends hargv
    unfold execLine
    rw [String.toList_append, hcs, ← List.append_assoc, List.getLast?_concat]
    decide
  have htext : serviceFile before argv after
      = before ++ "\n" ++ (execLine argv ++ "\n" ++ after) := by
    unfold serviceFile
    simp only [String.append_assoc]
  unfold entriesOf
  rw [htext, lines_append_lines, lines_append (not_mem_execLine hline) hreturn,
    serviceEntries_append, hsection, serviceEntries, iniLine_execLine hargv]
  rfl

/-- The command of a file, when none of the lines behind it is another one. -/
theorem valueOf_exec_serviceFile {before after : String} {argv : List String} (hargv : argv ≠ [])
    (hline : ∀ arg ∈ argv, '\n' ∉ arg.toList)
    (hsection : endsInSection false (lines (before ++ "\n")) = true)
    (hafter : ∀ entry ∈ serviceEntries true (lines after),
      eqIgnoreAsciiCase entry.1 "Exec" = false) :
    valueOf "Exec" (entriesOf (serviceFile before argv after)) = some (execValue argv) := by
  have hnone : valueOf "Exec" (serviceEntries true (lines after)) = none :=
    valueOf_eq_none_iff.mpr hafter
  have hself : eqIgnoreAsciiCase "Exec" "Exec" = true := decide_eq_true rfl
  rw [entriesOf_serviceFile after hargv hline hsection, valueOf_append, valueOf, hnone,
    if_pos hself]
  rfl

/-- **A command keeps its arguments when the file names a service and no argument
after the first one is empty**, and only then. -/
theorem parseIniService_keeps_iff {before after bin : String} {args : List String}
    (hbin : bin ≠ "") (hquote : ∀ arg ∈ bin :: args, '"' ∉ arg.toList)
    (hline : ∀ arg ∈ bin :: args, '\n' ∉ arg.toList)
    (hsection : endsInSection false (lines (before ++ "\n")) = true)
    (hafter : ∀ entry ∈ serviceEntries true (lines after),
      eqIgnoreAsciiCase entry.1 "Exec" = false) :
    (∃ service, parseIniService (serviceFile before (bin :: args) after) = some service ∧
        service.exec = bin ∧ service.args = args) ↔
      (∃ entry ∈ entriesOf (serviceFile before (bin :: args) after),
        eqIgnoreAsciiCase entry.1 "Name" = true) ∧ ∀ arg ∈ args, arg ≠ "" := by
  have hexec := valueOf_exec_serviceFile (List.cons_ne_nil bin args) hline hsection hafter
  have hsplit : splitExec (execValue (bin :: args))
      = bin :: args.filter (fun arg => decide (arg ≠ "")) := by
    rw [splitExec_execValue hquote]
    simp [hbin]
  have hkept : args.filter (fun arg => decide (arg ≠ "")) = args ↔ ∀ arg ∈ args, arg ≠ "" := by
    simp only [List.filter_eq_self, decide_eq_true_eq]
  have hname : valueOf "Name" (entriesOf (serviceFile before (bin :: args) after)) = none ↔
      ¬ ∃ entry ∈ entriesOf (serviceFile before (bin :: args) after),
        eqIgnoreAsciiCase entry.1 "Name" = true := by
    rw [valueOf_eq_none_iff]
    push Not
    simp only [ne_eq, Bool.not_eq_true]
  rw [parseIniService_eq, hexec, ← hkept]
  cases hvalue : valueOf "Name" (entriesOf (serviceFile before (bin :: args) after)) with
  | none =>
    have hunnamed := hname.mp hvalue
    constructor
    · rintro ⟨service, hservice, -⟩
      cases hservice
    · exact fun h => absurd h.1 hunnamed
  | some name =>
    have hnamed := not_not.mp (mt hname.mpr (by rw [hvalue]; exact Option.some_ne_none name))
    dsimp only
    rw [hsplit]
    constructor
    · rintro ⟨service, hservice, -, hargs⟩
      rw [← Option.some.inj hservice] at hargs
      exact ⟨hnamed, hargs⟩
    · exact fun h => ⟨_, rfl, rfl, h.2⟩

/-- An argument in a file that is kept. -/
theorem parseIniService_keeps_one :
    ∃ service, parseIniService
        (serviceFile "[D-BUS Service]\nName=org.example.Bar" ["/bin/false", "[arg 2]"] "")
        = some service ∧ service.exec = "/bin/false" ∧ service.args = ["[arg 2]"] :=
  (parseIniService_keeps_iff (by decide) (by decide +kernel) (by decide +kernel) (by decide +kernel)
    (by decide +kernel)).mpr
    ⟨⟨("Name", "org.example.Bar"), by decide +kernel, by decide +kernel⟩, by decide⟩

/-- **An empty argument is lost.** -/
theorem not_parseIniService_keeps :
    ¬ ∃ service, parseIniService
        (serviceFile "[D-BUS Service]\nName=org.example.Bar" ["/bin/false", ""] "")
        = some service ∧ service.exec = "/bin/false" ∧ service.args = [""] := by
  have hparse : parseIniService
      (serviceFile "[D-BUS Service]\nName=org.example.Bar" ["/bin/false", ""] "")
      = some { name := "org.example.Bar", exec := "/bin/false", args := [], user := none,
               environment := [] } := by
    decide +kernel
  rintro ⟨service, hservice, -, hargs⟩
  rw [← Option.some.inj (hparse.symm.trans hservice)] at hargs
  cases hargs

end Oxibus
