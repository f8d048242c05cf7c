import Oxibus.Lib.Text

/-!
# Keyrings

The shared secrets of `DBUS_COOKIE_SHA1` lie in a file below the home of a
user, one line each: a number, when it was made, and the secret. A server hands
out the number of a recent one, or makes one and writes the file again; both
sides look the secret up by its number.

What the machine gives – the readings of the clock, what is drawn, what fails –
stands in a `Machine` of its own for every line of the handshake. The disk is
what the lines have in common.
-/

namespace Oxibus

/-- The context of the keyring that a server uses. -/
def defaultContext : String := "org_freedesktop_general"

/-- How old a key may be, in seconds, to be handed out. -/
def newKeyTimeoutSeconds : Int64 := 60 * 5

/-- How old it may be to stay in the file. -/
def expireKeysTimeoutSeconds : Int64 := newKeyTimeoutSeconds + 60 * 2

/-- The errors of authentication that occur with keyrings. -/
inductive AuthError where
  | io (text : String)
  | keyringCorrupt (what : String)
  | hexDecode
  deriving DecidableEq, Repr

/-- The text of an error. -/
def AuthError.text : AuthError → String
  | io text => "io error: " ++ text
  | keyringCorrupt what => "keyring file corrupt: " ++ what
  | hexDecode => "hex decode error"

abbrev AuthResult (α : Type) : Type := Except AuthError α

/-- A key. -/
structure Key where
  id : UInt32
  created : Int64
  secret : List UInt8
  deriving DecidableEq, Repr

/-- What there is of a keyring's file. -/
inductive KeyringFile where
  | absent
  | unreadable (text : String)
  | text (contents : String)
  deriving DecidableEq, Repr

/-- **The keyrings on a disk**, by the home they are below and their context. -/
abbrev Disk : Type := String → String → KeyringFile

def Disk.write (disk : Disk) (home context contents : String) : Disk := fun home' context' =>
  if home' = home ∧ context' = context then .text contents else disk home' context'

/-- **What the machine gives while a line is handled.** -/
structure Machine where
  /-- The user that the process runs as. -/
  uid : UInt32
  /-- The readings of the clock, one after the other. -/
  clock : ℕ → Int64
  /-- Why the directory of the keyrings cannot be made. -/
  dirError : Option String
  /-- Why a keyring cannot be locked. -/
  lockError : Option String
  /-- Why a keyring cannot be written. -/
  saveError : Option String
  /-- The numbers drawn for a key, before the last. -/
  draws : List UInt32
  /-- The last number drawn. -/
  lastDraw : UInt32
  /-- The secret drawn for a key. -/
  secret : Vector UInt8 24
  /-- The challenge drawn. -/
  challenge : Vector UInt8 16

/-- A keyring in memory. -/
structure Keyring where
  home : String
  context : String
  keys : List Key
  deriving DecidableEq, Repr

/-! ## The file -/

/-- What must be there. -/
def need {α : Type} (what : String) : Option α → AuthResult α
  | some a => .ok a
  | none => .error (.keyringCorrupt what)

/-- The key of a line. -/
def parseKey (line : String) : AuthResult Key := do
  let parts := splitn 3 ' ' line
  let id ← need "missing id" parts[0]?
  let id ← need "bad id" (parseU32 id)
  let created ← need "missing timestamp" parts[1]?
  let created ← need "bad timestamp" (parseI64 created)
  let secret ← need "missing secret" parts[2]?
  match hexDecode secret with
  | some secret => .ok ⟨id, created, secret⟩
  | none => .error .hexDecode

/-- The keys of some lines; blank ones are skipped. -/
def parseKeys : List String → AuthResult (List Key)
  | [] => .ok []
  | line :: lines =>
    if trim line = "" then parseKeys lines
    else do
      let key ← parseKey (trim line)
      let keys ← parseKeys lines
      .ok (key :: keys)

/-- **The keys of a file.** -/
def parseFile : KeyringFile → AuthResult (List Key)
  | .absent => .ok []
  | .unreadable text => .error (.io text)
  | .text contents => parseKeys (lines contents)

/-- The line of a key. -/
def keyLine (key : Key) : String :=
  decimal key.id.toNat ++ " " ++ (decimalI64 key.created ++ " " ++ hexEncode key.secret)

/-- The contents of the file of some keys. -/
def keyLines : List Key → String
  | [] => ""
  | key :: keys => keyLine key ++ "\n" ++ keyLines keys

namespace Keyring

/-- **Load a keyring.** A file that is not there is an empty one. -/
def load (machine : Machine) (disk : Disk) (home context : String) : AuthResult Keyring :=
  match machine.dirError with
  | some text => .error (.io text)
  | none => do
    let keys ← parseFile (disk home context)
    .ok ⟨home, context, keys⟩

/-- The latest key that may be handed out; of those made at one time the last. -/
def findRecent (now : Int64) (keys : List Key) : Option Key :=
  (keys.filter fun k => now - k.created < newKeyTimeoutSeconds).foldl (fun best k =>
    match best with
    | none => some k
    | some b => if b.created ≤ k.created then some k else some b) none

def pruneExpired (now : Int64) (keys : List Key) : List Key :=
  keys.filter fun k => now - k.created < expireKeysTimeoutSeconds

/-- The number of a new key: the first one drawn that no key has. What is drawn
last ends the loop. -/
def newId (keys : List Key) (last : UInt32) : List UInt32 → UInt32
  | [] => last &&& 0x7fffffff
  | draw :: draws =>
    let candidate := draw &&& 0x7fffffff
    if keys.any fun k => k.id == candidate then newId keys last draws else candidate

/-- The keys with a new one, and its number. -/
def addNewKey (machine : Machine) (now : Int64) (keys : List Key) : UInt32 × List Key :=
  let id := newId keys machine.lastDraw machine.draws
  (id, keys ++ [⟨id, now, machine.secret.toList⟩])

/-- Take the lock of a keyring, and do something. -/
def withLock {α : Type} (machine : Machine) (f : AuthResult α) : AuthResult α :=
  match machine.lockError with
  | some text => .error (.io text)
  | none => f

/-- Write the file of a keyring. -/
def save (machine : Machine) (disk : Disk) (home context : String) (keys : List Key) :
    AuthResult Disk :=
  match machine.saveError with
  | some text => .error (.io text)
  | none => .ok (disk.write home context (keyLines keys))

/-- The keys that are in the file now. -/
def reread (disk : Disk) (keyring : Keyring) : AuthResult (List Key) :=
  match disk keyring.home keyring.context with
  | .absent => .ok keyring.keys
  | file => parseFile file

/-- Make a key and write the file, without the keys that have expired. -/
def makeKey (machine : Machine) (disk : Disk) (keyring : Keyring) (keys : List Key) :
    AuthResult (UInt32 × Disk) := do
  let (id, keys) := addNewKey machine (machine.clock 3) (pruneExpired (machine.clock 2) keys)
  let disk ← withLock machine (save machine disk keyring.home keyring.context keys)
  .ok (id, disk)

/-- **The number of a key to hand out**, and the disk afterwards. Without a
recent key the file is read again, and then a key is made. -/
def bestKey (machine : Machine) (disk : Disk) (keyring : Keyring) : AuthResult (UInt32 × Disk) :=
  match findRecent (machine.clock 0) keyring.keys with
  | some k => .ok (k.id, disk)
  | none => do
    withLock machine (.ok ())
    let keys ← reread disk keyring
    match findRecent (machine.clock 1) keys with
    | some k => .ok (k.id, disk)
    | none => makeKey machine disk keyring keys

/-- **The secret of a key**, in hexadecimal. -/
def hexKey (keyring : Keyring) (id : UInt32) : Option String :=
  (keyring.keys.find? fun k => k.id == id).map fun k => hexEncode k.secret

end Keyring

/-! ## What is written is read back -/

/-- A secret is not empty: the line of a key would end in white space. -/
def Key.Written (key : Key) : Prop := key.secret ≠ []

theorem hexEncode_ne {bs : List UInt8} (h : bs ≠ []) : hexEncode bs ≠ "" := by
  intro hempty
  have hdecode := hexDecode_hexEncode bs
  rw [hempty] at hdecode
  exact h (Option.some.inj hdecode).symm

theorem keyLine_toList (key : Key) : (keyLine key).toList
    = (decimal key.id.toNat).toList ++ ' ' ::
      ((decimalI64 key.created).toList ++ ' ' :: (hexEncode key.secret).toList) := by
  unfold keyLine
  simp only [String.toList_append]
  rw [List.append_assoc, List.append_assoc]
  rfl

/-- The only white space in the line of a key are the spaces between its parts. -/
theorem not_mem_keyLine {key : Key} {c : Char} (hc : isWhitespace c = true) (hspace : c ≠ ' ') :
    c ∉ (keyLine key).toList := by
  intro hmem
  rw [keyLine_toList, List.mem_append, List.mem_cons, List.mem_append, List.mem_cons] at hmem
  rcases hmem with hmem | rfl | hmem | rfl | hmem
  · exact (solid_decimal _).not_mem hc hmem
  · exact hspace rfl
  · exact (solid_decimalI64 _).not_mem hc hmem
  · exact hspace rfl
  · exact (solid_hexEncode _).not_mem hc hmem

/-- A line of a key is what is left when it is trimmed. -/
theorem trim_keyLine {key : Key} (h : key.Written) : trim (keyLine key) = keyLine key := by
  obtain ⟨c, cs, hcs, hc⟩ := decimal_cons key.id.toNat
  refine trim_of_ends ?_ ?_
  · intro d hd
    rw [keyLine_toList, hcs] at hd
    rw [← Option.some.inj hd]
    exact isWhitespace_of_isDigit hc
  · intro d hd
    have hne : (hexEncode key.secret).toList ≠ [] := fun hnil =>
      hexEncode_ne h (String.toList_eq_nil_iff.mp hnil)
    rw [keyLine_toList, List.getLast?_append_of_ne_nil _ (List.cons_ne_nil _ _),
      List.getLast?_cons_of_ne_nil (by simp),
      List.getLast?_append_of_ne_nil _ (List.cons_ne_nil _ _),
      List.getLast?_cons_of_ne_nil hne] at hd
    exact solid_hexEncode _ d (List.mem_of_getLast? hd)

/-- **The line of a key is read.** -/
theorem parseKey_keyLine (key : Key) : parseKey (keyLine key) = .ok key := by
  have hid : ' ' ∉ (decimal key.id.toNat).toList := (solid_decimal _).not_mem (by decide)
  have hcreated : ' ' ∉ (decimalI64 key.created).toList := (solid_decimalI64 _).not_mem (by decide)
  have hparts : splitn 3 ' ' (keyLine key)
      = [decimal key.id.toNat, decimalI64 key.created, hexEncode key.secret] := by
    have houter := splitn_append hid 1 (decimalI64 key.created ++ " " ++ hexEncode key.secret)
    have hinner := splitn_append hcreated 0 (hexEncode key.secret)
    exact houter.trans (congrArg _ hinner)
  unfold parseKey
  rw [hparts]
  show (do
    let id ← need "bad id" (parseU32 (decimal key.id.toNat))
    let created ← need "bad timestamp" (parseI64 (decimalI64 key.created))
    match hexDecode (hexEncode key.secret) with
    | some secret => (.ok ⟨id, created, secret⟩ : AuthResult Key)
    | none => .error .hexDecode) = _
  rw [parseU32_decimal, parseI64_decimalI64, hexDecode_hexEncode]
  rfl

/-- **What is written to the file of a keyring is read back.** -/
theorem parseKeys_keyLines {keys : List Key} (h : ∀ key ∈ keys, key.Written) :
    parseKeys (lines (keyLines keys)) = .ok keys := by
  induction keys with
  | nil => rfl
  | cons key keys ih =>
    have hkey := h key List.mem_cons_self
    have hnewline : '\n' ∉ (keyLine key).toList := not_mem_keyLine (by decide) (by decide)
    have hlast : (keyLine key).toList.getLast? ≠ some '\r' := fun hreturn =>
      not_mem_keyLine (by decide) (by decide) (List.mem_of_getLast? hreturn)
    rw [keyLines, lines_append hnewline hlast, parseKeys, trim_keyLine hkey]
    have hne : keyLine key ≠ "" := by
      intro hempty
      have hlist := keyLine_toList key
      rw [hempty] at hlist
      simp at hlist
    rw [if_neg hne, parseKey_keyLine, ih fun key hmem => h key (List.mem_cons_of_mem _ hmem)]
    rfl

theorem AuthResult.bind_eq_ok {α β : Type} {x : AuthResult α} {f : α → AuthResult β} {b : β} :
    (x >>= f) = .ok b ↔ ∃ a, x = .ok a ∧ f a = .ok b := by
  cases x with
  | error e =>
    constructor
    · exact fun h => nomatch h
    · rintro ⟨a, h, -⟩
      cases h
  | ok a =>
    constructor
    · exact fun h => ⟨a, rfl, h⟩
    · rintro ⟨a', h, hf⟩
      rw [Except.ok.inj h]
      exact hf

theorem need_eq_ok {α : Type} {what : String} {o : Option α} {a : α} :
    need what o = .ok a ↔ o = some a := by
  cases o with
  | none =>
    constructor
    · exact fun h => nomatch h
    · exact fun h => nomatch h
  | some b =>
    constructor
    · exact fun h => congrArg some (Except.ok.inj h)
    · exact fun h => congrArg Except.ok (Option.some.inj h)

/-- Trimmed text does not end in white space. -/
theorem getLast_trim {s : String} {c : Char} (h : (trim s).toList.getLast? = some c) :
    isWhitespace c = false := by
  unfold trim at h
  rw [String.toList_ofList, List.getLast?_reverse] at h
  have hhead := List.head?_dropWhile_not isWhitespace (s.toList.dropWhile isWhitespace).reverse
  rw [h] at hhead
  simpa using hhead

/-- A key that is read from a trimmed line has a secret. -/
theorem written_of_parseKey {line : String} {key : Key} (h : parseKey (trim line) = .ok key) :
    key.Written := by
  unfold parseKey at h
  obtain ⟨id, -, h⟩ := AuthResult.bind_eq_ok.mp h
  obtain ⟨id, -, h⟩ := AuthResult.bind_eq_ok.mp h
  obtain ⟨created, -, h⟩ := AuthResult.bind_eq_ok.mp h
  obtain ⟨created, -, h⟩ := AuthResult.bind_eq_ok.mp h
  obtain ⟨secret, hsecret, h⟩ := AuthResult.bind_eq_ok.mp h
  rw [need_eq_ok] at hsecret
  cases hdecode : hexDecode secret with
  | none =>
    rw [hdecode] at h
    cases h
  | some bytes =>
    rw [hdecode] at h
    rw [← Except.ok.inj h]
    rintro rfl
    -- the third part would be empty, and the line end in the space before it
    rw [hexDecode_eq_nil hdecode] at hsecret
    cases hfirst : splitOnce ' ' (trim line) with
    | none =>
      rw [splitn_of_none hfirst 1] at hsecret
      cases hsecret
    | some first =>
      obtain ⟨a, rest⟩ := first
      rw [splitn_of_some hfirst 1] at hsecret
      cases hsecond : splitOnce ' ' rest with
      | none =>
        rw [splitn_of_none hsecond 0] at hsecret
        cases hsecret
      | some second =>
        obtain ⟨b, last⟩ := second
        rw [splitn_of_some hsecond 0] at hsecret
        have hlast : last = "" := Option.some.inj hsecret
        have htext := eq_of_splitOnce hfirst
        rw [eq_of_splitOnce hsecond, hlast] at htext
        have hspace : (trim line).toList.getLast? = some ' ' := by
          rw [htext, show a.toList ++ ' ' :: (b.toList ++ ' ' :: "".toList)
            = (a.toList ++ ' ' :: b.toList) ++ [' '] by simp, List.getLast?_concat]
        exact absurd (getLast_trim hspace) (by decide)

theorem written_of_parseKeys {lines : List String} {keys : List Key}
    (h : parseKeys lines = .ok keys) : ∀ key ∈ keys, key.Written := by
  induction lines generalizing keys with
  | nil =>
    rw [← Except.ok.inj h]
    exact fun key hmem => nomatch hmem
  | cons line lines ih =>
    rw [parseKeys] at h
    split at h
    · exact ih h
    · obtain ⟨key, hkey, h⟩ := AuthResult.bind_eq_ok.mp h
      obtain ⟨rest, hrest, h⟩ := AuthResult.bind_eq_ok.mp h
      rw [← Except.ok.inj h]
      intro key' hmem
      rcases List.mem_cons.mp hmem with rfl | hmem
      · exact written_of_parseKey hkey
      · exact ih hrest key' hmem

/-- **Every key in a file has a secret.** -/
theorem written_of_parseFile {file : KeyringFile} {keys : List Key}
    (h : parseFile file = .ok keys) :
    ∀ key ∈ keys, key.Written := by
  cases file with
  | absent =>
    rw [← Except.ok.inj h]
    exact fun key hmem => nomatch hmem
  | unreadable text => cases h
  | text contents => exact written_of_parseKeys h

/-! ## A keyring that can be used -/

/-- Nothing fails that has to do with keyrings. -/
structure Machine.Usable (machine : Machine) : Prop where
  dir : machine.dirError = none
  lock : machine.lockError = none
  save : machine.saveError = none

namespace Keyring

theorem findRecent_mem {now : Int64} {keys : List Key} {k : Key}
    (h : findRecent now keys = some k) : k ∈ keys := by
  have hfold : ∀ (ks : List Key) (best : Option Key), (∀ b, best = some b → b ∈ keys) →
      (∀ k ∈ ks, k ∈ keys) → ∀ k, ks.foldl (fun best k =>
        match best with
        | none => some k
        | some b => if b.created ≤ k.created then some k else some b) best = some k → k ∈ keys := by
    intro ks
    induction ks with
    | nil => exact fun best hbest _ k hk => hbest k hk
    | cons k ks ih =>
      intro best hbest hks
      refine ih _ ?_ fun k hk => hks k (List.mem_cons_of_mem _ hk)
      intro b hb
      cases best with
      | none =>
        rw [← Option.some.inj hb]
        exact hks k List.mem_cons_self
      | some best =>
        dsimp only at hb
        split at hb
        · rw [← Option.some.inj hb]
          exact hks k List.mem_cons_self
        · rw [← Option.some.inj hb]
          exact hbest best rfl
  exact hfold _ none (fun b hb => nomatch hb) (fun k hk => List.mem_of_mem_filter hk) k h

theorem load_eq {machine : Machine} (h : machine.Usable) {disk : Disk} {home context : String}
    {keys : List Key} (hkeys : parseFile (disk home context) = .ok keys) :
    load machine disk home context = .ok ⟨home, context, keys⟩ := by
  unfold load
  rw [h.dir, hkeys]
  rfl

theorem hexKey_isSome (home context : String) {keys : List Key} {id : UInt32}
    (h : ∃ k ∈ keys, k.id = id) : ∃ hex, hexKey ⟨home, context, keys⟩ id = some hex := by
  obtain ⟨k, hk, hid⟩ := h
  have hfind : (keys.find? fun k => k.id == id).isSome := by
    rw [List.find?_isSome]
    exact ⟨k, hk, beq_iff_eq.mpr hid⟩
  obtain ⟨found, hfound⟩ := Option.isSome_iff_exists.mp hfind
  exact ⟨hexEncode found.secret, by unfold hexKey; rw [hfound]; rfl⟩

/-- **The key that is handed out is in the file afterwards.** -/
theorem bestKey_eq {machine : Machine} (h : machine.Usable) {disk : Disk} {home context : String}
    {keys : List Key} (hkeys : parseFile (disk home context) = .ok keys) :
    ∃ id disk' keys', bestKey machine disk ⟨home, context, keys⟩ = .ok (id, disk') ∧
      parseFile (disk' home context) = .ok keys' ∧ ∃ k ∈ keys', k.id = id := by
  unfold bestKey
  cases hrecent : findRecent (machine.clock 0) keys with
  | some k => exact ⟨k.id, disk, keys, rfl, hkeys, k, findRecent_mem hrecent, rfl⟩
  | none =>
    have hreread : reread disk ⟨home, context, keys⟩ = .ok keys := by
      unfold reread
      dsimp only
      split
      · rfl
      · exact hkeys
    have hlock : ∀ {α : Type} (f : AuthResult α), withLock machine f = f := by
      intro α f
      unfold withLock
      rw [h.lock]
    rw [hlock, hreread]
    show ∃ id disk' keys', (match findRecent (machine.clock 1) keys with
      | some k => (.ok (k.id, disk) : AuthResult (UInt32 × Disk))
      | none => makeKey machine disk ⟨home, context, keys⟩ keys) = .ok (id, disk') ∧ _
    cases hagain : findRecent (machine.clock 1) keys with
    | some k => exact ⟨k.id, disk, keys, rfl, hkeys, k, findRecent_mem hagain, rfl⟩
    | none =>
      let kept := pruneExpired (machine.clock 2) keys
      let key : Key := ⟨newId kept machine.lastDraw machine.draws, machine.clock 3,
        machine.secret.toList⟩
      have hwritten : ∀ k ∈ kept ++ [key], k.Written := by
        intro k hk
        rcases List.mem_append.mp hk with hk | hk
        · exact written_of_parseFile hkeys k (List.mem_of_mem_filter hk)
        · rw [List.mem_singleton.mp hk]
          intro hnil
          have hlength : machine.secret.toList.length = 24 := machine.secret.length_toList
          rw [show machine.secret.toList = [] from hnil] at hlength
          cases hlength
      refine ⟨key.id, disk.write home context (keyLines (kept ++ [key])), kept ++ [key], ?_, ?_,
        key, List.mem_append_right _ List.mem_cons_self, rfl⟩
      · show (do
          let disk ← withLock machine (save machine disk home context (kept ++ [key]))
          (.ok (key.id, disk) : AuthResult (UInt32 × Disk))) = _
        rw [hlock, save, h.save]
        rfl
      · unfold Disk.write
        rw [if_pos ⟨rfl, rfl⟩]
        exact parseKeys_keyLines hwritten

end Keyring

end Oxibus
