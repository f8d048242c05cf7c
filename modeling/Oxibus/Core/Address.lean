import Oxibus.Core.Types
import Oxibus.Lib.Percent

/-!
# Addresses

Where a bus listens, as text: a transport, and entries that are separated by
commas. Several addresses stand in one text with semicolons between them. What
an entry says is percent-encoded, so that no separator comes from it – for the
three Unix transports (`parseOne_toAddressString`). The host of a TCP address is
written as it is and read as it is, so a host with a comma or a semicolon in it
falls apart when the address is read again, and only these do
(`parseList_joinAddresses_iff`).
-/

namespace Oxibus

/-- **An address.** -/
inductive Address where
  /-- A socket of the file system. -/
  | unixPath (path : String)
  /-- A socket of the abstract name space. -/
  | unixAbstract (name : String)
  /-- A socket of a fresh name in a directory. -/
  | unixTmpdir (dir : String)
  /-- A port of a host. -/
  | tcp (host : String) (port : UInt16)
  /-- The sockets that systemd passes on. -/
  | systemd
  deriving DecidableEq, Repr

/-! ## Escaping -/

/-- The bytes that stand for themselves. -/
def isSafe (b : UInt8) : Bool := isPathByte b || b == 45 || b == 47 || b == 46 || b == 92

/-- A text with its other bytes as triplets. -/
def escape (s : String) : String := String.ofList (percentEncode isSafe (asBytes s))

/-- A text with its triplets as bytes. -/
def unescape (s : String) : String := fromUtf8Lossy (percentDecode (asBytes s))

theorem isSafe_toNat_lt {b : UInt8} (h : isSafe b = true) : b.toNat < 128 := by
  have hall : ∀ n < 256, isSafe (UInt8.ofNat n) = true → n < 128 := by decide +kernel
  have hb := hall b.toNat b.toNat_lt
  rw [UInt8.ofNat_toNat] at hb
  exact hb h

/-- The bytes of an escaped text. -/
theorem asBytes_escape (s : String) :
    asBytes (escape s) = (percentEncode isSafe (asBytes s)).map asciiByte :=
  asBytes_ofList fun _ hc => isAscii_iff_utf8Size.mp
    (isAscii_of_mem_percentEncode (fun _ => isSafe_toNat_lt) hc)

/-- **What is escaped is read back.** -/
theorem unescape_escape (s : String) : unescape (escape s) = s := by
  rw [unescape, asBytes_escape,
    percentDecode_percentEncode (by decide) (fun _ => isSafe_toNat_lt), fromUtf8Lossy_asBytes]

/-- The characters of an escaped text that stand for themselves: the ASCII
letters and digits, and five more. -/
def isPlain (c : Char) : Bool :=
  c.isAlphanum || c == '-' || c == '_' || c == '/' || c == '.' || c == '\\'

theorem isPlain_of_isSafe {b : UInt8} (h : isSafe b = true) :
    isPlain (Char.ofNat b.toNat) = true := by
  have hall : ∀ n < 256, isSafe (UInt8.ofNat n) = true → isPlain (Char.ofNat n) = true := by
    decide +kernel
  exact hall b.toNat b.toNat_lt (by rw [UInt8.ofNat_toNat]; exact h)

/-- **No separator comes from an escaped text.** -/
theorem not_mem_escape {c : Char} (hc : c = ':' ∨ c = ';' ∨ c = ',' ∨ c = '=') (s : String) :
    c ∉ (escape s).toList := by
  rw [escape, String.toList_ofList]
  refine not_mem_percentEncode (fun _ => isPlain_of_isSafe) ?_ ?_ ?_ (asBytes s)
  · rcases hc with rfl | rfl | rfl | rfl <;> decide
  · rcases hc with rfl | rfl | rfl | rfl <;> decide
  · rcases hc with rfl | rfl | rfl | rfl <;> decide

/-- **Escaping loses nothing and brings no separator in**: a text is read back, and what is
written for it are plain characters and triplets. -/
theorem escape_spec (s : String) :
    unescape (escape s) = s ∧ PercentText isPlain (escape s).toList ∧
      ':' ∉ (escape s).toList ∧ ';' ∉ (escape s).toList ∧ ',' ∉ (escape s).toList ∧
        '=' ∉ (escape s).toList := by
  refine ⟨unescape_escape s, ?_, not_mem_escape (.inl rfl) s, not_mem_escape (.inr (.inl rfl)) s,
    not_mem_escape (.inr (.inr (.inl rfl))) s, not_mem_escape (.inr (.inr (.inr rfl))) s⟩
  rw [escape, String.toList_ofList]
  exact percentText_percentEncode (fun _ => isPlain_of_isSafe) (asBytes s)

/-! ## Reading and writing -/

/-- The number that a text says, after an optional `+`, if it fits in 16 bits:
`parse::<u16>`. -/
def parseU16 (s : String) : Option UInt16 :=
  let digits := match s.toList with
    | '+' :: rest => rest
    | cs => cs
  (parseDigits digits).bind fun n => if n < 2 ^ 16 then some (UInt16.ofNat n) else none

/-- The entries among the pieces of a text, the latest first: a map, in which
the latest entry of a key counts. -/
def parsePairs (rest : String) :
    List String → List (String × String) → CoreResult (List (String × String))
  | [], map => .ok map
  | pair :: pairs, map =>
    if pair = "" then parsePairs rest pairs map
    else
      match splitOnce '=' pair with
      | none => .err (.invalidAddress rest)
      | some (k, v) => parsePairs rest pairs ((k, v) :: map)

/-- The entries of an address. -/
def parseKv (rest : String) : CoreResult (List (String × String)) :=
  parsePairs rest (split ',' rest) []

namespace Address

/-- The address of a transport and its entries, `s` being the whole text. -/
def ofEntries (s transport : String) (kv : List (String × String)) : CoreResult Address :=
  if transport = "unix" then
    match kv.lookup "path", kv.lookup "abstract", kv.lookup "tmpdir" with
    | some path, _, _ => .ok (.unixPath (unescape path))
    | none, some name, _ => .ok (.unixAbstract (unescape name))
    | none, none, some dir => .ok (.unixTmpdir (unescape dir))
    | none, none, none => .err (.invalidAddress s)
  else if transport = "tcp" then
    let host := (kv.lookup "host").getD "localhost"
    match kv.lookup "port" with
    | none => .err (.invalidAddress s)
    | some text =>
      match parseU16 text with
      | none => .err (.invalidAddress s)
      | some port => .ok (.tcp host port)
  else .err (.invalidAddress ("unsupported transport '" ++ transport ++ "' in '" ++ s ++ "'"))

/-- **The address that a text says.** -/
def parseOne (s : String) : CoreResult Address :=
  if s = "systemd:" then .ok .systemd
  else
    match splitOnce ':' s with
    | none => .err (.invalidAddress s)
    | some (transport, rest) => do
      let kv ← parseKv rest
      ofEntries s transport kv

/-- **The addresses that a text says**, between semicolons. -/
def parseList (s : String) : CoreResult (List Address) :=
  ((split ';' s).filter (· ≠ "")).mapM parseOne

/-- **The text of an address.** -/
def toAddressString : Address → String
  | unixPath path => "unix:path=" ++ escape path
  | unixAbstract name => "unix:abstract=" ++ escape name
  | unixTmpdir dir => "unix:tmpdir=" ++ escape dir
  | tcp host port => "tcp:host=" ++ host ++ ",port=" ++ decimal port.toNat
  | systemd => "systemd:"

/-- The text of several addresses. -/
def joinAddresses (addresses : List Address) : String :=
  ";".intercalate (addresses.map toAddressString)

/-! ## An address is read back -/

/-- What stands before the colon. -/
def transport : Address → String
  | tcp _ _ => "tcp"
  | systemd => "systemd"
  | _ => "unix"

/-- What stands after it. -/
def entries : Address → List (String × String)
  | unixPath path => [("path", escape path)]
  | unixAbstract name => [("abstract", escape name)]
  | unixTmpdir dir => [("tmpdir", escape dir)]
  | tcp host port => [("host", host), ("port", decimal port.toNat)]
  | systemd => []

/-- The text of an entry. -/
def entryText (entry : String × String) : String := entry.1 ++ "=" ++ entry.2

theorem toAddressString_eq (a : Address) :
    a.toAddressString = a.transport ++ ":" ++ ",".intercalate (a.entries.map entryText) := by
  apply String.toList_inj.mp
  cases a with
  | unixPath path => simp [toAddressString, transport, entries, entryText]
  | unixAbstract name => simp [toAddressString, transport, entries, entryText]
  | unixTmpdir dir => simp [toAddressString, transport, entries, entryText]
  | tcp host port => simp [toAddressString, transport, entries, entryText]
  | systemd => rfl

/-- **An entry whose text is read as the entry.** -/
structure EntryPlain (key value : String) : Prop where
  key : '=' ∉ key.toList ∧ ',' ∉ key.toList
  value : ',' ∉ value.toList

theorem parsePairs_entries {entries : List (String × String)}
    (h : ∀ e ∈ entries, EntryPlain e.1 e.2)
    (rest : String) (map : List (String × String)) :
    parsePairs rest (entries.map entryText) map = .ok (entries.reverse ++ map) := by
  induction entries generalizing map with
  | nil => rfl
  | cons e entries ih =>
    obtain ⟨he, hentries⟩ := List.forall_mem_cons.mp h
    have hne : entryText e ≠ "" := by
      intro heq
      have hlist := congrArg String.toList heq
      simp [entryText] at hlist
    rw [List.map_cons, parsePairs, if_neg hne]
    have hsplit : splitOnce '=' (entryText e) = some (e.1, e.2) := splitOnce_append he.key.1 e.2
    rw [hsplit]
    show parsePairs rest (entries.map entryText) (e :: map) = _
    rw [ih hentries, List.reverse_cons, List.append_assoc, List.singleton_append]

/-- Entries are read back, in the order in which the latest counts. -/
theorem parseKv_entries {entries : List (String × String)} (hne : entries ≠ [])
    (h : ∀ e ∈ entries, EntryPlain e.1 e.2) :
    parseKv (",".intercalate (entries.map entryText)) = .ok entries.reverse := by
  have hmap : entries.map entryText ≠ [] := fun heq => hne (List.map_eq_nil_iff.mp heq)
  have hcomma : ∀ text ∈ entries.map entryText, ',' ∉ text.toList := by
    refine List.forall_mem_map.mpr fun e he hmem => ?_
    simp only [entryText, String.toList_append, List.mem_append] at hmem
    rcases hmem with (hmem | hmem) | hmem
    · exact (h e he).key.2 hmem
    · exact absurd hmem (by decide)
    · exact (h e he).value hmem
  have hsep : "," = String.singleton ',' := rfl
  rw [parseKv, hsep, split_intercalate hmap hcomma, parsePairs_entries h, List.append_nil]

/-- The host, if there is one, has no comma in it. -/
def HostPlain : Address → Prop
  | tcp host _ => ',' ∉ host.toList
  | _ => True

theorem entryPlain_of_mem {a : Address} (h : a.HostPlain) :
    ∀ e ∈ a.entries, EntryPlain e.1 e.2 := by
  have hunix : ∀ key ∈ ["path", "abstract", "tmpdir"], ∀ text, EntryPlain key (escape text) := by
    intro key hkey text
    simp only [List.mem_cons, List.not_mem_nil, or_false] at hkey
    refine ⟨?_, not_mem_escape (.inr (.inr (.inl rfl))) text⟩
    rcases hkey with rfl | rfl | rfl <;> decide
  cases a with
  | unixPath path => exact List.forall_mem_singleton.mpr (hunix "path" (by decide) path)
  | unixAbstract name => exact List.forall_mem_singleton.mpr (hunix "abstract" (by decide) name)
  | unixTmpdir dir => exact List.forall_mem_singleton.mpr (hunix "tmpdir" (by decide) dir)
  | systemd => exact fun e he => absurd he List.not_mem_nil
  | tcp host port =>
    have hhost : EntryPlain "host" host := ⟨by decide, h⟩
    have hport : EntryPlain "port" (decimal port.toNat) :=
      ⟨by decide, fun hmem => absurd (isDigit_of_mem_decimal hmem) (by decide)⟩
    exact List.forall_mem_cons.mpr ⟨hhost, List.forall_mem_singleton.mpr hport⟩

theorem transport_cases (a : Address) :
    a.transport = "unix" ∨ a.transport = "tcp" ∨ a.transport = "systemd" := by
  cases a with
  | tcp => exact .inr (.inl rfl)
  | systemd => exact .inr (.inr rfl)
  | _ => exact .inl rfl

theorem splitOnce_toAddressString (a : Address) : splitOnce ':' a.toAddressString
    = some (a.transport, ",".intercalate (a.entries.map entryText)) := by
  have hcolon : ':' ∉ a.transport.toList := by
    rcases a.transport_cases with h | h | h <;> rw [h] <;> decide
  rw [toAddressString_eq, show ":" = String.singleton ':' from rfl, splitOnce_append hcolon]

theorem toAddressString_ne_systemd {a : Address} (ha : a.transport ≠ "systemd") :
    a.toAddressString ≠ "systemd:" := by
  intro heq
  have hsplit := splitOnce_toAddressString a
  rw [heq, show splitOnce ':' "systemd:" = some ("systemd", "") by decide] at hsplit
  exact ha (congrArg Prod.fst (Option.some.inj hsplit)).symm

/-- Only the address of systemd has no entries, and only its transport is that. -/
theorem of_ne_systemd {a : Address} (ha : a ≠ systemd) :
    a.transport ≠ "systemd" ∧ a.entries ≠ [] := by
  have hunix : "unix" ≠ "systemd" := by decide
  have htcp : "tcp" ≠ "systemd" := by decide
  cases a with
  | systemd => exact absurd rfl ha
  | tcp host port => exact ⟨htcp, List.cons_ne_nil _ _⟩
  | _ => exact ⟨hunix, List.cons_ne_nil _ _⟩

/-- What is read of an address with entries. -/
theorem parseOne_of_entries {a : Address} (ha : a ≠ systemd) (h : a.HostPlain) :
    parseOne a.toAddressString
      = ofEntries a.toAddressString a.transport a.entries.reverse := by
  obtain ⟨htransport, hne⟩ := of_ne_systemd ha
  rw [parseOne, if_neg (toAddressString_ne_systemd htransport), splitOnce_toAddressString]
  show (parseKv _ >>= _) = _
  rw [parseKv_entries hne (entryPlain_of_mem h), Outcome.ok_bind]

/-- **A port is read back.** -/
theorem parseU16_decimal (n : UInt16) : parseU16 (decimal n.toNat) = some n := by
  have hparse := parseDigits_decimal n.toNat
  unfold parseU16
  split
  · next rest heq => exact absurd heq (decimal_ne_sign (by decide) n.toNat rest)
  · show (parseDigits (decimal n.toNat).toList).bind _ = _
    rw [hparse]
    show (if n.toNat < 2 ^ 16 then some (UInt16.ofNat n.toNat) else none) = some n
    rw [if_pos n.toNat_lt, UInt16.ofNat_toNat]

/-- **An address is read back**, if its host has no comma in it. -/
theorem parseOne_toAddressString {a : Address} (h : a.HostPlain) :
    parseOne a.toAddressString = .ok a := by
  cases a with
  | systemd => rfl
  | unixPath path =>
    rw [parseOne_of_entries Address.noConfusion h]
    show Outcome.ok (unixPath (unescape (escape path))) = _
    rw [unescape_escape]
  | unixAbstract name =>
    rw [parseOne_of_entries Address.noConfusion h]
    show Outcome.ok (unixAbstract (unescape (escape name))) = _
    rw [unescape_escape]
  | unixTmpdir dir =>
    rw [parseOne_of_entries Address.noConfusion h]
    show Outcome.ok (unixTmpdir (unescape (escape dir))) = _
    rw [unescape_escape]
  | tcp host port =>
    rw [parseOne_of_entries Address.noConfusion h]
    show (match parseU16 (decimal port.toNat) with
      | none => Outcome.err _
      | some port => Outcome.ok (tcp host port)) = _
    rw [parseU16_decimal]

/-! ## What is read has no separators -/

/-- What is in the map came from a piece. -/
theorem mem_of_parsePairs {rest : String} {pairs : List String} {map kv : List (String × String)}
    (h : parsePairs rest pairs map = .ok kv) {entry : String × String} (he : entry ∈ kv) :
    entry ∈ map ∨ ∃ pair ∈ pairs, splitOnce '=' pair = some entry := by
  induction pairs generalizing map with
  | nil =>
    rw [parsePairs] at h
    exact .inl (Outcome.ok.inj h ▸ he)
  | cons pair pairs ih =>
    have hlater : ∀ {map}, parsePairs rest pairs map = .ok kv → entry ∈ map ∨
        ∃ pair' ∈ pair :: pairs, splitOnce '=' pair' = some entry := fun h =>
      (ih h).imp_right fun ⟨pair', hpair', heq⟩ => ⟨pair', List.mem_cons_of_mem pair hpair', heq⟩
    rw [parsePairs] at h
    split at h
    · exact hlater h
    · split at h
      · cases h
      · next k v hsplit =>
        rcases hlater h with hmem | hmem
        · rcases List.mem_cons.mp hmem with rfl | hmem
          · exact .inr ⟨pair, List.mem_cons_self, hsplit⟩
          · exact .inl hmem
        · exact .inr hmem

/-- A value that is read stood in the text, and has no comma in it. -/
theorem value_of_parseKv {rest : String} {kv : List (String × String)} (h : parseKv rest = .ok kv)
    {entry : String × String} (he : entry ∈ kv) {c : Char} (hc : c ∈ entry.2.toList) :
    c ∈ rest.toList ∧ c ≠ ',' := by
  rcases mem_of_parsePairs h he with hmem | ⟨pair, hpair, hsplit⟩
  · exact absurd hmem List.not_mem_nil
  · refine mem_of_mem_split hpair ?_
    rw [eq_of_splitOnce (a := entry.1) (b := entry.2) hsplit]
    exact List.mem_append_right _ (List.mem_cons_of_mem _ hc)

/-- **A host that is read** stood in the text, and has no comma in it, or it is the default. -/
theorem host_of_parseOne {s host : String} {port : UInt16} (h : parseOne s = .ok (tcp host port))
    {c : Char} (hc : c ∈ host.toList) : (c ∈ s.toList ∧ c ≠ ',') ∨ c ∈ "localhost".toList := by
  unfold parseOne at h
  split at h
  · cases h
  split at h
  · cases h
  next transport rest hsplit =>
  obtain ⟨kv, hkv, h⟩ := Outcome.bind_eq_ok.mp h
  have hhost : host = (kv.lookup "host").getD "localhost" := by
    unfold ofEntries at h
    split at h
    · split at h <;> cases h
    split at h
    · dsimp only at h
      split at h
      · cases h
      · split at h
        · cases h
        · exact (tcp.inj (Outcome.ok.inj h)).1.symm
    · cases h
  cases hlookup : kv.lookup "host" with
  | none =>
    rw [hlookup] at hhost
    obtain rfl : host = "localhost" := hhost
    exact .inr hc
  | some value =>
    rw [hlookup] at hhost
    obtain rfl : host = value := hhost
    obtain ⟨l₁, l₂, hmem, -⟩ := List.lookup_eq_some_iff.mp hlookup
    have hentry : ("host", host) ∈ kv := by
      rw [hmem]
      exact List.mem_append_right _ List.mem_cons_self
    obtain ⟨hrest, hne⟩ := value_of_parseKv hkv hentry hc
    refine .inl ⟨?_, hne⟩
    rw [eq_of_splitOnce hsplit]
    exact List.mem_append_right _ (List.mem_cons_of_mem _ hrest)

theorem host_of_parseList {s : String} {addresses : List Address}
    (h : parseList s = .ok addresses) {host : String} {port : UInt16}
    (hmem : tcp host port ∈ addresses) : ',' ∉ host.toList ∧ ';' ∉ host.toList := by
  obtain ⟨piece, hpiece, hone⟩ := Outcome.exists_of_mem_mapM h hmem
  have hpiece : piece ∈ split ';' s := List.mem_of_mem_filter hpiece
  constructor
  · intro hc
    rcases host_of_parseOne hone hc with ⟨-, hne⟩ | hlocal
    · exact hne rfl
    · exact absurd hlocal (by decide)
  · intro hc
    rcases host_of_parseOne hone hc with ⟨hin, -⟩ | hlocal
    · exact (mem_of_mem_split hpiece hin).2 rfl
    · exact absurd hlocal (by decide)

/-- What stands between two semicolons is no semicolon. -/
theorem not_mem_toAddressString {a : Address}
    (h : ∀ host port, a = tcp host port → ';' ∉ host.toList) :
    ';' ∉ a.toAddressString.toList := by
  have hdecimal : ∀ n, ';' ∉ (decimal n).toList := fun n hmem =>
    absurd (isDigit_of_mem_decimal hmem) (by decide)
  have hescape := not_mem_escape (c := ';') (.inr (.inl rfl))
  cases a with
  | unixPath path => simp [toAddressString, hescape]
  | unixAbstract name => simp [toAddressString, hescape]
  | unixTmpdir dir => simp [toAddressString, hescape]
  | tcp host port => simp [toAddressString, hdecimal, h host port rfl]
  | systemd => decide

/-- The addresses of a list stand between its semicolons. -/
theorem filter_split_joinAddresses {addresses : List Address}
    (h : ∀ host port, tcp host port ∈ addresses → ';' ∉ host.toList) :
    (split ';' (joinAddresses addresses)).filter (· ≠ "") = addresses.map toAddressString := by
  rcases eq_or_ne addresses [] with rfl | hne
  · rfl
  have hmap : addresses.map toAddressString ≠ [] := fun heq => hne (List.map_eq_nil_iff.mp heq)
  have hsemicolon : ∀ text ∈ addresses.map toAddressString, ';' ∉ text.toList := by
    refine List.forall_mem_map.mpr fun a ha => not_mem_toAddressString ?_
    rintro host port rfl
    exact h host port ha
  rw [joinAddresses, show ";" = String.singleton ';' from rfl, split_intercalate hmap hsemicolon,
    List.filter_eq_self]
  refine List.forall_mem_map.mpr fun a _ => decide_eq_true fun heq => ?_
  have hsplit := splitOnce_toAddressString a
  rw [heq] at hsplit
  cases hsplit

/-- **Addresses are read back exactly if their hosts have no separators in them**: neither a
comma nor a semicolon. -/
theorem parseList_joinAddresses_iff (addresses : List Address) :
    (parseList (joinAddresses addresses) = .ok addresses ∧
        ∀ a ∈ addresses, parseOne a.toAddressString = .ok a) ↔
      ∀ host port, tcp host port ∈ addresses → ',' ∉ host.toList ∧ ';' ∉ host.toList := by
  constructor
  · rintro ⟨h, -⟩ host port hmem
    exact host_of_parseList h hmem
  · intro h
    have hone : ∀ a ∈ addresses, parseOne a.toAddressString = .ok a := by
      intro a ha
      refine parseOne_toAddressString ?_
      cases a with
      | tcp host port => exact (h host port ha).1
      | _ => trivial
    refine ⟨?_, hone⟩
    rw [parseList, filter_split_joinAddresses fun host port hmem => (h host port hmem).2,
      Outcome.mapM_eq_ok, List.forall₂_map_left_iff, List.forall₂_same]
    exact hone

/-- A host with a semicolon in it is read as two addresses, and neither is one. -/
theorem not_parseList_joinAddresses : ¬ ∀ addresses,
    parseList (joinAddresses addresses) = .ok addresses ∧
      ∀ a ∈ addresses, parseOne a.toAddressString = .ok a := by
  intro h
  have hcut := (h [tcp "a;b" 80]).1
  exact absurd hcut (by decide +kernel)

end Address

end Oxibus
