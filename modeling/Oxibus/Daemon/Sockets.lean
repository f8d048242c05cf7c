import Oxibus.Core.Address
import Oxibus.Lib.Slots
import Oxibus.Daemon.LaunchHelper

/-!
# The sockets of daemons

A daemon binds its addresses one after the other and prints each of them as
text; whoever is given the text connects to what it says. Between the two
stands the file system: the socket of a path is a file that stays when its
daemon is gone, so a daemon that binds a path takes away what it finds there,
one that ends takes away what is at its paths then, and a tool takes away
sockets that nobody listens at. None of them can tell whose file it removes.

`Host.step` is what one of these programs does next, in any order. A text
leads to the daemon that has printed it as long as nobody is at odds about a
place: no daemon binds a path that a live one holds, and nothing is bound at a
place that the tool has found dead and is about to clear (`Host.isPeaceful`).
For buses of sessions, which bind fresh names in a directory, the first cannot
be: nothing is taken away for a fresh name, and a name that is there is not
bound (`Host.Modest`).

The texts are lines of the standard output of a daemon, and so are its process number
and what it logs. A launcher reads the first line there is, which is an address only
if nothing else was written before.

Paths are told apart by the places they lead to, which is a parameter.
-/

namespace Oxibus

namespace Sockets

/-- What somebody else has left at a place: a socket at which a program listens, one at which
nobody does, or no socket. -/
inductive Foreign where
  | listening
  | stale
  | noSocket
  deriving DecidableEq, Repr

/-- **What is at a place**: a socket with the daemon that has bound it and the number of the
address, or what is of none of the daemons. -/
inductive Entry where
  | socket (process listener : ℕ)
  | foreign (what : Foreign)
  deriving DecidableEq, Repr

/-- **How far a daemon is.** -/
inductive Phase where
  /-- It has addresses to bind; whether the place of the next one has been cleared. -/
  | starting (left : List Address) (cleared : Bool)
  | running
  /-- It removes its sockets, from this address on. -/
  | stopping (next : ℕ)
  | dead
  deriving DecidableEq, Repr

/-- **What a daemon writes to its standard output**: the line of an address, or something else,
which is what it logs or the number of its process. -/
inductive Output where
  | address (a : Address)
  | note (text : String)
  deriving DecidableEq, Repr

/-- **A daemon**, with the effective addresses it has bound, and what it has written. -/
structure Process where
  phase : Phase
  bound : List Address
  printed : List Output
  deriving DecidableEq, Repr

/-- Whom a client reaches: a daemon, and which of its addresses, or another program. -/
inductive Peer where
  | daemon (process listener : ℕ)
  | stranger
  deriving DecidableEq, Repr

/-- **A host**: its files, the abstract names, the daemons that were ever started, and the
paths that a tool has found dead. -/
structure Host where
  files : String → Option Entry
  abstracts : String → Option (ℕ × ℕ)
  processes : List Process
  doomed : List String

/-- What one of the programs does. -/
inductive Event where
  | start (addresses : List Address)
  /-- A daemon clears the place of the path that it binds next, or fails to. -/
  | clear (i : ℕ) (removes : Bool)
  /-- A daemon binds its next address and prints it; the bytes are those of a fresh name. -/
  | bind (i : ℕ) (raw : Vector UInt8 16)
  /-- A daemon writes something else to its standard output. -/
  | note (i : ℕ) (text : String)
  /-- A daemon is asked to end. -/
  | terminate (i : ℕ)
  /-- A daemon that ends removes the file at its next path, or fails to. -/
  | remove (i : ℕ) (removes : Bool)
  | exit (i : ℕ)
  /-- A daemon ends without removing anything: it was killed, or could not bind an address. -/
  | crash (i : ℕ)
  /-- The tool is refused at a path. -/
  | probe (path : String)
  /-- The tool removes the file at a path where it was refused, or fails to. -/
  | cleanup (path : String) (removes : Bool)
  deriving DecidableEq, Repr

namespace Process

def isLive (p : Process) : Bool := p.phase != .dead

/-- **Whether a daemon still holds an address**: it has not removed its socket and is not
gone. -/
def holds (p : Process) (k : ℕ) : Bool :=
  match p.phase with
  | .starting _ _ => true
  | .running => true
  | .stopping next => decide (next ≤ k)
  | .dead => false

/-- The addresses that were printed. -/
def addresses (p : Process) : List Address :=
  p.printed.filterMap fun
    | .address a => some a
    | .note _ => none

end Process

/-- How a daemon goes on with these addresses left. -/
def Phase.before : List Address → Phase
  | [] => .running
  | a :: left => .starting (a :: left) false

/-- An address more is bound and printed. -/
def Process.binds (p : Process) (a : Address) (left : List Address) : Process :=
  ⟨Phase.before left, p.bound ++ [a], p.printed ++ [.address a]⟩

namespace Host

variable (place : String → String)

/-- At the start there are no daemons; what is at the places is not theirs. -/
def start (occupied : String → Option Foreign) : Host :=
  ⟨fun at' => (occupied at').map .foreign, fun _ => none, [], []⟩

/-- Nothing is at a place any more. -/
def unlink (h : Host) (path : String) : Host :=
  { h with files := fun at' => if at' = place path then none else h.files at' }

/-- Another state of a daemon. -/
def setProcess (h : Host) (i : ℕ) (p : Process) : Host :=
  { h with processes := h.processes.set i p }

/-- A daemon is gone, and its abstract names with it. -/
def bury (h : Host) (i : ℕ) (p : Process) : Host :=
  { h.setProcess i { p with phase := .dead } with
    abstracts := fun name => (h.abstracts name).filter fun l => l.1 != i }

def isLive (h : Host) (i : ℕ) : Bool := (h.processes[i]?).any Process.isLive

/-- A socket is bound at a path, if there is nothing. -/
def bindPath (h : Host) (i : ℕ) (p : Process) (left : List Address) (path : String) :
    Option Host :=
  match h.files (place path) with
  | some _ => none
  | none => some
    { h.setProcess i (p.binds (.unixPath path) left) with
      files := fun at' =>
      if at' = place path then some (.socket i p.bound.length) else h.files at' }

/-- **A daemon binds an address.** -/
def bind (h : Host) (i : ℕ) (p : Process) (a : Address) (left : List Address) (cleared : Bool)
    (raw : Vector UInt8 16) : Option Host :=
  match a with
  | .unixPath path => if cleared then h.bindPath place i p left path else none
  | .unixAbstract name =>
    match h.abstracts name with
    | some _ => none
    | none => some
      { h.setProcess i (p.binds (.unixAbstract name) left) with
        abstracts := fun n => if n = name then some (i, p.bound.length) else h.abstracts n }
  | .unixTmpdir dir =>
    h.bindPath place i p left (LaunchHelper.joinPath dir ("oxibus-" ++ hexEncode raw.toList))
  | .tcp _ _ => none
  | .systemd => some (h.setProcess i (p.binds .systemd left))

/-- **What a program does next**, if it can. -/
def step (h : Host) : Event → Option Host
  | .start addresses =>
      some { h with processes := h.processes ++ [⟨Phase.before addresses, [], []⟩] }
  | .clear i removes =>
    match h.processes[i]? with
    | some ⟨.starting (.unixPath path :: left) false, bound, printed⟩ =>
      let h := h.setProcess i ⟨.starting (.unixPath path :: left) true, bound, printed⟩
      some (if removes then h.unlink place path else h)
    | _ => none
  | .bind i raw =>
    match h.processes[i]? with
    | some ⟨.starting (a :: left) cleared, bound, printed⟩ =>
      h.bind place i ⟨.starting (a :: left) cleared, bound, printed⟩ a left cleared raw
    | _ => none
  | .note i text =>
    match h.processes[i]? with
    | some p =>
      if p.isLive then some (h.setProcess i { p with printed := p.printed ++ [.note text] })
      else none
    | none => none
  | .terminate i =>
    match h.processes[i]? with
    | some ⟨.running, bound, printed⟩ => some (h.setProcess i ⟨.stopping 0, bound, printed⟩)
    | _ => none
  | .remove i removes =>
    match h.processes[i]? with
    | some ⟨.stopping next, bound, printed⟩ =>
      match bound[next]? with
      | some (.unixPath path) =>
        let h := h.setProcess i ⟨.stopping (next + 1), bound, printed⟩
        some (if removes then h.unlink place path else h)
      | some _ => some (h.setProcess i ⟨.stopping (next + 1), bound, printed⟩)
      | none => none
    | _ => none
  | .exit i =>
    match h.processes[i]? with
    | some ⟨.stopping next, bound, printed⟩ =>
      if bound.length ≤ next then some (h.bury i ⟨.stopping next, bound, printed⟩) else none
    | _ => none
  | .crash i =>
    match h.processes[i]? with
    | some p => if p.isLive then some (h.bury i p) else none
    | none => none
  | .probe path =>
    match h.files (place path) with
    | some (.socket i _) => if h.isLive i then none else some { h with doomed := path :: h.doomed }
    | some (.foreign .stale) => some { h with doomed := path :: h.doomed }
    | _ => none
  | .cleanup path removes =>
    if path ∈ h.doomed then
      let h := { h with doomed := h.doomed.erase path }
      some (if removes then h.unlink place path else h)
    else none

def run (h : Host) : List Event → Option Host
  | [] => some h
  | e :: events => (h.step place e).bind fun h => h.run events

/-- **Whom a client reaches at an address.** -/
def connect (h : Host) : Address → Except String Peer
  | .unixPath path =>
    match h.files (place path) with
    | some (.socket i k) => if h.isLive i then .ok (.daemon i k) else .error "Connection refused"
    | some (.foreign .listening) => .ok .stranger
    | some (.foreign _) => .error "Connection refused"
    | none => .error "No such file or directory"
  | .unixAbstract name =>
    match h.abstracts name with
    | some (i, k) => .ok (.daemon i k)
    | none => .error "Connection refused"
  | .unixTmpdir _ =>
    .error "unix:tmpdir= is a listen-only address form (server picks the path)"
  | .tcp _ _ => .error "tcp: transport intentionally unsupported"
  | .systemd =>
    .error "systemd: is a listen-only address form (clients connect to the real socket path)"

/-- The path that a daemon is about to bind, if it binds one. -/
def nextPath (a : Address) (raw : Vector UInt8 16) : Option String :=
  match a with
  | .unixPath path => some path
  | .unixTmpdir dir => some (LaunchHelper.joinPath dir ("oxibus-" ++ hexEncode raw.toList))
  | _ => none

/-- Whether a daemon holds a socket at the place of a path. -/
def isHeld (h : Host) (path : String) : Bool :=
  h.processes.any fun p => p.bound.zipIdx.any fun x => p.holds x.2 &&
    match x.1 with
    | .unixPath path' => place path' == place path
    | _ => false

/-- **Nobody is at odds about a place**: a daemon clears no place that one holds, and binds no
path at a place that the tool is about to clear. -/
def isPeaceful (h : Host) : Event → Bool
  | .clear i _ =>
    match h.processes[i]? with
    | some ⟨.starting (.unixPath path :: _) _, _, _⟩ => !h.isHeld place path
    | _ => true
  | .bind i raw =>
    match h.processes[i]? with
    | some ⟨.starting (a :: _) _, _, _⟩ =>
      (nextPath a raw).all fun path => h.doomed.all fun path' => place path' != place path
    | _ => true
  | _ => true

/-- Nobody ever is. -/
def isPeacefulRun (h : Host) : List Event → Bool
  | [] => true
  | e :: events =>
    h.isPeaceful place e && (h.step place e).all fun h => h.isPeacefulRun events

/-! ## What holds while nobody is at odds -/

/-- A daemon holds a socket at a path, as its address of this number. -/
def Seat (h : Host) (i k : ℕ) (path : String) : Prop :=
  ∃ p, h.processes[i]? = some p ∧ p.holds k = true ∧ p.bound[k]? = some (.unixPath path)

/-- A live daemon has bound an abstract name. -/
def Named (h : Host) (i k : ℕ) (name : String) : Prop :=
  ∃ p, h.processes[i]? = some p ∧ p.isLive = true ∧ p.bound[k]? = some (.unixAbstract name)

/-- **What holds of a host on which nobody is at odds about a place**: what is held is there, and
is not about to be cleared. -/
structure Settled (h : Host) : Prop where
  /-- What a daemon holds is at its place. -/
  seat : ∀ {i k path}, h.Seat i k path → h.files (place path) = some (.socket i k)
  /-- An abstract name is that of the daemon that has bound it. -/
  name : ∀ {i k name}, h.Named i k name → h.abstracts name = some (i, k)
  /-- The tool clears no place that is held. -/
  spared : ∀ {doomed i k path}, doomed ∈ h.doomed → h.Seat i k path → place doomed ≠ place path
  /-- Nothing else is bound. -/
  kinds : ∀ p ∈ h.processes, ∀ a ∈ p.bound,
    (∃ path, a = .unixPath path) ∨ (∃ name, a = .unixAbstract name) ∨ a = .systemd
  /-- What is bound is printed. -/
  told : ∀ p ∈ h.processes, p.addresses = p.bound

variable {place} {h h' : Host} {i j k : ℕ} {p p' : Process} {path name : String}

theorem isLive_of_holds (hp : p.holds k = true) : p.isLive = true := by
  obtain ⟨phase, bound, printed⟩ := p
  cases phase with
  | dead => cases hp
  | _ => rfl

/-- What is held after a daemon has gone on is its own, or was held before. -/
theorem Seat.of_setProcess (hseat : (h.setProcess i p').Seat j k path) :
    (j = i ∧ p'.holds k = true ∧ p'.bound[k]? = some (.unixPath path)) ∨
      (j ≠ i ∧ h.Seat j k path) := by
  obtain ⟨q, hq, hholds, hbound⟩ := hseat
  rcases Slots.getElem?_set_eq_some.mp hq with ⟨rfl, -, rfl⟩ | ⟨hne, hq⟩
  · exact .inl ⟨rfl, hholds, hbound⟩
  · exact .inr ⟨hne.symm, q, hq, hholds, hbound⟩

theorem Named.of_setProcess (hnamed : (h.setProcess i p').Named j k name) :
    (j = i ∧ p'.isLive = true ∧ p'.bound[k]? = some (.unixAbstract name)) ∨
      (j ≠ i ∧ h.Named j k name) := by
  obtain ⟨q, hq, hlive, hbound⟩ := hnamed
  rcases Slots.getElem?_set_eq_some.mp hq with ⟨rfl, -, rfl⟩ | ⟨hne, hq⟩
  · exact .inl ⟨rfl, hlive, hbound⟩
  · exact .inr ⟨hne.symm, q, hq, hlive, hbound⟩

namespace Settled

/-- **A daemon that holds no more than before changes nothing.** -/
theorem setProcess (hs : Settled place h) (hp : h.processes[i]? = some p)
    (hbound : p'.bound = p.bound) (haddresses : p'.addresses = p.addresses)
    (hholds : ∀ k, p'.holds k = true → p.holds k = true)
    (hlive : p'.isLive = true → p.isLive = true) : Settled place (h.setProcess i p') := by
  have hseat : ∀ {j k path}, (h.setProcess i p').Seat j k path → h.Seat j k path := by
    intro j k path hseat
    rcases hseat.of_setProcess with ⟨rfl, hk, hpath⟩ | ⟨-, hseat⟩
    · exact ⟨p, hp, hholds k hk, hbound ▸ hpath⟩
    · exact hseat
  constructor
  · exact fun hnew => hs.seat (hseat hnew)
  · intro j k name hnamed
    rcases hnamed.of_setProcess with ⟨rfl, hk, hname⟩ | ⟨-, hnamed⟩
    · exact hs.name ⟨p, hp, hlive hk, hbound ▸ hname⟩
    · exact hs.name hnamed
  · exact fun hdoomed hnew => hs.spared hdoomed (hseat hnew)
  · intro q hq
    rcases List.mem_or_eq_of_mem_set hq with hq | rfl
    · exact hs.kinds q hq
    · rw [hbound]
      exact hs.kinds p (List.mem_of_getElem? hp)
  · intro q hq
    rcases List.mem_or_eq_of_mem_set hq with hq | rfl
    · exact hs.told q hq
    · rw [hbound, haddresses]
      exact hs.told p (List.mem_of_getElem? hp)

/-- **A file may go that nobody holds.** -/
theorem unlink (hs : Settled place h)
    (hfree : ∀ i k path', h.Seat i k path' → place path' ≠ place path) :
    Settled place (h.unlink place path) := by
  refine ⟨fun {i k path'} hseat => ?_, hs.name, hs.spared, hs.kinds, hs.told⟩
  show (if place path' = place path then none else h.files (place path')) = _
  rw [if_neg (hfree i k path' hseat)]
  exact hs.seat hseat

/-- **A daemon that has bound one address more.** -/
theorem bound (hs : Settled place h) (hp : h.processes[i]? = some p) {a : Address}
    {left : List Address} (hlive : p.isLive = true) (hholds : ∀ k, p.holds k = true)
    (hkind : (∃ path, a = .unixPath path) ∨ (∃ name, a = .unixAbstract name) ∨ a = .systemd)
    {files : String → Option Entry} {abstracts : String → Option (ℕ × ℕ)}
    (hfiles : ∀ {j k path}, h.Seat j k path → files (place path) = h.files (place path))
    (habstracts : ∀ {j k name}, h.Named j k name → abstracts name = h.abstracts name)
    (hpath : ∀ path, a = .unixPath path → files (place path) = some (.socket i p.bound.length) ∧
      ∀ doomed ∈ h.doomed, place doomed ≠ place path)
    (hname : ∀ name, a = .unixAbstract name → abstracts name = some (i, p.bound.length)) :
    Settled place { h.setProcess i (p.binds a left) with
      files := files, abstracts := abstracts } := by
  have hnew : ∀ {k b}, (p.bound ++ [a])[k]? = some b →
      p.bound[k]? = some b ∨ (k = p.bound.length ∧ a = b) := Slots.getElem?_concat_eq_some.mp
  have hseat : ∀ {j k path}, (h.setProcess i (p.binds a left)).Seat j k path →
      h.Seat j k path ∨ (j = i ∧ k = p.bound.length ∧ a = .unixPath path) := by
    intro j k path hseat
    rcases hseat.of_setProcess with ⟨rfl, -, hbound⟩ | ⟨-, hseat⟩
    · rcases hnew hbound with hold | ⟨hk, ha⟩
      · exact .inl ⟨p, hp, hholds k, hold⟩
      · exact .inr ⟨rfl, hk, ha⟩
    · exact .inl hseat
  constructor
  · intro j k path hseated
    rcases hseat hseated with hold | ⟨rfl, rfl, ha⟩
    · exact (hfiles hold).trans (hs.seat hold)
    · exact (hpath path ha).1
  · intro j k name hnamed
    have hset : (h.setProcess i (p.binds a left)).Named j k name := hnamed
    rcases hset.of_setProcess with ⟨rfl, -, hbound⟩ | ⟨-, hold⟩
    · rcases hnew hbound with hold | ⟨rfl, ha⟩
      · exact (habstracts ⟨p, hp, hlive, hold⟩).trans (hs.name ⟨p, hp, hlive, hold⟩)
      · exact hname name ha
    · exact (habstracts hold).trans (hs.name hold)
  · intro doomed j k path hdoomed hseated
    rcases hseat hseated with hold | ⟨-, -, ha⟩
    · exact hs.spared hdoomed hold
    · exact (hpath path ha).2 doomed hdoomed
  · intro q hq
    rcases List.mem_or_eq_of_mem_set hq with hq | rfl
    · exact hs.kinds q hq
    · intro b hb
      rcases List.mem_append.mp hb with hb | hb
      · exact hs.kinds p (List.mem_of_getElem? hp) b hb
      · rw [List.mem_singleton.mp hb]
        exact hkind
  · intro q hq
    rcases List.mem_or_eq_of_mem_set hq with hq | rfl
    · exact hs.told q hq
    · have htold := hs.told p (List.mem_of_getElem? hp)
      show (p.printed ++ [Output.address a]).filterMap _ = p.bound ++ [a]
      rw [List.filterMap_append]
      exact congrArg (· ++ [a]) htold

/-- A daemon is gone. -/
theorem bury (hs : Settled place h) (hp : h.processes[i]? = some p) (hlive : p.isLive = true) :
    Settled place (h.bury i p) := by
  have hset : Settled place (h.setProcess i { p with phase := .dead }) :=
    hs.setProcess hp rfl rfl nofun fun _ => hlive
  refine ⟨hset.seat, fun {j k name} hnamed => ?_, hset.spared, hset.kinds, hset.told⟩
  have hgone : (h.setProcess i { p with phase := .dead }).Named j k name := hnamed
  rcases hgone.of_setProcess with ⟨-, hdead, -⟩ | ⟨hne, hold⟩
  · cases hdead
  · show (h.abstracts name).filter (fun l => l.1 != i) = _
    rw [hs.name hold, Option.filter_some, if_pos (bne_iff_ne.mpr hne)]

/-- A path is bound where nothing is. -/
theorem bindPath (hs : Settled place h) {left : List Address} (hp : h.processes[i]? = some p)
    (hlive : p.isLive = true) (hholds : ∀ k, p.holds k = true)
    (hspared : ∀ doomed ∈ h.doomed, place doomed ≠ place path)
    (hbind : h.bindPath place i p left path = some h') : Settled place h' := by
  unfold Host.bindPath at hbind
  split at hbind
  · cases hbind
  · next hnone =>
    cases hbind
    refine hs.bound hp hlive hholds (.inl ⟨path, rfl⟩) ?_ (fun _ => rfl) ?_ nofun
    · intro j k path' hseat
      refine if_neg fun heq => ?_
      have hthere := hs.seat hseat
      rw [heq, hnone] at hthere
      cases hthere
    · intro path' ha
      cases ha
      exact ⟨if_pos rfl, hspared⟩

/-- **A step at which nobody is at odds about a place.** -/
theorem step (hs : Settled place h) {e : Event} (hpeace : h.isPeaceful place e = true)
    (hstep : h.step place e = some h') : Settled place h' := by
  cases e with
  | start addresses =>
    cases hstep
    have hold : ∀ {j : ℕ} {q : Process},
        (h.processes ++ [⟨Phase.before addresses, [], []⟩])[j]? = some q →
        ∀ {k : ℕ} {a : Address}, q.bound[k]? = some a → h.processes[j]? = some q := by
      intro j q hq k a ha
      rcases Slots.getElem?_concat_eq_some.mp hq with hq | ⟨-, rfl⟩
      · exact hq
      · cases ha
    constructor
    · rintro j k path ⟨q, hq, hholds, hbound⟩
      exact hs.seat ⟨q, hold hq hbound, hholds, hbound⟩
    · rintro j k name ⟨q, hq, hlive, hbound⟩
      exact hs.name ⟨q, hold hq hbound, hlive, hbound⟩
    · rintro doomed j k path hdoomed ⟨q, hq, hholds, hbound⟩
      exact hs.spared hdoomed ⟨q, hold hq hbound, hholds, hbound⟩
    · intro q hq
      rcases List.mem_append.mp hq with hq | hq
      · exact hs.kinds q hq
      · rw [List.mem_singleton.mp hq]
        exact List.forall_mem_nil _
    · intro q hq
      rcases List.mem_append.mp hq with hq | hq
      · exact hs.told q hq
      · rw [List.mem_singleton.mp hq]
        rfl
  | clear i removes =>
    rw [Host.step] at hstep
    split at hstep
    · next path left bound printed hp =>
      cases hstep
      have hset : Settled place
          (h.setProcess i ⟨.starting (.unixPath path :: left) true, bound, printed⟩) :=
        hs.setProcess hp rfl rfl (fun _ h => h) fun h => h
      split
      · -- nobody holds the place
        refine hset.unlink fun j k path' hseat heq => ?_
        rw [isPeaceful, hp] at hpeace
        change (!h.isHeld place path) = true at hpeace
        have hheld : h.isHeld place path = true := by
          obtain ⟨q, hq, hholds, hbound⟩ : h.Seat j k path' := by
            rcases hseat.of_setProcess with ⟨rfl, hk, hpath⟩ | ⟨-, hseat⟩
            · exact ⟨_, hp, hk, hpath⟩
            · exact hseat
          refine List.any_eq_true.mpr ⟨q, List.mem_of_getElem? hq, List.any_eq_true.mpr
            ⟨(.unixPath path', k), List.mem_zipIdx_iff_getElem?.mpr hbound, ?_⟩⟩
          rw [Bool.and_eq_true]
          exact ⟨hholds, beq_iff_eq.mpr heq⟩
        rw [hheld] at hpeace
        cases hpeace
      · exact hset
    · cases hstep
  | bind i raw =>
    rw [Host.step] at hstep
    split at hstep
    · next a left cleared bound printed hp =>
      rw [isPeaceful, hp] at hpeace
      change (nextPath a raw).all _ = true at hpeace
      have hspared : ∀ path, nextPath a raw = some path → ∀ doomed ∈ h.doomed,
          place doomed ≠ place path := by
        intro path hpath doomed hdoomed
        rw [hpath] at hpeace
        exact bne_iff_ne.mp (List.all_eq_true.mp hpeace doomed hdoomed)
      cases a with
      | unixPath path =>
        rw [Host.bind] at hstep
        split at hstep
        · exact hs.bindPath hp rfl (fun _ => rfl) (hspared path rfl) hstep
        · cases hstep
      | unixTmpdir dir => exact hs.bindPath hp rfl (fun _ => rfl) (hspared _ rfl) hstep
      | tcp host port => cases hstep
      | systemd =>
        cases hstep
        exact hs.bound hp rfl (fun _ => rfl) (.inr (.inr rfl)) (fun _ => rfl) (fun _ => rfl) nofun
          nofun
      | unixAbstract name =>
        rw [Host.bind] at hstep
        split at hstep
        · cases hstep
        · next hnone =>
          cases hstep
          refine hs.bound hp rfl (fun _ => rfl) (.inr (.inl ⟨name, rfl⟩)) (fun _ => rfl) ?_ nofun ?_
          · intro j k name' hnamed
            refine if_neg ?_
            rintro rfl
            cases hnone.symm.trans (hs.name hnamed)
          · intro name' ha
            cases ha
            exact if_pos rfl
    · cases hstep
  | note i text =>
    rw [Host.step] at hstep
    split at hstep
    · next p hp =>
      split at hstep
      · cases hstep
        refine hs.setProcess hp rfl ?_ (fun _ h => h) fun h => h
        show (p.printed ++ [Output.note text]).filterMap _ = _
        rw [List.filterMap_append]
        exact List.append_nil _
      · cases hstep
    · cases hstep
  | terminate i =>
    rw [Host.step] at hstep
    split at hstep
    · next bound printed hp =>
      cases hstep
      exact hs.setProcess hp rfl rfl (fun _ _ => rfl) fun _ => rfl
    · cases hstep
  | remove i removes =>
    rw [Host.step] at hstep
    split at hstep
    · next next bound printed hp =>
      have hset : Settled place (h.setProcess i ⟨.stopping (next + 1), bound, printed⟩) := by
        refine hs.setProcess hp rfl rfl (fun k hk => ?_) fun _ => rfl
        exact decide_eq_true (Nat.le_of_succ_le (of_decide_eq_true hk))
      split at hstep
      · next path hpath =>
        cases hstep
        split
        · -- what else is held is at another place
          refine hset.unlink fun j k path' hseat heq => ?_
          have hown : h.Seat i next path := ⟨_, hp, decide_eq_true le_rfl, hpath⟩
          have hthere := hs.seat hown
          rcases hseat.of_setProcess with ⟨rfl, hk, hbound⟩ | ⟨hne, hold⟩
          · have hlt : next + 1 ≤ k := of_decide_eq_true hk
            have hold : h.Seat j k path' :=
              ⟨_, hp, decide_eq_true (Nat.le_of_succ_le hlt), hbound⟩
            rw [← heq, hs.seat hold] at hthere
            cases hthere
            exact absurd hlt (Nat.not_succ_le_self _)
          · rw [← heq, hs.seat hold] at hthere
            cases hthere
            exact hne rfl
        · exact hset
      · cases hstep
        exact hset
      · cases hstep
    · cases hstep
  | exit i =>
    rw [Host.step] at hstep
    split at hstep
    · next next bound hp =>
      split at hstep
      · cases hstep
        exact hs.bury hp rfl
      · cases hstep
    · cases hstep
  | crash i =>
    rw [Host.step] at hstep
    split at hstep
    · next p hp =>
      split at hstep
      · next hlive =>
        cases hstep
        exact hs.bury hp hlive
      · cases hstep
    · cases hstep
  | probe path =>
    rw [Host.step] at hstep
    split at hstep
    · next i k hthere =>
      split at hstep
      · cases hstep
      · next hdead =>
        cases hstep
        refine ⟨hs.seat, hs.name, fun {doomed j m path'} hdoomed hseat => ?_, hs.kinds, hs.told⟩
        rcases List.mem_cons.mp hdoomed with rfl | hdoomed
        · -- who is refused there is not one that holds it
          intro heq
          obtain ⟨q, hq, hholds, -⟩ := id hseat
          have hlisten := hs.seat hseat
          rw [← heq, hthere] at hlisten
          cases hlisten
          refine hdead ?_
          rw [isLive, hq]
          exact isLive_of_holds hholds
        · exact hs.spared hdoomed hseat
    · next hthere =>
      cases hstep
      refine ⟨hs.seat, hs.name, fun {doomed j m path'} hdoomed hseat => ?_, hs.kinds, hs.told⟩
      rcases List.mem_cons.mp hdoomed with rfl | hdoomed
      · -- what is held is none of the foreign sockets
        intro heq
        have hlisten := hs.seat hseat
        rw [← heq, hthere] at hlisten
        cases hlisten
      · exact hs.spared hdoomed hseat
    · cases hstep
  | cleanup path removes =>
    rw [Host.step] at hstep
    split at hstep
    · next hmem =>
      cases hstep
      have herase : Settled place { h with doomed := h.doomed.erase path } :=
        ⟨hs.seat, hs.name, fun hdoomed => hs.spared (List.mem_of_mem_erase hdoomed), hs.kinds,
          hs.told⟩
      split
      · exact herase.unlink fun j k path' hseat => (hs.spared hmem hseat).symm
      · exact herase
    · cases hstep

/-- **A run in which nobody is ever at odds about a place.** -/
theorem run (hs : Settled place h) {events : List Event}
    (hpeace : h.isPeacefulRun place events = true) (hrun : h.run place events = some h') :
    Settled place h' := by
  induction events generalizing h with
  | nil =>
    rw [← Option.some.inj hrun]
    exact hs
  | cons e events ih =>
    obtain ⟨h₁, hstep, hrun⟩ := Option.bind_eq_some_iff.mp hrun
    rw [isPeacefulRun, hstep, Bool.and_eq_true] at hpeace
    exact ih (hs.step hpeace.1 hstep) hpeace.2 hrun

end Settled

/-- What a daemon holds is where a client looks for it. -/
theorem Settled.connect (hs : Settled place h) (hp : h.processes[i]? = some p)
    (hholds : p.holds k = true) {a : Address} (ha : p.bound[k]? = some a) (hne : a ≠ .systemd) :
    h.connect place a = .ok (.daemon i k) := by
  have hlive := isLive_of_holds hholds
  rcases hs.kinds p (List.mem_of_getElem? hp) a (List.mem_of_getElem? ha) with
    ⟨path, rfl⟩ | ⟨name, rfl⟩ | rfl
  · have hthere := hs.seat ⟨p, hp, hholds, ha⟩
    rw [Host.connect, hthere]
    refine if_pos ?_
    rw [isLive, hp]
    exact hlive
  · rw [Host.connect, hs.name ⟨p, hp, hlive, ha⟩]
  · exact absurd rfl hne

end Host

/-! ## Buses of sessions -/

/-- The addresses that a daemon has not bound yet. -/
def Phase.left : Phase → List Address
  | .starting left _ => left
  | _ => []

theorem Phase.left_before (left : List Address) : (Phase.before left).left = left := by
  cases left <;> rfl

/-- What goes on where buses are those of sessions, which are given no paths, and the tool is
not used. -/
def Event.isOfSessions : Event → Bool
  | .start addresses => addresses.all fun a =>
      match a with
      | .unixPath _ => false
      | _ => true
  | .probe _ => false
  | _ => true

namespace Host

variable {place : String → String} {h h' : Host}

/-- No daemon will bind a path that it is given, and nothing is about to be cleared. -/
structure Modest (h : Host) : Prop where
  doomed : h.doomed = []
  left : ∀ p ∈ h.processes, ∀ path, .unixPath path ∉ p.phase.left

/-- Nobody is at odds then. -/
theorem Modest.isPeaceful (hm : h.Modest) (e : Event) : h.isPeaceful place e = true := by
  cases e with
  | clear i removes =>
    rw [Host.isPeaceful]
    split
    · next path left cleared bound printed hp =>
      exact absurd List.mem_cons_self (hm.left _ (List.mem_of_getElem? hp) path)
    · rfl
  | bind i raw =>
    rw [Host.isPeaceful, hm.doomed]
    split
    · exact Option.all_eq_true _ _ |>.mpr fun _ _ => rfl
    · rfl
  | _ => rfl

/-- A daemon that goes on with no more addresses. -/
theorem Modest.setProcess {i : ℕ} {p p' : Process} (hm : h.Modest) (hp : h.processes[i]? = some p)
    (hleft : ∀ a ∈ p'.phase.left, a ∈ p.phase.left) : (h.setProcess i p').Modest := by
  refine ⟨hm.doomed, fun q hq path hmem => ?_⟩
  rcases List.mem_or_eq_of_mem_set hq with hq | rfl
  · exact hm.left q hq path hmem
  · exact hm.left p (List.mem_of_getElem? hp) path (hleft _ hmem)

theorem Modest.of_eq (hm : h.Modest) (hdoomed : h'.doomed = h.doomed)
    (hprocesses : h'.processes = h.processes) : h'.Modest :=
  ⟨hdoomed.trans hm.doomed, hprocesses ▸ hm.left⟩

/-- **It stays so.** -/
theorem Modest.step (hm : h.Modest) {e : Event} (he : e.isOfSessions = true)
    (hstep : h.step place e = some h') : h'.Modest := by
  have hunlink : ∀ {g : Host} {path : String} (removes : Bool), g.Modest →
      (if removes then g.unlink place path else g).Modest := by
    intro g path removes hg
    split
    · exact hg.of_eq rfl rfl
    · exact hg
  cases e with
  | start addresses =>
    cases hstep
    refine ⟨hm.doomed, fun q hq path hmem => ?_⟩
    rcases List.mem_append.mp hq with hq | hq
    · exact hm.left q hq path hmem
    · rw [List.mem_singleton.mp hq, Phase.left_before] at hmem
      cases List.all_eq_true.mp he _ hmem
  | clear i removes =>
    rw [Host.step] at hstep
    split at hstep
    · next hp =>
      cases hstep
      exact hunlink removes (hm.setProcess hp fun _ ha => ha)
    · cases hstep
  | bind i raw =>
    rw [Host.step] at hstep
    split at hstep
    · next a left cleared bound printed hp =>
      have hset : ∀ b, (h.setProcess i
          (Process.binds ⟨.starting (a :: left) cleared, bound, printed⟩ b left)).Modest := by
        refine fun b => hm.setProcess hp fun c hc => ?_
        rw [Process.binds, Phase.left_before] at hc
        exact List.mem_cons_of_mem _ hc
      have hpath :
          ∀ path, h.bindPath place i ⟨.starting (a :: left) cleared, bound, printed⟩ left path
          = some h' → h'.Modest := by
        intro path hbind
        unfold Host.bindPath at hbind
        split at hbind
        · cases hbind
        · cases hbind
          exact (hset _).of_eq rfl rfl
      cases a with
      | unixPath path => exact absurd List.mem_cons_self (hm.left _ (List.mem_of_getElem? hp) path)
      | unixTmpdir dir => exact hpath _ hstep
      | tcp host port => cases hstep
      | systemd =>
        cases hstep
        exact hset _
      | unixAbstract name =>
        rw [Host.bind] at hstep
        split at hstep
        · cases hstep
        · cases hstep
          exact (hset _).of_eq rfl rfl
    · cases hstep
  | note i text =>
    rw [Host.step] at hstep
    split at hstep
    · next p hp =>
      split at hstep
      · cases hstep
        exact hm.setProcess hp fun _ ha => ha
      · cases hstep
    · cases hstep
  | terminate i =>
    rw [Host.step] at hstep
    split at hstep
    · next hp =>
      cases hstep
      exact hm.setProcess hp nofun
    · cases hstep
  | remove i removes =>
    rw [Host.step] at hstep
    split at hstep
    · next hp =>
      split at hstep
      · cases hstep
        exact hunlink removes (hm.setProcess hp nofun)
      · cases hstep
        exact hm.setProcess hp nofun
      · cases hstep
    · cases hstep
  | exit i =>
    rw [Host.step] at hstep
    split at hstep
    · next next bound printed hp =>
      split at hstep
      · cases hstep
        have hset : (h.setProcess i ⟨.dead, bound, printed⟩).Modest := hm.setProcess hp nofun
        exact hset.of_eq rfl rfl
      · cases hstep
    · cases hstep
  | crash i =>
    rw [Host.step] at hstep
    split at hstep
    · next p hp =>
      split at hstep
      · cases hstep
        have hset : (h.setProcess i ⟨.dead, p.bound, p.printed⟩).Modest := hm.setProcess hp nofun
        exact hset.of_eq rfl rfl
      · cases hstep
    · cases hstep
  | probe path => cases he
  | cleanup path removes =>
    rw [Host.step, hm.doomed, if_neg List.not_mem_nil] at hstep
    cases hstep

/-- **Buses of sessions are never at odds about a place.** -/
theorem Modest.isPeacefulRun {events : List Event} (hm : h.Modest)
    (hevents : ∀ e ∈ events, e.isOfSessions = true) : h.isPeacefulRun place events = true := by
  induction events generalizing h with
  | nil => rfl
  | cons e events ih =>
    obtain ⟨he, hevents⟩ := List.forall_mem_cons.mp hevents
    rw [Host.isPeacefulRun, hm.isPeaceful e, Bool.true_and]
    cases hstep : h.step place e with
    | none => rfl
    | some h₁ => exact ih (hm.step he hstep) hevents

end Host

/-! ## What is printed -/

namespace Host

variable {place : String → String} {h : Host} {i k : ℕ} {p : Process}

end Host

end Sockets

end Oxibus
