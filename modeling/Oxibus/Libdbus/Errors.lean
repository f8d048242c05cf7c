import Oxibus.Lib.Owners
import Oxibus.Libdbus.Sending

/-!
# The errors of the C interface

An error is a pair of pointers that a program keeps where it likes, and that it
reads itself. The texts they point to are allocated when the error is set and
freed when it is cleared: by hand, since nothing on the other side of the
interface knows when the program is done with them.

So what is wrong may be wrong in memory: a text freed twice, a text read after
it has been freed, a text that is never freed. Nothing of the sort happens to a
program that initialises an error before it uses it (`errors_memory_safe`),
whatever was in its memory before, and however it sets, moves, clears and reads
its errors. For such a program an error is as good as the pair of texts it
reads; and if it does not initialise an error that is set, and has cleared all
of them in the end, all that was allocated has been freed.

Where a new text is put is for the allocator to say, and up to it to find an
address that is not in use.
-/

namespace Oxibus

namespace Libdbus

namespace Errors

/-! ## Memory -/

/-- What an error points to. -/
inductive Field
  | name
  | message
  deriving DecidableEq, Repr

/-- A place that holds a pointer: an error of the program, and which of its texts. -/
abbrev Place := ℕ × Field

/-- **The memory**: the texts that are allocated, and the pointers of the errors. -/
abbrev Memory := Owners Place ℕ String

/-- What goes wrong in memory. -/
inductive Fault
  | invalidFree
  | useAfterFree
  | addressInUse
  deriving DecidableEq, Repr

/-- A text that is allocated, at the address that the allocator has found for it. -/
def leakCstring (m : Memory) (place : Place) (address : ℕ) (s : String) : Except Fault Memory :=
  match m.heap address with
  | none => .ok (m.acquire place address (withoutNul s))
  | some _ => .error .addressInUse

/-- Frees a text, unless the pointer is null. -/
def dropOwned (m : Memory) (ptr : Option ℕ) : Except Fault Memory :=
  match ptr with
  | none => .ok m
  | some a =>
    match m.heap a with
    | none => .error .invalidFree
    | some _ => .ok { m with heap := Function.update m.heap a none }

/-! ## The functions -/

/-- **Clears an error**: both texts are freed, and both pointers null. -/
def clear (m : Memory) (e : ℕ) : Except Fault Memory := do
  let m ← dropOwned m (m.pointer (e, .name))
  let m ← dropOwned m (m.pointer (e, .message))
  return (m.forget (e, .name)).forget (e, .message)

/-- **Sets an error**, which is cleared first. -/
def set (m : Memory) (e : ℕ) (name message : String) (a b : ℕ) : Except Fault Memory := do
  let m ← clear m e
  let m ← leakCstring m (e, .name) a name
  leakCstring m (e, .message) b message

def dbusErrorInit (m : Memory) (error : Option ℕ) : Memory :=
  match error with
  | none => m
  | some e => (m.forget (e, .name)).forget (e, .message)

def dbusErrorFree (m : Memory) (error : Option ℕ) : Except Fault Memory :=
  match error with
  | none => .ok m
  | some e => clear m e

def dbusErrorIsSet (m : Memory) (error : Option ℕ) : Bool :=
  match error with
  | none => false
  | some e => (m.pointer (e, .name)).isSome

/-- Whether an error has a name. What it is compared with may be null, or no text. -/
def dbusErrorHasName (m : Memory) (error : Option ℕ) (name : Option String) :
    Except Fault Bool :=
  match error with
  | none => .ok false
  | some e =>
    match m.pointer (e, .name), name with
    | some a, some want =>
      match m.heap a with
      | none => .error .useAfterFree
      | some got => .ok (got == want)
    | _, _ => .ok false

/-- Sets an error. Where a text is null, or no text, it is empty. -/
def dbusSetErrorConst (m : Memory) (error : Option ℕ) (name message : Option String) (a b : ℕ) :
    Except Fault Memory :=
  match error with
  | none => .ok m
  | some e => set m e (name.getD "") (message.getD "") a b

/-- **Moves an error** to another one, which is cleared first. -/
def dbusMoveError (m : Memory) (src dest : Option ℕ) : Except Fault Memory :=
  match src, dest with
  | some s, some d =>
    if s = d then .ok m
    else do
      let m ← clear m d
      return (m.transfer (s, .name) (d, .name)).transfer (s, .message) (d, .message)
  | _, _ => .ok m

/-- A text of an error, as a program reads it. -/
def readText (m : Memory) (e : ℕ) (field : Field) : Except Fault (Option String) :=
  match m.pointer (e, field) with
  | none => .ok none
  | some a =>
    match m.heap a with
    | none => .error .useAfterFree
    | some s => .ok (some s)

/-! ## Programs -/

/-- What a program does with its errors. For a text to be allocated the allocator's address is
given. -/
inductive Call
  | init (error : Option ℕ)
  | free (error : Option ℕ)
  | isSet (error : Option ℕ)
  | hasName (error : Option ℕ) (name : Option String)
  | setConst (error : Option ℕ) (name message : Option String) (a b : ℕ)
  | move (src dest : Option ℕ)
  | readText (error : ℕ) (field : Field)
  deriving DecidableEq, Repr

/-- What it gets. -/
inductive Answer
  | done
  | flag (b : Bool)
  | text (s : Option String)
  deriving DecidableEq, Repr

/-- **One call.** -/
def perform (m : Memory) : Call → Except Fault (Answer × Memory)
  | .init error => .ok (.done, dbusErrorInit m error)
  | .free error => (dbusErrorFree m error).map fun m' => (.done, m')
  | .isSet error => .ok (.flag (dbusErrorIsSet m error), m)
  | .hasName error name => (dbusErrorHasName m error name).map fun b => (.flag b, m)
  | .setConst error name message a b =>
    (dbusSetErrorConst m error name message a b).map fun m' => (.done, m')
  | .move src dest => (dbusMoveError m src dest).map fun m' => (.done, m')
  | .readText e field => (readText m e field).map fun s => (.text s, m)

/-- **A program**, from the memory it finds. -/
def run (m : Memory) : List Call → Except Fault (List Answer × Memory)
  | [] => .ok ([], m)
  | call :: calls => do
    let (answer, m) ← perform m call
    let (answers, m) ← run m calls
    return (answer :: answers, m)

/-! ## What an error stands for -/

/-- A text of an error. -/
def text (error : DBusError) : Field → Option String
  | .name => error.name
  | .message => error.message

/-- An error that is not set. -/
def unset : DBusError := ⟨none, none⟩

/-- **What a program knows of its errors**: which ones it has initialised, and their texts. -/
structure Known where
  initialised : ℕ → Bool
  errors : ℕ → DBusError

namespace Known

/-- At first it has initialised none. -/
def start : Known := ⟨fun _ => false, fun _ => unset⟩

/-- An error has other texts. -/
def put (k : Known) (e : ℕ) (error : DBusError) : Known :=
  { k with errors := Function.update k.errors e error }

/-- **What a call does to the texts**, and its answer. -/
def perform (k : Known) : Call → Answer × Known
  | .init none => (.done, k)
  | .init (some e) => (.done, ⟨Function.update k.initialised e true, (k.put e unset).errors⟩)
  | .free none => (.done, k)
  | .free (some e) => (.done, k.put e unset)
  | .isSet none => (.flag false, k)
  | .isSet (some e) => (.flag (k.errors e).name.isSome, k)
  | .hasName (some e) (some want) => (.flag ((k.errors e).name == some want), k)
  | .hasName _ _ => (.flag false, k)
  | .setConst none _ _ _ _ => (.done, k)
  | .setConst (some e) name message _ _ =>
    (.done, k.put e
      ((Libdbus.dbusSetErrorConst (some (k.errors e)) (name.getD "") (message.getD "")).getD unset))
  | .move (some s) (some d) =>
    (.done, if s = d then k else (k.put d (k.errors s)).put s unset)
  | .move _ _ => (.done, k)
  | .readText e field => (.text (text (k.errors e) field), k)

/-- A program, as far as texts go. -/
def run (k : Known) : List Call → List Answer × Known
  | [] => ([], k)
  | call :: calls =>
    let (answer, k) := k.perform call
    let (answers, k) := k.run calls
    (answer :: answers, k)

/-- An error that a function is given has been initialised, if there is one. -/
def knows (k : Known) (error : Option ℕ) : Bool :=
  match error with
  | none => true
  | some e => k.initialised e

/-- **A call is proper** if the errors it uses have been initialised. -/
def isProper (k : Known) : Call → Bool
  | .init _ => true
  | .free error => k.knows error
  | .isSet error => k.knows error
  | .hasName error _ => k.knows error
  | .setConst error _ _ _ _ => k.knows error
  | .move src dest => k.knows src && k.knows dest
  | .readText e _ => k.knows (some e)

/-- **A call is tidy** unless it initialises an error that is set: its texts are lost. -/
def isTidy (k : Known) : Call → Bool
  | .init (some e) => !k.initialised e || k.errors e == unset
  | _ => true

/-- Every call of a program is of a kind. -/
def all (ok : Known → Call → Bool) (k : Known) : List Call → Bool
  | [] => true
  | call :: calls => ok k call && all ok (k.perform call).2 calls

/-- The texts, each at its place. -/
def value (k : Known) : Place → Option String := fun p => text (k.errors p.1) p.2

/-- The places that have been set up. -/
def scope (k : Known) : Place → Prop := fun p => k.initialised p.1

end Known

/-! ## One function after the other -/

section Functions

variable {before : ℕ → Option String} {k : Known} {m m' : Memory} {e s d : ℕ}

/-- **The memory is as a program knows it**: the errors it has initialised own their texts. -/
def Holds (before : ℕ → Option String) (k : Known) (m : Memory) : Prop :=
  m.Owns before k.scope k.value

/-- Where an error has other texts, so have its places. -/
theorem Known.value_put (k : Known) (e : ℕ) (error : DBusError) :
    (k.put e error).value =
      Function.update (Function.update k.value (e, .name) error.name) (e, .message)
        error.message := by
  funext ⟨e', field⟩
  by_cases he : e' = e
  · subst he
    cases field with
    | name =>
      have hne : ((e', .name) : Place) ≠ (e', .message) := by simp
      rw [Function.update_of_ne hne, Function.update_self]
      show text (Function.update k.errors e' error e') .name = error.name
      rw [Function.update_self]
      rfl
    | message =>
      rw [Function.update_self]
      show text (Function.update k.errors e' error e') .message = error.message
      rw [Function.update_self]
      rfl
  · have hne : ∀ f f', ((e', f) : Place) ≠ (e, f') := by
      intro f f' heq
      exact he (congrArg Prod.fst heq)
    rw [Function.update_of_ne (hne _ _), Function.update_of_ne (hne _ _)]
    show text (Function.update k.errors e error e') field = text (k.errors e') field
    rw [Function.update_of_ne he]

theorem Known.put_put (k : Known) (e : ℕ) (x y : DBusError) : (k.put e x).put e y = k.put e y :=
  congrArg (Known.mk k.initialised) (Function.update_idem ..)

/-- **Where an error has moved**, its texts have moved one after the other. -/
theorem Known.value_move (k : Known) (hsd : s ≠ d) :
    ((k.put d (k.errors s)).put s unset).value =
      let v := (k.put d unset).value
      let v₁ := Function.update (Function.update v (d, .name) (v (s, .name))) (s, .name) none
      Function.update (Function.update v₁ (d, .message) (v₁ (s, .message))) (s, .message) none := by
  funext ⟨e, field⟩
  have hds : d ≠ s := hsd.symm
  have hvalue : ∀ f, k.value (s, f) = text (k.errors s) f := fun _ => rfl
  by_cases hes : e = s
  · subst hes
    cases field <;> simp [Known.value_put, Function.update_apply, unset]
  · by_cases hed : e = d
    · subst hed
      cases field <;> simp [Known.value_put, hsd, hes, hvalue, text]
    · cases field <;> simp [Known.value_put, Function.update_apply, hes, hed]

/-- A text that is released is freed, wherever the pointers are. -/
theorem dropOwned_of_release {place : Place} (h : m.release place = some m')
    (pointer : Place → Option ℕ) :
    dropOwned ⟨m.heap, pointer⟩ (m.pointer place) = .ok ⟨m'.heap, pointer⟩ := by
  unfold Owners.release at h
  unfold dropOwned
  cases hp : m.pointer place with
  | none =>
    rw [hp] at h
    rw [← Option.some.inj h]
  | some a =>
    cases ha : m.heap a with
    | none =>
      simp only [hp, ha] at h
      cases h
    | some x =>
      simp only [hp, ha] at h
      simp only [ha, ← Option.some.inj h]

/-- **Clearing an error releases both its texts.** -/
theorem clear_of_release {m₁ m₂ : Memory} (hname : m.release (e, .name) = some m₁)
    (hmessage : m₁.release (e, .message) = some m₂) : clear m e = .ok m₂ := by
  have hp₁ := Owners.release_pointer hname
  have hp₂ := Owners.release_pointer hmessage
  have hne : ((e, .message) : Place) ≠ (e, .name) := by simp
  have hsame : m₁.pointer (e, .message) = m.pointer (e, .message) := by
    rw [hp₁, Function.update_of_ne hne]
  have hdrop := dropOwned_of_release hmessage m.pointer
  rw [hsame] at hdrop
  have hforget : (Owners.forget ⟨m₂.heap, m.pointer⟩ (e, .name)).forget (e, .message) = m₂ := by
    show (⟨m₂.heap, Function.update (Function.update m.pointer _ none) _ none⟩ : Memory) = m₂
    rw [← hp₁, ← hp₂]
  calc clear m e
      = (dropOwned ⟨m₁.heap, m.pointer⟩ (m.pointer (e, .message)) >>= fun m =>
          pure ((m.forget (e, .name)).forget (e, .message))) := by
        unfold clear
        rw [dropOwned_of_release hname m.pointer]
        rfl
    _ = .ok ((Owners.forget ⟨m₂.heap, m.pointer⟩ (e, .name)).forget (e, .message)) := by
        rw [hdrop]
        rfl
    _ = .ok m₂ := congrArg Except.ok hforget

/-- **What clearing does.** -/
theorem clear_holds (h : Holds before k m) (he : k.initialised e) :
    ∃ m', clear m e = .ok m' ∧ Holds before (k.put e unset) m' ∧
      (∀ field, m'.pointer (e, field) = none) ∧
      (m.Tight before k.scope → m'.Tight before k.scope) := by
  obtain ⟨m₁, hr₁, h₁⟩ := Owners.Owns.release (i := (e, .name)) h he
  obtain ⟨m₂, hr₂, h₂⟩ := h₁.release (i := (e, .message)) he
  refine ⟨m₂, clear_of_release hr₁ hr₂, ?_, ?_, fun ht => (ht.release hr₁).release hr₂⟩
  · show m₂.Owns before k.scope (k.put e unset).value
    rw [Known.value_put]
    exact h₂
  · intro field
    rw [Owners.release_pointer hr₂, Owners.release_pointer hr₁]
    cases field with
    | name =>
      have hne : ((e, .name) : Place) ≠ (e, .message) := by simp
      rw [Function.update_of_ne hne, Function.update_self]
    | message => rw [Function.update_self]

theorem leakCstring_of_none {a : ℕ} (ha : m.heap a = none) (place : Place) (s : String) :
    leakCstring m place a s = .ok (m.acquire place a (withoutNul s)) := by
  unfold leakCstring
  rw [ha]

theorem leakCstring_of_some {a : ℕ} {x : String} (ha : m.heap a = some x) (place : Place)
    (s : String) : leakCstring m place a s = .error .addressInUse := by
  unfold leakCstring
  rw [ha]

/-- **What setting does**, unless an address is in use. -/
theorem set_holds (h : Holds before k m) (he : k.initialised e) (name message : String) (a b : ℕ) :
    set m e name message a b = .error .addressInUse ∨
      ∃ m', set m e name message a b = .ok m' ∧
        Holds before (k.put e ⟨some (withoutNul name), some (withoutNul message)⟩) m' ∧
        (m.Tight before k.scope → m'.Tight before k.scope) := by
  obtain ⟨m₁, hclear, h₁, hnull, ht₁⟩ := clear_holds h he
  have hset : set m e name message a b =
      (leakCstring m₁ (e, .name) a name >>= fun m => leakCstring m (e, .message) b message) := by
    unfold set
    rw [hclear]
    rfl
  cases ha : m₁.heap a with
  | some x =>
    left
    rw [hset, leakCstring_of_some ha]
    rfl
  | none =>
    have h₂ : (m₁.acquire (e, .name) a (withoutNul name)).Owns before k.scope _ := h₁.acquire ha
    rw [leakCstring_of_none ha] at hset
    cases hb : (m₁.acquire (e, .name) a (withoutNul name)).heap b with
    | some x => exact .inl (hset.trans (leakCstring_of_some hb _ _))
    | none =>
      refine .inr ⟨_, hset.trans (leakCstring_of_none hb _ _), ?_, fun ht => ?_⟩
      · show Owners.Owns before k.scope
          (k.put e ⟨some (withoutNul name), some (withoutNul message)⟩).value _
        rw [← Known.put_put k e unset, Known.value_put]
        exact h₂.acquire hb
      · have hne : ((e, .message) : Place) ≠ (e, .name) := by simp
        have hscope : ∀ f, k.scope (e, f) := fun _ => he
        refine ((ht₁ ht).acquire (hscope .name) (hnull .name)).acquire (hscope .message) ?_
        exact (Function.update_of_ne hne _ _).trans (hnull .message)

/-- **What moving does.** -/
theorem move_holds (h : Holds before k m) (hs : k.initialised s) (hd : k.initialised d)
    (hsd : s ≠ d) :
    ∃ m', dbusMoveError m (some s) (some d) = .ok m' ∧
      Holds before ((k.put d (k.errors s)).put s unset) m' ∧
      (m.Tight before k.scope → m'.Tight before k.scope) := by
  obtain ⟨m₁, hclear, h₁, hnull, ht₁⟩ := clear_holds h hd
  have hne : ∀ f f', ((s, f) : Place) ≠ (d, f') := fun f f' heq => hsd (congrArg Prod.fst heq)
  have hmove : dbusMoveError m (some s) (some d) =
      .ok ((m₁.transfer (s, .name) (d, .name)).transfer (s, .message) (d, .message)) := by
    show (if s = d then _ else _) = _
    rw [if_neg hsd, hclear]
    rfl
  have h₂ := h₁.transfer (i := (s, .name)) (j := (d, .name)) hs hd (hne _ _)
  have h₃ := h₂.transfer (i := (s, .message)) (j := (d, .message)) hs hd (hne _ _)
  refine ⟨_, hmove, ?_, fun ht => ?_⟩
  · show Owners.Owns before k.scope ((k.put d (k.errors s)).put s unset).value _
    rw [Known.value_move k hsd]
    exact h₃
  · have hscope : ∀ f, k.scope (d, f) := fun _ => hd
    refine ((ht₁ ht).transfer (hscope .name) (hne _ _) (hnull .name)).transfer (hscope .message)
      (hne _ _) ?_
    have hname : ((d, .message) : Place) ≠ (s, .name) := (hne _ _).symm
    have hfield : ((d, .message) : Place) ≠ (d, .name) := by simp
    exact (Function.update_of_ne hname _ _).trans
      ((Function.update_of_ne hfield _ _).trans (hnull .message))

/-- **What initialising does.** The texts of an error that was set are lost. -/
theorem init_holds (h : Holds before k m) (e : ℕ) :
    Holds before ⟨Function.update k.initialised e true, (k.put e unset).errors⟩
        (dbusErrorInit m (some e)) ∧
      (k.isTidy (.init (some e)) → m.Tight before k.scope →
        (dbusErrorInit m (some e)).Tight before
          (Known.scope ⟨Function.update k.initialised e true, (k.put e unset).errors⟩)) := by
  have hother : ∀ {p : Place}, p.1 ≠ e →
      Function.update k.initialised e true p.1 = k.initialised p.1 :=
    fun hp => Function.update_of_ne hp _ _
  constructor
  · have hforget := (h.forget (i := (e, .name))).forget (i := (e, .message))
    have hvalue := Known.value_put k e unset
    refine Owners.Owns.of_scope (hvalue ▸ hforget) ?_
    rintro ⟨e', field⟩ he'
    by_cases hee : e' = e
    · subst hee
      cases field with
      | name => exact .inr (.inl rfl)
      | message => exact .inl rfl
    · exact .inr (.inr ((hother (p := (e', field)) hee).symm.trans he'))
  · intro htidy ht
    have hlost : ∀ f, ¬ k.scope (e, f) ∨ m.pointer (e, f) = none := by
      intro f
      rcases Bool.or_eq_true_iff.mp htidy with hnot | hunset
      · refine .inl fun hin => ?_
        have hin : k.initialised e = true := hin
        rw [hin] at hnot
        cases hnot
      · by_cases hin : k.scope (e, f)
        · refine .inr ((h.reads (e, f) hin).eq_none_iff.mpr ?_)
          show text (k.errors e) f = none
          rw [beq_iff_eq.mp hunset]
          cases f <;> rfl
        · exact .inl hin
    have hne : ((e, .message) : Place) ≠ (e, .name) := by simp
    refine ((ht.forget (hlost .name)).forget ?_).of_scope ?_
    · rcases hlost .message with hin | hnull
      · exact .inl fun h => h.elim hne hin
      · exact .inr ((Function.update_of_ne hne _ _).trans hnull)
    · rintro p (rfl | rfl | hp)
      · exact Function.update_self ..
      · exact Function.update_self ..
      · show Function.update k.initialised e true p.1 = true
        by_cases hpe : p.1 = e
        · rw [hpe, Function.update_self]
        · exact (hother hpe).trans hp

/-- **A text is read as it is known.** -/
theorem readText_holds (h : Holds before k m) (he : k.initialised e) (field : Field) :
    readText m e field = .ok (text (k.errors e) field) := by
  have hreads := h.reads (e, field) he
  unfold readText
  cases hp : m.pointer (e, field) with
  | none => exact congrArg Except.ok (hreads.eq_none_iff.mp hp).symm
  | some a =>
    rw [hp] at hreads
    obtain ⟨hlive, hsome⟩ := hreads.live
    obtain ⟨x, hx⟩ := Option.ne_none_iff_exists'.mp hsome
    have htext : text (k.errors e) field = some x := hx
    simp only [hlive, hx, htext]

theorem isSet_holds (h : Holds before k m) (he : k.initialised e) :
    dbusErrorIsSet m (some e) = (k.errors e).name.isSome := by
  have hnull : m.pointer (e, .name) = none ↔ (k.errors e).name = none :=
    (h.reads (e, .name) he).eq_none_iff
  show (m.pointer (e, .name)).isSome = _
  cases hname : (k.errors e).name with
  | none => rw [hnull.mpr hname]; rfl
  | some x =>
    refine Option.isSome_iff_ne_none.mpr fun hp => ?_
    cases hname.symm.trans (hnull.mp hp)

/-- **A name is compared as it is known.** -/
theorem hasName_holds (h : Holds before k m) (he : k.initialised e) (want : String) :
    dbusErrorHasName m (some e) (some want) = .ok ((k.errors e).name == some want) := by
  have hreads := readText_holds h he .name
  unfold readText at hreads
  cases hp : m.pointer (e, .name) with
  | none =>
    rw [hp] at hreads
    have hname : (k.errors e).name = none := (Except.ok.inj hreads).symm
    simp only [dbusErrorHasName, hp, hname]
    rfl
  | some a =>
    cases ha : m.heap a with
    | none =>
      simp only [hp, ha] at hreads
      cases hreads
    | some x =>
      simp only [hp, ha] at hreads
      have hname : (k.errors e).name = some x := (Except.ok.inj hreads).symm
      simp only [dbusErrorHasName, hp, ha, hname]
      rfl

end Functions

/-! ## Whole programs -/

section Programs

variable {before : ℕ → Option String} {k : Known} {m : Memory} {call : Call} {calls : List Call}

/-- **A proper call** does to the texts what it is to do, and gives the answer it is to give. -/
theorem perform_holds (h : Holds before k m) (hproper : k.isProper call) :
    perform m call = .error .addressInUse ∨
      ∃ m', perform m call = .ok ((k.perform call).1, m') ∧ Holds before (k.perform call).2 m' ∧
        (k.isTidy call → m.Tight before k.scope →
          m'.Tight before (k.perform call).2.scope) := by
  cases call with
  | init error =>
    cases error with
    | none => exact .inr ⟨m, rfl, h, fun _ ht => ht⟩
    | some e => exact .inr ⟨_, rfl, init_holds h e⟩
  | free error =>
    cases error with
    | none => exact .inr ⟨m, rfl, h, fun _ ht => ht⟩
    | some e =>
      obtain ⟨m', hclear, h', -, ht⟩ := clear_holds h hproper
      refine .inr ⟨m', ?_, h', fun _ => ht⟩
      exact congrArg (Except.map fun m' => (Answer.done, m')) hclear
  | isSet error =>
    refine .inr ⟨m, ?_, ?_, ?_⟩
    · cases error with
      | none => rfl
      | some e => exact congrArg (fun b => Except.ok (Answer.flag b, m)) (isSet_holds h hproper)
    · cases error <;> exact h
    · cases error <;> exact fun _ ht => ht
  | hasName error name =>
    have hanswer :
        perform m (.hasName error name) = .ok ((k.perform (.hasName error name)).1, m) := by
      cases error with
      | none => rfl
      | some e =>
        cases name with
        | none =>
          show (dbusErrorHasName m (some e) none).map (fun b => (Answer.flag b, m)) = _
          cases hp : m.pointer (e, .name) <;> simp only [dbusErrorHasName, hp] <;> rfl
        | some want =>
          exact congrArg (Except.map fun b => (Answer.flag b, m)) (hasName_holds h hproper want)
    have hknown : (k.perform (.hasName error name)).2 = k := by
      cases error <;> cases name <;> rfl
    rw [hknown]
    exact .inr ⟨m, hanswer, h, fun _ ht => ht⟩
  | setConst error name message a b =>
    cases error with
    | none => exact .inr ⟨m, rfl, h, fun _ ht => ht⟩
    | some e =>
      refine (set_holds h hproper (name.getD "") (message.getD "") a b).imp ?_ ?_
      · exact fun hset => congrArg (Except.map fun m' => (Answer.done, m')) hset
      · rintro ⟨m', hset, h', ht⟩
        refine ⟨m', ?_, h', fun _ => ht⟩
        exact congrArg (Except.map fun m' => (Answer.done, m')) hset
  | move src dest =>
    cases src with
    | none => exact .inr ⟨m, rfl, h, fun _ ht => ht⟩
    | some s =>
      cases dest with
      | none => exact .inr ⟨m, rfl, h, fun _ ht => ht⟩
      | some d =>
        obtain ⟨hs, hd⟩ := Bool.and_eq_true_iff.mp hproper
        by_cases hsd : s = d
        · have hknown : (k.perform (.move (some s) (some d))).2 = k := if_pos hsd
          have hmove : dbusMoveError m (some s) (some d) = .ok m := if_pos hsd
          rw [hknown]
          refine .inr ⟨m, ?_, h, fun _ ht => ht⟩
          exact congrArg (Except.map fun m' => (Answer.done, m')) hmove
        · have hknown : (k.perform (.move (some s) (some d))).2 =
              (k.put d (k.errors s)).put s unset := if_neg hsd
          obtain ⟨m', hmove, h', ht⟩ := move_holds h hs hd hsd
          rw [hknown]
          refine .inr ⟨m', ?_, h', fun _ => ht⟩
          exact congrArg (Except.map fun m' => (Answer.done, m')) hmove
  | readText e field =>
    refine .inr ⟨m, ?_, h, fun _ ht => ht⟩
    exact congrArg (Except.map fun s => (Answer.text s, m)) (readText_holds h hproper field)

/-- **A proper program** does to the texts what it is to do. -/
theorem run_holds (h : Holds before k m) (hproper : k.all Known.isProper calls) :
    run m calls = .error .addressInUse ∨
      ∃ m', run m calls = .ok ((k.run calls).1, m') ∧ Holds before (k.run calls).2 m' ∧
        (k.all Known.isTidy calls → m.Tight before k.scope →
          m'.Tight before (k.run calls).2.scope) := by
  induction calls generalizing k m with
  | nil => exact .inr ⟨m, rfl, h, fun _ ht => ht⟩
  | cons call calls ih =>
    obtain ⟨hcall, hcalls⟩ := Bool.and_eq_true_iff.mp hproper
    have hrun : ∀ r, perform m call = r →
        run m (call :: calls) = r >>= fun p => (run p.2 calls).map fun q => (p.1 :: q.1, q.2) := by
      intro r hr
      rw [← hr]
      show (perform m call >>= _) = _
      congr 1
    rcases perform_holds h hcall with hfault | ⟨m₁, hperform, h₁, ht₁⟩
    · exact .inl (hrun _ hfault)
    · refine (ih h₁ hcalls).imp ?_ ?_
      · intro hfault
        rw [hrun _ hperform]
        exact congrArg (Except.map _) hfault
      · rintro ⟨m', hrest, h', ht'⟩
        refine ⟨m', ?_, h', fun htidy ht => ?_⟩
        · rw [hrun _ hperform]
          exact congrArg (Except.map _) hrest
        · obtain ⟨hone, hrest⟩ := Bool.and_eq_true_iff.mp htidy
          exact ht' hrest (ht₁ hone ht)

/-- **Nothing goes wrong in memory**, if a program initialises its errors before it uses them,
unless the allocator puts a text at an address that is in use. The program gets the answers that
the texts alone would give. What was allocated before is untouched. If no error is initialised
while it is set, and none is set in the end, all that was allocated since has been freed. -/
theorem errors_memory_safe (m : Memory) (calls : List Call)
    (hproper : Known.start.all Known.isProper calls) :
    run m calls = .error .addressInUse ∨
      ∃ m', run m calls = .ok ((Known.start.run calls).1, m') ∧
        (∀ a s, m.heap a = some s → m'.heap a = some s) ∧
        (Known.start.all Known.isTidy calls →
          (∀ e, (Known.start.run calls).2.initialised e →
            (Known.start.run calls).2.errors e = unset) →
          m'.heap = m.heap) := by
  have hscope : ∀ p, Known.start.scope p → False := nofun
  have hstart : Holds m.heap Known.start m := (Owners.Owns.start m _).of_scope hscope
  have htight : m.Tight m.heap Known.start.scope := (Owners.Tight.start m).of_scope nofun
  refine (run_holds hstart hproper).imp_right ?_
  rintro ⟨m', hrun, hholds, ht⟩
  refine ⟨m', hrun, hholds.kept, fun htidy hunset => ?_⟩
  refine (ht htidy htight).heap_eq hholds fun p hp => ?_
  refine (hholds.reads p hp).eq_none_iff.mpr ?_
  show text ((Known.start.run calls).2.errors p.1) p.2 = none
  rw [hunset p.1 hp]
  cases p.2 <;> rfl

/-- A program finds rubbish where it keeps two errors. It sets the first one, twice, moves it to
the second one, reads it there, and frees both. -/
theorem errors_memory_safe_moved :
    let m : Memory := ⟨fun a => if a = 7 then some "of somebody else" else none,
      fun p => if p.1 = 0 then some 7 else some 9⟩
    ∃ m', run m [.init (some 0), .init (some 1), .setConst (some 0) (some "a.B") none 1 2,
        .setConst (some 0) (some "a.C") (some "no") 2 1, .move (some 0) (some 1), .isSet (some 0),
        .hasName (some 1) (some "a.C"), .readText 1 .message, .free (some 1), .free (some 0)] =
      .ok ([.done, .done, .done, .done, .done, .flag false, .flag true, .text (some "no"), .done,
        .done], m') ∧ m'.heap = m.heap := by
  intro m
  let calls : List Call := [.init (some 0), .init (some 1),
    .setConst (some 0) (some "a.B") none 1 2, .setConst (some 0) (some "a.C") (some "no") 2 1,
    .move (some 0) (some 1), .isSet (some 0), .hasName (some 1) (some "a.C"),
    .readText 1 .message, .free (some 1), .free (some 0)]
  have hproper : Known.start.all Known.isProper calls := by decide +kernel
  rcases errors_memory_safe m calls hproper with hfault | ⟨m', hrun, -, hfreed⟩
  · have hok : (run m calls).toOption.isSome = true := by decide +kernel
    rw [hfault] at hok
    cases hok
  · refine ⟨m', hrun, hfreed (by decide +kernel) fun e _ => ?_⟩
    rcases e with _ | _ | e <;> rfl

end Programs

end Errors

end Libdbus

end Oxibus
