import Mathlib.Data.List.Basic
import Oxibus.Lib.Outcome
import Oxibus.Lib.Utf8

/-!
# The type system of the wire format

`DType` is the type a signature describes and `Value` a value that carries
its own type. A container of the source holds boxed or listed components;
here they are the constructor's arguments, and an array keeps, beside its
elements, the element type it was declared with, since an empty array has
no other.

Two values of the source hold text that is checked when it is built. They
are newtypes over a string with a checking constructor `new` and, for
object paths, an unchecked one as well, so a value of the newtype says
nothing about its text; what `new` accepts is `isValidObjectPath` for the
one and the signature grammar (`Oxibus.Core.Signature`) for the other.

Floating-point values are their bit patterns, which is how they travel.
-/

namespace Oxibus

/-! ## Limits -/

/-- The number of arrays a signature may nest. -/
def maxArrayDepth : ℕ := 32

/-- The number of structs and dict entries a signature may nest. -/
def maxStructDepth : ℕ := 32

/-- The length of a signature in bytes. -/
def maxSignatureLen : ℕ := 255

/-- The length of an array's elements in bytes. -/
def maxArrayLen : ℕ := 67108864

/-! ## Errors -/

/-- **The errors of the protocol core**, with the data each reports. -/
inductive CoreError where
  | invalidSignature (text reason : String)
  | signatureTooLong (len : ℕ)
  | nestingTooDeep (maxArray maxStruct : ℕ)
  | invalidObjectPath (path : String)
  | invalidUtf8
  | embeddedNul
  | unexpectedEof (needed have_ : ℕ)
  | invalidBoolean (raw : UInt32)
  | arrayTooLong (len : ℕ)
  | badByteOrder (marker : UInt8)
  | badProtocolVersion (version : UInt8)
  | missingHeaderField (field : String)
  | typeMismatch (expected : String)
  | fdIndexOutOfRange (index : UInt32) (available : ℕ)
  | invalidAddress (text : String)
  deriving DecidableEq, Repr

/-- A result of the protocol core. -/
abbrev CoreResult (α : Type) : Type := Outcome CoreError α

/-! ## Types -/

/-- **A complete type of the wire format.** -/
inductive DType where
  | byte
  | boolean
  | int16
  | uint16
  | int32
  | uint32
  | int64
  | uint64
  | double
  | string
  | objectPath
  | signature
  | unixFd
  | array (elem : DType)
  | struct (fields : List DType)
  | dictEntry (key val : DType)
  | variant

namespace DType

/-- The character a type starts with in a signature. -/
def code : DType → Char
  | byte => 'y'
  | boolean => 'b'
  | int16 => 'n'
  | uint16 => 'q'
  | int32 => 'i'
  | uint32 => 'u'
  | int64 => 'x'
  | uint64 => 't'
  | double => 'd'
  | string => 's'
  | objectPath => 'o'
  | signature => 'g'
  | unixFd => 'h'
  | array _ => 'a'
  | struct _ => '('
  | dictEntry _ _ => '{'
  | variant => 'v'

/-- The multiple of bytes at which a value of the type starts. -/
def alignment : DType → ℕ
  | byte | signature | variant => 1
  | int16 | uint16 => 2
  | boolean | int32 | uint32 | unixFd | string | objectPath | array _ => 4
  | int64 | uint64 | double | struct _ | dictEntry _ _ => 8

/-- Whether the type is a basic one, neither a container nor a variant. -/
def isBasic : DType → Bool
  | array _ | struct _ | dictEntry _ _ | variant => false
  | _ => true

/-- Whether the type is a container or a variant. -/
def isContainer (t : DType) : Bool := !t.isBasic

mutual

/-- The characters of a type's signature: `write_signature`. -/
def signatureChars : DType → List Char
  | array elem => 'a' :: signatureChars elem
  | struct fields => '(' :: (signatureCharsList fields ++ [')'])
  | dictEntry k v => '{' :: (signatureChars k ++ signatureChars v ++ ['}'])
  | byte => [code byte]
  | boolean => [code boolean]
  | int16 => [code int16]
  | uint16 => [code uint16]
  | int32 => [code int32]
  | uint32 => [code uint32]
  | int64 => [code int64]
  | uint64 => [code uint64]
  | double => [code double]
  | string => [code string]
  | objectPath => [code objectPath]
  | signature => [code signature]
  | unixFd => [code unixFd]
  | variant => [code variant]

/-- The signatures of a struct's fields, one after the other. -/
def signatureCharsList : List DType → List Char
  | [] => []
  | t :: ts => signatureChars t ++ signatureCharsList ts

end

/-- The signature of a type. -/
def toSignatureString (t : DType) : String := String.ofList t.signatureChars

/-- How many containers a type nests, itself included. -/
def height : DType → ℕ
  | array elem => height elem + 1
  | struct fields => heightList fields + 1
  | dictEntry k v => max (height k) (height v) + 1
  | _ => 0
where
  /-- The largest height of a list of types. -/
  heightList : List DType → ℕ
    | [] => 0
    | t :: ts => max (height t) (heightList ts)

end DType

/-! ## Checked text -/

/-- An object path. -/
structure ObjectPath where
  /-- The text, which `ObjectPath.new` checks. -/
  text : String
  deriving DecidableEq, Repr

/-- A byte of an object path's element: a letter, a digit or `_`. -/
def isPathByte (b : UInt8) : Bool :=
  (48 ≤ b && b ≤ 57) || (65 ≤ b && b ≤ 90) || (97 ≤ b && b ≤ 122) || b == 95

/-- **The grammar of object paths**: `/` alone, or `/`-separated non-empty
elements after a leading `/`. The separator is ASCII, so the text is split
where its bytes are. -/
def isValidObjectPath (s : String) : Bool :=
  match asBytes s with
  | 47 :: rest =>
    if rest.isEmpty then
      true
    else if rest.getLast? == some 47 then
      false
    else
      (rest.splitOn 47).all fun segment => !segment.isEmpty && segment.all isPathByte
  | _ => false

/-- The checking constructor of an object path. -/
def ObjectPath.new (s : String) : CoreResult ObjectPath :=
  if isValidObjectPath s then .ok ⟨s⟩ else .err (.invalidObjectPath s)

/-- Whether the path is the prefix or lies below it. -/
def ObjectPath.isWithinNamespace (p : ObjectPath) (pre : String) : Bool :=
  pre == "/" || p.text == pre || (pre ++ "/").toList.isPrefixOf p.text.toList

/-- A signature: a string of type codes. -/
structure Signature where
  /-- The text, which `Signature.new` checks. -/
  text : String
  deriving DecidableEq, Repr

/-! ## Values -/

/-- **A value of the wire format**, which knows its own type. -/
inductive Value where
  | byte (v : UInt8)
  | boolean (v : Bool)
  | int16 (v : Int16)
  | uint16 (v : UInt16)
  | int32 (v : Int32)
  | uint32 (v : UInt32)
  | int64 (v : Int64)
  | uint64 (v : UInt64)
  | double (bits : UInt64)
  | string (s : String)
  | objectPath (p : ObjectPath)
  | signature (sig : Signature)
  | unixFd (index : UInt32)
  | array (elementType : DType) (elements : List Value)
  | struct (fields : List Value)
  | dictEntry (key val : Value)
  | variant (inner : Value)

namespace Value

mutual

/-- The type of a value. -/
def valueType : Value → DType
  | byte _ => .byte
  | boolean _ => .boolean
  | int16 _ => .int16
  | uint16 _ => .uint16
  | int32 _ => .int32
  | uint32 _ => .uint32
  | int64 _ => .int64
  | uint64 _ => .uint64
  | double _ => .double
  | string _ => .string
  | objectPath _ => .objectPath
  | signature _ => .signature
  | unixFd _ => .unixFd
  | array elementType _ => .array elementType
  | struct fields => .struct (valueTypes fields)
  | dictEntry k v => .dictEntry (valueType k) (valueType v)
  | variant _ => .variant

/-- The types of a list of values. -/
def valueTypes : List Value → List DType
  | [] => []
  | v :: vs => valueType v :: valueTypes vs

end

/-- The text of a string, object path or signature. -/
def asStr : Value → Option String
  | string s => some s
  | objectPath p => some p.text
  | signature sig => some sig.text
  | _ => none

/-- The number of an unsigned 32-bit value or an fd index. -/
def asU32 : Value → Option UInt32
  | uint32 v => some v
  | unixFd v => some v
  | _ => none

/-- The value under any number of variants. -/
def unwrapVariant : Value → Value
  | variant inner => inner.unwrapVariant
  | other => other

end Value

/-! ## Induction over types and values

A container holds its components in a list, and every argument about a
type or a value goes component by component. The two rules below give the
induction hypothesis for each member of the list. -/

/-- Induction over types, with a hypothesis for each field of a struct. -/
@[elab_as_elim]
theorem DType.inductionOn {motive : DType → Prop} (t : DType)
    (basic : ∀ t, t.isBasic = true → motive t)
    (array : ∀ elem, motive elem → motive (.array elem))
    (struct : ∀ fields, (∀ f ∈ fields, motive f) → motive (.struct fields))
    (dictEntry : ∀ k v, motive k → motive v → motive (.dictEntry k v))
    (variant : motive .variant) : motive t := by
  refine DType.rec (motive_1 := motive) (motive_2 := fun ts => ∀ t ∈ ts, motive t)
    ?_ ?_ ?_ ?_ ?_ ?_ ?_ ?_ ?_ ?_ ?_ ?_ ?_ array struct dictEntry variant ?_ ?_ t
  all_goals first | exact basic _ rfl | skip
  · intro t ht
    cases ht
  · intro t ts ht hts t' ht'
    rcases List.mem_cons.mp ht' with rfl | h
    · exact ht
    · exact hts t' h

/-- **A value that is no container.** -/
inductive Value.Basic : Value → Prop where
  | byte (v : UInt8) : Basic (.byte v)
  | boolean (v : Bool) : Basic (.boolean v)
  | int16 (v : Int16) : Basic (.int16 v)
  | uint16 (v : UInt16) : Basic (.uint16 v)
  | int32 (v : Int32) : Basic (.int32 v)
  | uint32 (v : UInt32) : Basic (.uint32 v)
  | int64 (v : Int64) : Basic (.int64 v)
  | uint64 (v : UInt64) : Basic (.uint64 v)
  | double (bits : UInt64) : Basic (.double bits)
  | string (s : String) : Basic (.string s)
  | objectPath (p : ObjectPath) : Basic (.objectPath p)
  | signature (sig : Signature) : Basic (.signature sig)
  | unixFd (index : UInt32) : Basic (.unixFd index)

theorem Value.basic_of_isBasic {v : Value} (h : v.valueType.isBasic = true) : v.Basic := by
  cases v with
  | array _ _ => simp [valueType, DType.isBasic] at h
  | struct _ => simp [valueType, DType.isBasic] at h
  | dictEntry _ _ => simp [valueType, DType.isBasic] at h
  | variant _ => simp [valueType, DType.isBasic] at h
  | _ => constructor

/-- Induction over values, with a hypothesis for each element of an array
and each field of a struct. -/
@[elab_as_elim]
theorem Value.inductionOn {motive : Value → Prop} (v : Value)
    (basic : ∀ v, v.valueType.isBasic = true → motive v)
    (array : ∀ elementType elements, (∀ e ∈ elements, motive e) →
      motive (.array elementType elements))
    (struct : ∀ fields, (∀ f ∈ fields, motive f) → motive (.struct fields))
    (dictEntry : ∀ k v, motive k → motive v → motive (.dictEntry k v))
    (variant : ∀ inner, motive inner → motive (.variant inner)) : motive v := by
  refine Value.rec (motive_1 := motive) (motive_2 := fun vs => ∀ v ∈ vs, motive v)
    ?_ ?_ ?_ ?_ ?_ ?_ ?_ ?_ ?_ ?_ ?_ ?_ ?_ array struct dictEntry variant ?_ ?_ v
  all_goals first | exact fun _ => basic _ rfl | skip
  · intro v hv
    cases hv
  · intro v vs hv hvs v' hv'
    rcases List.mem_cons.mp hv' with rfl | h
    · exact hv
    · exact hvs v' h

end Oxibus
