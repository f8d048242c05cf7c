import Oxibus.Lib.Text
import Oxibus.Lib.Utf8

/-!
# Mechanisms of authentication

The three mechanisms that a server may offer and a client try, by the names
they have on a line.
-/

namespace Oxibus

/-- **A mechanism.** -/
inductive Mechanism where
  | external
  | dbusCookieSha1
  | anonymous
  deriving DecidableEq, Repr

namespace Mechanism

def name : Mechanism → String
  | external => "EXTERNAL"
  | dbusCookieSha1 => "DBUS_COOKIE_SHA1"
  | anonymous => "ANONYMOUS"

def parse (s : String) : Option Mechanism :=
  if s = "EXTERNAL" then some external
  else if s = "DBUS_COOKIE_SHA1" then some dbusCookieSha1
  else if s = "ANONYMOUS" then some anonymous
  else none

@[simp] theorem parse_name (m : Mechanism) : parse m.name = some m := by cases m <;> rfl

end Mechanism

/-- The names of some mechanisms, with spaces between them. -/
def mechanismListString (mechs : List Mechanism) : String :=
  " ".intercalate (mechs.map Mechanism.name)

/-- The hash function SHA-1, of which nothing is used but the length of what it
gives. -/
abbrev Digest : Type := List UInt8 → Vector UInt8 20

/-- **The answer to a challenge**, in hexadecimal. -/
def cookieHash (sha1 : Digest) (serverChallenge clientChallenge cookie : String) : String :=
  hexEncode (sha1 (asBytes (serverChallenge ++ ":" ++ clientChallenge ++ ":" ++ cookie))).toList

/-- The command of a line, and the rest of the line. -/
def splitCommand (line : String) : String × String :=
  match splitOnce ' ' line with
  | some (command, rest) => (command, trimStart rest)
  | none => (line, "")

/-- Of a line with a space the command is what stands before it. -/
theorem splitCommand_append {command : String} (h : ' ' ∉ command.toList) (rest : String) :
    splitCommand (command ++ String.singleton ' ' ++ rest) = (command, trimStart rest) := by
  unfold splitCommand
  rw [splitOnce_append h]

/-- A line without a space is a command. -/
theorem splitCommand_of_not_mem {line : String} (h : ' ' ∉ line.toList) :
    splitCommand line = (line, "") := by
  unfold splitCommand
  rw [splitOnce_of_not_mem h]

end Oxibus
