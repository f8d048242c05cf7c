import Oxibus.Auth.Agreement
import Oxibus.Daemon.Opening

/-!
# What is said can be read

A line that is written is to be read as that line: its end must not stand in
it, and it must not be longer than a reader allows. Neither side looks at its
lines for that. They are short, most of them, and made of what has no end of a
line in it, numbers and bytes in hexadecimal. Two lines of the server are as
long as they are: the one that names its mechanisms, and the one that names the
bus. Whoever configures a bus has a say in those.
-/

namespace Oxibus

open Conversation

/-! ## Brief text -/

/-- **Text of some bytes at most** in which no line can end. -/
structure Brief (n : ℕ) (s : String) : Prop where
  length : (asBytes s).length ≤ n
  cr : 13 ∉ asBytes s

instance (n : ℕ) (s : String) : Decidable (Brief n s) :=
  decidable_of_iff ((asBytes s).length ≤ n ∧ 13 ∉ asBytes s)
    ⟨fun h => ⟨h.1, h.2⟩, fun h => ⟨h.1, h.2⟩⟩

namespace Brief

variable {m n : ℕ} {s t : String}

theorem append (hs : Brief m s) (ht : Brief n t) : Brief (m + n) (s ++ t) where
  length := by
    rw [asBytes_append, List.length_append]
    exact Nat.add_le_add hs.length ht.length
  cr := by
    rw [asBytes_append, List.mem_append]
    exact not_or.mpr ⟨hs.cr, ht.cr⟩

/-- ASCII text without white space. -/
theorem of_solid (hs : Solid s) (hascii : ∀ c ∈ s.toList, IsAscii c) : Brief s.toList.length s where
  length := by
    have hbytes := asBytes_ofList fun c hc => isAscii_iff_utf8Size.mp (hascii c hc)
    rw [String.ofList_toList] at hbytes
    rw [hbytes, List.length_map]
  cr := fun hcr => hs.not_mem (by decide) (mem_toList_of_mem_asBytes hcr (by decide))

theorem mono (hs : Brief m s) (hmn : m ≤ n) : Brief n s := ⟨hs.length.trans hmn, hs.cr⟩

end Brief

theorem length_hexChars (bs : List UInt8) : (hexChars bs).length = 2 * bs.length := by
  induction bs with
  | nil => rfl
  | cons b bs ih =>
    rw [hexChars, List.length_cons, List.length_cons, ih, List.length_cons]
    omega

theorem brief_hexEncode (bs : List UInt8) : Brief (2 * bs.length) (hexEncode bs) := by
  have hdigit : ∀ n < 16, IsAscii (hexDigit n) := by decide
  have hbrief : Brief (hexEncode bs).toList.length (hexEncode bs) := by
    refine .of_solid (solid_hexEncode bs) fun c hc => ?_
    obtain ⟨n, hn, rfl⟩ := exists_hexDigit_of_mem hc
    exact hdigit n hn
  rwa [hexEncode, String.toList_ofList, length_hexChars] at hbrief

theorem brief_decimal (n : UInt32) : Brief 10 (decimal n.toNat) := by
  have hascii : ∀ c ∈ (decimal n.toNat).toList, IsAscii c := by
    intro c hc
    have hdigit := isDigit_of_mem_decimal hc
    unfold Char.isDigit at hdigit
    rw [Bool.and_eq_true, decide_eq_true_eq, decide_eq_true_eq] at hdigit
    have hhigh : c.toNat ≤ 57 := UInt32.le_iff_toNat_le.mp hdigit.2
    exact Nat.lt_of_le_of_lt hhigh (by decide)
  have hlength : (decimal n.toNat).toList.length ≤ 10 := by
    rw [String.length_toList]
    exact (Nat.length_repr_le_iff (by decide)).mpr (Nat.lt_trans n.toNat_lt (by decide))
  exact (Brief.of_solid (solid_decimal _) hascii).mono hlength

/-- Bytes of a text in hexadecimal. -/
theorem brief_hexText {n : ℕ} {s : String} (hs : Brief n s) :
    Brief (2 * n) (hexEncode (asBytes s)) :=
  (brief_hexEncode _).mono (Nat.mul_le_mul_left 2 hs.length)

/-- **Brief text can be read as a line.** -/
theorem Brief.readable {n : ℕ} {s : String} (hs : Brief n s) (hn : n < maxAuthLineBytes) :
    Readable s :=
  ⟨Crlf.findCrlf_line hs.cr, Nat.lt_of_le_of_lt hs.length hn⟩

/-! ## The server -/

namespace ServerAuth

/-- **What a server says**: which mechanisms it accepts, which bus it is of, or something brief. -/
def Utters (auth : ServerAuth) (line : String) : Prop :=
  line = "REJECTED " ++ mechanismListString auth.allowedMechanisms ∨
    line = "OK " ++ auth.guidHex ∨ Brief 1000 line

/-- **What becomes of a line, as far as the lines go that answer it.** -/
structure Answers (auth : ServerAuth) (served : Served) : Prop where
  lines : ∀ line ∈ served.action.lines, auth.Utters line
  allowedMechanisms : served.auth.allowedMechanisms = auth.allowedMechanisms
  guidHex : served.auth.guidHex = auth.guidHex

variable {sha1 : Digest} {machine : Machine} {disk : Disk} {auth : ServerAuth}

/-- A mechanism that has been started changes nothing about that. -/
theorem Answers.of_startMechanism {mechanism : Mechanism} {served : Served}
    (h : (auth.startMechanism mechanism).Answers served) : auth.Answers served :=
  ⟨h.lines, h.allowedMechanisms, h.guidHex⟩

theorem answers_rejected (auth : ServerAuth) (disk : Disk) : auth.Answers (auth.rejected disk) := by
  unfold rejected
  dsimp only
  split
  · exact ⟨nofun, rfl, rfl⟩
  · exact ⟨fun _ hline => .inl (List.mem_singleton.mp hline), rfl, rfl⟩

theorem answers_ok (auth : ServerAuth) (disk : Disk) (uid : Option UInt32) :
    auth.Answers (auth.ok disk uid) :=
  ⟨fun _ hline => .inr (.inl (List.mem_singleton.mp hline)), rfl, rfl⟩

theorem answers_brief {auth' : ServerAuth} {line : String} (hline : Brief 1000 line)
    (hallowed : auth'.allowedMechanisms = auth.allowedMechanisms)
    (hguid : auth'.guidHex = auth.guidHex) : auth.Answers ⟨.send [line], auth', disk⟩ :=
  ⟨fun _ hmem => .inr (.inr (List.mem_singleton.mp hmem ▸ hline)), hallowed, hguid⟩

theorem brief_challengeText (cookieId : UInt32) (challenge : Vector UInt8 16) :
    Brief 67 (challengeText cookieId challenge.toList) := by
  have hcontext : Brief 23 defaultContext := by decide
  have hspace : Brief 1 " " := by decide
  have hchallenge := brief_hexEncode challenge.toList
  rw [Vector.length_toList] at hchallenge
  exact ((((hcontext.append hspace).append (brief_decimal cookieId)).append hspace).append
    hchallenge).mono (by decide)

theorem answers_dispatchMechanismData (mechanism : Mechanism) (cookie : CookieState)
    (data : List UInt8) :
    auth.Answers (auth.dispatchMechanismData sha1 machine disk mechanism cookie data) := by
  cases mechanism with
  | external =>
    show auth.Answers (auth.handleExternal disk data)
    unfold handleExternal
    split
    · split
      · exact answers_ok ..
      · exact answers_rejected ..
    · exact answers_rejected ..
  | anonymous => exact answers_ok ..
  | dbusCookieSha1 =>
    show auth.Answers (auth.handleCookieSha1 sha1 machine disk cookie data)
    unfold handleCookieSha1
    split
    · unfold cookieSha1FirstResponse
      split
      · exact answers_rejected ..
      split
      · exact answers_rejected ..
      split
      · exact answers_rejected ..
      split
      · exact answers_rejected ..
      next cookieId disk' _ =>
      have hdata : Brief 5 "DATA " := by decide
      exact answers_brief ((hdata.append (brief_hexText (brief_challengeText cookieId
        machine.challenge))).mono (by decide)) rfl rfl
    · unfold cookieSha1SecondResponse
      split
      · exact answers_rejected ..
      split
      · exact answers_rejected ..
      split
      · exact answers_rejected ..
      split
      · exact answers_rejected ..
      split
      · exact answers_rejected ..
      dsimp only
      split
      · exact answers_rejected ..
      · exact answers_ok ..

/-- **What a line is answered by.** -/
theorem answers_feedLine (line : String) : auth.Answers (auth.feedLine sha1 machine disk line) := by
  unfold feedLine
  dsimp only
  split
  · unfold handleWaitingForAuth
    split
    · split
      · exact answers_rejected ..
      dsimp only
      split
      · exact answers_rejected ..
      next mechanism _ =>
      split
      · exact answers_rejected ..
      split
      · exact answers_rejected ..
      split
      · split
        · exact answers_rejected ..
        · exact (answers_dispatchMechanismData mechanism _ _).of_startMechanism
      · exact answers_brief (by decide) rfl rfl
    split
    · exact answers_rejected ..
    · exact answers_brief (by decide) rfl rfl
  · unfold handleWaitingForData
    split
    · split
      · exact answers_rejected ..
      · exact answers_dispatchMechanismData ..
    split
    · exact answers_rejected ..
    split
    · exact answers_rejected ..
    split
    · exact answers_brief (by decide) rfl rfl
    split
    · exact answers_brief (by decide) rfl rfl
    · exact answers_brief (by decide) rfl rfl
  · unfold handleWaitingForBegin
    split
    · exact ⟨nofun, rfl, rfl⟩
    split
    · exact answers_brief (by decide) rfl rfl
    split
    · exact answers_rejected ..
    split
    · exact answers_rejected ..
    · exact answers_brief (by decide) rfl rfl

end ServerAuth

/-! ## The client -/

theorem brief_authLine (uid : UInt32) (mechanism : Mechanism) :
    Brief 100 (authLine uid mechanism) := by
  have hdata : Brief 20 (hexEncode (asBytes (decimal uid.toNat))) :=
    brief_hexText (brief_decimal uid)
  cases mechanism with
  | external =>
    have hcommand : Brief 14 "AUTH EXTERNAL " := by decide
    exact (hcommand.append hdata).mono (by decide)
  | anonymous =>
    have hcommand : Brief 15 "AUTH ANONYMOUS " := by decide
    exact (hcommand.append (brief_hexEncode _)).mono (by decide)
  | dbusCookieSha1 =>
    have hcommand : Brief 22 "AUTH DBUS_COOKIE_SHA1 " := by decide
    exact (hcommand.append hdata).mono (by decide)

namespace ClientAuth

variable {sha1 : Digest} {machine : Machine} {disk : Disk} {auth auth' : ClientAuth}
  {line answer : String}

theorem brief_cookieHash (serverChallenge clientChallenge cookie : String) :
    Brief 40 (cookieHash sha1 serverChallenge clientChallenge cookie) := by
  refine (brief_hexEncode _).mono ?_
  rw [Vector.length_toList]

/-- The answer to a challenge. -/
theorem brief_respondToCookieChallenge {data : List UInt8}
    (h : auth.respondToCookieChallenge sha1 machine disk data = (.send answer, auth')) :
    Brief 200 answer := by
  unfold respondToCookieChallenge at h
  split at h
  · cases h
  split at h
  · split at h
    · cases h
    split at h
    · cases h
    split at h
    · cases h
    split at h
    · cases h
    obtain ⟨haction, -⟩ := Prod.mk.inj h
    rw [← ClientAction.send.inj haction]
    have hdata : Brief 5 "DATA " := by decide
    have hspace : Brief 1 " " := by decide
    have hchallenge := brief_hexEncode machine.challenge.toList
    rw [Vector.length_toList] at hchallenge
    exact (hdata.append (brief_hexText ((hchallenge.append hspace).append
      (brief_cookieHash ..)))).mono (by decide)
  · cases h

/-- **What a client says is brief.** -/
theorem brief_feedLine (h : auth.feedLine sha1 machine disk line = (.send answer, auth')) :
    Brief 200 answer := by
  unfold feedLine at h
  dsimp only at h
  split at h
  · cases h
  split at h
  · cases h
  split at h
  · unfold handleData at h
    split at h
    · split at h
      · cases h
      split at h
      · obtain ⟨haction, -⟩ := Prod.mk.inj h
        rw [← ClientAction.send.inj haction]
        exact (brief_authLine ..).mono (by decide)
      · obtain ⟨haction, -⟩ := Prod.mk.inj h
        rw [← ClientAction.send.inj haction]
        exact (brief_authLine ..).mono (by decide)
      · split at h
        · cases h
        · exact brief_respondToCookieChallenge h
    · cases h
  split at h
  · cases h
  split at h
  · cases h
  · cases h

end ClientAuth

/-! ## Both in their loops -/

namespace ClientPhase

/-- The lines that a client is to write before it reads. -/
def lines : ClientPhase → List String
  | .writing _ line => [line]
  | .finishing lines _ => lines
  | _ => []

/-- **They can be read.** -/
def Heard (phase : ClientPhase) : Prop := ∀ line ∈ phase.lines, Readable line

theorem lines_clientFinishing (expectReply : Bool) (lines : List String) :
    (clientFinishing expectReply lines).lines = lines := by
  cases lines with
  | nil => cases expectReply <;> rfl
  | cons line lines => rfl

end ClientPhase

namespace ServerPhase

/-- The lines that a server is to write before it reads. -/
def lines : ServerPhase → List String
  | .writing _ lines => lines
  | _ => []

/-- How far its side of the conversation is. -/
def auth : ServerPhase → Option ServerAuth
  | .reading auth => some auth
  | .writing auth _ => some auth
  | .begun auth => some auth
  | .failed _ => none

theorem lines_serverSending (auth : ServerAuth) (lines : List String) :
    (serverSending auth lines).lines = lines := by
  cases lines <;> rfl

theorem auth_serverSending (auth : ServerAuth) (lines : List String) :
    (serverSending auth lines).auth = some auth := by
  cases lines <;> rfl

end ServerPhase

section Loops

variable {sha1 : Digest} {machine : Machine} {disk : Disk} {uid : UInt32}

/-- **What a client writes after a line can be read.** -/
theorem heard_clientAfter (auth : ClientAuth) (line : String) :
    (clientAfter uid (auth.feedLine sha1 machine disk line)).Heard := by
  have hread : ∀ {n : ℕ} {s : String}, Brief n s → n ≤ 200 → Readable s :=
    fun hs hn => hs.readable (Nat.lt_of_le_of_lt hn (by decide))
  cases h : auth.feedLine sha1 machine disk line with
  | mk action auth' =>
    cases action with
    | authenticated =>
      show (clientFinishing _ _).Heard
      have hnegotiate : Readable "NEGOTIATE_UNIX_FD" := by decide
      have hbegin : Readable "BEGIN" := by decide
      unfold ClientPhase.Heard
      rw [ClientPhase.lines_clientFinishing]
      unfold ClientAuth.finishLines
      split
      · exact List.forall_mem_cons.mpr ⟨hnegotiate, List.forall_mem_singleton.mpr hbegin⟩
      · exact List.forall_mem_singleton.mpr hbegin
    | send answer =>
      exact List.forall_mem_singleton.mpr (hread (ClientAuth.brief_feedLine h) le_rfl)
    | mechanismRejected names =>
      unfold clientAfter
      dsimp only
      cases hnext : auth'.tryNextMechanism uid with
      | none => exact List.forall_mem_nil _
      | some next =>
        unfold ClientAuth.tryNextMechanism at hnext
        split at hnext
        · rw [← Option.some.inj hnext]
          exact List.forall_mem_singleton.mpr (hread (brief_authLine ..) (by decide))
        · cases hnext
    | protocolError text => exact List.forall_mem_nil _

/-- **A server of a bus whose lines can be read.** -/
structure ServerAuth.Clear (auth : ServerAuth) : Prop where
  names : Readable ("REJECTED " ++ mechanismListString auth.allowedMechanisms)
  guid : Readable ("OK " ++ auth.guidHex)

/-- **A server in its loop**, whose lines can be read. -/
structure ServerPhase.Heard (phase : ServerPhase) : Prop where
  lines : ∀ line ∈ phase.lines, Readable line
  clear : ∀ auth, phase.auth = some auth → auth.Clear

theorem ServerAuth.Clear.readable {auth : ServerAuth} (h : auth.Clear) {line : String}
    (hline : auth.Utters line) : Readable line := by
  rcases hline with rfl | rfl | hbrief
  · exact h.names
  · exact h.guid
  · exact hbrief.readable (by decide)

/-- **What a server writes after a line can be read.** -/
theorem ServerAuth.Clear.heard_serverAfter {auth : ServerAuth} (h : auth.Clear) (line : String) :
    (serverAfter (auth.feedLine sha1 machine disk line)).Heard := by
  have hanswers : auth.Answers (auth.feedLine sha1 machine disk line) := answers_feedLine line
  have hclear : (auth.feedLine sha1 machine disk line).auth.Clear := by
    constructor
    · rw [hanswers.allowedMechanisms]
      exact h.names
    · rw [hanswers.guidHex]
      exact h.guid
  have hlines := hanswers.lines
  unfold serverAfter
  cases haction : (auth.feedLine sha1 machine disk line).action with
  | send lines =>
    rw [haction] at hlines
    constructor
    · show ∀ line ∈ (serverSending _ lines).lines, Readable line
      rw [ServerPhase.lines_serverSending]
      exact fun line hline => h.readable (hlines line hline)
    · intro auth' hauth'
      rw [ServerPhase.auth_serverSending] at hauth'
      rw [← Option.some.inj hauth']
      exact hclear
  | begin uid =>
    refine ⟨nofun, fun auth' hauth' => ?_⟩
    rw [← Option.some.inj hauth']
    exact hclear
  | disconnect reason => exact ⟨nofun, nofun⟩

end Loops

end Oxibus
