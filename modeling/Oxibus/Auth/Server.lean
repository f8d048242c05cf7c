import Oxibus.Auth.Keyring
import Oxibus.Auth.Mechanism
import Oxibus.Daemon.Registry

/-!
# Authentication, the server's side

A server reads lines and answers them until a client has shown who it is and
says BEGIN. What it says itself of a client – which user, or nobody – it must
have from the socket: a client names a user, and the server compares.

The state machine is the one of the source, line by line. What a line can do is
said once (`ServerAuth.feedLine_reaction`), and from that follows what holds of
all lines a server is ever fed (`feedLines_authorized`).
-/

namespace Oxibus

/-- How many failures end the conversation. -/
def maxFailures : UInt32 := 6

/-- How far the exchange about a cookie is. -/
structure CookieState where
  cookieId : Option UInt32
  serverChallengeHex : Option String
  deriving DecidableEq, Repr

/-- **What a server waits for.** -/
inductive ServerState where
  | waitingForAuth
  | waitingForData (mechanism : Mechanism) (cookie : CookieState)
  | waitingForBegin (uid : Option UInt32)
  deriving DecidableEq, Repr

/-- What a server does about a line. -/
inductive ServerAction where
  | send (lines : List String)
  | begin (uid : Option UInt32)
  | disconnect (reason : String)
  deriving DecidableEq, Repr

/-- **The server's side of a conversation.** -/
structure ServerAuth where
  peer : PeerCredentials
  allowedMechanisms : List Mechanism
  allowAnonymous : Bool
  guidHex : String
  state : ServerState
  failures : UInt32
  unixFdNegotiated : Bool
  homeDir : Option String
  deriving DecidableEq, Repr

/-- What has become of a line. -/
structure Served where
  action : ServerAction
  auth : ServerAuth
  disk : Disk

namespace ServerAuth

def new (peer : PeerCredentials) (allowedMechanisms : List Mechanism) (allowAnonymous : Bool)
    (guidHex : String) (homeDir : Option String) : ServerAuth :=
  ⟨peer, allowedMechanisms, allowAnonymous, guidHex, .waitingForAuth, 0, false, homeDir⟩

/-- A failure: the client may start again, unless it failed too often. -/
def rejected (auth : ServerAuth) (disk : Disk) : Served :=
  let auth := { auth with failures := auth.failures + 1, state := .waitingForAuth }
  if maxFailures ≤ auth.failures then
    ⟨.disconnect "too many authentication failures", auth, disk⟩
  else ⟨.send ["REJECTED " ++ mechanismListString auth.allowedMechanisms], auth, disk⟩

/-- The client is known, or nobody. -/
def ok (auth : ServerAuth) (disk : Disk) (uid : Option UInt32) : Served :=
  ⟨.send ["OK " ++ auth.guidHex], { auth with state := .waitingForBegin uid }, disk⟩

def error (auth : ServerAuth) (disk : Disk) (msg : String) : Served :=
  ⟨.send ["ERROR \"" ++ msg ++ "\""], auth, disk⟩

/-- The user that a client says it is; without data the one the socket says. -/
def desiredUid (auth : ServerAuth) (data : List UInt8) : Option UInt32 :=
  if data.isEmpty then some auth.peer.uid else (fromUtf8 data).bind parseU32

def handleExternal (auth : ServerAuth) (disk : Disk) (data : List UInt8) : Served :=
  match auth.desiredUid data with
  | some uid => if uid = auth.peer.uid then auth.ok disk (some uid) else auth.rejected disk
  | none => auth.rejected disk

def handleAnonymous (auth : ServerAuth) (disk : Disk) : Served := auth.ok disk none

/-- **The first response** of a cookie exchange names the user; the answer is a
challenge. -/
def cookieSha1FirstResponse (machine : Machine) (auth : ServerAuth) (disk : Disk)
    (data : List UInt8) : Served :=
  if auth.desiredUid data ≠ some auth.peer.uid ∨ auth.peer.uid ≠ machine.uid then
    auth.rejected disk
  else
    match auth.homeDir with
    | none => auth.rejected disk
    | some home =>
      match Keyring.load machine disk home defaultContext with
      | .error _ => auth.rejected disk
      | .ok keyring =>
        match keyring.bestKey machine disk with
        | .error _ => auth.rejected disk
        | .ok (cookieId, disk) =>
          let challengeHex := hexEncode machine.challenge.toList
          let reply := defaultContext ++ " " ++ decimal cookieId.toNat ++ " " ++ challengeHex
          ⟨.send ["DATA " ++ hexEncode (asBytes reply)],
            { auth with
              state := .waitingForData .dbusCookieSha1 ⟨some cookieId, some challengeHex⟩ },
            disk⟩

/-- **The second response** shows that the client can read the secret. -/
def cookieSha1SecondResponse (sha1 : Digest) (machine : Machine) (auth : ServerAuth) (disk : Disk)
    (cookieId : UInt32) (cookie : CookieState) (data : List UInt8) : Served :=
  match (fromUtf8 data).bind (splitOnce ' ') with
  | none => auth.rejected disk
  | some (clientChallengeHex, clientHashHex) =>
    if clientChallengeHex = "" ∨ clientHashHex = "" then auth.rejected disk
    else
      match auth.homeDir with
      | none => auth.rejected disk
      | some home =>
        match Keyring.load machine disk home defaultContext with
        | .error _ => auth.rejected disk
        | .ok keyring =>
          match keyring.hexKey cookieId with
          | none => auth.rejected disk
          | some cookieHex =>
            let serverChallengeHex := cookie.serverChallengeHex.getD ""
            if cookieHash sha1 serverChallengeHex clientChallengeHex cookieHex ≠ clientHashHex then
              auth.rejected disk
            else auth.ok disk (some auth.peer.uid)

def handleCookieSha1 (sha1 : Digest) (machine : Machine) (auth : ServerAuth) (disk : Disk)
    (cookie : CookieState) (data : List UInt8) : Served :=
  match cookie.cookieId with
  | none => auth.cookieSha1FirstResponse machine disk data
  | some cookieId => auth.cookieSha1SecondResponse sha1 machine disk cookieId cookie data

def dispatchMechanismData (sha1 : Digest) (machine : Machine) (auth : ServerAuth) (disk : Disk)
    (mechanism : Mechanism) (cookie : CookieState) (data : List UInt8) : Served :=
  match mechanism with
  | .external => auth.handleExternal disk data
  | .anonymous => auth.handleAnonymous disk
  | .dbusCookieSha1 => auth.handleCookieSha1 sha1 machine disk cookie data

/-- The state at the start of a mechanism. -/
def startMechanism (auth : ServerAuth) (mechanism : Mechanism) : ServerAuth :=
  { auth with state := .waitingForData mechanism ⟨none, none⟩ }

def handleWaitingForAuth (sha1 : Digest) (machine : Machine) (auth : ServerAuth) (disk : Disk)
    (command rest : String) : Served :=
  if command = "AUTH" then
    if rest = "" then auth.rejected disk
    else
      let parts := splitn 2 ' ' rest
      match Mechanism.parse (parts[0]?.getD "") with
      | none => auth.rejected disk
      | some mechanism =>
        if mechanism ∉ auth.allowedMechanisms then auth.rejected disk
        else if mechanism = .anonymous ∧ auth.allowAnonymous = false then auth.rejected disk
        else
          match parts[1]? with
          | some initialHex =>
            match hexDecode initialHex with
            | none => auth.rejected disk
            | some data =>
              (auth.startMechanism mechanism).dispatchMechanismData sha1 machine disk mechanism
                ⟨none, none⟩ data
          | none => ⟨.send ["DATA "], auth.startMechanism mechanism, disk⟩
  else if command = "ERROR" then auth.rejected disk
  else auth.error disk "Sent unexpected command while expecting AUTH"

def handleWaitingForData (sha1 : Digest) (machine : Machine) (auth : ServerAuth) (disk : Disk)
    (mechanism : Mechanism) (cookie : CookieState) (command rest : String) : Served :=
  if command = "DATA" then
    match hexDecode rest with
    | none => auth.rejected disk
    | some data => auth.dispatchMechanismData sha1 machine disk mechanism cookie data
  else if command = "CANCEL" then auth.rejected disk
  else if command = "ERROR" then auth.rejected disk
  else if command = "BEGIN" then auth.error disk "Sent BEGIN while expecting DATA"
  else if command = "AUTH" then auth.error disk "Sent AUTH while expecting DATA"
  else auth.error disk "Unknown command while expecting DATA"

def handleWaitingForBegin (auth : ServerAuth) (disk : Disk) (uid : Option UInt32)
    (command : String) : Served :=
  if command = "BEGIN" then ⟨.begin uid, auth, disk⟩
  else if command = "NEGOTIATE_UNIX_FD" then
    ⟨.send ["AGREE_UNIX_FD"], { auth with unixFdNegotiated := true }, disk⟩
  else if command = "CANCEL" then auth.rejected disk
  else if command = "ERROR" then auth.rejected disk
  else auth.error disk "Unknown command while expecting BEGIN"

/-- **Handle a line.** -/
def feedLine (sha1 : Digest) (machine : Machine) (disk : Disk) (auth : ServerAuth) (line : String) :
    Served :=
  let (command, rest) := splitCommand line
  match auth.state with
  | .waitingForAuth => auth.handleWaitingForAuth sha1 machine disk command rest
  | .waitingForData mechanism cookie =>
    auth.handleWaitingForData sha1 machine disk mechanism cookie command rest
  | .waitingForBegin uid => auth.handleWaitingForBegin disk uid command

/-! ## What a line can do -/

/-- Whether a mechanism may be used with a server. -/
def Acceptable (auth : ServerAuth) (mechanism : Mechanism) : Prop :=
  mechanism ∈ auth.allowedMechanisms ∧ (mechanism = .anonymous → auth.allowAnonymous = true)

/-- **Whom a server may take a client for**: the user that the socket says, by
a mechanism that tells users, or nobody, where that is allowed. -/
def Authorized (auth : ServerAuth) : Option UInt32 → Prop
  | some uid => uid = auth.peer.uid ∧
      (.external ∈ auth.allowedMechanisms ∨ .dbusCookieSha1 ∈ auth.allowedMechanisms)
  | none => .anonymous ∈ auth.allowedMechanisms ∧ auth.allowAnonymous = true

/-- What the state says is true: a mechanism that runs may be used, and a client
that is known may be let in. -/
def Sound (auth : ServerAuth) : Prop :=
  match auth.state with
  | .waitingForAuth => True
  | .waitingForData mechanism _ => auth.Acceptable mechanism
  | .waitingForBegin uid => auth.Authorized uid

/-- **What becomes of a line.** -/
inductive Reaction (auth : ServerAuth) : ServerAction → ServerAuth → Prop
  /-- The client failed. -/
  | rejected (disk : Disk) : Reaction auth (auth.rejected disk).action (auth.rejected disk).auth
  /-- The line is not expected. -/
  | complained (disk : Disk) (msg : String) : Reaction auth (auth.error disk msg).action auth
  /-- The server wants data. -/
  | asked (mechanism : Mechanism) (cookie : CookieState) (data : String)
      (acceptable : auth.Acceptable mechanism) :
      Reaction auth (.send ["DATA " ++ data])
      { auth with state := .waitingForData mechanism cookie }
  /-- The client is known. -/
  | accepted (disk : Disk) (uid : Option UInt32) (authorized : auth.Authorized uid) :
      Reaction auth (auth.ok disk uid).action (auth.ok disk uid).auth
  /-- Descriptors may be sent. -/
  | agreed (uid : Option UInt32) (waiting : auth.state = .waitingForBegin uid) :
      Reaction auth (.send ["AGREE_UNIX_FD"]) { auth with unixFdNegotiated := true }
  /-- The conversation is over. -/
  | began (uid : Option UInt32) (waiting : auth.state = .waitingForBegin uid) :
      Reaction auth (.begin uid) auth

section Reactions

variable {sha1 : Digest} {machine : Machine} {auth : ServerAuth} {disk : Disk}

/-- What a mechanism makes of data, started afresh or not. -/
theorem dispatchMechanismData_reaction (state : ServerState) {mechanism : Mechanism}
    (h : auth.Acceptable mechanism) (cookie : CookieState) (data : List UInt8) :
    Reaction auth
      (({ auth with state := state } : ServerAuth).dispatchMechanismData sha1 machine disk mechanism
        cookie data).action
      (({ auth with state := state } : ServerAuth).dispatchMechanismData sha1 machine disk mechanism
        cookie data).auth := by
  have hrejected : ∀ disk, Reaction auth
      (({ auth with state := state } : ServerAuth).rejected disk).action
      (({ auth with state := state } : ServerAuth).rejected disk).auth := .rejected
  have hok : ∀ disk uid, auth.Authorized uid → Reaction auth
      (({ auth with state := state } : ServerAuth).ok disk uid).action
      (({ auth with state := state } : ServerAuth).ok disk uid).auth := .accepted
  cases mechanism with
  | external =>
    show Reaction auth (handleExternal _ _ _).action (handleExternal _ _ _).auth
    unfold handleExternal
    split
    · split
      · next uid _ huid => exact hok _ _ ⟨huid, .inl h.1⟩
      · exact hrejected _
    · exact hrejected _
  | anonymous => exact hok _ _ ⟨h.1, h.2 rfl⟩
  | dbusCookieSha1 =>
    show Reaction auth (handleCookieSha1 _ _ _ _ _ _).action (handleCookieSha1 _ _ _ _ _ _).auth
    unfold handleCookieSha1
    split
    · -- the first response is answered by a challenge
      unfold cookieSha1FirstResponse
      split
      · exact hrejected _
      split
      · exact hrejected _
      split
      · exact hrejected _
      split
      · exact hrejected _
      · exact .asked .dbusCookieSha1 _ _ h
    · -- and the second by an OK
      unfold cookieSha1SecondResponse
      split
      · exact hrejected _
      split
      · exact hrejected _
      split
      · exact hrejected _
      split
      · exact hrejected _
      split
      · exact hrejected _
      dsimp only
      split
      · exact hrejected _
      · exact hok _ _ ⟨rfl, .inr h.1⟩

theorem handleWaitingForAuth_reaction (command rest : String) :
    Reaction auth (auth.handleWaitingForAuth sha1 machine disk command rest).action
      (auth.handleWaitingForAuth sha1 machine disk command rest).auth := by
  unfold handleWaitingForAuth
  split
  · split
    · exact .rejected _
    dsimp only
    split
    · exact .rejected _
    next mechanism _ =>
    split
    · exact .rejected _
    next hallowed =>
    split
    · exact .rejected _
    next hanonymous =>
    have hacceptable : auth.Acceptable mechanism := by
      refine ⟨not_not.mp hallowed, fun hmechanism => ?_⟩
      exact eq_true_of_ne_false fun hfalse => hanonymous ⟨hmechanism, hfalse⟩
    split
    · split
      · exact .rejected _
      · exact dispatchMechanismData_reaction _ hacceptable _ _
    · exact .asked mechanism _ "" hacceptable
  · split
    · exact .rejected _
    · exact .complained _ _

theorem handleWaitingForData_reaction {mechanism : Mechanism} (h : auth.Acceptable mechanism)
    (cookie : CookieState) (command rest : String) :
    Reaction auth (auth.handleWaitingForData sha1 machine disk mechanism cookie command rest).action
      (auth.handleWaitingForData sha1 machine disk mechanism cookie command rest).auth := by
  unfold handleWaitingForData
  split
  · split
    · exact .rejected _
    · exact dispatchMechanismData_reaction auth.state h cookie _
  split
  · exact .rejected _
  split
  · exact .rejected _
  split
  · exact .complained _ _
  split
  · exact .complained _ _
  · exact .complained _ _

theorem handleWaitingForBegin_reaction {uid : Option UInt32}
    (h : auth.state = .waitingForBegin uid) (command : String) :
    Reaction auth (auth.handleWaitingForBegin disk uid command).action
      (auth.handleWaitingForBegin disk uid command).auth := by
  unfold handleWaitingForBegin
  split
  · exact .began uid h
  split
  · exact .agreed uid h
  split
  · exact .rejected _
  split
  · exact .rejected _
  · exact .complained _ _

/-- **What a line can do to a server.** -/
theorem feedLine_reaction (h : auth.Sound) (line : String) :
    Reaction auth (auth.feedLine sha1 machine disk line).action
      (auth.feedLine sha1 machine disk line).auth := by
  unfold Sound at h
  unfold feedLine
  dsimp only
  cases hstate : auth.state with
  | waitingForAuth => exact handleWaitingForAuth_reaction _ _
  | waitingForData mechanism cookie =>
    rw [hstate] at h
    exact handleWaitingForData_reaction h cookie _ _
  | waitingForBegin uid => exact handleWaitingForBegin_reaction hstate _

end Reactions

end ServerAuth

/-! ## Conversations -/

/-- The lines that an action sends. -/
def ServerAction.lines : ServerAction → List String
  | send lines => lines
  | begin _ => []
  | disconnect _ => []

/-- The lines that some actions send. -/
def sentLines (actions : List ServerAction) : List String := actions.flatMap ServerAction.lines

def isOk (line : String) : Bool := (splitCommand line).1 == "OK"

def isRejected (line : String) : Bool := (splitCommand line).1 == "REJECTED"

/-- **The last OK stands**: nothing was rejected after it. -/
def OkStands (lines : List String) : Prop :=
  ∃ before ok after, lines = before ++ ok :: after ∧ isOk ok = true ∧
    ∀ line ∈ after, isOk line = false ∧ isRejected line = false

/-- A line that is fed to a server, with what the machine gives and what is on
the disk meanwhile. -/
structure ServerInput where
  machine : Machine
  disk : Disk
  line : String

/-- **What a server does about some lines.** -/
def feedLines (sha1 : Digest) : ServerAuth → List ServerInput → List ServerAction
  | _, [] => []
  | auth, input :: inputs =>
    let served := auth.feedLine sha1 input.machine input.disk input.line
    served.action :: feedLines sha1 served.auth inputs

theorem sentLines_append (actions : List ServerAction) (action : ServerAction) :
    sentLines (actions ++ [action]) = sentLines actions ++ action.lines := by
  unfold sentLines
  rw [List.flatMap_append, List.flatMap_singleton]

/-- What stands is left standing by a line that is neither. -/
theorem OkStands.append {lines : List String} (h : OkStands lines) {line : String}
    (hok : isOk line = false) (hrejected : isRejected line = false) :
    OkStands (lines ++ [line]) := by
  obtain ⟨before, ok, after, rfl, hfirst, hrest⟩ := h
  refine ⟨before, ok, after ++ [line], by simp, hfirst, fun other hother => ?_⟩
  rcases List.mem_append.mp hother with hother | hother
  · exact hrest other hother
  · rw [List.mem_singleton.mp hother]
    exact ⟨hok, hrejected⟩

/-- The command of a line that starts with it. -/
theorem command_of_append {line command : String} (rest : String) (hcommand : ' ' ∉ command.toList)
    (h : line = command ++ String.singleton ' ' ++ rest) : (splitCommand line).1 = command := by
  rw [h, splitCommand_append hcommand]

/-- **What is known of a server after some actions**, of one that started like
`auth₀`. -/
structure Told (auth₀ : ServerAuth) (actions : List ServerAction) (auth : ServerAuth) : Prop where
  peer : auth.peer = auth₀.peer
  allowedMechanisms : auth.allowedMechanisms = auth₀.allowedMechanisms
  allowAnonymous : auth.allowAnonymous = auth₀.allowAnonymous
  sound : auth.Sound
  stands : ∀ uid, auth.state = .waitingForBegin uid → OkStands (sentLines actions)
  failures : (∀ reason, .disconnect reason ∉ actions) →
    auth.failures.toNat = (sentLines actions).countP isRejected ∧ auth.failures < maxFailures

namespace Told

variable {auth₀ auth : ServerAuth} {actions : List ServerAction}

theorem authorized (h : Told auth₀ actions auth) {uid : Option UInt32}
    (huid : auth.Authorized uid) : auth₀.Authorized uid := by
  cases uid with
  | none => exact ⟨h.allowedMechanisms ▸ huid.1, h.allowAnonymous ▸ huid.2⟩
  | some uid => exact ⟨h.peer ▸ huid.1, h.allowedMechanisms ▸ huid.2⟩

/-- A line that says nothing of success or failure changes nothing that is
known. -/
theorem send_plain {auth' : ServerAuth} (h : Told auth₀ actions auth) {line : String}
    (hok : isOk line = false) (hrejected : isRejected line = false)
    (hpeer : auth'.peer = auth.peer) (hallowed : auth'.allowedMechanisms = auth.allowedMechanisms)
    (hanonymous : auth'.allowAnonymous = auth.allowAnonymous)
    (hfailures : auth'.failures = auth.failures) (hsound : auth'.Sound)
    (hwaiting : ∀ uid, auth'.state = .waitingForBegin uid → auth.state = .waitingForBegin uid) :
    Told auth₀ (actions ++ [.send [line]]) auth' where
  peer := hpeer.trans h.peer
  allowedMechanisms := hallowed.trans h.allowedMechanisms
  allowAnonymous := hanonymous.trans h.allowAnonymous
  sound := hsound
  stands := by
    intro uid huid
    rw [sentLines_append]
    exact (h.stands uid (hwaiting uid huid)).append hok hrejected
  failures := by
    intro hnone
    rw [sentLines_append, List.countP_append, hfailures]
    show auth.failures.toNat = _ + [line].countP isRejected ∧ _
    rw [List.countP_singleton, hrejected]
    exact h.failures fun reason hmem => hnone reason (List.mem_append_left _ hmem)

/-- **A failure is counted**, and the last one tells the client nothing. -/
theorem rejected (h : Told auth₀ actions auth) (disk : Disk) :
    Told auth₀ (actions ++ [(auth.rejected disk).action]) (auth.rejected disk).auth := by
  have hconfig : (auth.rejected disk).auth
      = { auth with failures := auth.failures + 1, state := .waitingForAuth } := by
    unfold ServerAuth.rejected
    dsimp only
    split <;> rfl
  rw [hconfig]
  refine ⟨h.peer, h.allowedMechanisms, h.allowAnonymous, trivial, ?_, fun hnone => ?_⟩
  · exact fun uid huid => nomatch huid
  unfold ServerAuth.rejected at hnone ⊢
  dsimp only at hnone ⊢
  by_cases hlast : maxFailures ≤ auth.failures + 1
  · rw [if_pos hlast] at hnone
    exact absurd (List.mem_append_right _ List.mem_cons_self) (hnone _)
  · rw [if_neg hlast] at hnone ⊢
    obtain ⟨hcount, hfew⟩ :=
      h.failures fun reason hmem => hnone reason (List.mem_append_left _ hmem)
    have hsum : (auth.failures + 1).toNat = auth.failures.toNat + 1 := by
      rw [UInt32.lt_iff_toNat_lt] at hfew
      have hsix : maxFailures.toNat = 6 := rfl
      rw [UInt32.toNat_add, show (1 : UInt32).toNat = 1 from rfl]
      omega
    have hline : isRejected ("REJECTED " ++ mechanismListString auth.allowedMechanisms) = true :=
      beq_iff_eq.mpr (command_of_append _ (by decide) rfl)
    refine ⟨?_, UInt32.not_le.mp hlast⟩
    rw [sentLines_append, List.countP_append, hsum, hcount]
    show _ = _ + [_].countP isRejected
    rw [List.countP_singleton, hline]
    rfl

/-- **What is known stays known**, whatever becomes of a line. -/
theorem step {auth' : ServerAuth} {action : ServerAction} (h : Told auth₀ actions auth)
    (hreaction : auth.Reaction action auth') : Told auth₀ (actions ++ [action]) auth' := by
  cases hreaction with
  | rejected disk => exact h.rejected disk
  | complained disk msg =>
    have hcommand : (splitCommand ("ERROR \"" ++ msg ++ "\"")).1 = "ERROR" := by
      refine command_of_append ("\"" ++ msg ++ "\"") (by decide) ?_
      rw [← String.append_assoc, ← String.append_assoc]
      rfl
    refine h.send_plain ?_ ?_ rfl rfl rfl rfl h.sound fun uid huid => huid
    · unfold isOk
      rw [hcommand]
      decide
    · unfold isRejected
      rw [hcommand]
      decide
  | asked mechanism cookie data acceptable =>
    have hcommand : (splitCommand ("DATA " ++ data)).1 = "DATA" :=
      command_of_append _ (by decide) rfl
    refine h.send_plain ?_ ?_ rfl rfl rfl rfl acceptable fun uid huid => nomatch huid
    · unfold isOk
      rw [hcommand]
      decide
    · unfold isRejected
      rw [hcommand]
      decide
  | accepted disk uid authorized =>
    have hcommand : (splitCommand ("OK " ++ auth.guidHex)).1 = "OK" :=
      command_of_append _ (by decide) rfl
    have hok : isOk ("OK " ++ auth.guidHex) = true := beq_iff_eq.mpr hcommand
    have hrejected : isRejected ("OK " ++ auth.guidHex) = false := by
      unfold isRejected
      rw [hcommand]
      decide
    refine ⟨h.peer, h.allowedMechanisms, h.allowAnonymous, authorized, fun _ _ => ?_,
      fun hnone => ?_⟩
    · rw [sentLines_append]
      exact ⟨_, _, [], rfl, hok, fun line hline => nomatch hline⟩
    · rw [sentLines_append, List.countP_append]
      show auth.failures.toNat = _ + [_].countP isRejected ∧ _
      rw [List.countP_singleton, hrejected]
      exact h.failures fun reason hmem => hnone reason (List.mem_append_left _ hmem)
  | agreed uid waiting =>
    have hsound : ({ auth with unixFdNegotiated := true } : ServerAuth).Sound := h.sound
    exact h.send_plain (by decide) (by decide) rfl rfl rfl rfl hsound fun uid huid => huid
  | began uid waiting =>
    refine ⟨h.peer, h.allowedMechanisms, h.allowAnonymous, h.sound, fun uid huid => ?_,
      fun hnone => ?_⟩
    · rw [sentLines_append]
      exact (List.append_nil _).symm ▸ h.stands uid huid
    · rw [sentLines_append]
      exact (List.append_nil _).symm ▸
        h.failures fun reason hmem => hnone reason (List.mem_append_left _ hmem)

/-- Whoever is let in may be, and was told so. -/
theorem begin_authorized {auth' : ServerAuth} {action : ServerAction} {uid : Option UInt32}
    (h : Told auth₀ actions auth) (hreaction : auth.Reaction action auth')
    (hbegin : action = .begin uid) : auth₀.Authorized uid ∧ OkStands (sentLines actions) := by
  cases hreaction with
  | rejected disk =>
    unfold ServerAuth.rejected at hbegin
    dsimp only at hbegin
    split at hbegin <;> cases hbegin
  | complained disk msg => cases hbegin
  | asked mechanism cookie data acceptable => cases hbegin
  | accepted disk uid authorized => cases hbegin
  | agreed uid waiting => cases hbegin
  | began uid' waiting =>
    obtain rfl : uid' = uid := ServerAction.begin.inj hbegin
    have hsound := h.sound
    unfold ServerAuth.Sound at hsound
    rw [waiting] at hsound
    exact ⟨h.authorized hsound, h.stands uid' waiting⟩

/-- **It is known after any number of lines.** -/
theorem run {sha1 : Digest} {inputs : List ServerInput} {before after : List ServerAction}
    (h : Told auth₀ actions auth) (hactions : feedLines sha1 auth inputs = before ++ after) :
    ∃ auth' rest, Told auth₀ (actions ++ before) auth' ∧ after = feedLines sha1 auth' rest := by
  induction before generalizing actions auth inputs with
  | nil => exact ⟨auth, inputs, by rwa [List.append_nil], hactions.symm⟩
  | cons action before ih =>
    cases inputs with
    | nil => cases hactions
    | cons input inputs =>
      obtain ⟨haction, hrest⟩ := List.cons.inj hactions
      have hstep : Told auth₀ (actions ++ [(auth.feedLine sha1 input.machine input.disk
          input.line).action]) (auth.feedLine sha1 input.machine input.disk input.line).auth :=
        h.step (ServerAuth.feedLine_reaction h.sound input.line)
      obtain ⟨auth', rest, htold, hafter⟩ := ih hstep hrest
      refine ⟨auth', rest, ?_, hafter⟩
      rwa [← haction, List.append_cons]

end Told

/-- Nothing is known of a server that has done nothing. -/
theorem told_new (peer : PeerCredentials) (allowed : List Mechanism) (allowAnonymous : Bool)
    (guidHex : String) (homeDir : Option String) :
    Told (.new peer allowed allowAnonymous guidHex homeDir) []
      (.new peer allowed allowAnonymous guidHex homeDir) where
  peer := rfl
  allowedMechanisms := rfl
  allowAnonymous := rfl
  sound := trivial
  stands := fun uid huid => nomatch huid
  failures := fun _ => ⟨rfl, (by decide : (0 : UInt32) < 6)⟩

/-- **Whoever is let in is who the socket says, or nobody where nobody may be let
in**; that was said and not taken back. And before a server hangs up it has
rejected less often than it may. This holds of all lines it is ever fed,
whatever is in the keyrings. -/
theorem feedLines_authorized (sha1 : Digest) (peer : PeerCredentials) (allowed : List Mechanism)
    (allowAnonymous : Bool) (guidHex : String) (homeDir : Option String)
    (inputs : List ServerInput) :
    (∀ before uid after,
      feedLines sha1 (.new peer allowed allowAnonymous guidHex homeDir) inputs
        = before ++ .begin uid :: after →
      (∀ u, uid = some u → u = peer.uid ∧ (.external ∈ allowed ∨ .dbusCookieSha1 ∈ allowed)) ∧
      (uid = none → .anonymous ∈ allowed ∧ allowAnonymous = true) ∧
      OkStands (sentLines before)) ∧
    ∀ before after,
      feedLines sha1 (.new peer allowed allowAnonymous guidHex homeDir) inputs = before ++ after →
      (∀ reason, .disconnect reason ∉ before) →
      (sentLines before).countP isRejected ≤ maxFailures.toNat - 1 := by
  constructor
  · intro before uid after hactions
    obtain ⟨auth, rest, htold, hafter⟩ :=
      (told_new peer allowed allowAnonymous guidHex homeDir).run hactions
    cases rest with
    | nil => cases hafter
    | cons input rest =>
      obtain ⟨haction, -⟩ := List.cons.inj hafter
      obtain ⟨hauthorized, hstands⟩ := htold.begin_authorized
        (ServerAuth.feedLine_reaction htold.sound input.line) haction.symm
      refine ⟨?_, ?_, hstands⟩
      · rintro u rfl
        exact hauthorized
      · rintro rfl
        exact hauthorized
  · intro before after hactions hnone
    obtain ⟨auth, rest, htold, -⟩ :=
      (told_new peer allowed allowAnonymous guidHex homeDir).run hactions
    obtain ⟨hcount, hfew⟩ := htold.failures hnone
    rw [List.nil_append] at hcount
    rw [UInt32.lt_iff_toNat_lt] at hfew
    omega

end Oxibus
