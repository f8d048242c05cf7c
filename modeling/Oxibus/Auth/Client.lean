import Oxibus.Auth.Keyring
import Oxibus.Auth.Mechanism

/-!
# Authentication, the client's side

A client tries its mechanisms one after the other, until the server says OK to
one of them or none is left. Data it has only for `DBUS_COOKIE_SHA1`, once;
with the other mechanisms all is said in the first line.

A client has at least one mechanism, and the one that it tries is one of them:
the source indexes its list and would panic otherwise.
-/

namespace Oxibus

/-- What a client makes of a line. -/
inductive ClientAction where
  | send (line : String)
  | authenticated
  | mechanismRejected (serverSupported : List String)
  | protocolError (text : String)
  deriving DecidableEq, Repr

/-- **What a client waits for.** -/
inductive ClientState where
  | init
  | waitingForDataOrOk (mechanism : Mechanism) (cookiePendingId : Option UInt32)
  | waitingForAgreeUnixFd
  | authenticated
  deriving DecidableEq, Repr

/-- **The client's side of a conversation.** -/
structure ClientAuth where
  mechanisms : List Mechanism
  /-- The index of the mechanism that is tried. -/
  tried : ℕ
  tried_lt : tried < mechanisms.length
  state : ClientState
  wantUnixFd : Bool
  homeDir : Option String
  deriving DecidableEq, Repr

/-- The first line of a mechanism. -/
def authLine (uid : UInt32) : Mechanism → String
  | .external => "AUTH EXTERNAL " ++ hexEncode (asBytes (decimal uid.toNat))
  | .anonymous => "AUTH ANONYMOUS " ++ hexEncode (asBytes "oxibus")
  | .dbusCookieSha1 => "AUTH DBUS_COOKIE_SHA1 " ++ hexEncode (asBytes (decimal uid.toNat))

namespace ClientAuth

def new (mechanisms : List Mechanism) (h : mechanisms ≠ []) (wantUnixFd : Bool)
    (homeDir : Option String) : ClientAuth :=
  ⟨mechanisms, 0, List.length_pos_of_ne_nil h, .init, wantUnixFd, homeDir⟩

/-- **Start a mechanism**, by its index. -/
def beginMechanism (uid : UInt32) (auth : ClientAuth) (index : ℕ)
    (h : index < auth.mechanisms.length) : String × ClientAuth :=
  let mechanism := auth.mechanisms.get ⟨index, h⟩
  (authLine uid mechanism, { auth with
    tried := index
    tried_lt := h
    state := .waitingForDataOrOk mechanism none })

/-- Start with the first mechanism. -/
def start (uid : UInt32) (auth : ClientAuth) : String × ClientAuth :=
  auth.beginMechanism uid 0 (Nat.zero_lt_of_lt auth.tried_lt)

/-- Start the next mechanism, if there is one. -/
def tryNextMechanism (uid : UInt32) (auth : ClientAuth) : Option (String × ClientAuth) :=
  if h : auth.tried + 1 < auth.mechanisms.length then
    some (auth.beginMechanism uid (auth.tried + 1) h)
  else none

/-- **Answer the challenge** of a server: with a challenge of one's own, and a
hash of both and of the secret that the server means. -/
def respondToCookieChallenge (sha1 : Digest) (machine : Machine) (disk : Disk) (auth : ClientAuth)
    (data : List UInt8) : ClientAction × ClientAuth :=
  match fromUtf8 data with
  | none => (.protocolError "non-UTF8 cookie challenge", auth)
  | some text =>
    match splitn 3 ' ' text with
    | [context, cookieIdStr, serverChallengeHex] =>
      match parseU32 cookieIdStr with
      | none => (.protocolError "bad cookie id", auth)
      | some cookieId =>
        match auth.homeDir with
        | none => (.protocolError "no HOME for keyring", auth)
        | some home =>
          match Keyring.load machine disk home context with
          | .error e => (.protocolError e.text, auth)
          | .ok keyring =>
            match keyring.hexKey cookieId with
            | none => (.protocolError ("unknown cookie id " ++ decimal cookieId.toNat), auth)
            | some cookieHex =>
              let clientChallengeHex := hexEncode machine.challenge.toList
              let hashHex := cookieHash sha1 serverChallengeHex clientChallengeHex cookieHex
              let response := clientChallengeHex ++ " " ++ hashHex
              (.send ("DATA " ++ hexEncode (asBytes response)),
                { auth with state := .waitingForDataOrOk .dbusCookieSha1 (some cookieId) })
    | _ => (.protocolError "malformed cookie challenge", auth)

def handleData (sha1 : Digest) (machine : Machine) (disk : Disk) (auth : ClientAuth)
    (hexPayload : String) : ClientAction × ClientAuth :=
  match auth.state with
  | .waitingForDataOrOk mechanism cookiePendingId =>
    match hexDecode hexPayload with
    | none => (.protocolError "bad hex in DATA", auth)
    | some data =>
      match mechanism with
      | .external | .anonymous =>
        let (line, auth) := auth.beginMechanism machine.uid auth.tried auth.tried_lt
        (.send line, auth)
      | .dbusCookieSha1 =>
        if cookiePendingId.isSome then
          (.protocolError "unexpected second DATA challenge for DBUS_COOKIE_SHA1", auth)
        else auth.respondToCookieChallenge sha1 machine disk data
  | _ => (.protocolError "DATA received in wrong state", auth)

/-- **Handle a line.** -/
def feedLine (sha1 : Digest) (machine : Machine) (disk : Disk) (auth : ClientAuth) (line : String) :
    ClientAction × ClientAuth :=
  let (command, rest) := (splitOnce ' ' line).getD (line, "")
  if command = "OK" then (.authenticated, { auth with state := .authenticated })
  else if command = "REJECTED" then (.mechanismRejected (splitWhitespace rest), auth)
  else if command = "DATA" then auth.handleData sha1 machine disk (trim rest)
  else if command = "ERROR" then (.protocolError rest, auth)
  else if command = "AGREE_UNIX_FD" then (.authenticated, auth)
  else (.protocolError ("unexpected server command: " ++ command), auth)

/-- The lines that end the conversation, and whether the server answers to
them. -/
def finishLines (auth : ClientAuth) : List String × Bool × ClientAuth :=
  if auth.wantUnixFd then
    (["NEGOTIATE_UNIX_FD", "BEGIN"], true, { auth with state := .waitingForAgreeUnixFd })
  else (["BEGIN"], false, auth)

end ClientAuth

end Oxibus
