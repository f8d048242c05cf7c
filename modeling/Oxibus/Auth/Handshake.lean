import Oxibus.Auth.Server
import Oxibus.Auth.Client

/-!
# The handshake

The two sides of a conversation, each in its loop, with the lines between them
that are written and not read yet. Either side goes on when it can, in any
order.

Every line of one side has a lemma about what the other side makes of it: the
first line of a mechanism, the challenge and its answer, and what ends the
conversation. Numbers, bytes and text that are written are read back.
-/

namespace Oxibus

/-- Where a client is in its loop. -/
inductive ClientPhase where
  | writing (auth : ClientAuth) (line : String)
  | reading (auth : ClientAuth)
  /-- Authenticated, with lines to write. -/
  | finishing (lines : List String) (expectReply : Bool)
  /-- All is written, and a reply expected. -/
  | awaiting
  | succeeded
  | failed (reason : String)
  deriving DecidableEq, Repr

/-- Where a server is in its loop. -/
inductive ServerPhase where
  | reading (auth : ServerAuth)
  | writing (auth : ServerAuth) (lines : List String)
  | begun (auth : ServerAuth)
  | failed (reason : String)
  deriving DecidableEq, Repr

/-- **A conversation**: both sides, the lines under way to each, and the disk. -/
structure Exchange where
  client : ClientPhase
  server : ServerPhase
  toServer : List String
  toClient : List String
  disk : Disk

/-- A client that has lines to write at the end, or no more. -/
def clientFinishing (expectReply : Bool) : List String → ClientPhase
  | [] => if expectReply then .awaiting else .succeeded
  | line :: lines => .finishing (line :: lines) expectReply

/-- **The client's loop**, after a line. -/
def clientAfter (uid : UInt32) : ClientAction × ClientAuth → ClientPhase
  | (.authenticated, auth) => clientFinishing auth.finishLines.2.1 auth.finishLines.1
  | (.send line, auth) => .writing auth line
  | (.mechanismRejected _, auth) =>
    match auth.tryNextMechanism uid with
    | some (line, auth) => .writing auth line
    | none => .failed "server rejected every configured SASL mechanism"
  | (.protocolError text, _) => .failed text

/-- A server that has lines to write, or no more. -/
def serverSending (auth : ServerAuth) : List String → ServerPhase
  | [] => .reading auth
  | line :: lines => .writing auth (line :: lines)

/-- **The server's loop**, after a line. -/
def serverAfter (served : Served) : ServerPhase :=
  match served.action with
  | .send lines => serverSending served.auth lines
  | .begin _ => .begun served.auth
  | .disconnect reason => .failed reason

/-- **Two sides that could talk**: they run as one user and share a keyring that
can be read. -/
structure Setup where
  mechanisms : List Mechanism
  mechanisms_ne : mechanisms ≠ []
  wantUnixFd : Bool
  peer : PeerCredentials
  allowedMechanisms : List Mechanism
  allowAnonymous : Bool
  guidHex : String
  home : String
  disk : Disk
  readable : ∃ keys, parseFile (disk home defaultContext) = .ok keys

namespace Setup

/-- A machine that either side runs on. -/
structure Fits (S : Setup) (machine : Machine) : Prop where
  uid : machine.uid = S.peer.uid
  usable : machine.Usable

/-- The client at the start. -/
def newClient (S : Setup) : ClientAuth :=
  .new S.mechanisms S.mechanisms_ne S.wantUnixFd (some S.home)

/-- The conversation at the start. -/
def initial (S : Setup) : Exchange where
  client := .writing (S.newClient.start S.peer.uid).2 (S.newClient.start S.peer.uid).1
  server := .reading
    (.new S.peer S.allowedMechanisms S.allowAnonymous S.guidHex (some S.home))
  toServer := []
  toClient := []
  disk := S.disk

/-- Whether the server accepts a mechanism. -/
def accepts (S : Setup) (mechanism : Mechanism) : Bool :=
  decide (mechanism ∈ S.allowedMechanisms) && (mechanism != .anonymous || S.allowAnonymous)

end Setup

/-- **One step of either side.** A side whose peer has given up reads the end of
the stream, once it has read all lines, and can fail to write. -/
inductive Exchange.Step (sha1 : Digest) (S : Setup) : Exchange → Exchange → Prop
  | clientWrites (auth line server toServer toClient disk) :
      Step sha1 S ⟨.writing auth line, server, toServer, toClient, disk⟩
        ⟨.reading auth, server, toServer ++ [line], toClient, disk⟩
  | clientReads (machine : Machine) (fits : S.Fits machine)
      (auth line server toServer toClient disk) :
      Step sha1 S ⟨.reading auth, server, toServer, line :: toClient, disk⟩
        ⟨clientAfter machine.uid (auth.feedLine sha1 machine disk line), server, toServer, toClient,
          disk⟩
  | clientFinishes (line lines expectReply server toServer toClient disk) :
      Step sha1 S ⟨.finishing (line :: lines) expectReply, server, toServer, toClient, disk⟩
        ⟨clientFinishing expectReply lines, server, toServer ++ [line], toClient, disk⟩
  | clientAwaits (line server toServer toClient disk) :
      Step sha1 S ⟨.awaiting, server, toServer, line :: toClient, disk⟩
        ⟨.succeeded, server, toServer, toClient, disk⟩
  | clientReadsEnd (client reason toServer disk)
      (reading : client = .awaiting ∨ ∃ auth, client = .reading auth) :
      Step sha1 S ⟨client, .failed reason, toServer, [], disk⟩
        ⟨.failed "peer closed", .failed reason, toServer, [], disk⟩
  | clientCannotWrite (client reason text toServer toClient disk)
      (writing : (∃ auth line, client = .writing auth line) ∨
        ∃ lines expectReply, client = .finishing lines expectReply) :
      Step sha1 S ⟨client, .failed reason, toServer, toClient, disk⟩
        ⟨.failed text, .failed reason, toServer, toClient, disk⟩
  | serverReads (machine : Machine) (fits : S.Fits machine)
      (auth line client toServer toClient disk) :
      Step sha1 S ⟨client, .reading auth, line :: toServer, toClient, disk⟩
        ⟨client, serverAfter (auth.feedLine sha1 machine disk line), toServer, toClient,
          (auth.feedLine sha1 machine disk line).disk⟩
  | serverWrites (auth line lines client toServer toClient disk) :
      Step sha1 S ⟨client, .writing auth (line :: lines), toServer, toClient, disk⟩
        ⟨client, serverSending auth lines, toServer, toClient ++ [line], disk⟩
  | serverReadsEnd (auth reason toClient disk) :
      Step sha1 S ⟨.failed reason, .reading auth, [], toClient, disk⟩
        ⟨.failed reason, .failed "SASL read error: peer closed", [], toClient, disk⟩
  | serverCannotWrite (auth lines reason text toServer toClient disk) :
      Step sha1 S ⟨.failed reason, .writing auth lines, toServer, toClient, disk⟩
        ⟨.failed reason, .failed ("SASL write error: " ++ text), toServer, toClient, disk⟩

/-- Some number of steps. -/
inductive Exchange.Run (sha1 : Digest) (S : Setup) : ℕ → Exchange → Exchange → Prop
  | refl (e) : Run sha1 S 0 e e
  | tail {n e e' e''} (run : Run sha1 S n e e') (step : Exchange.Step sha1 S e' e'') :
      Run sha1 S (n + 1) e e''

/-! ## What the sides make of each other's lines -/

section Lines

variable {sha1 : Digest} {machine : Machine} {disk : Disk}

/-- The data in the first line of a mechanism. -/
def authData (uid : UInt32) : Mechanism → List UInt8
  | .external => asBytes (decimal uid.toNat)
  | .anonymous => asBytes "oxibus"
  | .dbusCookieSha1 => asBytes (decimal uid.toNat)

theorem authLine_eq (uid : UInt32) (mechanism : Mechanism) :
    authLine uid mechanism = "AUTH" ++ String.singleton ' ' ++
      (mechanism.name ++ String.singleton ' ' ++ hexEncode (authData uid mechanism)) := by
  cases mechanism with
  | external =>
    show "AUTH EXTERNAL " ++ hexEncode (authData uid .external) = _
    rw [← String.append_assoc, ← String.append_assoc]
    rfl
  | anonymous =>
    show "AUTH ANONYMOUS " ++ hexEncode (authData uid .anonymous) = _
    rw [← String.append_assoc, ← String.append_assoc]
    rfl
  | dbusCookieSha1 =>
    show "AUTH DBUS_COOKIE_SHA1 " ++ hexEncode (authData uid .dbusCookieSha1) = _
    rw [← String.append_assoc, ← String.append_assoc]
    rfl

/-- **The server reads the first line of a mechanism.** -/
theorem feedLine_authLine {auth : ServerAuth} (h : auth.state = .waitingForAuth) (uid : UInt32)
    (mechanism : Mechanism) : auth.feedLine sha1 machine disk (authLine uid mechanism)
      = if mechanism ∉ auth.allowedMechanisms then auth.rejected disk
        else if mechanism = .anonymous ∧ auth.allowAnonymous = false then auth.rejected disk
        else (auth.startMechanism mechanism).dispatchMechanismData sha1 machine disk mechanism
          ⟨none, none⟩ (authData uid mechanism) := by
  have hname : ' ' ∉ mechanism.name.toList ∧
      ∃ c cs, mechanism.name.toList = c :: cs ∧ isWhitespace c = false := by
    cases mechanism with
    | external => exact ⟨by decide, 'E', "XTERNAL".toList, rfl, by decide⟩
    | anonymous => exact ⟨by decide, 'A', "NONYMOUS".toList, rfl, by decide⟩
    | dbusCookieSha1 => exact ⟨by decide, 'D', "BUS_COOKIE_SHA1".toList, rfl, by decide⟩
  obtain ⟨hspace, c, cs, hcs, hc⟩ := hname
  let rest := mechanism.name ++ String.singleton ' ' ++ hexEncode (authData uid mechanism)
  have hrest : rest.toList = c :: (cs ++ ' ' :: (hexEncode (authData uid mechanism)).toList) := by
    show (mechanism.name ++ String.singleton ' ' ++ hexEncode (authData uid mechanism)).toList = _
    simp [String.toList_append, hcs]
  have hne : rest ≠ "" := by
    intro hempty
    rw [hempty] at hrest
    cases hrest
  have htrim : trimStart rest = rest := by
    refine trimStart_of_head fun d hd => ?_
    rw [hrest] at hd
    rw [← Option.some.inj hd]
    exact hc
  have hparts : splitn 2 ' ' rest = [mechanism.name, hexEncode (authData uid mechanism)] :=
    splitn_append hspace 0 _
  unfold ServerAuth.feedLine
  rw [authLine_eq, splitCommand_append (by decide), h]
  show auth.handleWaitingForAuth sha1 machine disk "AUTH" (trimStart rest) = _
  unfold ServerAuth.handleWaitingForAuth
  rw [if_pos rfl, htrim, if_neg hne]
  dsimp only
  rw [hparts]
  simp only [List.getElem?_cons_zero, List.getElem?_cons_succ, Option.getD_some,
    Mechanism.parse_name, hexDecode_hexEncode]

/-- What a client takes apart in a line that starts with a command. -/
theorem splitOnce_command {line command rest : String} (hcommand : ' ' ∉ command.toList)
    (h : line = command ++ String.singleton ' ' ++ rest) :
    (splitOnce ' ' line).getD (line, "") = (command, rest) := by
  rw [h, splitOnce_append hcommand]
  rfl

theorem ClientAuth.feedLine_ok (auth : ClientAuth) (guidHex : String) :
    (auth.feedLine sha1 machine disk ("OK " ++ guidHex))
      = (.authenticated, { auth with state := .authenticated }) := by
  have hline : (splitOnce ' ' ("OK " ++ guidHex)).getD ("OK " ++ guidHex, "") = ("OK", guidHex) :=
    splitOnce_command (by decide) rfl
  unfold ClientAuth.feedLine
  rw [hline]
  rfl

theorem ClientAuth.feedLine_rejected (auth : ClientAuth) (names : String) :
    auth.feedLine sha1 machine disk ("REJECTED " ++ names)
      = (.mechanismRejected (splitWhitespace names), auth) := by
  have hline : (splitOnce ' ' ("REJECTED " ++ names)).getD ("REJECTED " ++ names, "")
      = ("REJECTED", names) := splitOnce_command (by decide) rfl
  unfold ClientAuth.feedLine
  rw [hline]
  rfl

theorem trim_hexEncode (bs : List UInt8) : trim (hexEncode bs) = hexEncode bs :=
  trim_of_ends (fun c hc => solid_hexEncode bs c (List.mem_of_mem_head? hc))
    (fun c hc => solid_hexEncode bs c (List.mem_of_getLast? hc))

/-- The challenge of a server. -/
def challengeText (cookieId : UInt32) (challenge : List UInt8) : String :=
  defaultContext ++ " " ++ decimal cookieId.toNat ++ " " ++ hexEncode challenge

theorem splitn_challengeText (cookieId : UInt32) (challenge : List UInt8) :
    splitn 3 ' ' (challengeText cookieId challenge)
      = [defaultContext, decimal cookieId.toNat, hexEncode challenge] := by
  have hcontext : ' ' ∉ defaultContext.toList := by decide
  have hid : ' ' ∉ (decimal cookieId.toNat).toList := (solid_decimal _).not_mem (by decide)
  have houter := splitn_append hcontext 1
    (decimal cookieId.toNat ++ String.singleton ' ' ++ hexEncode challenge)
  have hinner := splitn_append hid 0 (hexEncode challenge)
  have htext : challengeText cookieId challenge = defaultContext ++ String.singleton ' ' ++
      (decimal cookieId.toNat ++ String.singleton ' ' ++ hexEncode challenge) := by
    unfold challengeText
    rw [← String.append_assoc, ← String.append_assoc]
    rfl
  rw [htext, houter, hinner]
  rfl

/-- The answer of a client. -/
def responseText (sha1 : Digest) (challenge clientChallenge : List UInt8) (cookieHex : String) :
    String :=
  hexEncode clientChallenge ++ " " ++
    cookieHash sha1 (hexEncode challenge) (hexEncode clientChallenge) cookieHex

/-- **The client answers a challenge** about a key that it finds. -/
theorem ClientAuth.feedLine_challenge {auth : ClientAuth} {home : String} {keys : List Key}
    {cookieId : UInt32} {challenge : List UInt8} {cookieHex : String} (h : machine.Usable)
    (hstate : auth.state = .waitingForDataOrOk .dbusCookieSha1 none)
    (hhome : auth.homeDir = some home) (hkeys : parseFile (disk home defaultContext) = .ok keys)
    (hhex : Keyring.hexKey ⟨home, defaultContext, keys⟩ cookieId = some cookieHex) :
    auth.feedLine sha1 machine disk
        ("DATA " ++ hexEncode (asBytes (challengeText cookieId challenge)))
      = (.send ("DATA " ++ hexEncode (asBytes
          (responseText sha1 challenge machine.challenge.toList cookieHex))),
        { auth with state := .waitingForDataOrOk .dbusCookieSha1 (some cookieId) }) := by
  have hline : ∀ text, (splitOnce ' ' ("DATA " ++ text)).getD ("DATA " ++ text, "")
      = ("DATA", text) := fun text => splitOnce_command (by decide) rfl
  unfold ClientAuth.feedLine
  rw [hline]
  dsimp only
  rw [if_neg (by decide), if_neg (by decide), if_pos rfl, trim_hexEncode]
  unfold ClientAuth.handleData
  rw [hstate, hexDecode_hexEncode]
  show auth.respondToCookieChallenge sha1 machine disk _ = _
  unfold ClientAuth.respondToCookieChallenge
  rw [fromUtf8_asBytes]
  dsimp only
  rw [splitn_challengeText]
  dsimp only
  rw [parseU32_decimal, hhome]
  dsimp only
  rw [Keyring.load_eq h hkeys]
  dsimp only
  rw [hhex]
  rfl

variable {auth : ServerAuth}

/-- A server that has challenged the client. -/
def ServerAuth.challenging (auth : ServerAuth) (cookieId : UInt32) (challenge : List UInt8) :
    ServerAuth :=
  { auth with
    state := .waitingForData .dbusCookieSha1 ⟨some cookieId, some (hexEncode challenge)⟩ }

theorem ServerAuth.desiredUid_decimal (auth : ServerAuth) :
    auth.desiredUid (asBytes (decimal auth.peer.uid.toNat)) = some auth.peer.uid := by
  obtain ⟨c, cs, hcs, -⟩ := decimal_cons auth.peer.uid.toNat
  have hne : asBytes (decimal auth.peer.uid.toNat) ≠ [] := by
    rw [ne_eq, asBytes_eq_nil]
    intro hempty
    rw [hempty] at hcs
    cases hcs
  unfold ServerAuth.desiredUid
  rw [List.isEmpty_eq_false_iff.mpr hne, fromUtf8_asBytes]
  exact parseU32_decimal auth.peer.uid

/-- **The server challenges the client** about a key that is in the file. -/
theorem ServerAuth.firstResponse_eq (auth : ServerAuth) {home : String} {keys : List Key}
    (h : machine.Usable)
    (huid : machine.uid = auth.peer.uid) (hhome : auth.homeDir = some home)
    (hkeys : parseFile (disk home defaultContext) = .ok keys) :
    ∃ cookieId disk' keys', auth.cookieSha1FirstResponse machine disk
        (asBytes (decimal auth.peer.uid.toNat))
      = ⟨.send ["DATA " ++ hexEncode (asBytes (challengeText cookieId machine.challenge.toList))],
          auth.challenging cookieId machine.challenge.toList, disk'⟩ ∧
      parseFile (disk' home defaultContext) = .ok keys' ∧ ∃ k ∈ keys', k.id = cookieId := by
  obtain ⟨cookieId, disk', keys', hbest, hkeys', hmem⟩ := Keyring.bestKey_eq h hkeys
  refine ⟨cookieId, disk', keys', ?_, hkeys', hmem⟩
  unfold ServerAuth.cookieSha1FirstResponse ServerAuth.challenging
  rw [ServerAuth.desiredUid_decimal, if_neg (by simp [huid]), hhome]
  dsimp only
  rw [Keyring.load_eq h hkeys]
  dsimp only
  rw [hbest]
  rfl

/-- **The server accepts the answer** to its challenge. -/
theorem ServerAuth.secondResponse_eq {home : String} {keys : List Key} {cookieId : UInt32}
    {challenge : List UInt8} {cookieHex : String} (h : machine.Usable)
    (hstate : auth.state = .waitingForData .dbusCookieSha1
      ⟨some cookieId, some (hexEncode challenge)⟩)
    (hhome : auth.homeDir = some home) (hkeys : parseFile (disk home defaultContext) = .ok keys)
    (hhex : Keyring.hexKey ⟨home, defaultContext, keys⟩ cookieId = some cookieHex)
    {clientChallenge : List UInt8} (hclient : clientChallenge ≠ []) :
    auth.feedLine sha1 machine disk
        ("DATA " ++ hexEncode (asBytes (responseText sha1 challenge clientChallenge cookieHex)))
      = auth.ok disk (some auth.peer.uid) := by
  have hchallenge : hexEncode clientChallenge ≠ "" := hexEncode_ne hclient
  have hhash :
      cookieHash sha1 (hexEncode challenge) (hexEncode clientChallenge) cookieHex ≠ "" := by
    refine hexEncode_ne fun hnil => ?_
    have hlength := congrArg List.length hnil
    rw [Vector.length_toList] at hlength
    cases hlength
  have htrim : ∀ bs, trimStart (hexEncode bs) = hexEncode bs := fun bs =>
    trimStart_of_head fun c hc => solid_hexEncode bs c (List.mem_of_mem_head? hc)
  have hsplit : splitOnce ' ' (responseText sha1 challenge clientChallenge cookieHex)
      = some (hexEncode clientChallenge,
        cookieHash sha1 (hexEncode challenge) (hexEncode clientChallenge) cookieHex) :=
    splitOnce_append ((solid_hexEncode _).not_mem (by decide)) _
  unfold ServerAuth.feedLine
  rw [show "DATA " ++ hexEncode (asBytes (responseText sha1 challenge clientChallenge cookieHex))
      = "DATA" ++ String.singleton ' ' ++
        hexEncode (asBytes (responseText sha1 challenge clientChallenge cookieHex)) from rfl,
    splitCommand_append (by decide), htrim, hstate]
  show auth.handleWaitingForData sha1 machine disk _ _ "DATA" _ = _
  unfold ServerAuth.handleWaitingForData
  rw [if_pos rfl, hexDecode_hexEncode]
  show auth.cookieSha1SecondResponse sha1 machine disk cookieId _ _ = _
  unfold ServerAuth.cookieSha1SecondResponse
  rw [fromUtf8_asBytes]
  dsimp only
  rw [Option.bind_some, hsplit]
  dsimp only
  rw [if_neg (not_or.mpr ⟨hchallenge, hhash⟩), hhome]
  dsimp only
  rw [Keyring.load_eq h hkeys]
  dsimp only
  rw [hhex]
  dsimp only
  rw [if_neg]
  simp

theorem ServerAuth.feedLine_negotiate {uid : Option UInt32}
    (hstate : auth.state = .waitingForBegin uid) :
    auth.feedLine sha1 machine disk "NEGOTIATE_UNIX_FD"
      = ⟨.send ["AGREE_UNIX_FD"], { auth with unixFdNegotiated := true }, disk⟩ := by
  have hline : splitCommand "NEGOTIATE_UNIX_FD" = ("NEGOTIATE_UNIX_FD", "") :=
    splitCommand_of_not_mem (by decide)
  obtain ⟨peer, allowedMechanisms, allowAnonymous, guidHex, state, failures, negotiated,
    home⟩ := auth
  obtain rfl : state = .waitingForBegin uid := hstate
  unfold ServerAuth.feedLine
  rw [hline]
  rfl

theorem ServerAuth.feedLine_begin {uid : Option UInt32}
    (hstate : auth.state = .waitingForBegin uid) :
    auth.feedLine sha1 machine disk "BEGIN" = ⟨.begin uid, auth, disk⟩ := by
  have hline : splitCommand "BEGIN" = ("BEGIN", "") := splitCommand_of_not_mem (by decide)
  obtain ⟨peer, allowedMechanisms, allowAnonymous, guidHex, state, failures, negotiated,
    home⟩ := auth
  obtain rfl : state = .waitingForBegin uid := hstate
  unfold ServerAuth.feedLine
  rw [hline]
  rfl

end Lines

end Oxibus
