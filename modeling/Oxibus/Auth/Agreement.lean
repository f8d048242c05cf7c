import Oxibus.Auth.Handshake

/-!
# Both sides agree

Where both sides run as the same user and can use the same keyring, a
conversation goes through few stages, whatever the order of their steps
(`Setup.Stage.step`). Each stage has a rank that falls with every step; so every
conversation ends, and it ends well for both or for none (`handshake_agrees`).
-/

namespace Oxibus

namespace Setup

variable {sha1 : Digest} {S : Setup}

/-- The server, in the course of the conversation. -/
def server (S : Setup) (failures : ℕ) (state : ServerState) (negotiated : Bool) : ServerAuth :=
  ⟨S.peer, S.allowedMechanisms, S.allowAnonymous, S.guidHex, state,
   UInt32.ofNat failures, negotiated,
    some S.home⟩

/-- The client, in its `i`-th mechanism. -/
def client (S : Setup) (i : ℕ) (h : i < S.mechanisms.length) : ClientAuth :=
  (S.newClient.beginMechanism S.peer.uid i h).2

/-- The first line of the `i`-th mechanism. -/
def opener (S : Setup) (i : ℕ) (h : i < S.mechanisms.length) : String :=
  authLine S.peer.uid (S.mechanisms.get ⟨i, h⟩)

/-- The keyring can be read. -/
def Readable (S : Setup) (disk : Disk) : Prop :=
  ∃ keys, parseFile (disk S.home defaultContext) = .ok keys

/-- The keyring has a secret. -/
def Holds (S : Setup) (disk : Disk) (cookieId : UInt32) (cookieHex : String) : Prop :=
  ∃ keys, parseFile (disk S.home defaultContext) = .ok keys ∧
    Keyring.hexKey ⟨S.home, defaultContext, keys⟩ cookieId = some cookieHex

/-- The server accepts none of the first mechanisms. -/
def Refused (S : Setup) (n : ℕ) : Prop := ∀ m ∈ S.mechanisms.take n, S.accepts m = false

/-- Before every mechanism that the server accepts there are too many that it
does not. -/
def Hopeless (S : Setup) : Prop :=
  ∀ pre mechanism post, S.mechanisms = pre ++ mechanism :: post → S.accepts mechanism = true →
    maxFailures.toNat ≤ pre.countP fun m => !S.accepts m

/-- Where a client is that has lines to write at the end, once the server has
heard whether it wants descriptors: the server's reply is under way, or read,
or none is expected. -/
def Replied (S : Setup) (client : ClientPhase) (lines toClient : List String) : Prop :=
  (S.wantUnixFd = true ∧ client = clientFinishing true lines ∧ toClient = ["AGREE_UNIX_FD"]) ∨
  (S.wantUnixFd = true ∧ client = .succeeded ∧ lines = [] ∧ toClient = []) ∨
  (S.wantUnixFd = false ∧ client = clientFinishing false lines ∧ toClient = [])

/-- **The stages of a conversation**, each with its rank. -/
inductive Stage (sha1 : Digest) (S : Setup) : ℕ → Exchange → Prop
  /-- The client starts a mechanism. -/
  | opening (i hi disk) (few : i < 6) (refused : S.Refused i) (readable : S.Readable disk) :
      Stage sha1 S (30 * (S.mechanisms.length - i) + 10)
        ⟨.writing (S.client i hi) (S.opener i hi), .reading (S.server i .waitingForAuth false),
          [], [], disk⟩
  | asking (i hi disk) (few : i < 6) (refused : S.Refused i) (readable : S.Readable disk) :
      Stage sha1 S (30 * (S.mechanisms.length - i) + 9)
        ⟨.reading (S.client i hi), .reading (S.server i .waitingForAuth false),
          [S.opener i hi], [], disk⟩
  /-- The server does not accept it. -/
  | refusing (i hi names disk) (few : i + 1 < 6) (refused : S.Refused (i + 1))
      (readable : S.Readable disk) :
      Stage sha1 S (30 * (S.mechanisms.length - i) + 2)
        ⟨.reading (S.client i hi), .writing (S.server (i + 1) .waitingForAuth false)
          ["REJECTED " ++ names], [], [], disk⟩
  | refusal (i hi names disk) (few : i + 1 < 6) (refused : S.Refused (i + 1))
      (readable : S.Readable disk) :
      Stage sha1 S (30 * (S.mechanisms.length - i) + 1)
        ⟨.reading (S.client i hi), .reading (S.server (i + 1) .waitingForAuth false),
          [], ["REJECTED " ++ names], disk⟩
  /-- The server does not accept anything any more. -/
  | hungUp (auth reason disk) (hopeless : S.Hopeless) :
      Stage sha1 S 2 ⟨.reading auth, .failed reason, [], [], disk⟩
  /-- The client has nothing more to try. -/
  | gaveUp (reason auth disk) (hopeless : S.Hopeless) :
      Stage sha1 S 1 ⟨.failed reason, .reading auth, [], [], disk⟩
  | failed (reason reason' disk) (hopeless : S.Hopeless) :
      Stage sha1 S 0 ⟨.failed reason, .failed reason', [], [], disk⟩
  /-- The server challenges the client. -/
  | challenging (i hi cookieId challenge cookieHex disk)
      (cookie : S.mechanisms.get ⟨i, hi⟩ = .dbusCookieSha1)
      (holds : S.Holds disk cookieId cookieHex) :
      Stage sha1 S 38
        ⟨.reading (S.client i hi), .writing ((S.server i .waitingForAuth false).challenging cookieId
          challenge) ["DATA " ++ hexEncode (asBytes (challengeText cookieId challenge))],
          [], [], disk⟩
  | challenged (i hi cookieId challenge cookieHex disk)
      (cookie : S.mechanisms.get ⟨i, hi⟩ = .dbusCookieSha1)
      (holds : S.Holds disk cookieId cookieHex) :
      Stage sha1 S 37
        ⟨.reading (S.client i hi), .reading ((S.server i .waitingForAuth false).challenging cookieId
          challenge), [], ["DATA " ++ hexEncode (asBytes (challengeText cookieId challenge))], disk⟩
  /-- The client answers. -/
  | answering (auth i cookieId challenge clientChallenge cookieHex disk)
      (want : auth.wantUnixFd = S.wantUnixFd) (ne : clientChallenge ≠ [])
      (holds : S.Holds disk cookieId cookieHex) :
      Stage sha1 S 36
        ⟨.writing auth ("DATA " ++ hexEncode (asBytes (responseText sha1 challenge clientChallenge
          cookieHex))),
          .reading ((S.server i .waitingForAuth false).challenging cookieId challenge),
          [], [], disk⟩
  | answered (auth i cookieId challenge clientChallenge cookieHex disk)
      (want : auth.wantUnixFd = S.wantUnixFd) (ne : clientChallenge ≠ [])
      (holds : S.Holds disk cookieId cookieHex) :
      Stage sha1 S 35
        ⟨.reading auth,
         .reading ((S.server i .waitingForAuth false).challenging cookieId challenge),
          ["DATA " ++ hexEncode (asBytes (responseText sha1 challenge clientChallenge cookieHex))],
          [], disk⟩
  /-- The server accepts. -/
  | welcoming (auth server uid disk) (want : auth.wantUnixFd = S.wantUnixFd)
      (state : server.state = .waitingForBegin uid) (negotiated : server.unixFdNegotiated = false) :
      Stage sha1 S 34
        ⟨.reading auth, .writing server ["OK " ++ S.guidHex], [], [], disk⟩
  | welcomed (auth server uid disk) (want : auth.wantUnixFd = S.wantUnixFd)
      (state : server.state = .waitingForBegin uid) (negotiated : server.unixFdNegotiated = false) :
      Stage sha1 S 33
        ⟨.reading auth, .reading server, [], ["OK " ++ S.guidHex], disk⟩
  /-- The client wants descriptors. -/
  | unheard (lines toServer server uid disk) (want : S.wantUnixFd = true)
      (state : server.state = .waitingForBegin uid)
      (left : toServer ++ lines = ["NEGOTIATE_UNIX_FD", "BEGIN"]) :
      Stage sha1 S (6 * lines.length + 4 * toServer.length)
        ⟨clientFinishing true lines, .reading server, toServer, [], disk⟩
  | agreeing (lines toServer server uid disk) (want : S.wantUnixFd = true)
      (state : server.state = .waitingForBegin uid) (negotiated : server.unixFdNegotiated = true)
      (left : toServer ++ lines = ["BEGIN"]) :
      Stage sha1 S (6 * lines.length + 4 * toServer.length + 2)
        ⟨clientFinishing true lines, .writing server ["AGREE_UNIX_FD"], toServer, [], disk⟩
  /-- What is left is to begin. -/
  | parting (client lines toServer toClient server uid disk)
      (replied : S.Replied client lines toClient)
      (state : server.state = .waitingForBegin uid)
      (negotiated : server.unixFdNegotiated = S.wantUnixFd) (left : toServer ++ lines = ["BEGIN"]) :
      Stage sha1 S (6 * lines.length + 4 * toServer.length + toClient.length)
        ⟨client, .reading server, toServer, toClient, disk⟩
  | parted (client toClient server disk) (replied : S.Replied client [] toClient)
      (negotiated : server.unixFdNegotiated = S.wantUnixFd) :
      Stage sha1 S toClient.length ⟨client, .begun server, [], toClient, disk⟩

/-! ## From stage to stage -/

theorem tryNextMechanism_client (i : ℕ) (hi : i < S.mechanisms.length) :
    (S.client i hi).tryNextMechanism S.peer.uid
      = if h : i + 1 < S.mechanisms.length then some (S.opener (i + 1) h, S.client (i + 1) h)
        else none := rfl

theorem rejected_server (i : ℕ) (few : i < 6) (disk : Disk) :
    (S.server i .waitingForAuth false).rejected disk
      = if 6 ≤ i + 1 then ⟨.disconnect "too many authentication failures",
          S.server (i + 1) .waitingForAuth false, disk⟩
        else ⟨.send ["REJECTED " ++ mechanismListString S.allowedMechanisms],
          S.server (i + 1) .waitingForAuth false, disk⟩ := by
  have hall : ∀ i < 6, UInt32.ofNat i + 1 = UInt32.ofNat (i + 1) ∧
      (maxFailures ≤ UInt32.ofNat (i + 1) ↔ 6 ≤ i + 1) := by decide
  obtain ⟨hsum, hle⟩ := hall i few
  unfold ServerAuth.rejected server
  dsimp only
  rw [hsum]
  by_cases h : 6 ≤ i + 1
  · rw [if_pos h, if_pos (hle.mpr h)]
  · rw [if_neg h, if_neg (mt hle.mp h)]

theorem refused_succ {i : ℕ} (hi : i < S.mechanisms.length) (h : S.Refused i)
    (hrefused : S.accepts (S.mechanisms.get ⟨i, hi⟩) = false) : S.Refused (i + 1) := by
  intro m hm
  rw [List.take_succ_eq_append_getElem hi, List.mem_append, List.mem_singleton] at hm
  rcases hm with hm | rfl
  · exact h m hm
  · exact hrefused

/-- Six mechanisms that are refused are too many. -/
theorem hopeless_of_six (h : S.Refused 6) : S.Hopeless := by
  intro pre mechanism post hsplit haccepts
  have hpre : 6 ≤ pre.length := by
    by_contra hshort
    have hmem : mechanism ∈ S.mechanisms.take 6 := by
      obtain ⟨k, hk⟩ := Nat.exists_eq_add_of_lt (Nat.lt_of_not_le hshort)
      rw [hsplit, List.take_append, hk, show pre.length + k + 1 - pre.length = k + 1 by omega]
      exact List.mem_append_right _ List.mem_cons_self
    rw [h mechanism hmem] at haccepts
    cases haccepts
  have htake : S.mechanisms.take 6 = pre.take 6 := by
    rw [hsplit, List.take_append_of_le_length hpre]
  have hcount : (pre.take 6).countP (fun m => !S.accepts m) = 6 := by
    have hall : ∀ m ∈ pre.take 6, (!S.accepts m) = true := by
      intro m hm
      rw [h m (by rwa [htake])]
      rfl
    rw [List.countP_eq_length.mpr hall, List.length_take, Nat.min_eq_left hpre]
  exact hcount.ge.trans ((List.take_sublist 6 pre).countP_le)

/-- No mechanism may be left. -/
theorem hopeless_of_all (h : S.Refused S.mechanisms.length) : S.Hopeless := by
  intro pre mechanism post hsplit haccepts
  rw [Refused, List.take_length] at h
  have hrefused := h mechanism (by rw [hsplit]; exact List.mem_append_right _ List.mem_cons_self)
  rw [haccepts] at hrefused
  cases hrefused

/-- The server lets a mechanism through that it accepts. -/
theorem accepts_ite (m : Mechanism) (x y : Served) :
    (if m ∉ S.allowedMechanisms then x
      else if m = .anonymous ∧ S.allowAnonymous = false then x else y)
      = if S.accepts m then y else x := by
  unfold accepts
  by_cases hmem : m ∈ S.allowedMechanisms
  · rw [if_neg (not_not.mpr hmem)]
    cases m <;> cases S.allowAnonymous <;> simp [hmem]
  · rw [if_pos hmem]
    simp [hmem]

/-- **The server's answer to a mechanism.** -/
theorem asking_step {machine : Machine} (fits : S.Fits machine) (i : ℕ)
    (hi : i < S.mechanisms.length) {disk : Disk} (few : i < 6) (refused : S.Refused i)
    (readable : S.Readable disk) :
    ∃ m < 30 * (S.mechanisms.length - i) + 9, S.Stage sha1 m
      ⟨.reading (S.client i hi),
       serverAfter ((S.server i .waitingForAuth false).feedLine sha1 machine
          disk (S.opener i hi)), [], [],
        ((S.server i .waitingForAuth false).feedLine sha1 machine disk (S.opener i hi)).disk⟩ := by
  have hline : (S.server i .waitingForAuth false).feedLine sha1 machine disk (S.opener i hi)
      = if S.accepts (S.mechanisms.get ⟨i, hi⟩) then
          ((S.server i .waitingForAuth false).startMechanism
            (S.mechanisms.get ⟨i, hi⟩)).dispatchMechanismData sha1 machine disk
            (S.mechanisms.get ⟨i, hi⟩) ⟨none, none⟩ (authData S.peer.uid (S.mechanisms.get ⟨i, hi⟩))
        else (S.server i .waitingForAuth false).rejected disk :=
    (feedLine_authLine rfl _ _).trans (accepts_ite _ _ _)
  rw [hline]
  cases haccepts : S.accepts (S.mechanisms.get ⟨i, hi⟩) with
  | false =>
    have hrefused := refused_succ hi refused haccepts
    rw [if_neg Bool.false_ne_true, rejected_server i few]
    by_cases hlast : 6 ≤ i + 1
    · rw [if_pos hlast]
      have hsix : i + 1 = 6 := by omega
      rw [hsix] at hrefused
      exact ⟨2, by omega, .hungUp _ _ _ (hopeless_of_six hrefused)⟩
    · rw [if_neg hlast]
      exact ⟨_, by omega, .refusing i hi _ disk (by omega) hrefused readable⟩
  | true =>
    rw [if_pos rfl]
    cases hmechanism : S.mechanisms.get ⟨i, hi⟩ with
    | external =>
      have hserved : ((S.server i .waitingForAuth false).startMechanism
          .external).dispatchMechanismData sha1 machine disk .external ⟨none, none⟩
            (authData S.peer.uid .external)
          = ((S.server i .waitingForAuth false).startMechanism .external).ok disk
            (some S.peer.uid) := by
        show ServerAuth.handleExternal _ _ _ = _
        unfold ServerAuth.handleExternal
        rw [show authData S.peer.uid .external = asBytes (decimal (((S.server i .waitingForAuth
          false).startMechanism .external).peer.uid.toNat)) from rfl, ServerAuth.desiredUid_decimal]
        exact if_pos rfl
      rw [hserved]
      exact ⟨34, by omega, .welcoming _ _ (some S.peer.uid) disk rfl rfl rfl⟩
    | anonymous => exact ⟨34, by omega, .welcoming _ _ none disk rfl rfl rfl⟩
    | dbusCookieSha1 =>
      obtain ⟨keys, hkeys⟩ := readable
      obtain ⟨cookieId, disk', keys', hserved, hkeys', hmem⟩ := ServerAuth.firstResponse_eq
        ((S.server i .waitingForAuth false).startMechanism .dbusCookieSha1) fits.usable
        fits.uid rfl hkeys
      obtain ⟨cookieHex, hhex⟩ := Keyring.hexKey_isSome S.home defaultContext hmem
      have hdispatch : ((S.server i .waitingForAuth false).startMechanism
          .dbusCookieSha1).dispatchMechanismData sha1 machine disk .dbusCookieSha1 ⟨none, none⟩
            (authData S.peer.uid .dbusCookieSha1) = _ := hserved
      rw [hdispatch]
      exact ⟨38, by omega, .challenging i hi cookieId _ cookieHex disk' hmechanism
        ⟨keys', hkeys', hhex⟩⟩

/-- **The client goes on** to the next mechanism, or gives up. -/
theorem refusal_step {machine : Machine} (fits : S.Fits machine) (i : ℕ)
    (hi : i < S.mechanisms.length) (names : String) {disk : Disk} (few : i + 1 < 6)
    (refused : S.Refused (i + 1)) (readable : S.Readable disk) :
    ∃ m < 30 * (S.mechanisms.length - i) + 1, S.Stage sha1 m
      ⟨clientAfter machine.uid ((S.client i hi).feedLine sha1 machine disk ("REJECTED " ++ names)),
        .reading (S.server (i + 1) .waitingForAuth false), [], [], disk⟩ := by
  rw [ClientAuth.feedLine_rejected, fits.uid]
  unfold clientAfter
  dsimp only
  rw [tryNextMechanism_client]
  by_cases hnext : i + 1 < S.mechanisms.length
  · rw [dif_pos hnext]
    exact ⟨_, by omega, .opening (i + 1) hnext disk few refused readable⟩
  · rw [dif_neg hnext]
    have hall : i + 1 = S.mechanisms.length := by omega
    rw [hall] at refused
    exact ⟨1, by omega, .gaveUp _ _ disk (hopeless_of_all refused)⟩

/-- **The client answers the challenge.** -/
theorem challenged_step {machine : Machine} (fits : S.Fits machine) (i : ℕ)
    (hi : i < S.mechanisms.length) (cookieId : UInt32) (challenge : List UInt8) {cookieHex : String}
    {disk : Disk} (cookie : S.mechanisms.get ⟨i, hi⟩ = .dbusCookieSha1)
    (holds : S.Holds disk cookieId cookieHex) :
    ∃ m < 37, S.Stage sha1 m
      ⟨clientAfter machine.uid ((S.client i hi).feedLine sha1 machine disk
          ("DATA " ++ hexEncode (asBytes (challengeText cookieId challenge)))),
        .reading ((S.server i .waitingForAuth false).challenging cookieId challenge), [], [],
        disk⟩ := by
  obtain ⟨keys, hkeys, hhex⟩ := holds
  have hstate : (S.client i hi).state = .waitingForDataOrOk .dbusCookieSha1 none :=
    congrArg (ClientState.waitingForDataOrOk · none) cookie
  have hne : machine.challenge.toList ≠ [] := by
    intro hnil
    have hlength := machine.challenge.length_toList
    rw [hnil] at hlength
    cases hlength
  rw [ClientAuth.feedLine_challenge fits.usable hstate rfl hkeys hhex]
  exact ⟨36, by omega, .answering _ i cookieId challenge _ cookieHex disk rfl hne
    ⟨keys, hkeys, hhex⟩⟩

/-- **The server accepts the answer.** -/
theorem answered_step {machine : Machine} (fits : S.Fits machine) (auth : ClientAuth) (i : ℕ)
    (cookieId : UInt32) (challenge clientChallenge : List UInt8) {cookieHex : String} {disk : Disk}
    (want : auth.wantUnixFd = S.wantUnixFd) (ne : clientChallenge ≠ [])
    (holds : S.Holds disk cookieId cookieHex) :
    ∃ m < 35, S.Stage sha1 m
      ⟨.reading auth, serverAfter (((S.server i .waitingForAuth false).challenging cookieId
          challenge).feedLine sha1 machine disk ("DATA " ++ hexEncode (asBytes
            (responseText sha1 challenge clientChallenge cookieHex)))), [], [],
        (((S.server i .waitingForAuth false).challenging cookieId challenge).feedLine sha1
          machine disk
          ("DATA " ++ hexEncode (asBytes
            (responseText sha1 challenge clientChallenge cookieHex)))).disk⟩ := by
  obtain ⟨keys, hkeys, hhex⟩ := holds
  rw [ServerAuth.secondResponse_eq fits.usable rfl rfl hkeys hhex ne]
  exact ⟨34, by omega, .welcoming auth _ (some S.peer.uid) disk want rfl rfl⟩

/-- **The client says what is left to say.** -/
theorem welcomed_step {machine : Machine} (auth : ClientAuth) (server : ServerAuth)
    (uid : Option UInt32) (disk : Disk) (want : auth.wantUnixFd = S.wantUnixFd)
    (state : server.state = .waitingForBegin uid) (negotiated : server.unixFdNegotiated = false) :
    ∃ m < 33, S.Stage sha1 m
      ⟨clientAfter machine.uid (auth.feedLine sha1 machine disk ("OK " ++ S.guidHex)),
        .reading server, [], [], disk⟩ := by
  rw [ClientAuth.feedLine_ok]
  unfold clientAfter ClientAuth.finishLines
  dsimp only
  cases hwant : auth.wantUnixFd with
  | true =>
    rw [if_pos rfl]
    rw [hwant] at want
    exact ⟨_, by decide, .unheard ["NEGOTIATE_UNIX_FD", "BEGIN"] [] server uid disk want.symm state
      rfl⟩
  | false =>
    rw [if_neg Bool.false_ne_true]
    rw [hwant] at want
    exact ⟨_, by decide, .parting _ ["BEGIN"] [] [] server uid disk
      (.inr (.inr ⟨want.symm, rfl, rfl⟩)) state (negotiated.trans want) rfl⟩

/-- What can happen when a client has only lines to write at the end: it writes
one, or reads the reply, or the server goes on. -/
theorem finishing_step {expectReply : Bool} {lines toServer toClient : List String}
    {server : ServerPhase} {disk : Disk} {e : Exchange}
    (hserver : ∀ reason, server ≠ .failed reason)
    (hstep : Exchange.Step sha1 S
      ⟨clientFinishing expectReply lines, server, toServer, toClient, disk⟩ e) :
    (∃ line rest, lines = line :: rest ∧
      e = ⟨clientFinishing expectReply rest, server, toServer ++ [line], toClient, disk⟩) ∨
    (lines = [] ∧ expectReply = true ∧ ∃ line rest, toClient = line :: rest ∧
      e = ⟨.succeeded, server, toServer, rest, disk⟩) ∨
    (∃ machine auth line rest, S.Fits machine ∧ server = .reading auth ∧ toServer = line :: rest ∧
      e = ⟨clientFinishing expectReply lines,
        serverAfter (auth.feedLine sha1 machine disk line), rest,
        toClient, (auth.feedLine sha1 machine disk line).disk⟩) ∨
    ∃ auth line rest, server = .writing auth (line :: rest) ∧
      e = ⟨clientFinishing expectReply lines, serverSending auth rest, toServer, toClient ++ [line],
        disk⟩ := by
  cases lines with
  | nil =>
    cases expectReply with
    | true =>
      change Exchange.Step sha1 S ⟨.awaiting, server, toServer, toClient, disk⟩ e at hstep
      cases hstep with
      | clientAwaits line _ _ rest => exact .inr (.inl ⟨rfl, rfl, line, rest, rfl, rfl⟩)
      | clientReadsEnd => exact absurd rfl (hserver _)
      | clientCannotWrite => exact absurd rfl (hserver _)
      | serverReads machine fits auth line _ rest =>
        exact .inr (.inr (.inl ⟨machine, auth, line, rest, fits, rfl, rfl, rfl⟩))
      | serverWrites auth line rest => exact .inr (.inr (.inr ⟨auth, line, rest, rfl, rfl⟩))
    | false =>
      change Exchange.Step sha1 S ⟨.succeeded, server, toServer, toClient, disk⟩ e at hstep
      cases hstep with
      | clientReadsEnd => exact absurd rfl (hserver _)
      | clientCannotWrite => exact absurd rfl (hserver _)
      | serverReads machine fits auth line _ rest =>
        exact .inr (.inr (.inl ⟨machine, auth, line, rest, fits, rfl, rfl, rfl⟩))
      | serverWrites auth line rest => exact .inr (.inr (.inr ⟨auth, line, rest, rfl, rfl⟩))
  | cons line lines =>
    change Exchange.Step sha1 S ⟨.finishing (line :: lines) expectReply, server, toServer, toClient,
      disk⟩ e at hstep
    cases hstep with
    | clientFinishes => exact .inl ⟨line, lines, rfl, rfl⟩
    | clientReadsEnd => exact absurd rfl (hserver _)
    | clientCannotWrite => exact absurd rfl (hserver _)
    | serverReads machine fits auth line _ rest =>
      exact .inr (.inr (.inl ⟨machine, auth, line, rest, fits, rfl, rfl, rfl⟩))
    | serverWrites auth line rest => exact .inr (.inr (.inr ⟨auth, line, rest, rfl, rfl⟩))

/-- A client that has been replied to has lines to write at the end, or none. -/
theorem Replied.finishing {client : ClientPhase} {lines toClient : List String}
    (h : S.Replied client lines toClient) :
    ∃ expectReply, client = clientFinishing expectReply lines ∧
      (∀ line rest, lines = line :: rest →
        S.Replied (clientFinishing expectReply rest) rest toClient) ∧
      (lines = [] → expectReply = true → ∀ line rest, toClient = line :: rest →
        S.Replied .succeeded [] rest) := by
  rcases h with ⟨hwant, hclient, hto⟩ | ⟨hwant, hclient, hlines, hto⟩ | ⟨hwant, hclient, hto⟩
  · refine ⟨true, hclient, fun line rest _ => .inl ⟨hwant, rfl, hto⟩, ?_⟩
    rintro - - line rest hcons
    rw [hto] at hcons
    exact .inr (.inl ⟨hwant, rfl, rfl, (List.cons.inj hcons).2.symm⟩)
  · refine ⟨false, by rw [hclient, hlines]; rfl, ?_, fun _ hfalse => nomatch hfalse⟩
    rintro line rest hcons
    rw [hlines] at hcons
    cases hcons
  · exact ⟨false, hclient, fun line rest _ => .inr (.inr ⟨hwant, rfl, hto⟩),
      fun _ hfalse => nomatch hfalse⟩

section

variable {lines toServer toClient : List String} {client : ClientPhase} {server : ServerAuth}
  {uid : Option UInt32} {disk : Disk} {e : Exchange}

/-- **The server hears that the client wants descriptors**, or the client writes on. -/
theorem unheard_step (want : S.wantUnixFd = true) (state : server.state = .waitingForBegin uid)
    (left : toServer ++ lines = ["NEGOTIATE_UNIX_FD", "BEGIN"])
    (hstep : Exchange.Step sha1 S
      ⟨clientFinishing true lines, .reading server, toServer, [], disk⟩ e) :
    ∃ m < 6 * lines.length + 4 * toServer.length, S.Stage sha1 m e := by
  rcases finishing_step (by rintro reason ⟨⟩) hstep with ⟨line, rest, rfl, rfl⟩ |
    ⟨-, -, line, rest, hnone, -⟩ | ⟨machine, auth, line, rest, fits, hauth, rfl, rfl⟩ |
    ⟨auth, line, rest, hauth, -⟩
  · refine ⟨_, ?_,
      .unheard rest (toServer ++ [line]) server uid disk want state (by simpa using left)⟩
    simp only [List.length_cons, List.length_append, List.length_nil]
    omega
  · cases hnone
  · obtain rfl : server = auth := ServerPhase.reading.inj hauth
    obtain ⟨rfl, hrest⟩ := List.cons.inj left
    rw [ServerAuth.feedLine_negotiate state]
    refine ⟨_, ?_, .agreeing lines rest _ uid disk want state rfl hrest⟩
    simp only [List.length_cons]
    omega
  · cases hauth

/-- **The server agrees**, or the client writes on. -/
theorem agreeing_step (want : S.wantUnixFd = true) (state : server.state = .waitingForBegin uid)
    (negotiated : server.unixFdNegotiated = true) (left : toServer ++ lines = ["BEGIN"])
    (hstep : Exchange.Step sha1 S
      ⟨clientFinishing true lines, .writing server ["AGREE_UNIX_FD"], toServer, [], disk⟩ e) :
    ∃ m < 6 * lines.length + 4 * toServer.length + 2, S.Stage sha1 m e := by
  rcases finishing_step (by rintro reason ⟨⟩) hstep with ⟨line, rest, rfl, rfl⟩ |
    ⟨-, -, line, rest, hnone, -⟩ | ⟨machine, auth, line, rest, fits, hauth, rfl, rfl⟩ |
    ⟨auth, line, rest, hauth, rfl⟩
  · refine ⟨_, ?_, .agreeing rest (toServer ++ [line]) server uid disk want state negotiated
      (by simpa using left)⟩
    simp only [List.length_cons, List.length_append, List.length_nil]
    omega
  · cases hnone
  · cases hauth
  · cases hauth
    exact ⟨_, Nat.lt_succ_self _, .parting _ lines toServer ["AGREE_UNIX_FD"] server uid disk
      (.inl ⟨want, rfl, rfl⟩) state (negotiated.trans want.symm) left⟩

/-- **The server begins**, or the client writes on or reads the reply. -/
theorem parting_step (replied : S.Replied client lines toClient)
    (state : server.state = .waitingForBegin uid)
    (negotiated : server.unixFdNegotiated = S.wantUnixFd) (left : toServer ++ lines = ["BEGIN"])
    (hstep : Exchange.Step sha1 S ⟨client, .reading server, toServer, toClient, disk⟩ e) :
    ∃ m < 6 * lines.length + 4 * toServer.length + toClient.length, S.Stage sha1 m e := by
  obtain ⟨expectReply, rfl, hwrites, hreads⟩ := replied.finishing
  rcases finishing_step (by rintro reason ⟨⟩) hstep with ⟨line, rest, rfl, rfl⟩ |
    ⟨rfl, hexpect, line, rest, rfl, rfl⟩ | ⟨machine, auth, line, rest, fits, hauth, rfl, rfl⟩ |
    ⟨auth, line, rest, hauth, -⟩
  · refine ⟨_, ?_, .parting _ rest (toServer ++ [line]) toClient server uid disk
      (hwrites line rest rfl) state negotiated (by simpa using left)⟩
    simp only [List.length_cons, List.length_append, List.length_nil]
    omega
  · refine ⟨_, ?_, .parting .succeeded [] toServer rest server uid disk
      (hreads rfl hexpect line rest rfl) state negotiated left⟩
    simp only [List.length_cons]
    omega
  · obtain rfl : server = auth := ServerPhase.reading.inj hauth
    obtain ⟨rfl, hrest⟩ := List.cons.inj left
    obtain ⟨rfl, rfl⟩ := List.append_eq_nil_iff.mp hrest
    rw [ServerAuth.feedLine_begin state]
    refine ⟨_, ?_, .parted _ toClient server disk replied negotiated⟩
    simp only [List.length_cons, List.length_nil]
    omega
  · cases hauth

/-- **The client reads the reply** that is still under way. -/
theorem parted_step (replied : S.Replied client [] toClient)
    (negotiated : server.unixFdNegotiated = S.wantUnixFd)
    (hstep : Exchange.Step sha1 S ⟨client, .begun server, [], toClient, disk⟩ e) :
    ∃ m < toClient.length, S.Stage sha1 m e := by
  obtain ⟨expectReply, rfl, -, hreads⟩ := replied.finishing
  rcases finishing_step (by rintro reason ⟨⟩) hstep with ⟨line, rest, hnone, -⟩ |
    ⟨-, hexpect, line, rest, rfl, rfl⟩ | ⟨machine, auth, line, rest, fits, hauth, -, -⟩ |
    ⟨auth, line, rest, hauth, -⟩
  · cases hnone
  · exact ⟨_, Nat.lt_succ_self _, .parted .succeeded rest server disk
      (hreads rfl hexpect line rest rfl) negotiated⟩
  · cases hauth
  · cases hauth

end

/-- **Every step leads to a stage of lower rank.** -/
theorem Stage.step {n : ℕ} {e e' : Exchange} (h : S.Stage sha1 n e)
    (hstep : Exchange.Step sha1 S e e') :
    ∃ m < n, S.Stage sha1 m e' := by
  cases h with
  | opening i hi disk few refused readable =>
    cases hstep with
    | clientWrites =>
      exact ⟨_, Nat.lt_succ_self _, .asking i hi disk few refused readable⟩
  | asking i hi disk few refused readable =>
    cases hstep with
    | serverReads machine fits => exact asking_step fits i hi few refused readable
  | refusing i hi names disk few refused readable =>
    cases hstep with
    | serverWrites =>
      exact ⟨_, Nat.lt_succ_self _, .refusal i hi names disk few refused readable⟩
  | refusal i hi names disk few refused readable =>
    cases hstep with
    | clientReads machine fits => exact refusal_step fits i hi names few refused readable
  | hungUp auth reason disk hopeless =>
    cases hstep with
    | clientReadsEnd => exact ⟨0, by decide, .failed _ _ disk hopeless⟩
    | clientCannotWrite => exact ⟨0, by decide, .failed _ _ disk hopeless⟩
  | gaveUp reason auth disk hopeless =>
    cases hstep with
    | serverReadsEnd => exact ⟨0, by decide, .failed _ _ disk hopeless⟩
  | failed reason reason' disk hopeless =>
    cases hstep with
    | clientReadsEnd _ _ _ _ reading =>
      rcases reading with hawaiting | ⟨auth, hreading⟩
      · cases hawaiting
      · cases hreading
    | clientCannotWrite _ _ _ _ _ _ writing =>
      rcases writing with ⟨auth, line, hwriting⟩ | ⟨lines, expectReply, hfinishing⟩
      · cases hwriting
      · cases hfinishing
  | challenging i hi cookieId challenge cookieHex disk cookie holds =>
    cases hstep with
    | serverWrites =>
      exact ⟨37, by decide, .challenged i hi cookieId challenge cookieHex disk cookie holds⟩
  | challenged i hi cookieId challenge cookieHex disk cookie holds =>
    cases hstep with
    | clientReads machine fits => exact challenged_step fits i hi cookieId challenge cookie holds
  | answering auth i cookieId challenge clientChallenge cookieHex disk want ne holds =>
    cases hstep with
    | clientWrites =>
      exact ⟨35, by decide,
        .answered auth i cookieId challenge clientChallenge cookieHex disk want ne holds⟩
  | answered auth i cookieId challenge clientChallenge cookieHex disk want ne holds =>
    cases hstep with
    | serverReads machine fits =>
      exact answered_step fits auth i cookieId challenge clientChallenge want ne holds
  | welcoming auth server uid disk want state negotiated =>
    cases hstep with
    | serverWrites => exact ⟨33, by decide, .welcomed auth server uid disk want state negotiated⟩
  | welcomed auth server uid disk want state negotiated =>
    cases hstep with
    | clientReads machine fits => exact welcomed_step auth server uid disk want state negotiated
  | unheard lines toServer server uid disk want state left =>
    exact unheard_step want state left hstep
  | agreeing lines toServer server uid disk want state negotiated left =>
    exact agreeing_step want state negotiated left hstep
  | parting client lines toServer toClient server uid disk replied state negotiated left =>
    exact parting_step replied state negotiated left hstep
  | parted client toClient server disk replied negotiated =>
    exact parted_step replied negotiated hstep

/-- A machine on which nothing fails. -/
def someMachine (S : Setup) : Machine :=
  ⟨S.peer.uid, fun _ => 0, none, none, none, [], 0, .replicate 24 0, .replicate 16 0⟩

theorem fits_someMachine (S : Setup) : S.Fits S.someMachine := ⟨rfl, rfl, rfl, rfl⟩

/-- How a conversation ends: both sides have given up, or the server has begun
and the client succeeded. -/
def Ended (S : Setup) (e : Exchange) : Prop :=
  (S.Hopeless ∧ (∃ reason, e.client = .failed reason) ∧ ∃ reason, e.server = .failed reason) ∨
  (e.client = .succeeded ∧ ∃ auth, e.server = .begun auth ∧ auth.unixFdNegotiated = S.wantUnixFd)

/-- **A conversation goes on until it ends.** -/
theorem Stage.progress {n : ℕ} {e : Exchange} (h : S.Stage sha1 n e) :
    (∃ e', Exchange.Step sha1 S e e') ∨ S.Ended e := by
  have fits := S.fits_someMachine
  -- a client with lines to write at the end can write them
  have hwrite : ∀ expectReply line lines server toServer toClient disk, ∃ e',
      Exchange.Step sha1 S ⟨clientFinishing expectReply (line :: lines), server, toServer, toClient,
        disk⟩ e' := fun _ _ _ _ _ _ _ => ⟨_, .clientFinishes _ _ _ _ _ _ _⟩
  cases h with
  | opening => exact .inl ⟨_, .clientWrites _ _ _ _ _ _⟩
  | asking => exact .inl ⟨_, .serverReads _ fits _ _ _ _ _ _⟩
  | refusing => exact .inl ⟨_, .serverWrites _ _ _ _ _ _ _⟩
  | refusal => exact .inl ⟨_, .clientReads _ fits _ _ _ _ _ _⟩
  | hungUp auth => exact .inl ⟨_, .clientReadsEnd _ _ _ _ (.inr ⟨auth, rfl⟩)⟩
  | gaveUp => exact .inl ⟨_, .serverReadsEnd _ _ _ _⟩
  | failed reason reason' disk hopeless =>
    exact .inr (.inl ⟨hopeless, ⟨reason, rfl⟩, ⟨reason', rfl⟩⟩)
  | challenging => exact .inl ⟨_, .serverWrites _ _ _ _ _ _ _⟩
  | challenged => exact .inl ⟨_, .clientReads _ fits _ _ _ _ _ _⟩
  | answering => exact .inl ⟨_, .clientWrites _ _ _ _ _ _⟩
  | answered => exact .inl ⟨_, .serverReads _ fits _ _ _ _ _ _⟩
  | welcoming => exact .inl ⟨_, .serverWrites _ _ _ _ _ _ _⟩
  | welcomed => exact .inl ⟨_, .clientReads _ fits _ _ _ _ _ _⟩
  | unheard lines toServer server uid disk want state left =>
    cases lines with
    | cons line lines => exact .inl (hwrite _ _ _ _ _ _ _)
    | nil =>
      rw [List.append_nil] at left
      subst left
      exact .inl ⟨_, .serverReads _ fits _ _ _ _ _ _⟩
  | agreeing => exact .inl ⟨_, .serverWrites _ _ _ _ _ _ _⟩
  | parting client lines toServer toClient server uid disk replied state negotiated left =>
    cases toServer with
    | cons line toServer => exact .inl ⟨_, .serverReads _ fits _ _ _ _ _ _⟩
    | nil =>
      obtain rfl : lines = ["BEGIN"] := left
      obtain ⟨expectReply, rfl, -⟩ := replied.finishing
      exact .inl (hwrite _ _ _ _ _ _ _)
  | parted client toClient server disk replied negotiated =>
    rcases replied with ⟨-, rfl, rfl⟩ | ⟨-, rfl, -, -⟩ | ⟨-, rfl, -⟩
    · exact .inl ⟨_, .clientAwaits _ _ _ _ _⟩
    · exact .inr (.inr ⟨rfl, server, rfl, negotiated⟩)
    · exact .inr (.inr ⟨rfl, server, rfl, negotiated⟩)

/-- **Every run goes down the ranks.** -/
theorem Stage.run {n k : ℕ} {e e' : Exchange} (h : S.Stage sha1 n e)
    (hrun : Exchange.Run sha1 S k e e') : ∃ m, m + k ≤ n ∧ S.Stage sha1 m e' := by
  induction hrun with
  | refl => exact ⟨n, le_rfl, h⟩
  | tail _ hstep ih =>
    obtain ⟨m, hm, hstage⟩ := ih h
    obtain ⟨m', hm', hstage'⟩ := hstage.step hstep
    exact ⟨m', by omega, hstage'⟩

theorem stage_initial (sha1 : Digest) (S : Setup) :
    S.Stage sha1 (30 * S.mechanisms.length + 10) S.initial :=
  .opening 0 (List.length_pos_of_ne_nil S.mechanisms_ne) S.disk (by decide)
    (fun m hm => nomatch hm) S.readable

end Setup

/-- **Both sides agree.** Every conversation ends; then the client has succeeded
if and only if the server has begun, and the server knows whether the client
wants descriptors. The client does succeed if the server accepts one of its
mechanisms and does not refuse too many before it. -/
theorem handshake_agrees (sha1 : Digest) (S : Setup) :
    (∃ bound, ∀ n e, Exchange.Run sha1 S n S.initial e → n ≤ bound) ∧
    ∀ n e, Exchange.Run sha1 S n S.initial e → (∀ e', ¬ Exchange.Step sha1 S e e') →
      (e.client = .succeeded ∨ ∃ reason, e.client = .failed reason) ∧
      (e.client = .succeeded ↔ ∃ auth, e.server = .begun auth) ∧
      (∀ auth, e.server = .begun auth → auth.unixFdNegotiated = S.wantUnixFd) ∧
      ∀ pre mechanism post, S.mechanisms = pre ++ mechanism :: post →
        S.accepts mechanism = true → (pre.countP fun m => !S.accepts m) < maxFailures.toNat →
        e.client = .succeeded := by
  constructor
  · refine ⟨30 * S.mechanisms.length + 10, fun n e hrun => ?_⟩
    obtain ⟨m, hm, -⟩ := (Setup.stage_initial sha1 S).run hrun
    omega
  · intro n e hrun hstuck
    obtain ⟨m, -, hstage⟩ := (Setup.stage_initial sha1 S).run hrun
    rcases hstage.progress with ⟨e', hstep⟩ | ⟨hopeless, ⟨reason, hclient⟩, ⟨reason', hserver⟩⟩ |
      ⟨hclient, auth, hserver, hnegotiated⟩
    · exact absurd hstep (hstuck e')
    · rw [hclient, hserver]
      refine ⟨.inr ⟨reason, rfl⟩, ?_, ?_, ?_⟩
      · constructor
        · rintro ⟨⟩
        · rintro ⟨auth, ⟨⟩⟩
      · rintro auth ⟨⟩
      · intro pre mechanism post hsplit haccepts hfew
        exact absurd (hopeless pre mechanism post hsplit haccepts) (Nat.not_le.mpr hfew)
    · rw [hclient, hserver]
      refine ⟨.inl rfl, ⟨fun _ => ⟨auth, rfl⟩, fun _ => rfl⟩, ?_, fun _ _ _ _ _ _ => rfl⟩
      intro auth' hauth'
      rwa [← ServerPhase.begun.inj hauth']

/-- A client that tries ANONYMOUS first, and a server that accepts EXTERNAL
only. -/
def externalSetup : Setup where
  mechanisms := [.anonymous, .external]
  mechanisms_ne := List.cons_ne_nil _ _
  wantUnixFd := true
  peer := ⟨1000, 1000, 4711⟩
  allowedMechanisms := [.external]
  allowAnonymous := false
  guidHex := "00112233445566778899aabbccddeeff"
  home := "/home/a"
  disk _ _ := .absent
  readable := ⟨[], rfl⟩

theorem handshake_agrees_external :
    (∃ bound, ∀ n e,
      Exchange.Run (fun _ => .replicate 20 0) externalSetup n externalSetup.initial e →
      n ≤ bound) ∧
    ∀ n e, Exchange.Run (fun _ => .replicate 20 0) externalSetup n externalSetup.initial e →
      (∀ e', ¬ Exchange.Step (fun _ => .replicate 20 0) externalSetup e e') →
      e.client = .succeeded := by
  obtain ⟨hends, hagrees⟩ := handshake_agrees (fun _ => .replicate 20 0) externalSetup
  refine ⟨hends, fun n e hrun hstuck => ?_⟩
  obtain ⟨-, -, -, hsucceeds⟩ := hagrees n e hrun hstuck
  exact hsucceeds [.anonymous] .external [] rfl (by decide) (by decide)

end Oxibus
