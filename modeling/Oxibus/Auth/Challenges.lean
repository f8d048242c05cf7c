import Oxibus.Auth.Handshake

/-!
# Challenges

In an exchange about a cookie the server sends a challenge, and the client
answers with a hash over the challenge and the cookie. Whoever has heard an
answer must not be let in by it again: a challenge is good for one answer, the
next one that comes.

A conversation is written down turn by turn. A challenge is pending from the
turn that issues it until the next DATA, CANCEL or ERROR, and the server
awaits an answer to nothing but the challenge that is pending
(`Awaits.step`). An OK is therefore always for an answer to that one, made with
the secret that its cookie has on the disk (`cookie_answered`).
-/

namespace Oxibus

/-! ## Turns -/

/-- **A turn**: the server as it was, what it was fed, and what it did. -/
structure Turn where
  auth : ServerAuth
  input : ServerInput
  action : ServerAction

/-- The turns of a conversation. -/
def turns (sha1 : Digest) : ServerAuth → List ServerInput → List Turn
  | _, [] => []
  | auth, input :: inputs =>
    let served := auth.feedLine sha1 input.machine input.disk input.line
    ⟨auth, input, served.action⟩ :: turns sha1 served.auth inputs

theorem map_action_turns (sha1 : Digest) (auth : ServerAuth) (inputs : List ServerInput) :
    (turns sha1 auth inputs).map Turn.action = feedLines sha1 auth inputs := by
  induction inputs generalizing auth with
  | nil => rfl
  | cons input inputs ih => exact congrArg (List.cons _) (ih _)

/-- The mechanism by which a line can make a client known: the one that runs, or
the one that the line starts. -/
def ServerAuth.mechanismFor (auth : ServerAuth) (line : String) : Option Mechanism :=
  match auth.state with
  | .waitingForAuth =>
    if (splitCommand line).1 = "AUTH" then
      Mechanism.parse ((splitn 2 ' ' (splitCommand line).2)[0]?.getD "")
    else none
  | .waitingForData mechanism _ => some mechanism
  | .waitingForBegin _ => none

namespace Turn

def command (turn : Turn) : String := (splitCommand turn.input.line).1

/-- Whether the server says OK by way of a cookie. -/
def OkByCookie (turn : Turn) : Prop :=
  turn.auth.mechanismFor turn.input.line = some .dbusCookieSha1 ∧
    turn.action.lines.any isOk = true

/-- **Whether the server issues a challenge.** -/
def Issues (turn : Turn) (cookieId : UInt32) (challenge : List UInt8) : Prop :=
  turn.action = .send ["DATA " ++ hexEncode (asBytes (challengeText cookieId challenge))]

/-- Whether a turn leaves no challenge pending: the client answers, or gives
up. -/
def Spends (turn : Turn) : Prop :=
  turn.command = "DATA" ∨ turn.command = "CANCEL" ∨ turn.command = "ERROR"

end Turn

/-- **The challenge that is pending after some turns**: the latest one, if the
client has not answered it and not given up since. -/
def PendingChallenge (past : List Turn) (cookieId : UInt32) (challenge : List UInt8) : Prop :=
  ∃ before issue after, past = before ++ issue :: after ∧ issue.Issues cookieId challenge ∧
    ∀ turn ∈ after, ¬ turn.Spends ∧ ∀ id other, ¬ turn.Issues id other

/-- A challenge that was issued, and then answered or given up. -/
def SpentChallenge (past : List Turn) (cookieId : UInt32) (challenge : List UInt8) : Prop :=
  ∃ before issue after, past = before ++ issue :: after ∧ issue.Issues cookieId challenge ∧
    ∃ turn ∈ after, turn.Spends

/-- No challenge is issued twice. -/
def DistinctChallenges (past : List Turn) : Prop :=
  past.Pairwise fun turn later => ∀ cookieId challenge cookieId' challenge',
    turn.Issues cookieId challenge → later.Issues cookieId' challenge' → challenge ≠ challenge'

/-- The text that is hashed in the answer to a challenge. -/
def answerText (challenge : List UInt8) (clientChallengeHex cookieHex : String) : String :=
  hexEncode challenge ++ ":" ++ clientChallengeHex ++ ":" ++ cookieHex

/-- **An answer to a challenge**: a DATA line with a challenge of the client's
and the hash over both challenges and the secret that the cookie has on the
disk. -/
structure Turn.Answers (sha1 : Digest) (turn : Turn) (cookieId : UInt32)
    (challenge : List UInt8) (clientChallengeHex cookieHex : String) : Prop where
  command : turn.command = "DATA"
  response : ∃ data text, hexDecode (splitCommand turn.input.line).2 = some data ∧
    fromUtf8 data = some text ∧ splitOnce ' ' text = some (clientChallengeHex,
      hexEncode (sha1 (asBytes (answerText challenge clientChallengeHex cookieHex))).toList)
  secret : ∃ home keyring, turn.auth.homeDir = some home ∧
    Keyring.load turn.input.machine turn.input.disk home defaultContext = .ok keyring ∧
    keyring.hexKey cookieId = some cookieHex

/-! ## What a line does about challenges -/

theorem isOk_eq_false {line : String} (command rest : String) (hspace : ' ' ∉ command.toList)
    (hok : command ≠ "OK") (h : line = command ++ String.singleton ' ' ++ rest) :
    isOk line = false := by
  unfold isOk
  rw [command_of_append rest hspace h]
  exact beq_eq_false_iff_ne.mpr hok

namespace ServerAuth

variable {sha1 : Digest} {machine : Machine} {auth : ServerAuth} {disk : Disk}

theorem state_rejected (auth : ServerAuth) (disk : Disk) :
    (auth.rejected disk).auth.state = .waitingForAuth := by
  unfold rejected
  dsimp only
  split <;> rfl

theorem isOk_rejected (auth : ServerAuth) (disk : Disk) :
    (auth.rejected disk).action.lines.any isOk = false := by
  unfold rejected
  dsimp only
  split
  · rfl
  · simp only [ServerAction.lines, List.any_cons, List.any_nil, Bool.or_false]
    exact isOk_eq_false "REJECTED" _ (by decide) (by decide) rfl

theorem isOk_error (auth : ServerAuth) (disk : Disk) (msg : String) :
    (auth.error disk msg).action.lines.any isOk = false := by
  simp only [error, ServerAction.lines, List.any_cons, List.any_nil, Bool.or_false]
  refine isOk_eq_false "ERROR" ("\"" ++ msg ++ "\"") (by decide) (by decide) ?_
  rw [← String.append_assoc, ← String.append_assoc]
  rfl

theorem isOk_data (data : String) :
    (ServerAction.send ["DATA " ++ data]).lines.any isOk = false := by
  simp only [ServerAction.lines, List.any_cons, List.any_nil, Bool.or_false]
  exact isOk_eq_false "DATA" data (by decide) (by decide) rfl

/-- **The first response is answered by a challenge, or refused.** -/
theorem firstResponse_cases (auth : ServerAuth) (data : List UInt8) :
    (∃ disk', auth.cookieSha1FirstResponse machine disk data = auth.rejected disk') ∨
      ∃ cookieId disk', auth.cookieSha1FirstResponse machine disk data
        = ⟨.send ["DATA " ++ hexEncode (asBytes (challengeText cookieId machine.challenge.toList))],
            auth.challenging cookieId machine.challenge.toList, disk'⟩ := by
  unfold cookieSha1FirstResponse
  split
  · exact .inl ⟨_, rfl⟩
  split
  · exact .inl ⟨_, rfl⟩
  split
  · exact .inl ⟨_, rfl⟩
  split
  · exact .inl ⟨_, rfl⟩
  · exact .inr ⟨_, _, rfl⟩

/-- **The second response is accepted if it answers the challenge.** -/
theorem secondResponse_cases (auth : ServerAuth) (cookieId : UInt32) (challengeHex : String)
    (data : List UInt8) :
    auth.cookieSha1SecondResponse sha1 machine disk cookieId ⟨some cookieId, some challengeHex⟩ data
        = auth.rejected disk ∨
      (auth.cookieSha1SecondResponse sha1 machine disk cookieId ⟨some cookieId, some challengeHex⟩
          data = auth.ok disk (some auth.peer.uid) ∧
        ∃ text clientChallengeHex cookieHex, fromUtf8 data = some text ∧
          splitOnce ' ' text = some (clientChallengeHex,
            cookieHash sha1 challengeHex clientChallengeHex cookieHex) ∧
          ∃ home keyring, auth.homeDir = some home ∧
            Keyring.load machine disk home defaultContext = .ok keyring ∧
            keyring.hexKey cookieId = some cookieHex) := by
  unfold cookieSha1SecondResponse
  split
  · exact .inl rfl
  next clientChallengeHex clientHashHex hsplit =>
  obtain ⟨text, htext, hparts⟩ := Option.bind_eq_some_iff.mp hsplit
  split
  · exact .inl rfl
  split
  · exact .inl rfl
  next home hhome =>
  split
  · exact .inl rfl
  next keyring hkeyring =>
  split
  · exact .inl rfl
  next cookieHex hcookie =>
  dsimp only
  split
  · exact .inl rfl
  next hhash =>
  rw [not_not] at hhash
  refine .inr ⟨rfl, text, clientChallengeHex, cookieHex, htext, ?_, home, keyring, hhome, hkeyring,
    hcookie⟩
  rw [hparts, ← hhash]
  rfl

end ServerAuth

/-- **What becomes of a challenge in a turn.** -/
inductive CookieReaction (sha1 : Digest) (auth : ServerAuth) (input : ServerInput) :
    Served → Prop where
  /-- No cookie is asked for, and none was accepted. -/
  | idle {served : Served} :
      (∀ cookie, served.auth.state ≠ .waitingForData .dbusCookieSha1 cookie) →
      (auth.mechanismFor input.line = some .dbusCookieSha1 →
        served.action.lines.any isOk = false) →
      CookieReaction sha1 auth input served
  /-- The line is not expected, and the server waits on. -/
  | kept {served : Served} (msg : String) : served.auth.state = auth.state →
      served.action = .send ["ERROR \"" ++ msg ++ "\""] →
      ¬ (Turn.mk auth input served.action).Spends → CookieReaction sha1 auth input served
  /-- The server wants to know the user. -/
  | started {served : Served} :
      served.auth.state = .waitingForData .dbusCookieSha1 ⟨none, none⟩ →
      served.action = .send ["DATA " ++ ""] → CookieReaction sha1 auth input served
  /-- The server issues a challenge. -/
  | challenged {served : Served} (cookieId : UInt32) (challenge : List UInt8) :
      served.auth.state
        = .waitingForData .dbusCookieSha1 ⟨some cookieId, some (hexEncode challenge)⟩ →
      (Turn.mk auth input served.action).Issues cookieId challenge →
      CookieReaction sha1 auth input served
  /-- The client has answered the challenge. -/
  | accepted {served : Served} (cookieId : UInt32)
      (challengeHex clientChallengeHex cookieHex : String)
      (data : List UInt8) (text : String) :
      auth.state = .waitingForData .dbusCookieSha1 ⟨some cookieId, some challengeHex⟩ →
      (∀ cookie, served.auth.state ≠ .waitingForData .dbusCookieSha1 cookie) →
      (splitCommand input.line).1 = "DATA" →
      hexDecode (splitCommand input.line).2 = some data → fromUtf8 data = some text →
      splitOnce ' ' text = some (clientChallengeHex,
        cookieHash sha1 challengeHex clientChallengeHex cookieHex) →
      (∃ home keyring, auth.homeDir = some home ∧
        Keyring.load input.machine input.disk home defaultContext = .ok keyring ∧
        keyring.hexKey cookieId = some cookieHex) → CookieReaction sha1 auth input served

namespace ServerAuth

variable {sha1 : Digest} {auth : ServerAuth} {input : ServerInput}

theorem cookieReaction_rejected (auth' : ServerAuth) (disk : Disk) :
    CookieReaction sha1 auth input (auth'.rejected disk) := by
  refine .idle (fun cookie => ?_) fun _ => isOk_rejected auth' disk
  rw [state_rejected]
  exact fun h => nomatch h

/-- Another mechanism asks for no cookie. -/
theorem cookieReaction_external (auth' : ServerAuth) (data : List UInt8)
    (h : auth.mechanismFor input.line ≠ some .dbusCookieSha1) :
    CookieReaction sha1 auth input (auth'.handleExternal input.disk data) := by
  unfold handleExternal
  split
  · split
    · exact .idle (fun cookie hstate => nomatch hstate) fun hcookie => absurd hcookie h
    · exact cookieReaction_rejected _ _
  · exact cookieReaction_rejected _ _

theorem cookieReaction_firstResponse (auth' : ServerAuth) (data : List UInt8) :
    CookieReaction sha1 auth input
      (auth'.cookieSha1FirstResponse input.machine input.disk data) := by
  rcases auth'.firstResponse_cases data with ⟨disk', h⟩ | ⟨cookieId, disk', h⟩
  · rw [h]
    exact cookieReaction_rejected _ _
  · rw [h]
    exact .challenged cookieId _ rfl rfl

theorem handleWaitingForAuth_cookie (h : auth.state = .waitingForAuth) :
    CookieReaction sha1 auth input (auth.handleWaitingForAuth sha1 input.machine input.disk
      (splitCommand input.line).1 (splitCommand input.line).2) := by
  have hmechanism : ∀ {mechanism}, (splitCommand input.line).1 = "AUTH" →
      Mechanism.parse ((splitn 2 ' ' (splitCommand input.line).2)[0]?.getD "") = some mechanism →
      auth.mechanismFor input.line = some mechanism := by
    intro mechanism hcommand hparse
    unfold mechanismFor
    rw [h]
    show (if _ then _ else none) = _
    rw [if_pos hcommand, hparse]
  have hidle : ∀ msg, CookieReaction sha1 auth input (auth.error input.disk msg) := by
    intro msg
    refine .idle (fun cookie hstate => ?_) fun _ => isOk_error auth input.disk msg
    rw [show (auth.error input.disk msg).auth.state = auth.state from rfl, h] at hstate
    cases hstate
  unfold handleWaitingForAuth
  split
  · next hcommand =>
    split
    · exact cookieReaction_rejected _ _
    dsimp only
    split
    · exact cookieReaction_rejected _ _
    next mechanism hparse =>
    have hfor := hmechanism hcommand hparse
    split
    · exact cookieReaction_rejected _ _
    split
    · exact cookieReaction_rejected _ _
    split
    · split
      · exact cookieReaction_rejected _ _
      · cases mechanism with
        | external =>
          exact cookieReaction_external _ _ (by rw [hfor]; exact fun heq => nomatch heq)
        | anonymous =>
          refine .idle (fun cookie hstate => nomatch hstate) fun hcookie => ?_
          rw [hfor] at hcookie
          cases hcookie
        | dbusCookieSha1 => exact cookieReaction_firstResponse _ _
    · cases mechanism with
      | dbusCookieSha1 => exact .started rfl rfl
      | external =>
        exact .idle (fun cookie hstate => nomatch hstate) fun _ => isOk_data ""
      | anonymous =>
        exact .idle (fun cookie hstate => nomatch hstate) fun _ => isOk_data ""
  · split
    · exact cookieReaction_rejected _ _
    · exact hidle _

theorem handleWaitingForData_cookie {mechanism : Mechanism} {cookie : CookieState}
    (h : auth.state = .waitingForData mechanism cookie)
    (hcookie : mechanism = .dbusCookieSha1 →
      cookie = ⟨none, none⟩ ∨ ∃ id hex, cookie = ⟨some id, some hex⟩) :
    CookieReaction sha1 auth input (auth.handleWaitingForData sha1 input.machine input.disk
      mechanism cookie (splitCommand input.line).1 (splitCommand input.line).2) := by
  have hfor : auth.mechanismFor input.line = some mechanism := by
    unfold mechanismFor
    rw [h]
  unfold handleWaitingForData
  split
  · next hcommand =>
    split
    · exact cookieReaction_rejected _ _
    next data hdata =>
    cases mechanism with
    | external => exact cookieReaction_external _ _ (by rw [hfor]; exact fun heq => nomatch heq)
    | anonymous =>
      refine .idle (fun cookie hstate => nomatch hstate) fun hcookie => ?_
      rw [hfor] at hcookie
      cases hcookie
    | dbusCookieSha1 =>
      rcases hcookie rfl with rfl | ⟨id, hex, rfl⟩
      · exact cookieReaction_firstResponse _ _
      · show CookieReaction sha1 auth input (auth.cookieSha1SecondResponse sha1 input.machine
          input.disk id ⟨some id, some hex⟩ data)
        rcases auth.secondResponse_cases id hex data with hrejected |
          ⟨hok, text, clientChallengeHex, cookieHex, htext, hsplit, hsecret⟩
        · rw [hrejected]
          exact cookieReaction_rejected _ _
        · rw [hok]
          exact .accepted id hex clientChallengeHex cookieHex data text h
            (fun cookie hstate => nomatch hstate) hcommand hdata htext hsplit hsecret
  next hdata =>
  split
  · exact cookieReaction_rejected _ _
  next hcancel =>
  split
  · exact cookieReaction_rejected _ _
  next herror =>
  have hkept : ∀ msg, CookieReaction sha1 auth input (auth.error input.disk msg) := by
    refine fun msg => .kept msg rfl rfl ?_
    rintro (hcommand | hcommand | hcommand)
    · exact hdata hcommand
    · exact hcancel hcommand
    · exact herror hcommand
  split
  · exact hkept _
  split
  · exact hkept _
  · exact hkept _

theorem handleWaitingForBegin_cookie {uid : Option UInt32}
    (h : auth.state = .waitingForBegin uid) :
    CookieReaction sha1 auth input
      (auth.handleWaitingForBegin input.disk uid (splitCommand input.line).1) := by
  have hfor : auth.mechanismFor input.line = none := by
    unfold mechanismFor
    rw [h]
  have hidle : ∀ {served : Served}, served.auth.state = auth.state →
      CookieReaction sha1 auth input served := by
    intro served hstate
    refine .idle (fun cookie hwaiting => ?_) fun hcookie => ?_
    · rw [hstate, h] at hwaiting
      cases hwaiting
    · rw [hfor] at hcookie
      cases hcookie
  unfold handleWaitingForBegin
  split
  · exact hidle rfl
  split
  · exact hidle rfl
  split
  · exact cookieReaction_rejected _ _
  split
  · exact cookieReaction_rejected _ _
  · exact hidle rfl

/-- **What a line does about challenges.** -/
theorem feedLine_cookie (hcookie : ∀ cookie, auth.state = .waitingForData .dbusCookieSha1 cookie →
      cookie = ⟨none, none⟩ ∨ ∃ id hex, cookie = ⟨some id, some hex⟩) :
    CookieReaction sha1 auth input (auth.feedLine sha1 input.machine input.disk input.line) := by
  unfold feedLine
  dsimp only
  cases hstate : auth.state with
  | waitingForAuth => exact handleWaitingForAuth_cookie hstate
  | waitingForData mechanism cookie =>
    refine handleWaitingForData_cookie hstate ?_
    rintro rfl
    exact hcookie cookie hstate
  | waitingForBegin uid => exact handleWaitingForBegin_cookie hstate

end ServerAuth

/-! ## What is pending -/

/-- A turn that does not answer a challenge, nor issue another, leaves it
pending. -/
theorem PendingChallenge.append {past : List Turn} {cookieId : UInt32} {challenge : List UInt8}
    (h : PendingChallenge past cookieId challenge) {turn : Turn} (hspends : ¬ turn.Spends)
    (hissues : ∀ id other, ¬ turn.Issues id other) :
    PendingChallenge (past ++ [turn]) cookieId challenge := by
  obtain ⟨before, issue, after, rfl, hissue, hafter⟩ := h
  refine ⟨before, issue, after ++ [turn], by simp, hissue, fun later hlater => ?_⟩
  rcases List.mem_append.mp hlater with hold | hnew
  · exact hafter later hold
  · rw [List.mem_singleton.mp hnew]
    exact ⟨hspends, hissues⟩

/-- **A challenge that was spent is another one than the one that is pending.** -/
theorem PendingChallenge.ne_of_spent {past : List Turn} (hdistinct : DistinctChallenges past)
    {cookieId cookieId' : UInt32} {challenge challenge' : List UInt8}
    (hpending : PendingChallenge past cookieId challenge)
    (hspent : SpentChallenge past cookieId' challenge') :
    challenge' ≠ challenge := by
  obtain ⟨before, issue, after, rfl, hissue, hafter⟩ := hpending
  obtain ⟨before', issue', after', heq, hissue', turn, hturn, hspends⟩ := hspent
  rcases List.append_eq_append_iff.mp heq with ⟨between, -, hbetween⟩ | ⟨between, hbefore, hbetween⟩
  · cases between with
    | nil =>
      -- it cannot be the one that is pending, which nobody has answered
      obtain ⟨rfl, rfl⟩ := List.cons.inj hbetween
      exact absurd hspends (hafter turn hturn).1
    | cons first between =>
      -- nor a later one
      obtain ⟨-, rfl⟩ := List.cons.inj hbetween
      have hmem : issue' ∈ between ++ issue' :: after' :=
        List.mem_append_right _ List.mem_cons_self
      exact absurd hissue' ((hafter issue' hmem).2 _ _)
  · cases between with
    | nil =>
      obtain ⟨rfl, rfl⟩ := List.cons.inj hbetween
      exact absurd hspends (hafter turn hturn).1
    | cons first between =>
      obtain ⟨rfl, -⟩ := List.cons.inj hbetween
      have hmem : issue' ∈ before := by
        rw [hbefore]
        exact List.mem_append_right _ List.mem_cons_self
      exact (List.pairwise_append.mp hdistinct).2.2 issue' hmem issue List.mem_cons_self _ _ _ _
        hissue' hissue

/-- **The server awaits an answer to nothing but the pending challenge.** -/
def Awaits (past : List Turn) (auth : ServerAuth) : Prop :=
  ∀ cookie, auth.state = .waitingForData .dbusCookieSha1 cookie →
    cookie = ⟨none, none⟩ ∨ ∃ cookieId challenge,
      cookie = ⟨some cookieId, some (hexEncode challenge)⟩ ∧
      PendingChallenge past cookieId challenge

namespace Awaits

variable {sha1 : Digest} {past : List Turn} {auth : ServerAuth} {input : ServerInput}

theorem reaction (h : Awaits past auth) : CookieReaction sha1 auth input
    (auth.feedLine sha1 input.machine input.disk input.line) := by
  refine ServerAuth.feedLine_cookie fun cookie hstate => ?_
  rcases h cookie hstate with hnone | ⟨cookieId, challenge, hsome, -⟩
  · exact .inl hnone
  · exact .inr ⟨cookieId, _, hsome⟩

/-- **Every turn keeps this**: it issues a challenge, leaves the pending one
alone, or asks for no answer any more. -/
theorem step (h : Awaits past auth) :
    Awaits (past ++
      [⟨auth, input, (auth.feedLine sha1 input.machine input.disk input.line).action⟩])
      (auth.feedLine sha1 input.machine input.disk input.line).auth := by
  have hreaction : CookieReaction sha1 auth input _ := h.reaction
  generalize auth.feedLine sha1 input.machine input.disk input.line = served at hreaction ⊢
  intro cookie hstate
  cases hreaction with
  | idle hidle _ => exact absurd hstate (hidle cookie)
  | kept msg hkept haction hspends =>
    rcases h cookie (hkept ▸ hstate) with hnone | ⟨cookieId, challenge, hsome, hpending⟩
    · exact .inl hnone
    · refine .inr ⟨cookieId, challenge, hsome, hpending.append hspends fun id other hissues => ?_⟩
      have hlines := haction.symm.trans hissues
      -- a complaint is no challenge
      have hline : "ERROR \"" ++ msg ++ "\"" = "DATA " ++ _ :=
        (List.cons.inj (ServerAction.send.inj hlines)).1
      have hchars := congrArg String.toList hline
      simp only [String.toList_append] at hchars
      exact absurd (List.cons.inj hchars).1 (by decide)
  | started hstarted _ =>
    rw [hstarted] at hstate
    exact .inl (ServerState.waitingForData.inj hstate).2.symm
  | challenged cookieId challenge hchallenged hissues =>
    rw [hchallenged] at hstate
    refine .inr ⟨cookieId, challenge, (ServerState.waitingForData.inj hstate).2.symm, past, _, [],
      rfl, hissues, fun turn hturn => nomatch hturn⟩
  | accepted cookieId challengeHex clientChallengeHex cookieHex data text _ hdone =>
    exact absurd hstate (hdone cookie)

/-- **It is so before every turn** of a conversation. -/
theorem run {inputs : List ServerInput} {more : List Turn} {turn : Turn} {rest : List Turn}
    (h : Awaits past auth) (hturns : turns sha1 auth inputs = more ++ turn :: rest) :
    Awaits (past ++ more) turn.auth ∧ turn.action
      = (turn.auth.feedLine sha1 turn.input.machine turn.input.disk turn.input.line).action := by
  induction more generalizing past auth inputs with
  | nil =>
    cases inputs with
    | nil => cases hturns
    | cons input inputs =>
      obtain ⟨rfl, -⟩ := List.cons.inj hturns
      exact ⟨(List.append_nil past).symm ▸ h, rfl⟩
  | cons first more ih =>
    cases inputs with
    | nil => cases hturns
    | cons input inputs =>
      obtain ⟨rfl, hrest⟩ := List.cons.inj hturns
      obtain ⟨hawaits, haction⟩ := ih h.step hrest
      rw [List.append_assoc] at hawaits
      exact ⟨hawaits, haction⟩

end Awaits

/-! ## Answers -/

/-- A challenge can be told from the text that is hashed. -/
theorem answerText_ne {challenge challenge' : List UInt8} (h : challenge' ≠ challenge)
    (clientChallengeHex cookieHex clientChallengeHex' cookieHex' : String) :
    answerText challenge' clientChallengeHex' cookieHex'
      ≠ answerText challenge clientChallengeHex cookieHex := by
  have hcolon : ∀ bs : List UInt8, ':' ∉ (hexEncode bs).toList := by
    have hdigit : ∀ n < 16, ':' ≠ hexDigit n := by decide
    intro bs hmem
    obtain ⟨n, hn, heq⟩ := exists_hexDigit_of_mem hmem
    exact hdigit n hn heq
  have hsplit : ∀ (bs : List UInt8) (cc secret : String), splitOnce ':' (answerText bs cc secret)
      = some (hexEncode bs, cc ++ ":" ++ secret) := by
    intro bs cc secret
    have htext : answerText bs cc secret
        = hexEncode bs ++ String.singleton ':' ++ (cc ++ ":" ++ secret) := by
      simp only [answerText, String.append_assoc]
      rfl
    rw [htext, splitOnce_append (hcolon bs)]
  intro heq
  have hparts := congrArg (splitOnce ':') heq
  rw [hsplit, hsplit] at hparts
  have hhex := (Prod.mk.inj (Option.some.inj hparts)).1
  have hdecode := congrArg hexDecode hhex
  rw [hexDecode_hexEncode, hexDecode_hexEncode] at hdecode
  exact h (Option.some.inj hdecode)

/-- **Each challenge gets one answer.** At every turn of a conversation the
server awaits no answer but to the pending challenge, and if it says OK by way
of a cookie, then to an answer to the pending challenge, made with the secret
of its cookie. If no challenge is issued twice, what is hashed in this answer
is hashed in no answer to a challenge that was spent before. -/
theorem cookie_answered (sha1 : Digest) (peer : PeerCredentials) (allowed : List Mechanism)
    (allowAnonymous : Bool) (guidHex : String) (homeDir : Option String)
    (inputs : List ServerInput) (past : List Turn) (turn : Turn) (rest : List Turn)
    (h : turns sha1 (.new peer allowed allowAnonymous guidHex homeDir) inputs
      = past ++ turn :: rest) :
    (∀ cookieId challengeHex,
      turn.auth.state = .waitingForData .dbusCookieSha1 ⟨some cookieId, some challengeHex⟩ →
      ∃ challenge, challengeHex = hexEncode challenge ∧ PendingChallenge past cookieId challenge) ∧
    (turn.OkByCookie → ∃ cookieId challenge clientChallengeHex cookieHex,
      PendingChallenge past cookieId challenge ∧
      turn.Answers sha1 cookieId challenge clientChallengeHex cookieHex ∧
      (DistinctChallenges past → ∀ cookieId' challenge', SpentChallenge past cookieId' challenge' →
        ∀ clientChallengeHex' cookieHex',
          answerText challenge' clientChallengeHex' cookieHex'
            ≠ answerText challenge clientChallengeHex cookieHex)) := by
  have hstart : Awaits [] (.new peer allowed allowAnonymous guidHex homeDir) :=
    fun cookie hstate => nomatch hstate
  obtain ⟨hawaits, haction⟩ := hstart.run h
  rw [List.nil_append] at hawaits
  have hpending : ∀ cookieId challengeHex,
      turn.auth.state = .waitingForData .dbusCookieSha1 ⟨some cookieId, some challengeHex⟩ →
      ∃ challenge, challengeHex = hexEncode challenge ∧
      PendingChallenge past cookieId challenge := by
    intro cookieId challengeHex hstate
    rcases hawaits _ hstate with hnone | ⟨id, challenge, hsome, hpending⟩
    · cases hnone
    · obtain ⟨hid, hhex⟩ := CookieState.mk.inj hsome
      obtain rfl := Option.some.inj hid
      exact ⟨challenge, Option.some.inj hhex, hpending⟩
  refine ⟨hpending, ?_⟩
  rintro ⟨hmechanism, hok⟩
  have hreaction : CookieReaction sha1 turn.auth turn.input _ := hawaits.reaction
  rw [haction] at hok
  generalize turn.auth.feedLine sha1 turn.input.machine turn.input.disk turn.input.line = served
    at hreaction hok
  cases hreaction with
  | idle _ hnone =>
    rw [hnone hmechanism] at hok
    cases hok
  | kept msg _ hsent _ =>
    have hcomplaint := ServerAuth.isOk_error turn.auth turn.input.disk msg
    rw [hsent] at hok
    exact absurd (hcomplaint.symm.trans hok) Bool.false_ne_true
  | started _ hsent =>
    rw [hsent, ServerAuth.isOk_data] at hok
    cases hok
  | challenged cookieId challenge _ hissues =>
    have hsent : served.action = _ := hissues
    rw [hsent, ServerAuth.isOk_data] at hok
    cases hok
  | accepted cookieId challengeHex clientChallengeHex cookieHex data text hstate _ hcommand hdata
      htext hsplit hsecret =>
    obtain ⟨challenge, rfl, hpend⟩ := hpending cookieId challengeHex hstate
    refine ⟨cookieId, challenge, clientChallengeHex, cookieHex, hpend,
      ⟨hcommand, ⟨data, text, hdata, htext, hsplit⟩, hsecret⟩, ?_⟩
    intro hdistinct cookieId' challenge' hspent clientChallengeHex' cookieHex'
    exact answerText_ne (hpend.ne_of_spent hdistinct hspent) _ _ _ _

/-- A client that has read the secret `aabb` of cookie 1 from the keyring is let
in, for its answer to a challenge of zeros. -/
theorem cookie_answered_zeros :
    ∃ (sha1 : Digest) (auth : ServerAuth) (inputs : List ServerInput) (past : List Turn)
      (turn : Turn), turns sha1 auth inputs = past ++ [turn] ∧ turn.OkByCookie ∧
      ∃ cookieId challenge clientChallengeHex cookieHex, PendingChallenge past cookieId challenge ∧
        turn.Answers sha1 cookieId challenge clientChallengeHex cookieHex := by
  let sha1 : Digest := fun _ => #v[180, 115, 175, 124, 239, 47, 244, 255, 29, 118, 162, 207, 4, 155,
    32, 59, 66, 112, 36, 211]
  let machine : Machine :=
    ⟨1000, fun _ => 1000, none, none, none, [], 0, .replicate 24 0, .replicate 16 0⟩
  let disk : Disk := fun _ _ => .text "1 1000 aabb\n"
  let opening : ServerInput := ⟨machine, disk, "AUTH DBUS_COOKIE_SHA1 31303030"⟩
  let answer : ServerInput := ⟨machine, disk,
    "DATA " ++ hexEncode (asBytes "cc b473af7cef2ff4ff1d76a2cf049b203b427024d3")⟩
  let auth : ServerAuth := .new ⟨1000, 1000, 7⟩ [.dbusCookieSha1] false "0" (some "/home/a")
  let asked := auth.feedLine sha1 machine disk opening.line
  let answered := asked.auth.feedLine sha1 machine disk answer.line
  have hok : (Turn.mk asked.auth answer answered.action).OkByCookie :=
    ⟨by decide +kernel, by decide +kernel⟩
  obtain ⟨cookieId, challenge, clientChallengeHex, cookieHex, hpending, hanswers, -⟩ :=
    (cookie_answered sha1 ⟨1000, 1000, 7⟩ [.dbusCookieSha1] false "0" (some "/home/a")
      [opening, answer] [⟨auth, opening, asked.action⟩] ⟨asked.auth, answer, answered.action⟩ []
      rfl).2 hok
  exact ⟨sha1, auth, [opening, answer], [⟨auth, opening, asked.action⟩], _, rfl, hok, cookieId,
    challenge, clientChallengeHex, cookieHex, hpending, hanswers⟩

end Oxibus
