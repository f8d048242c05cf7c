import Oxibus.Auth.Streams
import Oxibus.Lib.Refine

/-!
# Both sides agree, byte by byte

Each step of the streams is a step of the conversation, or brings the next one
nearer: it writes or receives bytes, of which there are only so many
(`Streams.refines_exchange`). So what is known of conversations holds of the
streams. They come to an end, both sides agree, and whoever is through finds in
its stream what the other one said afterwards, from its first byte
(`Streams.streams_agree`).

For this the conversation has to be known a little better. A side that is
through may say anything, and what it says may look like a line. The other side
does not take it for one: as long as it waits for a line, there is one under
way (`Setup.Stage.of_begun`, `Setup.Stage.of_succeeded`).
-/

namespace Oxibus

open Conversation

/-! ## What the conversation knows -/

/-- **A bus whose lines can be read**: the one that names its mechanisms, and the one that names
the bus. -/
structure Setup.Legible (S : Setup) : Prop where
  /-- The line of a server that accepts no mechanism that was tried. -/
  names : Conversation.Readable ("REJECTED " ++ mechanismListString S.allowedMechanisms)
  guid : Conversation.Readable ("OK " ++ S.guidHex)

namespace Setup.Stage

variable {sha1 : Digest} {S : Setup} {n : ℕ} {e : Exchange} {auth : ServerAuth}

theorem clientFinishing_true_ne (lines : List String) :
    clientFinishing true lines ≠ .succeeded := by
  cases lines <;> exact nofun

/-- **When the server has begun**, it has heard all lines, and the client has written them. If the
client waits for a line, there is one under way. -/
theorem of_begun (h : S.Stage sha1 n e) (hserver : e.server = .begun auth) :
    e.toServer = [] ∧ e.client.lines = [] ∧ (e.client.hears = true → e.toClient ≠ []) := by
  cases h with
  | unheard => cases hserver
  | agreeing => cases hserver
  | parting => cases hserver
  | parted client toClient server disk replied negotiated =>
    rcases replied with ⟨-, rfl, rfl⟩ | ⟨-, rfl, -, rfl⟩ | ⟨-, rfl, rfl⟩
    · exact ⟨rfl, rfl, fun _ => List.cons_ne_nil _ _⟩
    · exact ⟨rfl, rfl, nofun⟩
    · exact ⟨rfl, rfl, nofun⟩
  | _ => cases hserver

/-- **When the client has succeeded**, it has heard all lines, and the server has written them. If
the server waits for a line, there is one under way. -/
theorem of_succeeded (h : S.Stage sha1 n e) (hclient : e.client = .succeeded) :
    e.toClient = [] ∧ e.server.lines = [] ∧
      ∀ auth, e.server = .reading auth → e.toServer ≠ [] := by
  cases h with
  | unheard lines => exact absurd hclient (clientFinishing_true_ne lines)
  | agreeing lines => exact absurd hclient (clientFinishing_true_ne lines)
  | parting client lines toServer toClient server uid disk replied state negotiated left =>
    have hclient : client = .succeeded := hclient
    have hlines : lines = [] ∧ toClient = [] := by
      rcases replied with ⟨-, rfl, -⟩ | ⟨-, -, rfl, rfl⟩ | ⟨-, rfl, rfl⟩
      · exact absurd hclient (clientFinishing_true_ne lines)
      · exact ⟨rfl, rfl⟩
      · cases lines with
        | nil => exact ⟨rfl, rfl⟩
        | cons line lines => cases hclient
    obtain ⟨rfl, rfl⟩ := hlines
    refine ⟨rfl, rfl, fun _ _ hnil => ?_⟩
    have hnil : toServer = [] := hnil
    rw [hnil] at left
    cases left
  | parted client toClient server disk replied negotiated =>
    have hclient : client = .succeeded := hclient
    rcases replied with ⟨-, rfl, -⟩ | ⟨-, -, -, rfl⟩ | ⟨-, -, rfl⟩
    · exact absurd hclient (clientFinishing_true_ne [])
    · exact ⟨rfl, rfl, nofun⟩
    · exact ⟨rfl, rfl, nofun⟩
  | _ => cases hclient

theorem clientFinishing_ne_failed (expectReply : Bool) (lines : List String) (reason : String) :
    clientFinishing expectReply lines ≠ .failed reason := by
  cases lines with
  | nil => cases expectReply <;> exact nofun
  | cons line lines => exact nofun

/-- A client whose server is gone waits for a line, or is gone as well. -/
theorem of_server_gone (h : S.Stage sha1 n e) {reason : String}
    (hserver : e.server = .failed reason) :
    (∃ auth, e.client = .reading auth) ∨ ∃ reason', e.client = .failed reason' := by
  cases h with
  | hungUp auth => exact .inl ⟨auth, rfl⟩
  | failed reason => exact .inr ⟨reason, rfl⟩
  | _ => cases hserver

/-- A server whose client is gone waits for a line, or is gone as well. -/
theorem of_client_gone (h : S.Stage sha1 n e) {reason : String}
    (hclient : e.client = .failed reason) :
    (∃ auth, e.server = .reading auth) ∨ ∃ reason', e.server = .failed reason' := by
  cases h with
  | gaveUp reason auth => exact .inl ⟨auth, rfl⟩
  | failed _ reason => exact .inr ⟨reason, rfl⟩
  | unheard lines => exact absurd hclient (clientFinishing_ne_failed _ _ _)
  | agreeing lines => exact absurd hclient (clientFinishing_ne_failed _ _ _)
  | parting client lines toServer toClient server uid disk replied =>
    obtain ⟨expectReply, rfl, -⟩ := replied.finishing
    exact absurd hclient (clientFinishing_ne_failed _ _ _)
  | parted client toClient server disk replied =>
    obtain ⟨expectReply, rfl, -⟩ := replied.finishing
    exact absurd hclient (clientFinishing_ne_failed expectReply [] _)
  | _ => cases hclient

/-- **All that either side does comes to an end.** -/
theorem acc (h : S.Stage sha1 n e) : Acc (fun e' e => Exchange.Step sha1 S e e') e := by
  induction n using Nat.strong_induction_on generalizing e with
  | _ n ih =>
    refine ⟨e, fun e' hstep => ?_⟩
    obtain ⟨m, hm, hstage⟩ := h.step hstep
    exact ih m hm hstage

end Setup.Stage

/-! ## Steps of the conversation -/

section Phases

variable {sha1 : Digest} {S : Setup} {client : ClientPhase} {server : ServerPhase}
  {toServer toClient : List String} {disk : Disk} {line : String}

theorem ClientPhase.lines_of_hears (h : client.hears = true) : client.lines = [] := by
  cases client with
  | reading => rfl
  | awaiting => rfl
  | _ => cases h

/-- A client that has written a line has the others to write. -/
theorem ClientPhase.lines_wrote (h : client.lines.head? = some line) :
    client.lines = line :: client.wrote.lines := by
  cases client with
  | writing auth line' => exact congrArg (· :: []) (Option.some.inj h)
  | finishing lines expectReply =>
    cases lines with
    | nil => cases h
    | cons line' lines =>
      obtain rfl := Option.some.inj h
      exact congrArg (line' :: ·) (ClientPhase.lines_clientFinishing expectReply lines).symm
  | _ => cases h

theorem ServerPhase.lines_wrote (h : server.lines.head? = some line) :
    server.lines = line :: server.wrote.lines ∧ server.wrote.auth = server.auth := by
  cases server with
  | writing auth lines =>
    cases lines with
    | nil => cases h
    | cons line' lines =>
      obtain rfl := Option.some.inj h
      exact ⟨congrArg (line' :: ·) (ServerPhase.lines_serverSending auth lines).symm,
        ServerPhase.auth_serverSending auth lines⟩
  | _ => cases h

/-- To have written a line is to have taken a step. -/
theorem step_wrote_client (h : client.lines.head? = some line) :
    Exchange.Step sha1 S ⟨client, server, toServer, toClient, disk⟩
      ⟨client.wrote, server, toServer ++ [line], toClient, disk⟩ := by
  cases client with
  | writing auth line' =>
    obtain rfl := Option.some.inj h
    exact .clientWrites ..
  | finishing lines expectReply =>
    cases lines with
    | nil => cases h
    | cons line' lines =>
      obtain rfl := Option.some.inj h
      exact .clientFinishes ..
  | _ => cases h

theorem step_wrote_server (h : server.lines.head? = some line) :
    Exchange.Step sha1 S ⟨client, server, toServer, toClient, disk⟩
      ⟨client, server.wrote, toServer, toClient ++ [line], disk⟩ := by
  cases server with
  | writing auth lines =>
    cases lines with
    | nil => cases h
    | cons line' lines =>
      obtain rfl := Option.some.inj h
      exact .serverWrites ..
  | _ => cases h

/-- **A client that has read a line has taken a step**, and what it is to write next can be
read. -/
theorem step_heard_client {machine : Machine} (fits : S.Fits machine) (h : client.hears = true) :
    Exchange.Step sha1 S ⟨client, server, toServer, line :: toClient, disk⟩
        ⟨client.heard sha1 machine disk line, server, toServer, toClient, disk⟩ ∧
      (client.heard sha1 machine disk line).Heard := by
  cases client with
  | reading auth => exact ⟨.clientReads machine fits .., heard_clientAfter auth line⟩
  | awaiting => exact ⟨.clientAwaits .., List.forall_mem_nil _⟩
  | _ => cases h

end Phases

namespace Streams

variable {sha1 : Digest} {S : Setup} {W W' : Streams} {e : Exchange}

/-- **What the streams have to do with the conversation.** Of the streams to a side that has given
up nothing is said: nobody reads them. -/
structure Shows (sha1 : Digest) (S : Setup) (W : Streams) (e : Exchange) : Prop where
  client : e.client = W.client
  server : e.server = W.server
  disk : e.disk = W.disk
  stage : ∃ n, S.Stage sha1 n e
  toServer : (∀ reason, W.server ≠ .failed reason) →
    Conveys W.serverReader W.toServer (if W.greeted then [] else [0]) e.toServer W.client.lines
      W.clientWritten W.clientSaid
  toClient : (∀ reason, W.client ≠ .failed reason) →
    Conveys W.clientReader W.toClient [] e.toClient W.server.lines W.serverWritten W.serverSaid
  clear : ∀ auth, W.server.auth = some auth → auth.Clear
  /-- Before the NUL byte is found the server does nothing else. -/
  early : W.greeted = false → ∃ auth, W.server = .reading auth
  clientSaid : W.clientSaid ≠ [] → W.client = .succeeded
  serverSaid : W.serverSaid ≠ [] → ∃ auth, W.server = .begun auth

namespace Shows

/-- A client that has something to write has said nothing yet. -/
theorem clientSaid_eq_nil (h : Shows sha1 S W e) (hlines : W.client.lines ≠ []) :
    W.clientSaid = [] := by
  by_contra hsaid
  rw [h.clientSaid hsaid] at hlines
  exact hlines rfl

theorem serverSaid_eq_nil (h : Shows sha1 S W e) (hlines : W.server.lines ≠ []) :
    W.serverSaid = [] := by
  by_contra hsaid
  obtain ⟨auth, hauth⟩ := h.serverSaid hsaid
  rw [hauth] at hlines
  exact hlines rfl

/-- **A client that waits for a line does not come upon anything else.** -/
theorem take_client (h : Shows sha1 S W e) (hears : W.client.hears = true)
    {x : Outcome ReadError String} {t : Transport}
    (htaken : W.clientReader.takeLine = some (x, t)) :
    ∃ line rest, e.toClient = line :: rest ∧ x = .ok line ∧
      Conveys t W.toClient [] rest W.server.lines W.serverWritten W.serverSaid := by
  have halive : ∀ reason, W.client ≠ .failed reason := by
    intro reason hfailed
    rw [hfailed] at hears
    cases hears
  refine (h.toClient halive).take (fun hnil => ?_) htaken
  by_contra hsaid
  obtain ⟨auth, hauth⟩ := h.serverSaid hsaid
  obtain ⟨n, hstage⟩ := h.stage
  exact (hstage.of_begun (h.server.trans hauth)).2.2 (h.client ▸ hears) hnil

/-- Neither does a server. -/
theorem take_server (h : Shows sha1 S W e) {auth : ServerAuth} (hears : W.server = .reading auth)
    (late : W.greeted = true) {x : Outcome ReadError String} {t : Transport}
    (htaken : W.serverReader.takeLine = some (x, t)) :
    ∃ line rest, e.toServer = line :: rest ∧ x = .ok line ∧
      Conveys t W.toServer [] rest W.client.lines W.clientWritten W.clientSaid := by
  have halive : ∀ reason, W.server ≠ .failed reason := by
    intro reason hfailed
    cases hears.symm.trans hfailed
  have hcarries := h.toServer halive
  rw [if_pos late] at hcarries
  refine hcarries.take (fun hnil => ?_) htaken
  by_contra hsaid
  obtain ⟨n, hstage⟩ := h.stage
  exact (hstage.of_succeeded (h.client.trans (h.clientSaid hsaid))).2.2 auth (h.server.trans hears)
    hnil

end Shows

/-- **The conversation takes a step as well, or there is less left to do** before it does. -/
def Moves (sha1 : Digest) (S : Setup) (W W' : Streams) (e : Exchange) : Prop :=
  (∃ e', Exchange.Step sha1 S e e' ∧ Shows sha1 S W' e') ∨ (Shows sha1 S W' e ∧ W'.left < W.left)

namespace Shows

theorem stage_step (h : Shows sha1 S W e) {e' : Exchange} (hstep : Exchange.Step sha1 S e e') :
    ∃ n, S.Stage sha1 n e' := by
  obtain ⟨n, hstage⟩ := h.stage
  obtain ⟨m, -, hstage'⟩ := hstage.step hstep
  exact ⟨m, hstage'⟩

/-- What is received is less to be received. -/
theorem length_rest_lt {wire chunk rest : List UInt8} (harrived : wire = chunk ++ rest)
    (hne : chunk ≠ []) : rest.length < wire.length := by
  rw [harrived, List.length_append]
  exact Nat.lt_add_of_pos_left (List.length_pos_iff.mpr hne)

theorem moves_clientWrites (h : Shows sha1 S W e) {line : String} {n : ℕ}
    (next : W.client.lines.head? = some line) (pos : 0 < n)
    (lt : W.clientWritten + n < (lineBytes line).length) :
    Moves sha1 S W { W with
      toServer := W.toServer ++ ((lineBytes line).drop W.clientWritten).take n
      clientWritten := W.clientWritten + n } e := by
  obtain ⟨rest, hlines⟩ := List.head?_eq_some_iff.mp next
  have hsaid : W.clientSaid = [] := h.clientSaid_eq_nil (by rw [hlines]; exact List.cons_ne_nil _ _)
  refine .inr ⟨{ h with toServer := fun halive => ?_ }, ?_⟩
  · have hcarries := h.toServer halive
    rw [hlines, hsaid] at hcarries
    show Conveys _ _ _ _ W.client.lines _ W.clientSaid
    rw [hlines, hsaid]
    exact hcarries.write lt
  · have hpart : (((lineBytes line).drop W.clientWritten).take n).length = n := by
      rw [List.length_take, List.length_drop]
      omega
    unfold left
    dsimp only
    rw [hlines, List.length_append, hpart]
    unfold unwritten
    dsimp only
    omega

theorem moves_serverWrites (h : Shows sha1 S W e) {line : String} {n : ℕ}
    (next : W.server.lines.head? = some line) (pos : 0 < n)
    (lt : W.serverWritten + n < (lineBytes line).length) :
    Moves sha1 S W { W with
      toClient := W.toClient ++ ((lineBytes line).drop W.serverWritten).take n
      serverWritten := W.serverWritten + n } e := by
  obtain ⟨rest, hlines⟩ := List.head?_eq_some_iff.mp next
  have hsaid : W.serverSaid = [] := h.serverSaid_eq_nil (by rw [hlines]; exact List.cons_ne_nil _ _)
  refine .inr ⟨{ h with toClient := fun halive => ?_ }, ?_⟩
  · have hcarries := h.toClient halive
    rw [hlines, hsaid] at hcarries
    show Conveys _ _ _ _ W.server.lines _ W.serverSaid
    rw [hlines, hsaid]
    exact hcarries.write lt
  · have hpart : (((lineBytes line).drop W.serverWritten).take n).length = n := by
      rw [List.length_take, List.length_drop]
      omega
    unfold left
    dsimp only
    rw [hlines, List.length_append, hpart]
    unfold unwritten
    dsimp only
    omega

/-- **The end of a line is written**: the line is under way. -/
theorem moves_clientEnds (h : Shows sha1 S W e) {line : String}
    (next : W.client.lines.head? = some line) :
    Moves sha1 S W { W with
      toServer := W.toServer ++ (lineBytes line).drop W.clientWritten
      clientWritten := 0
      client := W.client.wrote } e := by
  have hlines := ClientPhase.lines_wrote next
  have hsaid : W.clientSaid = [] := h.clientSaid_eq_nil (by rw [hlines]; exact List.cons_ne_nil _ _)
  obtain ⟨client, server, toServer, toClient, disk⟩ := e
  obtain rfl : client = W.client := h.client
  have hstep : Exchange.Step sha1 S ⟨W.client, server, toServer, toClient, disk⟩
      ⟨W.client.wrote, server, toServer ++ [line], toClient, disk⟩ := step_wrote_client next
  refine .inl ⟨_, hstep, { h with
    client := rfl
    stage := h.stage_step hstep
    toServer := fun halive => ?_
    toClient := fun _ => h.toClient fun reason hfailed => ?_
    clientSaid := fun hne => absurd hsaid hne }⟩
  · have hcarries := h.toServer halive
    rw [hlines, hsaid] at hcarries
    show Conveys _ _ _ _ _ _ W.clientSaid
    rw [hsaid]
    exact hcarries.finish
  · rw [hfailed] at next
    cases next

theorem moves_serverEnds (h : Shows sha1 S W e) {line : String}
    (next : W.server.lines.head? = some line) :
    Moves sha1 S W { W with
      toClient := W.toClient ++ (lineBytes line).drop W.serverWritten
      serverWritten := 0
      server := W.server.wrote } e := by
  obtain ⟨hlines, hauth⟩ := ServerPhase.lines_wrote next
  have hsaid : W.serverSaid = [] := h.serverSaid_eq_nil (by rw [hlines]; exact List.cons_ne_nil _ _)
  obtain ⟨client, server, toServer, toClient, disk⟩ := e
  obtain rfl : server = W.server := h.server
  have hstep : Exchange.Step sha1 S ⟨client, W.server, toServer, toClient, disk⟩
      ⟨client, W.server.wrote, toServer, toClient ++ [line], disk⟩ := step_wrote_server next
  refine .inl ⟨_, hstep, { h with
    server := rfl
    stage := h.stage_step hstep
    toServer := fun _ => h.toServer fun reason hfailed => ?_
    toClient := fun halive => ?_
    clear := fun auth hwrote => h.clear auth (hauth ▸ hwrote)
    early := fun hearly => ?_
    serverSaid := fun hne => absurd hsaid hne }⟩
  · rw [hfailed] at next
    cases next
  · have hcarries := h.toClient halive
    rw [hlines, hsaid] at hcarries
    show Conveys _ _ _ _ _ _ W.serverSaid
    rw [hsaid]
    exact hcarries.finish
  · obtain ⟨auth, hreading⟩ := h.early hearly
    rw [hreading] at next
    cases next

theorem moves_clientReceives (h : Shows sha1 S W e) {chunk rest : List UInt8}
    (arrived : W.toClient = chunk ++ rest) (ne : chunk ≠ []) :
    Moves sha1 S W { W with toClient := rest, clientReader := W.clientReader.receive chunk } e := by
  refine .inr ⟨{ h with toClient := fun halive => ?_ }, ?_⟩
  · have hcarries := h.toClient halive
    rw [arrived] at hcarries
    exact hcarries.receive
  · have hlt := length_rest_lt arrived ne
    unfold left
    dsimp only
    omega

theorem moves_serverReceives (h : Shows sha1 S W e) {chunk rest : List UInt8}
    (arrived : W.toServer = chunk ++ rest) (ne : chunk ≠ []) :
    Moves sha1 S W { W with toServer := rest, serverReader := W.serverReader.receive chunk } e := by
  refine .inr ⟨{ h with toServer := fun halive => ?_ }, ?_⟩
  · have hcarries := h.toServer halive
    rw [arrived] at hcarries
    exact hcarries.receive
  · have hlt := length_rest_lt arrived ne
    unfold left
    dsimp only
    omega

/-- The NUL byte is found. -/
theorem moves_serverGreeted (h : Shows sha1 S W e) {auth : ServerAuth} {b : UInt8}
    {bs : List UInt8} (hears : W.server = .reading auth) (early : W.greeted = false)
    (found : W.serverReader.readBuf = b :: bs) :
    b = 0 ∧ Moves sha1 S W { W with
      greeted := true
      serverReader := { W.serverReader with readBuf := bs } } e := by
  have halive : ∀ reason, W.server ≠ .failed reason := by
    intro reason hfailed
    cases hears.symm.trans hfailed
  have hcarries := h.toServer halive
  rw [early] at hcarries
  have hbytes := hcarries.bytes
  rw [found] at hbytes
  obtain ⟨hzero, hrest⟩ := List.cons.inj hbytes
  refine ⟨hzero, .inr ⟨{ h with
    toServer := fun _ => { hcarries with bytes := hrest }
    early := nofun }, ?_⟩⟩
  unfold left
  dsimp only
  rw [early, if_pos rfl, if_neg Bool.false_ne_true]
  exact Nat.lt_succ_self _

/-- **A line is taken by the client.** -/
theorem moves_clientHears (h : Shows sha1 S W e) {machine : Machine} (fits : S.Fits machine)
    {line : String} {t : Transport} (hears : W.client.hears = true)
    (taken : W.clientReader.takeLine = some (.ok line, t)) :
    Moves sha1 S W { W with
      client := W.client.heard sha1 machine W.disk line
      clientReader := t } e := by
  obtain ⟨line', rest, hunder, hline, hcarries⟩ := h.take_client hears taken
  obtain rfl : line = line' := Outcome.ok.inj hline
  obtain ⟨client, server, toServer, toClient, disk⟩ := e
  obtain rfl : client = W.client := h.client
  obtain rfl : disk = W.disk := h.disk
  obtain rfl : toClient = line :: rest := hunder
  obtain ⟨hstep, hheard⟩ : Exchange.Step sha1 S ⟨W.client, server, toServer, line :: rest, W.disk⟩
      ⟨W.client.heard sha1 machine W.disk line, server, toServer, rest, W.disk⟩ ∧ _ :=
    step_heard_client fits hears
  refine .inl ⟨_, hstep, { h with
    client := rfl
    stage := h.stage_step hstep
    toServer := fun halive => ?_
    toClient := fun _ => hcarries
    clientSaid := fun hne => ?_ }⟩
  · have hbefore := h.toServer halive
    rw [ClientPhase.lines_of_hears hears] at hbefore
    exact (hbefore.turn hheard).1
  · rw [h.clientSaid hne] at hears
    cases hears

/-- **A line is taken by the server.** -/
theorem moves_serverHears (h : Shows sha1 S W e) {machine : Machine} (fits : S.Fits machine)
    {auth : ServerAuth} {line : String} {t : Transport} (hears : W.server = .reading auth)
    (late : W.greeted = true) (taken : W.serverReader.takeLine = some (.ok line, t)) :
    Moves sha1 S W { W with
      server := serverAfter (auth.feedLine sha1 machine W.disk line)
      disk := (auth.feedLine sha1 machine W.disk line).disk
      serverReader := t } e := by
  obtain ⟨line', rest, hunder, hline, hcarries⟩ := h.take_server hears late taken
  obtain rfl : line = line' := Outcome.ok.inj hline
  have hclear : auth.Clear := h.clear auth (by rw [hears]; rfl)
  have hheard : (serverAfter (auth.feedLine sha1 machine W.disk line)).Heard :=
    hclear.heard_serverAfter line
  obtain ⟨client, server, toServer, toClient, disk⟩ := e
  obtain rfl : server = .reading auth := h.server.trans hears
  obtain rfl : disk = W.disk := h.disk
  obtain rfl : toServer = line :: rest := hunder
  have hstep : Exchange.Step sha1 S ⟨client, .reading auth, line :: rest, toClient, W.disk⟩ _ :=
    .serverReads machine fits ..
  refine .inl ⟨_, hstep, { h with
    server := rfl
    disk := rfl
    stage := h.stage_step hstep
    toServer := fun _ => ?_
    toClient := fun halive => ?_
    clear := hheard.clear
    early := fun hearly => nomatch late.symm.trans hearly
    serverSaid := fun hne => ?_ }⟩
  · show Conveys t _ (if W.greeted then [] else [0]) _ _ _ _
    rw [if_pos late]
    exact hcarries
  · have hbefore := h.toClient halive
    rw [hears] at hbefore
    exact (hbefore.turn hheard.lines).1
  · obtain ⟨auth', hauth'⟩ := h.serverSaid hne
    cases hears.symm.trans hauth'

/-- Where a client waits and there is nothing to be received, no line is under way. -/
theorem toClient_eq_nil (h : Shows sha1 S W e) (hears : W.client.hears = true)
    (waits : W.clientReader.takeLine = none) (empty : W.toClient = []) : e.toClient = [] := by
  have hcarries := h.toClient fun reason hfailed => by
    rw [hfailed] at hears
    cases hears
  cases hunder : e.toClient with
  | nil => rfl
  | cons line rest =>
    rw [hunder] at hcarries
    exact absurd empty (hcarries.waiting waits)

theorem toServer_eq_nil (h : Shows sha1 S W e) {auth : ServerAuth}
    (hears : W.server = .reading auth)
    (late : W.greeted = true) (waits : W.serverReader.takeLine = none) (empty : W.toServer = []) :
    e.toServer = [] := by
  have hcarries := h.toServer fun reason hfailed => by cases hears.symm.trans hfailed
  rw [if_pos late] at hcarries
  cases hunder : e.toServer with
  | nil => rfl
  | cons line rest =>
    rw [hunder] at hcarries
    exact absurd empty (hcarries.waiting waits)

/-- A client whose server is gone gives up. -/
theorem moves_clientGone (h : Shows sha1 S W e) {reason text : String} {written : ℕ}
    (gone : W.server = .failed reason)
    (hstep : Exchange.Step sha1 S e { e with client := .failed text })
    (hsaid : W.clientSaid = []) :
    Moves sha1 S W { W with client := .failed text, clientWritten := written } e :=
  .inl ⟨_, hstep, { h with
    client := rfl
    stage := h.stage_step hstep
    toServer := fun halive => absurd gone (halive reason)
    toClient := fun halive => absurd rfl (halive text)
    clientSaid := fun hne => absurd hsaid hne }⟩

/-- So does a server whose client is gone. -/
theorem moves_serverGone (h : Shows sha1 S W e) {reason text : String} {written : ℕ}
    (gone : W.client = .failed reason)
    (hstep : Exchange.Step sha1 S e { e with server := .failed text })
    (late : W.greeted = true) (hsaid : W.serverSaid = []) :
    Moves sha1 S W { W with server := .failed text, serverWritten := written } e :=
  .inl ⟨_, hstep, { h with
    server := rfl
    stage := h.stage_step hstep
    toServer := fun halive => absurd rfl (halive text)
    toClient := fun halive => absurd gone (halive reason)
    clear := nofun
    early := fun hearly => nomatch late.symm.trans hearly
    serverSaid := fun hne => absurd hsaid hne }⟩

theorem moves_clientReadsEnd (h : Shows sha1 S W e) {reason : String}
    (hears : W.client.hears = true) (waits : W.clientReader.takeLine = none)
    (gone : W.server = .failed reason) (empty : W.toClient = []) :
    Moves sha1 S W { W with client := .failed "peer closed" } e := by
  have hnone := h.toClient_eq_nil hears waits empty
  have hreading : W.client = .awaiting ∨ ∃ auth, W.client = .reading auth := by
    cases hclient : W.client with
    | reading auth => exact .inr ⟨auth, rfl⟩
    | awaiting => exact .inl rfl
    | _ =>
      rw [hclient] at hears
      cases hears
  refine h.moves_clientGone gone ?_ ?_
  · obtain ⟨client, server, toServer, toClient, disk⟩ := e
    obtain rfl : client = W.client := h.client
    obtain rfl : server = .failed reason := h.server.trans gone
    obtain rfl : toClient = [] := hnone
    exact .clientReadsEnd _ _ _ _ hreading
  · by_contra hsaid
    rw [h.clientSaid hsaid] at hears
    cases hears

theorem moves_clientCannotWrite (h : Shows sha1 S W e) {line reason : String} (text : String)
    (next : W.client.lines.head? = some line) (gone : W.server = .failed reason) :
    Moves sha1 S W { W with client := .failed text, clientWritten := 0 } e := by
  have hwriting : (∃ auth line, W.client = .writing auth line) ∨
      ∃ lines expectReply, W.client = .finishing lines expectReply := by
    cases hclient : W.client with
    | writing auth line => exact .inl ⟨auth, line, rfl⟩
    | finishing lines expectReply => exact .inr ⟨lines, expectReply, rfl⟩
    | _ =>
      rw [hclient] at next
      cases next
  refine h.moves_clientGone gone ?_ (h.clientSaid_eq_nil ?_)
  · obtain ⟨client, server, toServer, toClient, disk⟩ := e
    obtain rfl : client = W.client := h.client
    obtain rfl : server = .failed reason := h.server.trans gone
    exact .clientCannotWrite _ _ _ _ _ _ hwriting
  · rw [ClientPhase.lines_wrote next]
    exact List.cons_ne_nil _ _

theorem moves_serverReadsEnd (h : Shows sha1 S W e) {auth : ServerAuth} {reason : String}
    (hears : W.server = .reading auth) (waits : W.serverWaits = true)
    (gone : W.client = .failed reason) (empty : W.toServer = []) :
    Moves sha1 S W { W with
      server := .failed (if W.greeted then "SASL read error: peer closed"
        else "no leading NUL byte: peer closed") } e := by
  have hsaid : W.serverSaid = [] := by
    by_contra hsaid
    obtain ⟨auth', hauth'⟩ := h.serverSaid hsaid
    cases hears.symm.trans hauth'
  unfold serverWaits at waits
  by_cases hgreeted : W.greeted = true
  · rw [if_pos hgreeted] at waits ⊢
    have hnone := h.toServer_eq_nil hears hgreeted (Option.isNone_iff_eq_none.mp waits) empty
    refine h.moves_serverGone gone ?_ hgreeted hsaid
    obtain ⟨client, server, toServer, toClient, disk⟩ := e
    obtain rfl : client = .failed reason := h.client.trans gone
    obtain rfl : server = .reading auth := h.server.trans hears
    obtain rfl : toServer = [] := hnone
    exact .serverReadsEnd ..
  · -- the NUL byte is in the stream, and has not been found
    have hcarries := h.toServer fun reason hfailed => by cases hears.symm.trans hfailed
    have hbytes := hcarries.bytes
    rw [if_neg hgreeted] at waits hbytes
    rw [empty, List.isEmpty_iff.mp waits] at hbytes
    cases hbytes

theorem moves_serverCannotWrite (h : Shows sha1 S W e) {line reason : String} (text : String)
    (next : W.server.lines.head? = some line) (gone : W.client = .failed reason) :
    Moves sha1 S W { W with
      server := .failed ("SASL write error: " ++ text)
      serverWritten := 0 } e := by
  have late : W.greeted = true := by
    by_contra hearly
    obtain ⟨auth, hreading⟩ := h.early (eq_false_of_ne_true hearly)
    rw [hreading] at next
    cases next
  refine h.moves_serverGone gone ?_ late (h.serverSaid_eq_nil ?_)
  · obtain ⟨client, server, toServer, toClient, disk⟩ := e
    obtain rfl : client = .failed reason := h.client.trans gone
    obtain rfl : server = W.server := h.server
    cases hserver : W.server with
    | writing auth lines => exact .serverCannotWrite ..
    | _ =>
      rw [hserver] at next
      cases next
  · rw [(ServerPhase.lines_wrote next).1]
    exact List.cons_ne_nil _ _

/-- **Each step is a step of the conversation, or brings it nearer.** -/
theorem step (h : Shows sha1 S W e) (hstep : Step sha1 S W W') : Moves sha1 S W W' e := by
  cases hstep with
  | clientWrites line n next pos lt => exact h.moves_clientWrites next pos lt
  | clientEnds line next => exact h.moves_clientEnds next
  | clientReceives chunk rest _ _ arrived ne => exact h.moves_clientReceives arrived ne
  | clientHears machine fits line t hears taken => exact h.moves_clientHears fits hears taken
  | clientBalks x t text hears taken bad =>
    obtain ⟨line, -, -, rfl, -⟩ := h.take_client hears taken
    exact absurd rfl (bad line)
  | clientReadsEnd reason hears waits gone empty =>
    exact h.moves_clientReadsEnd hears waits gone empty
  | clientCannotWrite line reason text next gone => exact h.moves_clientCannotWrite text next gone
  | serverWrites line n next pos lt => exact h.moves_serverWrites next pos lt
  | serverEnds line next => exact h.moves_serverEnds next
  | serverReceives auth chunk rest _ _ arrived ne => exact h.moves_serverReceives arrived ne
  | serverGreeted auth bs hears early found => exact (h.moves_serverGreeted hears early found).2
  | serverNotGreeted auth b bs hears early found other =>
    exact absurd (h.moves_serverGreeted hears early found).1 other
  | serverHears machine fits auth line t hears late taken =>
    exact h.moves_serverHears fits hears late taken
  | serverBalks auth x t text hears late taken bad =>
    obtain ⟨line, -, -, rfl, -⟩ := h.take_server hears late taken
    exact absurd rfl (bad line)
  | serverReadsEnd auth reason hears waits gone empty =>
    exact h.moves_serverReadsEnd hears waits gone empty
  | serverCannotWrite line reason text next gone => exact h.moves_serverCannotWrite text next gone

/-- What is said afterwards changes nothing about the conversation. -/
theorem talk (h : Shows sha1 S W e) (htalk : Talks W W') : Shows sha1 S W' e := by
  cases htalk with
  | client bs through =>
    refine { h with
      toServer := fun halive => ?_
      clientSaid := fun _ => through }
    have hcarries := h.toServer halive
    rw [through] at hcarries
    show Conveys _ _ _ _ W.client.lines _ _
    rw [through]
    exact hcarries.say bs
  | server auth bs through =>
    refine { h with
      toClient := fun halive => ?_
      serverSaid := fun _ => ⟨auth, through⟩ }
    have hcarries := h.toClient halive
    rw [through] at hcarries
    show Conveys _ _ _ _ W.server.lines _ _
    rw [through]
    exact hcarries.say bs

end Shows

/-! ## From the start to the end -/

theorem shows_initial (sha1 : Digest) (h : S.Legible) : Shows sha1 S (initial S) S.initial where
  client := rfl
  server := rfl
  disk := rfl
  stage := ⟨_, Setup.stage_initial sha1 S⟩
  toServer := fun _ => by
    refine ⟨rfl, List.forall_mem_nil _, List.forall_mem_singleton.mpr ?_, .inl rfl⟩
    exact (brief_authLine ..).readable (by decide)
  toClient := fun _ => ⟨rfl, List.forall_mem_nil _, List.forall_mem_nil _, .inl rfl⟩
  clear := by
    rintro auth ⟨⟩
    exact ⟨h.names, h.guid⟩
  early := fun _ => ⟨_, rfl⟩
  clientSaid := fun hne => absurd rfl hne
  serverSaid := fun hne => absurd rfl hne

/-- **The streams refine the conversation.** -/
theorem refines_exchange (sha1 : Digest) (S : Setup) :
    Refines (Step sha1 S) (Exchange.Step sha1 S) (Shows sha1 S) left :=
  ⟨fun hshows hstep => hshows.step hstep⟩

namespace Shows

/-- There is room for a byte. -/
theorem one_le_recvSize : 1 ≤ recvSize := by decide

/-- A client that waits can go on, if a line is under way or the server is gone. -/
theorem client_goes_on (h : Shows sha1 S W e) (hears : W.client.hears = true)
    (hgo : e.toClient ≠ [] ∨ ∃ reason, W.server = .failed reason) : ∃ W', Step sha1 S W W' := by
  cases htaken : W.clientReader.takeLine with
  | some taken =>
    obtain ⟨line, rest, -, hline, -⟩ := h.take_client hears htaken
    refine ⟨_, .clientHears S.someMachine S.fits_someMachine line taken.2 hears ?_⟩
    rw [htaken, ← hline]
  | none =>
    cases harrived : W.toClient with
    | nil =>
      have hnone := h.toClient_eq_nil hears htaken harrived
      obtain ⟨reason, gone⟩ := hgo.resolve_left fun hne => hne hnone
      exact ⟨_, .clientReadsEnd reason hears htaken gone harrived⟩
    | cons b rest =>
      exact ⟨_, .clientReceives [b] rest hears htaken harrived (List.cons_ne_nil _ _)
        one_le_recvSize⟩

/-- So can a server. -/
theorem server_goes_on (h : Shows sha1 S W e) {auth : ServerAuth} (hears : W.server = .reading auth)
    (hgo : e.toServer ≠ [] ∨ ∃ reason, W.client = .failed reason) : ∃ W', Step sha1 S W W' := by
  have hreceive : ∀ b rest, W.serverWaits = true → W.toServer = b :: rest →
      ∃ W', Step sha1 S W W' := fun b rest waits harrived =>
    ⟨_, .serverReceives auth [b] rest hears waits harrived (List.cons_ne_nil _ _)
        one_le_recvSize⟩
  by_cases late : W.greeted = true
  · cases htaken : W.serverReader.takeLine with
    | some taken =>
      obtain ⟨line, rest, -, hline, -⟩ := h.take_server hears late htaken
      refine ⟨_, .serverHears S.someMachine S.fits_someMachine auth line taken.2 hears late ?_⟩
      rw [htaken, ← hline]
    | none =>
      have waits : W.serverWaits = true := by
        unfold serverWaits
        rw [if_pos late, htaken]
        rfl
      cases harrived : W.toServer with
      | nil =>
        have hnone := h.toServer_eq_nil hears late htaken harrived
        obtain ⟨reason, gone⟩ := hgo.resolve_left fun hne => hne hnone
        exact ⟨_, .serverReadsEnd auth reason hears waits gone harrived⟩
      | cons b rest => exact hreceive b rest waits harrived
  · have early := eq_false_of_ne_true late
    cases hfound : W.serverReader.readBuf with
    | cons b bs =>
      have hzero := (h.moves_serverGreeted hears early hfound).1
      exact ⟨_, .serverGreeted auth bs hears early (hzero ▸ hfound)⟩
    | nil =>
      have waits : W.serverWaits = true := by
        unfold serverWaits
        rw [if_neg late, hfound]
        rfl
      have hbytes := (h.toServer fun reason hfailed => by cases hears.symm.trans hfailed).bytes
      rw [if_neg late, hfound] at hbytes
      exact hreceive 0 _ waits hbytes

/-- **As long as the conversation goes on, so do the streams.** -/
theorem exists_step (h : Shows sha1 S W e) {e' : Exchange} (hstep : Exchange.Step sha1 S e e') :
    ∃ W', Step sha1 S W W' := by
  obtain ⟨n, hstage⟩ := h.stage
  have hclient := h.client
  have hserver := h.server
  cases hstep with
  | clientWrites auth line => exact ⟨_, .clientEnds line (hclient ▸ rfl)⟩
  | clientReads => exact h.client_goes_on (hclient ▸ rfl) (.inl (List.cons_ne_nil _ _))
  | clientFinishes line => exact ⟨_, .clientEnds line (hclient ▸ rfl)⟩
  | clientAwaits => exact h.client_goes_on (hclient ▸ rfl) (.inl (List.cons_ne_nil _ _))
  | clientReadsEnd client reason toServer disk reading =>
    refine h.client_goes_on ?_ (.inr ⟨reason, hserver.symm⟩)
    rw [← hclient]
    rcases reading with rfl | ⟨auth, rfl⟩ <;> rfl
  | clientCannotWrite client reason text toServer toClient disk writing =>
    rcases hstage.of_server_gone rfl with ⟨auth, hreading⟩ | ⟨reason', hfailed⟩
    · exact h.client_goes_on (hclient ▸ hreading ▸ rfl) (.inr ⟨reason, hserver.symm⟩)
    · rcases writing with ⟨auth, line, hwriting⟩ | ⟨lines, expectReply, hfinishing⟩
      · cases hfailed.symm.trans hwriting
      · cases hfailed.symm.trans hfinishing
  | serverReads machine fits auth =>
    exact h.server_goes_on hserver.symm (.inl (List.cons_ne_nil _ _))
  | serverWrites auth line lines => exact ⟨_, .serverEnds line (hserver ▸ rfl)⟩
  | serverReadsEnd auth reason =>
    exact h.server_goes_on hserver.symm (.inr ⟨reason, hclient.symm⟩)
  | serverCannotWrite auth lines reason =>
    rcases hstage.of_client_gone rfl with ⟨auth', hreading⟩ | ⟨reason', hfailed⟩
    · cases hreading
    · cases hfailed

end Shows

/-- Some steps of the conversation are a number of steps. -/
theorem exists_run (h : Relation.ReflTransGen (Exchange.Step sha1 S) S.initial e) :
    ∃ n, Exchange.Run sha1 S n S.initial e := by
  induction h with
  | refl => exact ⟨0, .refl _⟩
  | tail _ hstep ih =>
    obtain ⟨n, hrun⟩ := ih
    exact ⟨n + 1, .tail hrun hstep⟩

/-- What the streams come to shows what the conversation comes to. -/
theorem Reachable.shows (legible : S.Legible) (h : Reachable sha1 S W) :
    ∃ e, Relation.ReflTransGen (Exchange.Step sha1 S) S.initial e ∧ Shows sha1 S W e :=
  (refines_exchange sha1 S).run (fun hshows htalk => hshows.talk htalk)
    (shows_initial sha1 legible) h

/-- A server that has begun has before it what the client has said since it succeeded. -/
theorem Shows.said_of_begun (h : Shows sha1 S W e) {auth : ServerAuth}
    (hbegun : W.server = .begun auth) :
    W.serverReader.readBuf ++ W.toServer = W.clientSaid := by
  obtain ⟨n, hstage⟩ := h.stage
  obtain ⟨hunder, hlines, -⟩ := hstage.of_begun (h.server.trans hbegun)
  have late : W.greeted = true := by
    by_contra hearly
    obtain ⟨auth', hreading⟩ := h.early (eq_false_of_ne_true hearly)
    cases hbegun.symm.trans hreading
  have hbytes := (h.toServer fun reason hfailed => by cases hbegun.symm.trans hfailed).bytes
  rw [h.client] at hlines
  rw [if_pos late, hunder, hlines] at hbytes
  exact hbytes

/-- A client that has succeeded has before it what the server has said since it began. -/
theorem Shows.said_of_succeeded (h : Shows sha1 S W e) (hsucceeded : W.client = .succeeded) :
    W.clientReader.readBuf ++ W.toClient = W.serverSaid := by
  obtain ⟨n, hstage⟩ := h.stage
  obtain ⟨hunder, hlines, -⟩ := hstage.of_succeeded (h.client.trans hsucceeded)
  have hbytes := (h.toClient fun reason hfailed => by cases hsucceeded.symm.trans hfailed).bytes
  rw [h.server] at hlines
  rw [hunder, hlines] at hbytes
  exact hbytes

/-- **Both sides agree, whatever the streams do.** However the bytes are cut on the way, and in
whatever order the sides go on: where they are a conversation in whole lines could be, and all that
is left of the handshake comes to an end. In the end the client has succeeded and the server has
begun, and knows whether the client wants descriptors; or both have given up, and no mechanism was
left that could have helped. And whoever is through has before it what the other one has said
since it was, to the byte. -/
theorem streams_agree (sha1 : Digest) (S : Setup) (legible : S.Legible) (W : Streams)
    (h : Reachable sha1 S W) :
    (∃ n e, Exchange.Run sha1 S n S.initial e ∧ e.client = W.client ∧ e.server = W.server ∧
      e.disk = W.disk) ∧
    Acc (fun W' W => Step sha1 S W W') W ∧
    ((∀ W', ¬ Step sha1 S W W') →
      (W.client = .succeeded ∧
        ∃ auth, W.server = .begun auth ∧ auth.unixFdNegotiated = S.wantUnixFd) ∨
      (S.Hopeless ∧ (∃ reason, W.client = .failed reason) ∧
        ∃ reason, W.server = .failed reason)) ∧
    (∀ auth, W.server = .begun auth → W.serverReader.readBuf ++ W.toServer = W.clientSaid) ∧
    (W.client = .succeeded → W.clientReader.readBuf ++ W.toClient = W.serverSaid) := by
  obtain ⟨e, hrun, hshows⟩ := h.shows legible
  obtain ⟨k, hstage⟩ := hshows.stage
  refine ⟨?_, (refines_exchange sha1 S).acc hshows hstage.acc, fun hstuck => ?_,
    fun _ => hshows.said_of_begun, hshows.said_of_succeeded⟩
  · obtain ⟨n, hrun⟩ := exists_run hrun
    exact ⟨n, e, hrun, hshows.client, hshows.server, hshows.disk⟩
  · rcases hstage.progress with ⟨e', hstep⟩ | ⟨hopeless, hclient, hserver⟩ | ⟨hclient, hserver⟩
    · obtain ⟨W', hstep'⟩ := hshows.exists_step hstep
      exact absurd hstep' (hstuck W')
    · exact .inr ⟨hopeless, hshows.client ▸ hclient, hshows.server ▸ hserver⟩
    · exact .inl ⟨hshows.client ▸ hclient, hshows.server ▸ hserver⟩

theorem legible_external : externalSetup.Legible :=
  ⟨by decide, by decide⟩

/-- A client that is let in at its second try says something, and the server has it before it. -/
theorem streams_agree_external : ∃ W auth said,
    Reachable (fun _ => .replicate 20 0) externalSetup W ∧ W.client = .succeeded ∧
      W.server = .begun auth ∧
      W.serverReader.readBuf ++ W.toServer = said ++ [108, 1, 0, 1] := by
  let sha1 : Digest := fun _ => .replicate 20 0
  obtain ⟨-, hacc, -⟩ := streams_agree sha1 externalSetup legible_external _ .refl
  obtain ⟨W, hrun, hend⟩ := exists_end hacc
  have hreachable : Reachable sha1 externalSetup W :=
    hrun.lift id fun _ _ hstep => .inl hstep
  obtain ⟨-, -, hagree, -⟩ := streams_agree sha1 externalSetup legible_external W hreachable
  rcases hagree hend with ⟨hclient, auth, hserver, -⟩ | ⟨hopeless, -⟩
  · have hlater := hreachable.tail (.inr (.client [108, 1, 0, 1] hclient))
    obtain ⟨-, -, -, hsaid, -⟩ := streams_agree sha1 externalSetup legible_external _ hlater
    exact ⟨_, auth, W.clientSaid, hlater, hclient, hserver, hsaid auth hserver⟩
  · exact absurd (hopeless [.anonymous] .external [] rfl (by decide)) (by decide)

end Streams

end Oxibus
