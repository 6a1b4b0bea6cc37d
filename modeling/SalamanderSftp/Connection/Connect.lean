import SalamanderSftp.Connection.Authenticate
import SalamanderSftp.Connection.HostKey

/-!
# The life of a connection

`Connect`, `Disconnect`, `IsConnected`, `SendKeepalive` and the methods that work with the
connection, in any order. Each of them is followed from one position to the next: the phase of the
object, and what was given away so far. `Connect` is a chain of stages, and a stage that fails gives
everything back (`goes_connect`); between two acts there is a session with its socket, or nothing
(`goes_run`).
-/

namespace SalamanderSftp

open Handles

/-! ## Connect -/

/-- What the system, libssh2, the server and the user answer to `Connect`. -/
structure ConnectWorld where
  getaddrinfo : Option ℕ
  socket : Option ℕ
  connects : Bool
  sessionInit : Option ℕ
  handshake : Bool
  hostKey : HostKeySession
  store : HostKeyStore
  /-- The collection of known hosts, where there is memory for it. -/
  knownhosts : ℕ
  auth : AuthWorld
  sftpInit : Option ℕ
  errors : CSftpConnection.LastErrors

namespace CSftpConnection

/-- A function of the system with the socket. -/
def withSocket (c : CSftpConnection) (f : ℕ → Outcome) :
    Outcome := c.Sock.elim ⟨none, c, [.invalid]⟩ f

theorem withSocket_eq {c : CSftpConnection} {sock : ℕ} (h : c.Sock = some sock) (f : ℕ → Outcome) :
    c.withSocket f = f sock := by
  unfold withSocket
  rw [h]
  rfl

/-- The name is resolved, and a socket connected. -/
def openSocket (w : ConnectWorld) (c : CSftpConnection) : Outcome :=
  match w.getaddrinfo with
  | none =>
    ⟨some false, { c with ErrorMsg := ascii "Cannot resolve hostname." }, [.getaddrinfo none]⟩
  | some res =>
    let calls := [.getaddrinfo (some res), .socket res w.socket]
    match w.socket with
    | none =>
      Outcome.orDisconnect
        ⟨some false, { c with ErrorMsg := ascii "Cannot establish TCP connection." },
          calls ++ [.freeaddrinfo res]⟩
    | some sock =>
      let c := { c with Sock := some sock }
      let calls := calls ++ [.connect sock res, .freeaddrinfo res]
      if w.connects then ⟨some true, c, calls ++ [.setsockopt sock]⟩
      else Outcome.orDisconnect
        ⟨some false, { c with ErrorMsg := ascii "Cannot establish TCP connection." }, calls⟩

/-- The calls for a session up to its handshake. -/
def handshakeCalls (useCompression : Bool) (session sock : ℕ) : List SshCall :=
  [.sessionInit (some session), .sessionSetting session] ++
    (if useCompression then [.sessionSetting session] else []) ++ [.handshake session sock]

/-- The session is made, and its handshake. -/
def startSession (w : ConnectWorld) (useCompression : Bool) (c : CSftpConnection) : Outcome :=
  c.withSocket fun sock =>
    match w.sessionInit with
    | none =>
      Outcome.orDisconnect ⟨some false, { c with ErrorMsg := ascii "libssh2_session_init failed." },
        [.sessionInit none]⟩
    | some session =>
      let c := { c with Session := some session }
      let calls := handshakeCalls useCompression session sock
      if w.handshake then ⟨some true, c, calls ++ [.sessionSetting session]⟩
      else (c.failed w.errors (ascii "SSH handshake") calls).orDisconnect

def hostKeyCalls (w : ConnectWorld) (session : ℕ) : List SshCall :=
  let kh := if w.hostKey.knownhosts then some w.knownhosts else none
  .hostkey session :: w.hostKey.hostkey.elim [] fun _ =>
    [.hostkey session, .knownhostInit session kh] ++ kh.elim [] fun kh => [.knownhostFree kh]

variable (hmac : Bytes → CStr → Bytes)

def checkHostKey (w : ConnectWorld) (host : CStr) (port : ℤ) (c : CSftpConnection) : Outcome :=
  c.withSession fun session =>
    let r := verifyHostKey hmac w.store w.hostKey host port
    if r.accepted then ⟨some true, c, hostKeyCalls w session ++ [.verified session host port]⟩
    else Outcome.orDisconnect
      ⟨some false, { c with ErrorMsg := r.ErrorMsg.getD c.ErrorMsg }, hostKeyCalls w session⟩

/-- The SFTP subsystem is started, or the SCP mode. -/
def startSftp (w : ConnectWorld) (args : ConnectArgs) (c : CSftpConnection) : Outcome :=
  let c := { c with SftpServerCmd := args.sftpServer }
  if args.protocol = 1 then ⟨some true, { c with ScpMode := true }, []⟩
  else
    c.withSession fun session =>
      let calls := [.sftpInit session args.sftpServer w.sftpInit]
      match w.sftpInit with
      | some sftp => ⟨some true, { c with Sftp := some sftp }, calls⟩
      | none =>
        if args.scpFallback then ⟨some true, { c with ScpMode := true }, calls⟩
        else
          let text := ascii <|
              "Server does not support SFTP subsystem or failed to start custom SFTP server.\n" ++
            "Select SCP protocol or enable the \"Allow fallback SCP\" option."
          Outcome.orDisconnect ⟨some false, { c with ErrorMsg := text }, calls⟩

/-- `Connect` behind its call of `Disconnect`. -/
def connectSteps (w : ConnectWorld) (args : ConnectArgs) (c : CSftpConnection) : Outcome :=
  ((((c.openSocket w).next (startSession w args.useCompression)).next
    (checkHostKey hmac w args.host args.port)).next
    fun c => (c.authenticate w.auth args.user args.password args.keyFile).orDisconnect).next
      (startSftp w args)

def connect (w : ConnectWorld) (args : ConnectArgs) (c : CSftpConnection) : Outcome :=
  let o := c.disconnect.1.connectSteps hmac w args
  ⟨o.result, o.conn, .begin args :: c.disconnect.2 ++ o.calls⟩

end CSftpConnection

/-! ## What `Connect` does with its handles -/

section Goes

variable {c : CSftpConnection} {w : ConnectWorld} {args : ConnectArgs} {hmac : Bytes → CStr → Bytes}

/-- A stage of `Connect`: on success it has come to this position, on failure everything was given
back. -/
def ConnectStage (goal : Position → Prop) (r : Option Bool) (pos : Position) : Prop :=
  match r with
  | some true => goal pos
  | some false => pos.phase = .idle
  | none => ∃ s p, pos.phase = .shaken s p false ∧ pos.trust.session = some p

variable {goal : Position → Prop} {pos : Position}

theorem connectStage_mono {goal' : Position → Prop}
    (h : ∀ pos, goal pos → goal' pos) (r : Option Bool) :
    ConnectStage goal r pos → ConnectStage goal' r pos := by
  match r with
  | some true => exact h pos
  | some false => exact id
  | none => exact id

theorem connectStage_of_ne {goal' : Position → Prop} {r : Option Bool} (hr : r ≠ some true)
    (h : ConnectStage goal r pos) :
    ConnectStage goal' r pos := by
  match r with
  | some true => exact absurd rfl hr
  | some false => exact h
  | none => exact h

/-- Two stages, one behind the other. -/
theorem Outcome.Goes.then {o : Outcome} {f : CSftpConnection → Outcome} {goal' : Position → Prop}
    (h : o.Goes pos (ConnectStage goal))
    (hf : ∀ pos', goal pos' → o.conn.At pos'.phase → (f o.conn).Goes pos' (ConnectStage goal')) :
    (o.next f).Goes pos (ConnectStage goal') :=
  h.next (fun _ _ hr => connectStage_of_ne hr) hf

/-- A failure gives everything back, from wherever it is. -/
theorem goes_abandon {pos : Position} (pos' : Position)
    {calls : List SshCall} (hat : c.At pos'.phase)
    (hfollow : pos.watch.follow calls = some pos'.watch) :
    (Outcome.orDisconnect ⟨some false, c, calls⟩).Goes pos (ConnectStage goal) := by
  have h : (Outcome.mk (some false) c calls).Goes pos fun _ _ => True :=
    ⟨pos', trivial, hat, hfollow⟩
  obtain ⟨pos'', hidle, hrest⟩ := h.orDisconnect
  exact ⟨pos'', hidle, hrest⟩

theorem Outcome.Goes.stage_orDisconnect {o : Outcome} {s p : ℕ} (h : o.Goes pos (StaysWith s p))
    (hgoal : ∀ pos', pos'.phase = .shaken s p false → pos'.trust.session = some p → goal pos') :
    o.orDisconnect.Goes pos (ConnectStage goal) := by
  refine h.orDisconnect.mono fun r pos' htarget => ?_
  match r with
  | some true => exact hgoal pos' htarget.1 htarget.2
  | some false => exact htarget
  | none => exact ⟨s, p, htarget⟩

attribute [local simp] Watch.follow_cons Watch.step Trust.step SshCall.events
  givenOn Held.follow_cons Held.track
  Phase.held Position.watch

/-- The trust at the start of `Connect`. -/
def Trust.begun (args : ConnectArgs) : Trust := ⟨some args, .none, 0, 0, []⟩

theorem Trust.untrusted_begun (args : ConnectArgs) :
    (Trust.begun args).untrusted = .begun args := rfl

theorem goes_openSocket (hat : c.At .idle) : (c.openSocket w).Goes ⟨.idle, .begun args⟩
    (ConnectStage fun pos => ∃ s, pos = ⟨.socket s, .begun args⟩) := by
  have hsocket : ∀ sock text,
      ({ c with Sock := some sock, ErrorMsg := text } : CSftpConnection).At (.socket sock) :=
    fun sock text => ⟨rfl, hat.session, hat.sftp, hat.scp⟩
  unfold CSftpConnection.openSocket
  rcases w.getaddrinfo with _ | res
  · exact ⟨⟨.idle, .begun args⟩, rfl, hat.withMessage _, by simp⟩
  · rcases w.socket with _ | sock
    · exact goes_abandon ⟨.idle, .begun args⟩ (hat.withMessage _) (by simp [Held.none])
    · have hcalls : (Position.watch ⟨.idle, .begun args⟩).follow
          [.getaddrinfo (some res), .socket res (some sock), .connect sock res, .freeaddrinfo res] =
            some (Position.watch ⟨.socket sock, .begun args⟩) := by
        simp [Held.none, Finset.erase_insert_of_ne]
      dsimp only
      split_ifs
      · refine ⟨⟨.socket sock, .begun args⟩, ⟨sock, rfl⟩, hsocket sock c.ErrorMsg, ?_⟩
        exact Watch.follow_append_of hcalls (by simp)
      · exact goes_abandon ⟨.socket sock, .begun args⟩ (hsocket sock _) hcalls

theorem goes_startSession {sock : ℕ} (hat : c.At (.socket sock)) (useCompression : Bool) :
    (c.startSession w useCompression).Goes ⟨.socket sock, .begun args⟩
      (ConnectStage fun pos => ∃ s p, pos = ⟨.shaken s p false, .begun args⟩) := by
  have hsock : c.Sock = some sock := hat.sock
  unfold CSftpConnection.startSession
  rw [CSftpConnection.withSocket_eq hsock]
  rcases w.sessionInit with _ | session
  · exact goes_abandon ⟨.socket sock, .begun args⟩ (hat.withMessage _)
      (by simp [Trust.untrusted_begun])
  · have hshaken :
        ({ c with Session := some session } : CSftpConnection).At (.shaken sock session false) :=
      ⟨hsock, rfl, hat.sftp, hat.scp⟩
    have hcalls : (Position.watch ⟨.socket sock, .begun args⟩).follow
        (CSftpConnection.handshakeCalls useCompression session sock) =
          some (Position.watch ⟨.shaken sock session false, .begun args⟩) := by
      unfold CSftpConnection.handshakeCalls
      cases useCompression <;> simp [Trust.untrusted_begun]
    dsimp only
    split_ifs
    · refine ⟨⟨.shaken sock session false, .begun args⟩, ⟨sock, session, rfl⟩, hshaken, ?_⟩
      exact Watch.follow_append_of hcalls (by simp)
    · obtain ⟨hat', hfollow⟩ :=
        setError_follow hshaken (.begun args) w.errors (ascii "SSH handshake")
      exact goes_abandon ⟨.shaken sock session false, .begun args⟩ hat'
        (Watch.follow_append_of hcalls hfollow)

theorem goes_checkHostKey {s p : ℕ} (hat : c.At (.shaken s p false)) :
    (c.checkHostKey hmac w args.host args.port).Goes ⟨.shaken s p false, .begun args⟩
      (ConnectStage fun pos => pos = trustedPosition args s p) := by
  have hcalls :
      (Position.watch ⟨.shaken s p false, .begun args⟩).follow (CSftpConnection.hostKeyCalls w p) =
      some (Position.watch ⟨.shaken s p false, .begun args⟩) := by
    unfold CSftpConnection.hostKeyCalls
    rcases w.hostKey.hostkey with _ | key
    · simp
    · by_cases hkh : w.hostKey.knownhosts = true
      · simp [hkh, Finset.filter_insert, Finset.filter_singleton]
      · simp [hkh]
  have hverified :
      (Position.watch ⟨.shaken s p false, .begun args⟩).follow [.verified p args.host args.port] =
      some (trustedPosition args s p).watch := by
    simp [trustedPosition, Trust.begun]
  unfold CSftpConnection.checkHostKey
  rw [CSftpConnection.withSession_eq hat.session]
  dsimp only
  split_ifs
  · exact ⟨trustedPosition args s p, rfl, hat, Watch.follow_append_of hcalls hverified⟩
  · exact goes_abandon ⟨.shaken s p false, .begun args⟩ (hat.withMessage _) hcalls

/-- `Connect` came to its end: there is a session in SCP mode, or one with SFTP, that is trusted. -/
def Position.Connected (pos : Position) : Prop :=
  (∃ s p, pos.phase = .shaken s p true ∧ pos.trust.session = some p) ∨
    ∃ s p q, pos.phase = .sftp s p q ∧ pos.trust.session = some p ∧ .sftp q ∈ pos.trust.reached

theorem goes_startSftp {s p : ℕ} {trust : Trust} (hat : c.At (.shaken s p false))
    (htrust : trust.session = some p) :
    (c.startSftp w args).Goes ⟨.shaken s p false, trust⟩ (ConnectStage Position.Connected) := by
  have hscp : ∀ text,
      ({ c with SftpServerCmd := text, ScpMode := true } : CSftpConnection).At (.shaken s p true) :=
    fun text => ⟨hat.sock, hat.session, hat.sftp, rfl⟩
  have hfails :
      (Position.watch ⟨.shaken s p false, trust⟩).follow [.sftpInit p args.sftpServer none] =
      some (Position.watch ⟨.shaken s p true, trust⟩) := by
    simp [htrust]
  unfold CSftpConnection.startSftp
  by_cases hprotocol : args.protocol = 1
  · dsimp only
    rw [if_pos hprotocol]
    exact ⟨⟨.shaken s p true, trust⟩, .inl ⟨s, p, rfl, htrust⟩, hscp _, rfl⟩
  · dsimp only
    have hsession : ({ c with SftpServerCmd := args.sftpServer } : CSftpConnection).Session =
        some p := hat.session
    rw [if_neg hprotocol, CSftpConnection.withSession_eq hsession]
    rcases w.sftpInit with _ | sftp
    · dsimp only
      split_ifs
      · exact ⟨⟨.shaken s p true, trust⟩, .inl ⟨s, p, rfl, htrust⟩, hscp _, hfails⟩
      · exact goes_abandon ⟨.shaken s p false, trust⟩
          ⟨hat.sock, hat.session, hat.sftp, hat.scp⟩ hfails
    · refine ⟨⟨.sftp s p sftp, trust.reach (some (.sftp sftp))⟩, .inr ⟨s, p, sftp, rfl, htrust, ?_⟩,
        ⟨hat.sock, hat.session, rfl, hat.scp⟩, by simp [htrust]⟩
      exact List.mem_cons_self

/-- `Connect` behind `Disconnect`: connected, or everything given back. -/
theorem goes_connectSteps (hat : c.At .idle) :
    (c.connectSteps hmac w args).Goes ⟨.idle, .begun args⟩
    (ConnectStage Position.Connected) := by
  unfold CSftpConnection.connectSteps
  have hsession : ((c.openSocket w).next (CSftpConnection.startSession w args.useCompression)).Goes
      ⟨.idle, .begun args⟩
      (ConnectStage fun pos => ∃ s p, pos = ⟨.shaken s p false, .begun args⟩) := by
    refine (goes_openSocket hat).then ?_
    rintro _ ⟨s, rfl⟩ hsocket
    exact goes_startSession hsocket _
  have hverified :
      (((c.openSocket w).next (CSftpConnection.startSession w args.useCompression)).next
      (CSftpConnection.checkHostKey hmac w args.host args.port)).Goes
      ⟨.idle, .begun args⟩ (ConnectStage fun pos => ∃ s p, pos = trustedPosition args s p) := by
    refine hsession.then ?_
    rintro _ ⟨s, p, rfl⟩ hshaken
    exact (goes_checkHostKey hshaken).mono fun r _ =>
      connectStage_mono (fun pos hpos => ⟨s, p, hpos⟩) r
  have hauthenticated :
      ((((c.openSocket w).next (CSftpConnection.startSession w args.useCompression)).next
      (CSftpConnection.checkHostKey hmac w args.host args.port)).next
      fun c => (c.authenticate w.auth args.user args.password args.keyFile).orDisconnect).Goes
      ⟨.idle, .begun args⟩ (ConnectStage fun pos => ∃ s p, pos.phase = .shaken s p false ∧
        pos.trust.session = some p) := by
    refine hverified.then ?_
    rintro _ ⟨s, p, rfl⟩ hshaken
    exact (goes_authenticate hshaken).stage_orDisconnect fun pos hphase htrust =>
      ⟨s, p, hphase, htrust⟩
  refine hauthenticated.then ?_
  rintro ⟨phase, trust⟩ ⟨s, p, hphase, htrust⟩ hshaken
  dsimp only at hphase
  subst hphase
  exact goes_startSftp hshaken htrust

end Goes

/-! ## The other methods -/

/-- What `select`, `recv` and `libssh2_keepalive_send` answer. -/
structure Liveness where
  select : ℤ
  exceptional : Bool
  readable : Bool
  recv : ℤ
  wouldBlock : Bool
  /-- A result other than 0 and `LIBSSH2_ERROR_EAGAIN`. -/
  keepaliveFails : Bool

namespace CSftpConnection

def isConnected (w : Liveness) (c : CSftpConnection) : Bool × List SshCall :=
  match c.Sock, c.Session with
  | some sock, some session =>
    if c.ScpMode = false ∧ c.Sftp = none then (false, [])
    else if w.select < 0 then (false, [.select sock])
    else if 0 < w.select ∧ w.exceptional = true then (false, [.select sock])
    else if 0 < w.select ∧ w.readable = true then
      if w.recv = 0 ∨ w.recv < 0 ∧ w.wouldBlock = false then (false, [.select sock, .recv sock])
      else (!w.keepaliveFails, [.select sock, .recv sock, .keepaliveSend session])
    else (!w.keepaliveFails, [.select sock, .keepaliveSend session])
  | _, _ => (false, [])

def sendKeepalive (fails : Bool) (c : CSftpConnection) : Bool × List SshCall :=
  match c.Sock, c.Session with
  | some _, some session => (!fails, [.keepaliveSend session])
  | _, _ => (false, [])

/-- What a method does with the connection, one thing after the other. -/
inductive Interaction
  /-- A function of `libssh2_sftp` with a path. -/
  | sftpCall
  /-- An open, calls with the handle and questions of `SetError` between them, and a close. -/
  | sftpFile (file : Option ℕ) (body : List (Option Bool))
  /-- A channel with a command. -/
  | exec (channel : Option ℕ) (body : List (Option Bool))
  /-- `libssh2_scp_recv2` or `libssh2_scp_send64`. -/
  | scp (channel : Option ℕ) (body : List (Option Bool))
  /-- `SetError` -/
  | setError (session : Bool)

/-- What `SetError` asks. -/
def errorCalls (c : CSftpConnection) (session : Bool) : List SshCall :=
  c.Sftp.elim [] (fun sftp => [.sftpLastError sftp]) ++
    if session then c.Session.elim [] fun session => [.sessionLastError session] else []

/-- Calls with a handle that was opened, some of them with questions of `SetError` behind. -/
def bodyCalls (c : CSftpConnection) (call : SshCall) (body : List (Option Bool)) : List SshCall :=
  body.flatMap fun error => call :: error.elim [] c.errorCalls

/-- The functions of `libssh2_sftp`, and those that open a channel, refuse NULL; those of SCP do
not. -/
def interact (c : CSftpConnection) : Interaction → List SshCall
  | .sftpCall => if c.ScpMode then [] else c.Sftp.elim [] fun sftp => [.sftpCall sftp]
  | .sftpFile file body =>
    if c.ScpMode then []
    else
      c.Sftp.elim [] fun sftp => .sftpOpen sftp file ::
        file.elim [] fun file => c.bodyCalls (.fileCall file) body ++ [.sftpClose file]
  | .exec channel body =>
    c.Session.elim [] fun session => .channelOpen session channel ::
      channel.elim [] fun channel =>
        c.bodyCalls (.channelCall channel) body ++ [.channelFree channel]
  | .scp channel body =>
    if c.ScpMode then
      c.Session.elim [.invalid] fun session => .scpOpen session channel ::
        channel.elim [] fun channel =>
          c.bodyCalls (.channelCall channel) body ++ [.channelFree channel]
    else []
  | .setError session => c.errorCalls session

end CSftpConnection

/-! ## Runs -/

inductive ConnectionAct
  | connect (w : ConnectWorld) (args : ConnectArgs)
  | disconnect
  | isConnected (w : Liveness)
  | sendKeepalive (fails : Bool)
  /-- A method, with the message that it leaves. -/
  | method (interactions : List CSftpConnection.Interaction) (text : CStr)

namespace CSftpConnection

variable (hmac : Bytes → CStr → Bytes)

def act (c : CSftpConnection) : ConnectionAct → Outcome
  | .connect w args => c.connect hmac w args
  | .disconnect => ⟨some true, c.disconnect.1, c.disconnect.2⟩
  | .isConnected w => ⟨some (c.isConnected w).1, c, (c.isConnected w).2⟩
  | .sendKeepalive fails => ⟨some (c.sendKeepalive fails).1, c, (c.sendKeepalive fails).2⟩
  | .method interactions text =>
    ⟨some true, { c with ErrorMsg := text }, interactions.flatMap c.interact⟩

/-- The connection after some acts, and all its calls. -/
def run (c : CSftpConnection) : List ConnectionAct → CSftpConnection × List SshCall
  | [] => (c, [])
  | a :: acts =>
    let o := c.act hmac a
    let more := o.conn.run acts
    (more.1, o.calls ++ more.2)

end CSftpConnection

/-- Between two acts there is a session with its socket, which is trusted, or nothing. -/
def Position.Settled (pos : Position) : Prop :=
  match pos.phase with
  | .idle => True
  | .shaken _ p _ => pos.trust.session = some p
  | .sftp _ p q => pos.trust.session = some p ∧ .sftp q ∈ pos.trust.reached
  | .socket _ | .session _ _ => False

theorem Position.Settled.session {pos : Position} (h : pos.Settled) {p : ℕ}
    (hp : pos.phase.Session = some p) :
    pos.trust.session = some p := by
  obtain ⟨phase, trust⟩ := pos
  cases phase with
  | idle => cases hp
  | socket s => cases hp
  | session s p => exact h.elim
  | shaken s p scp =>
    obtain rfl := Option.some.inj hp
    exact h
  | sftp s p q =>
    obtain rfl := Option.some.inj hp
    exact h.1

theorem Position.Settled.sftp {pos : Position} (h : pos.Settled) {q : ℕ}
    (hq : pos.phase.Sftp = some q) :
    .sftp q ∈ pos.trust.reached := by
  obtain ⟨phase, trust⟩ := pos
  cases phase with
  | sftp s p q =>
    obtain rfl := Option.some.inj hq
    exact h.2
  | _ => cases hq

section Runs

variable {c : CSftpConnection} {hmac : Bytes → CStr → Bytes} {pos : Position}

attribute [local simp] Watch.follow_cons Watch.step Trust.step SshCall.events
  givenOn Held.follow_cons Held.track

/-- Calls that leave everything as it is. -/
def Quiet (pos : Position) (calls : List SshCall) : Prop := pos.watch.follow calls = some pos.watch

theorem Quiet.append {calls more : List SshCall} (h : Quiet pos calls) (hmore : Quiet pos more) :
    Quiet pos (calls ++ more) := Watch.follow_append_of h hmore

theorem quiet_flatMap {α : Type*} {calls : α → List SshCall} {xs : List α}
    (h : ∀ x ∈ xs, Quiet pos (calls x)) :
    Quiet pos (xs.flatMap calls) := by
  induction xs with
  | nil => rfl
  | cons x xs ih =>
    rw [List.flatMap_cons]
    exact (h x List.mem_cons_self).append (ih fun y hy => h y (List.mem_cons_of_mem x hy))

theorem quiet_of_steps {s : Watch} {calls : List SshCall}
    (h : ∀ call ∈ calls, s.step call = some s) :
    s.follow calls = some s := by
  induction calls with
  | nil => rfl
  | cons call calls ih =>
    rw [Watch.follow_cons, h call List.mem_cons_self]
    exact ih fun other hother => h other (List.mem_cons_of_mem call hother)

theorem Phase.sock_live {phase : Phase} {sock : ℕ} (h : phase.Sock = some sock) :
    .socket sock ∈ phase.held.live := by
  cases phase <;> simp_all [Phase.Sock, Phase.held]

theorem Phase.session_live {phase : Phase} {p : ℕ} (h : phase.Session = some p) :
    .session p ∈ phase.held.live := by
  cases phase <;> simp_all [Phase.Session, Phase.held]

theorem Phase.sftp_live {phase : Phase} {q : ℕ} (h : phase.Sftp = some q) :
    .sftp q ∈ phase.held.live := by
  cases phase <;> simp_all [Phase.Sftp, Phase.held]

/-- The questions of `SetError` can be asked as long as the members are held. -/
theorem step_errorCalls {phase : Phase} (hat : c.At phase) {s : Watch}
    (hlive : phase.held.live ⊆ s.held.live)
    (session : Bool) : ∀ call ∈ c.errorCalls session, s.step call = some s := by
  intro call hcall
  rcases List.mem_append.mp hcall with hcall | hcall
  · rcases hsftp : c.Sftp with _ | q
    · rw [hsftp] at hcall
      cases hcall
    · rw [hsftp] at hcall
      obtain rfl := List.mem_singleton.mp hcall
      have hq := hlive (Phase.sftp_live (hat.sftp ▸ hsftp))
      simp [hq]
  · cases session with
    | false => cases hcall
    | true =>
      rcases hsession : c.Session with _ | p
      · rw [hsession] at hcall
        cases hcall
      · rw [hsession] at hcall
        obtain rfl := List.mem_singleton.mp hcall
        have hp := hlive (Phase.session_live (hat.session ▸ hsession))
        simp [hp]

theorem Phase.sound (phase : Phase) : phase.held.Sound := by
  cases phase with
  | idle => exact Held.sound_none
  | socket s => exact ⟨by simp [Phase.held], by simp [Phase.held]⟩
  | session s p => exact ⟨by simp [Phase.held], by simp [Phase.held]⟩
  | shaken s p scp => exact ⟨by simp [Phase.held], by simp [Phase.held]⟩
  | sftp s p q => exact ⟨by simp [Phase.held], by simp [Phase.held]⟩

/-- A handle that is opened on another and closed again. -/
theorem quiet_bracket (hat : c.At pos.phase) {base handle : Handle} {opening call closing : SshCall}
    (hbase : base ∈ pos.phase.held.live) (hnew : handle ∉ pos.phase.held.live)
    (hopening : ∀ held, (Watch.mk held pos.trust).step opening =
      (held.follow [.use base, .acquire handle, .rest handle base]).bind fun held =>
        some ⟨held, pos.trust.reach (some handle)⟩)
    (hcall : ∀ held, (Watch.mk held (pos.trust.reach (some handle))).step call =
      (held.follow [.use handle]).bind fun held => some ⟨held, pos.trust.reach (some handle)⟩)
    (hclosing : ∀ held, (Watch.mk held (pos.trust.reach (some handle))).step closing =
      (held.follow [.release handle]).bind fun held => some ⟨held, pos.trust⟩)
    (body : List (Option Bool)) : Quiet pos (opening :: (c.bodyCalls call body ++ [closing])) := by
  have hsound := pos.phase.sound
  obtain ⟨phase, trust⟩ := pos
  dsimp only at hat hbase hnew hsound hopening hcall hclosing
  set opened : Watch :=
    ⟨⟨insert handle phase.held.live, insert (handle, base) phase.held.rests⟩,
      trust.reach (some handle)⟩ with hopened
  have hopen : (Position.watch ⟨phase, trust⟩).step opening = some opened := by
    show (Watch.mk phase.held trust).step opening = _
    rw [hopening]
    simp [hbase, hnew, hopened]
  have hbody : opened.follow (c.bodyCalls call body) = some opened := by
    refine quiet_of_steps fun step hstep => ?_
    obtain ⟨error, -, hstep⟩ := List.mem_flatMap.mp hstep
    rcases List.mem_cons.mp hstep with rfl | hstep
    · rw [hopened, hcall]
      simp
    · cases error with
      | none => cases hstep
      | some session => exact step_errorCalls hat (Finset.subset_insert _ _) session step hstep
  have hclose : opened.follow [closing] = some (Position.watch ⟨phase, trust⟩) := by
    have hrests : ∀ p ∈ phase.held.rests, p.2 ≠ handle ∧ p.1 ≠ handle :=
      fun p hp =>
        ⟨fun heq => hnew (heq ▸ hsound.base p hp), fun heq => hnew (heq ▸ hsound.upper p hp)⟩
    have hne : base ≠ handle := fun heq => hnew (heq ▸ hbase)
    have hfilter : (insert (handle, base) phase.held.rests).filter (·.1 ≠ handle) =
        phase.held.rests := by
      rw [Finset.filter_insert, if_neg (not_not_intro rfl)]
      exact Finset.filter_true_of_mem fun p hp => (hrests p hp).2
    have htrack : opened.held.track (.release handle) = some phase.held := by
      refine Held.track_release.mpr ⟨⟨Finset.mem_insert_self _ _, ?_⟩, ?_⟩
      · intro p hp
        rcases Finset.mem_insert.mp hp with rfl | hp
        · exact hne
        · exact (hrests p hp).1
      · rw [hopened]
        dsimp only
        rw [Finset.erase_insert hnew, hfilter]
    rw [Watch.follow_cons, hopened, hclosing, Held.follow_singleton, htrack]
    rfl
  unfold Quiet
  rw [Watch.follow_cons, hopen]
  exact Watch.follow_append_of hbody hclose

theorem Phase.not_live (phase : Phase) (p : ℕ) :
    Handle.file p ∉ phase.held.live ∧ Handle.channel p ∉ phase.held.live := by
  cases phase <;> simp [Phase.held, Held.none]

theorem quiet_isConnected (hat : c.At pos.phase) (w : Liveness) :
    Quiet pos (c.isConnected w).2 := by
  obtain ⟨phase, trust⟩ := pos
  unfold CSftpConnection.isConnected
  rcases hsock : c.Sock with _ | sock
  · rfl
  rcases hsession : c.Session with _ | session
  · rfl
  have hs := Phase.sock_live (hat.sock ▸ hsock)
  have hp := Phase.session_live (hat.session ▸ hsession)
  have hselect : (Watch.mk phase.held trust).step (.select sock) = some ⟨phase.held, trust⟩ := by
    simp [hs]
  have hrecv : (Watch.mk phase.held trust).step (.recv sock) = some ⟨phase.held, trust⟩ := by
    simp [hs]
  have hsend : (Watch.mk phase.held trust).step (.keepaliveSend session) =
      some ⟨phase.held, trust⟩ := by simp [hp]
  have hsteps : ∀ call ∈ [SshCall.select sock, .recv sock, .keepaliveSend session],
      (Watch.mk phase.held trust).step call = some ⟨phase.held, trust⟩ := by
    simp only [List.forall_mem_cons]
    exact ⟨hselect, hrecv, hsend, by simp⟩
  apply quiet_of_steps
  intro call hcall
  apply hsteps
  dsimp only at hcall
  split_ifs at hcall <;> simp at hcall ⊢ <;> tauto

theorem quiet_use {call : SshCall} {h : Handle} (hlive : h ∈ pos.phase.held.live)
    (hcall : ∀ held, (Watch.mk held pos.trust).step call =
      (held.follow [.use h]).bind fun held => some ⟨held, pos.trust⟩) : Quiet pos [call] := by
  refine quiet_of_steps fun step hstep => ?_
  obtain rfl := List.mem_singleton.mp hstep
  show (Watch.mk pos.phase.held pos.trust).step step = some ⟨pos.phase.held, pos.trust⟩
  rw [hcall]
  simp [hlive]

theorem quiet_sftpFile (hat : c.At pos.phase) (hsettled : pos.Settled)
    {q : ℕ} (hsftp : c.Sftp = some q)
    (file : Option ℕ) (body : List (Option Bool)) :
    Quiet pos (.sftpOpen q file :: file.elim [] fun file =>
      c.bodyCalls (.fileCall file) body ++ [.sftpClose file]) := by
  have hq := Phase.sftp_live (hat.sftp ▸ hsftp)
  have hreached := hsettled.sftp (hat.sftp ▸ hsftp)
  have hopen : ∀ held, (Watch.mk held pos.trust).step (.sftpOpen q file) =
      (held.follow (.use (.sftp q) :: givenOn (file.map .file) (.sftp q))).bind fun held =>
        some ⟨held, pos.trust.reach (file.map .file)⟩ := by
    intro held
    simp only [Watch.step, Trust.step, if_pos hreached]
    rfl
  rcases file with _ | f
  · exact quiet_use hq hopen
  · refine quiet_bracket hat hq (Phase.not_live pos.phase f).1 hopen
      (fun held => ?_) (fun held => ?_) body
    · simp only [Watch.step, Trust.step, Trust.reach, Option.toList,
      List.singleton_append, List.mem_cons, true_or,
        if_true]
      rfl
    · simp only [Watch.step, Trust.step, Trust.leave_reach]
      rfl

theorem quiet_channel (hat : c.At pos.phase) (hsettled : pos.Settled) {p : ℕ}
    (hsession : c.Session = some p)
    {opening : SshCall} {channel : Option ℕ}
    (hopening : opening = .channelOpen p channel ∨ opening = .scpOpen p channel)
    (body : List (Option Bool)) :
    Quiet pos (opening :: channel.elim [] fun channel =>
      c.bodyCalls (.channelCall channel) body ++ [.channelFree channel]) := by
  have hp := Phase.session_live (hat.session ▸ hsession)
  have htrust := hsettled.session (hat.session ▸ hsession)
  have hopen : ∀ held, (Watch.mk held pos.trust).step opening =
      (held.follow (.use (.session p) :: givenOn (channel.map .channel) (.session p))).bind
        fun held =>
        some ⟨held, pos.trust.reach (channel.map .channel)⟩ := by
    intro held
    rcases hopening with rfl | rfl
    · simp only [Watch.step, Trust.step, if_pos htrust]
      rfl
    · simp only [Watch.step, Trust.step, if_pos htrust]
      rfl
  rcases channel with _ | ch
  · exact quiet_use hp hopen
  · refine quiet_bracket hat hp (Phase.not_live pos.phase ch).2 hopen
      (fun held => ?_) (fun held => ?_) body
    · simp only [Watch.step, Trust.step, Trust.reach, Option.toList,
      List.singleton_append, List.mem_cons, true_or,
        if_true]
      rfl
    · simp only [Watch.step, Trust.step, Trust.leave_reach]
      rfl

theorem quiet_interact (hat : c.At pos.phase) (hsettled : pos.Settled)
    (i : CSftpConnection.Interaction) :
    Quiet pos (c.interact i) := by
  cases i with
  | sftpCall =>
    unfold CSftpConnection.interact
    split_ifs
    · rfl
    · rcases hsftp : c.Sftp with _ | q
      · rfl
      · refine quiet_use (Phase.sftp_live (hat.sftp ▸ hsftp)) fun held => ?_
        simp only [Watch.step, Trust.step, if_pos (hsettled.sftp (hat.sftp ▸ hsftp))]
        rfl
  | sftpFile file body =>
    unfold CSftpConnection.interact
    split_ifs
    · rfl
    · rcases hsftp : c.Sftp with _ | q
      · rfl
      · exact quiet_sftpFile hat hsettled hsftp file body
  | exec channel body =>
    unfold CSftpConnection.interact
    rcases hsession : c.Session with _ | p
    · rfl
    · exact quiet_channel hat hsettled hsession (.inl rfl) body
  | scp channel body =>
    unfold CSftpConnection.interact
    split_ifs with hscp
    · -- the SCP mode has a session behind it
      obtain ⟨s, p, hphase⟩ : ∃ s p, pos.phase = .shaken s p true := by
        rw [hat.scp] at hscp
        generalize pos.phase = phase at hscp
        cases phase <;> simp_all [Phase.ScpMode]
      have hsession : c.Session = some p := by rw [hat.session, hphase]; rfl
      rw [hsession]
      exact quiet_channel hat hsettled hsession (.inr rfl) body
    · rfl
  | setError session => exact quiet_of_steps (step_errorCalls hat (Finset.Subset.refl _) session)

/-- `Connect` gives back what was held before, and leaves a connection or nothing; an exception
leaves a session. -/
theorem goes_connect (hat : c.At pos.phase) (w : ConnectWorld) (args : ConnectArgs) :
    (c.connect hmac w args).Goes pos (ConnectStage Position.Connected) := by
  have hbegin : pos.watch.step (.begin args) = some (Position.watch ⟨pos.phase, .begun args⟩) := rfl
  have hbegun : c.At (Position.mk pos.phase (.begun args)).phase := hat
  obtain ⟨hidle, trust, hdisconnect, htrust⟩ := hbegun.disconnect
  obtain rfl : trust = .begun args := by
    rcases htrust with rfl | rfl <;> rfl
  obtain ⟨pos', hstage, hat', hfollow⟩ := @goes_connectSteps _ w args hmac hidle
  refine ⟨pos', hstage, hat', ?_⟩
  show pos.watch.follow (.begin args :: (c.disconnect.2 ++ _)) = _
  rw [Watch.follow_cons, hbegin]
  exact Watch.follow_append_of hdisconnect hfollow

theorem goes_act (hat : c.At pos.phase) (hsettled : pos.Settled) (a : ConnectionAct) :
    (c.act hmac a).Goes pos fun _ pos' => pos'.Settled := by
  cases a with
  | connect w args =>
    refine (goes_connect hat w args).mono fun r pos' hstage => ?_
    unfold Position.Settled
    match r with
    | some true =>
      rcases hstage with ⟨s, p, hphase, htrust⟩ | ⟨s, p, q, hphase, htrust⟩
      · rw [hphase]
        exact htrust
      · rw [hphase]
        exact htrust
    | some false =>
      have hphase : pos'.phase = .idle := hstage
      rw [hphase]
      trivial
    | none =>
      obtain ⟨s, p, hphase, htrust⟩ := hstage
      rw [hphase]
      exact htrust
  | disconnect =>
    obtain ⟨hidle, trust, hfollow, -⟩ := CSftpConnection.At.disconnect hat
    exact ⟨⟨.idle, trust⟩, trivial, hidle, hfollow⟩
  | isConnected w => exact ⟨pos, hsettled, hat, quiet_isConnected hat w⟩
  | sendKeepalive fails =>
    refine ⟨pos, hsettled, hat, ?_⟩
    show Quiet pos (c.sendKeepalive fails).2
    unfold CSftpConnection.sendKeepalive
    rcases c.Sock with _ | sock
    · rfl
    rcases hsession : c.Session with _ | session
    · rfl
    exact quiet_use (Phase.session_live (hat.session ▸ hsession)) fun _ => rfl
  | method interactions text =>
    exact ⟨pos, hsettled, hat.withMessage text,
      quiet_flatMap fun i _ => quiet_interact hat hsettled i⟩

theorem goes_run (hat : c.At pos.phase) (hsettled : pos.Settled) (acts : List ConnectionAct) :
    ∃ pos' : Position, pos'.Settled ∧ (c.run hmac acts).1.At pos'.phase ∧
      pos.watch.follow (c.run hmac acts).2 = some pos'.watch := by
  induction acts generalizing c pos with
  | nil => exact ⟨pos, hsettled, hat, rfl⟩
  | cons a acts ih =>
    obtain ⟨pos', hsettled', hat', hfollow⟩ := @goes_act _ hmac _ hat hsettled a
    obtain ⟨pos'', hsettled'', hat'', hfollow'⟩ := ih hat' hsettled'
    exact ⟨pos'', hsettled'', hat'', Watch.follow_append_of hfollow hfollow'⟩

end Runs

end SalamanderSftp
