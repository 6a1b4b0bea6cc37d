import SalamanderSftp.Lib.Handles
import SalamanderSftp.Lib.Journal
import SalamanderSftp.Fs.ChangePath

/-!
# The calls of a connection

What a `CSftpConnection` calls of the system and of libssh2, with the handles that each call takes,
gives, or gives back. A function of the model returns the object afterwards and the calls in their
order; what a call answers is part of the function's arguments.
-/

namespace SalamanderSftp

open Handles

/-! ## Calls -/

inductive Handle
  | addrinfo (p : ℕ)
  | socket (s : ℕ)
  | session (p : ℕ)
  | knownhosts (p : ℕ)
  | sftp (p : ℕ)
  /-- `LIBSSH2_SFTP_HANDLE` -/
  | file (p : ℕ)
  | channel (p : ℕ)
  /-- What is never given. -/
  | null
  deriving DecidableEq

inductive KbdAnswer
  /-- The stored password. -/
  | stored (text : CStr)
  /-- What the callback was asked, and what it filled in. -/
  | typed (prompt : CStr) (echo : Bool) (text : Option CStr)
  /-- No response, without a callback. -/
  | nothing
  deriving DecidableEq

inductive SshCall
  /-- `Connect` is called. -/
  | begin (args : ConnectArgs)
  | getaddrinfo (res : Option ℕ)
  | socket (res : ℕ) (sock : Option ℕ)
  | connect (sock res : ℕ)
  | freeaddrinfo (res : ℕ)
  | setsockopt (sock : ℕ)
  | sessionInit (session : Option ℕ)
  /-- Modes, timeouts, preferences and intervals. -/
  | sessionSetting (session : ℕ)
  | handshake (session sock : ℕ)
  | hostkey (session : ℕ)
  | knownhostInit (session : ℕ) (kh : Option ℕ)
  | knownhostFree (kh : ℕ)
  /-- `VerifyHostKey` returns true. -/
  | verified (session : ℕ) (host : CStr) (port : ℤ)
  | userauthList (session : ℕ) (user : CStr)
  | userauthPassword (session : ℕ) (user password : CStr)
  | publickeyFromFile (session : ℕ) (user keyFile : CStr) (passphrase : Option CStr)
  | publickeyFromMemory (session : ℕ) (user : CStr) (pem : Bytes)
  | keyboardInteractive (session : ℕ) (user : CStr)
  | kbdResponse (session : ℕ) (answer : KbdAnswer)
  | sftpInit (session : ℕ) (command : CStr) (sftp : Option ℕ)
  | select (sock : ℕ)
  | recv (sock : ℕ)
  | keepaliveSend (session : ℕ)
  | sessionLastError (session : ℕ)
  | sftpLastError (sftp : ℕ)
  /-- A function of `libssh2_sftp` with a path. -/
  | sftpCall (sftp : ℕ)
  /-- `libssh2_sftp_open`, `libssh2_sftp_opendir` -/
  | sftpOpen (sftp : ℕ) (file : Option ℕ)
  | fileCall (file : ℕ)
  | sftpClose (file : ℕ)
  | channelOpen (session : ℕ) (channel : Option ℕ)
  /-- `libssh2_scp_recv2`, `libssh2_scp_send64` -/
  | scpOpen (session : ℕ) (channel : Option ℕ)
  /-- A call that needs a handle which is not there. -/
  | invalid
  | channelCall (channel : ℕ)
  | channelFree (channel : ℕ)
  | sftpShutdown (sftp : ℕ)
  | sessionDisconnect (session : ℕ)
  | sessionFree (session : ℕ)
  | closesocket (sock : ℕ)
  deriving DecidableEq

/-- A handle that is given and rests on another, if it is given. -/
def givenOn (h : Option Handle) (base : Handle) : List (Event Handle) :=
  h.elim [] fun h => [.acquire h, .rest h base]

namespace SshCall

/-- What a call does with handles. -/
def events : SshCall → List (Event Handle)
  | .begin _ => []
  | .getaddrinfo res => res.elim [] fun res => [.acquire (.addrinfo res)]
  | .socket res sock => .use (.addrinfo res) :: sock.elim [] fun sock => [.acquire (.socket sock)]
  | .connect sock res => [.use (.socket sock), .use (.addrinfo res)]
  | .freeaddrinfo res => [.release (.addrinfo res)]
  | .setsockopt sock => [.use (.socket sock)]
  | .sessionInit session => session.elim [] fun session => [.acquire (.session session)]
  | .sessionSetting session => [.use (.session session)]
  | .handshake session sock => [.rest (.session session) (.socket sock)]
  | .hostkey session => [.use (.session session)]
  | .knownhostInit session kh =>
    .use (.session session) :: givenOn (kh.map .knownhosts) (.session session)
  | .knownhostFree kh => [.release (.knownhosts kh)]
  | .verified _ _ _ => []
  | .userauthList session _ => [.use (.session session)]
  | .userauthPassword session _ _ => [.use (.session session)]
  | .publickeyFromFile session _ _ _ => [.use (.session session)]
  | .publickeyFromMemory session _ _ => [.use (.session session)]
  | .keyboardInteractive session _ => [.use (.session session)]
  | .kbdResponse session _ => [.use (.session session)]
  | .sftpInit session _ sftp =>
    .use (.session session) :: givenOn (sftp.map .sftp) (.session session)
  | .select sock => [.use (.socket sock)]
  | .recv sock => [.use (.socket sock)]
  | .keepaliveSend session => [.use (.session session)]
  | .sessionLastError session => [.use (.session session)]
  | .sftpLastError sftp => [.use (.sftp sftp)]
  | .sftpCall sftp => [.use (.sftp sftp)]
  | .sftpOpen sftp file => .use (.sftp sftp) :: givenOn (file.map .file) (.sftp sftp)
  | .fileCall file => [.use (.file file)]
  | .sftpClose file => [.release (.file file)]
  | .channelOpen session channel =>
    .use (.session session) :: givenOn (channel.map .channel) (.session session)
  | .scpOpen session channel =>
    .use (.session session) :: givenOn (channel.map .channel) (.session session)
  | .invalid => [.use .null]
  | .channelCall channel => [.use (.channel channel)]
  | .channelFree channel => [.release (.channel channel)]
  | .sftpShutdown sftp => [.release (.sftp sftp)]
  | .sessionDisconnect session => [.use (.session session)]
  | .sessionFree session => [.release (.session session)]
  | .closesocket sock => [.release (.socket sock)]

end SshCall

/-! ## Watching the calls -/

/-- What has been given away, and to whom, since `Connect` was called. -/
structure Trust where
  args : Option ConnectArgs
  /-- The session whose host key was accepted for the host and the port of `args`. -/
  session : Option ℕ
  passwords : ℕ
  responses : ℕ
  /-- What was opened on that session since, and on what was opened on it. -/
  reached : List Handle
  deriving DecidableEq

namespace Trust

def none : Trust := ⟨.none, .none, 0, 0, []⟩

def Allows (t : Trust) (session : ℕ) (ok : ConnectArgs → Prop) : Prop :=
  t.session = some session ∧ ∃ a ∈ t.args, ok a

instance (t : Trust) (session : ℕ) (ok : ConnectArgs → Prop) [DecidablePred ok] :
    Decidable (t.Allows session ok) := by
  unfold Allows
  infer_instance

def reach (t : Trust) (h : Option Handle) : Trust := { t with reached := h.toList ++ t.reached }

def leave (t : Trust) (h : Handle) : Trust := { t with reached := t.reached.erase h }

def untrusted (t : Trust) : Trust := { t with session := .none, reached := [] }

@[simp] theorem reach_none (t : Trust) : t.reach .none = t := rfl

@[simp] theorem leave_reach (t : Trust) (h : Handle) : (t.reach (some h)).leave h = t := by
  show { t with reached := (h :: t.reached).erase h } = t
  rw [List.erase_cons_head]

/-- What is given away goes to a trusted session: the password itself once, and once as the first
response to a prompt, and nothing of it when there is a key file; commands, files and directories go
the same way. -/
def step (t : Trust) : SshCall → Option Trust
  | .begin args => some ⟨args, .none, 0, 0, []⟩
  | .sessionInit _ => some t.untrusted
  | .sessionFree _ => some t.untrusted
  | .verified session host port =>
    if ∃ a ∈ t.args, a.host = host ∧
      a.port = port then some { t with session := some session, reached := [] }
    else .none
  | .userauthList session user =>
    if t.Allows session (fun a => a.user = user) then some t else .none
  | .userauthPassword session user password =>
    if t.Allows session (fun a => a.keyFile = [] ∧ a.user = user ∧ a.password = password) ∧
      t.passwords = 0 then
      some { t with passwords := t.passwords + 1 }
    else .none
  | .keyboardInteractive session user =>
    if t.Allows session (fun a => a.keyFile = [] ∧ a.user = user) then some t else .none
  | .kbdResponse session (.stored text) =>
    if t.Allows session (fun a => a.keyFile = [] ∧ a.password ≠ [] ∧
      text = lstrcpyn a.password 1024) ∧
        t.responses = 0 then
      some { t with responses := t.responses + 1 }
    else .none
  | .kbdResponse session _ =>
    if t.Allows session fun a => a.keyFile =
      [] then some { t with responses := t.responses + 1 } else .none
  | .publickeyFromFile session user _ _ =>
    if t.Allows session (fun a => a.keyFile ≠ [] ∧ a.user = user) then some t else .none
  | .publickeyFromMemory session user _ =>
    if t.Allows session (fun a => a.keyFile ≠ [] ∧ a.user = user) then some t else .none
  | .sftpInit session _ sftp =>
    if t.session = some session then some (t.reach (sftp.map .sftp)) else .none
  | .channelOpen session channel | .scpOpen session channel =>
    if t.session = some session then some (t.reach (channel.map .channel)) else .none
  | .sftpOpen sftp file => if .sftp sftp ∈ t.reached then some (t.reach (file.map .file)) else .none
  | .sftpCall sftp => if .sftp sftp ∈ t.reached then some t else .none
  | .fileCall file => if .file file ∈ t.reached then some t else .none
  | .channelCall channel => if .channel channel ∈ t.reached then some t else .none
  | .sftpClose file => some (t.leave (.file file))
  | .channelFree channel => some (t.leave (.channel channel))
  | _ => some t

end Trust

/-- What is known behind some calls. -/
structure Watch where
  held : Held Handle
  trust : Trust

namespace Watch

def none : Watch := ⟨.none, .none⟩

def step (s : Watch) (call : SshCall) : Option Watch :=
  (s.held.follow call.events).bind fun held => (s.trust.step call).map fun trust => ⟨held, trust⟩

/-- The calls respect the handles, and nothing is given away that must not be. -/
def follow (s : Watch) (calls : List SshCall) : Option Watch := calls.foldlM step s

@[simp] theorem follow_nil (s : Watch) : s.follow [] = some s := rfl

theorem follow_cons (s : Watch) (call : SshCall) (calls : List SshCall) :
    s.follow (call :: calls) = (s.step call).bind fun t => t.follow calls := rfl

theorem follow_append (s : Watch) (calls more : List SshCall) :
    s.follow (calls ++ more) = (s.follow calls).bind fun t => t.follow more := List.foldlM_append ..

theorem follow_append_of {s t u : Watch} {calls more : List SshCall} (h : s.follow calls = some t)
    (hmore : t.follow more = some u) : s.follow (calls ++ more) = some u := by
  rw [follow_append, h]
  exact hmore

theorem held_of_follow {s t : Watch} {calls : List SshCall} (h : s.follow calls = some t) :
    s.held.follow (calls.flatMap SshCall.events) = some t.held := by
  induction calls generalizing s with
  | nil =>
    obtain rfl := Option.some.inj h
    rfl
  | cons call calls ih =>
    rw [follow_cons] at h
    obtain ⟨u, hu, ht⟩ := Option.bind_eq_some_iff.mp h
    obtain ⟨held, hheld, hmap⟩ := Option.bind_eq_some_iff.mp hu
    obtain ⟨trust, -, rfl⟩ := Option.map_eq_some_iff.mp hmap
    rw [List.flatMap_cons, Held.follow_append, hheld]
    exact ih ht

end Watch

/-! ## The object -/

/-- The members that `Connect` sets; `INVALID_SOCKET` and `nullptr` are `none`. -/
structure CSftpConnection where
  ScpMode : Bool
  Sock : Option ℕ
  Session : Option ℕ
  Sftp : Option ℕ
  ErrorMsg : CStr
  SftpServerCmd : CStr
  deriving DecidableEq

namespace CSftpConnection

/-- The constructor. -/
def new : CSftpConnection := ⟨false, none, none, none, [], []⟩

/-- What libssh2 answers about its last errors. -/
structure LastErrors where
  sftp : ℕ
  session : Option CStr

def sftpErrorTexts : List (ℕ × CStr) :=
  [(1, ascii "End of file"), (2, ascii "No such file or directory"), (3, ascii "Permission denied"),
    (4, ascii "Generic failure"), (5, ascii "Bad message"), (6, ascii "No connection"),
      (7, ascii "Connection lost"),
    (8, ascii "Operation unsupported"), (9, ascii "Invalid handle"), (10, ascii "No such path"),
    (11, ascii "File already exists"), (12, ascii "Write protect"), (13, ascii "No media"),
    (14, ascii "No space on filesystem"), (15, ascii "Quota exceeded"),
      (16, ascii "Unknown principal"),
    (17, ascii "Lock conflict"), (18, ascii "Directory not empty"), (19, ascii "Not a directory")]

/-- The text that `SetError` gives for an error of the SFTP subsystem. -/
def sftpDesc (c : CSftpConnection) (errors : LastErrors) : Option CStr :=
  sftpErrorTexts.lookup (if c.Sftp.isSome then errors.sftp else 0)

def setError (c : CSftpConnection) (errors : LastErrors) (ctx : CStr) :
    CSftpConnection × List SshCall :=
  let asked := c.Sftp.elim [] fun sftp => [.sftpLastError sftp]
  match c.sftpDesc errors with
  | some desc =>
    ({ c with
        ErrorMsg := lstrcpyn
          (ctx ++ ascii ": " ++ desc ++ ascii " (SFTP " ++ decimal errors.sftp ++ ascii ")") 512 },
      asked)
  | none =>
    match c.Session with
    | some session =>
      ({ c with
          ErrorMsg := lstrcpyn
            (ctx ++ ascii ": " ++ errors.session.getD (ascii "(unknown error)")) 512 },
        asked ++ [.sessionLastError session])
    | none => ({ c with ErrorMsg := lstrcpyn ctx 512 }, asked)

def disconnect (c : CSftpConnection) : CSftpConnection × List SshCall :=
  ({ c with ScpMode := false, SftpServerCmd := [], Sftp := none, Session := none, Sock := none },
    c.Sftp.elim [] (fun sftp => [.sftpShutdown sftp]) ++
      c.Session.elim [] (fun session => [.sessionDisconnect session, .sessionFree session]) ++
      c.Sock.elim [] fun sock => [.closesocket sock])

end CSftpConnection

/-! ## What is held -/

/-- How far a connection has come. -/
inductive Phase
  | idle
  | socket (sock : ℕ)
  | session (sock session : ℕ)
  /-- The session works on the socket, in SCP mode or not yet. -/
  | shaken (sock session : ℕ) (scp : Bool)
  | sftp (sock session sftp : ℕ)
  deriving DecidableEq

namespace Phase

def held : Phase → Held Handle
  | .idle => .none
  | .socket s => ⟨{.socket s}, ∅⟩
  | .session s p => ⟨{.session p, .socket s}, ∅⟩
  | .shaken s p _ => ⟨{.session p, .socket s}, {(.session p, .socket s)}⟩
  | .sftp s p q =>
    ⟨{.sftp q, .session p, .socket s}, {(.sftp q, .session p), (.session p, .socket s)}⟩

def Sock : Phase → Option ℕ
  | .idle => none
  | .socket s | .session s _ | .shaken s _ _ | .sftp s _ _ => some s

def Session : Phase → Option ℕ
  | .idle | .socket _ => none
  | .session _ p | .shaken _ p _ | .sftp _ p _ => some p

def Sftp : Phase → Option ℕ
  | .sftp _ _ q => some q
  | _ => none

def ScpMode : Phase → Bool
  | .shaken _ _ scp => scp
  | _ => false

end Phase

/-- The members are as the phase says. -/
structure CSftpConnection.At (c : CSftpConnection) (phase : Phase) : Prop where
  sock : c.Sock = phase.Sock
  session : c.Session = phase.Session
  sftp : c.Sftp = phase.Sftp
  scp : c.ScpMode = phase.ScpMode

/-- How far a connection has come, and what it gave away. -/
structure Position where
  phase : Phase
  trust : Trust

def Position.watch (pos : Position) : Watch := ⟨pos.phase.held, pos.trust⟩

attribute [local simp] Watch.follow_cons Watch.step Trust.step SshCall.events givenOn
  Held.follow_cons Held.track in
/-- `Disconnect` gives back what is held, in the right order. -/
theorem CSftpConnection.At.disconnect {c : CSftpConnection} {pos : Position} (h : c.At pos.phase) :
    c.disconnect.1.At .idle ∧ ∃ trust, pos.watch.follow c.disconnect.2 = some ⟨.none, trust⟩ ∧
      (trust = pos.trust ∨ trust = pos.trust.untrusted) := by
  refine ⟨⟨rfl, rfl, rfl, rfl⟩, ?_⟩
  unfold CSftpConnection.disconnect
  dsimp only
  rw [h.sock, h.session, h.sftp]
  obtain ⟨phase, trust⟩ := pos
  cases phase with
  | idle => exact ⟨trust, rfl, .inl rfl⟩
  | socket s =>
    refine ⟨trust, ?_, .inl rfl⟩
    simp [Phase.Sock, Phase.Session, Phase.Sftp, Phase.held, Position.watch, Held.none]
  | session s p =>
    refine ⟨trust.untrusted, ?_, .inr rfl⟩
    simp [Phase.Sock, Phase.Session, Phase.Sftp, Phase.held, Position.watch,
      Held.none, Trust.untrusted]
  | shaken s p scp =>
    refine ⟨trust.untrusted, ?_, .inr rfl⟩
    simp [Phase.Sock, Phase.Session, Phase.Sftp, Phase.held, Position.watch,
      Held.none, Trust.untrusted]
  | sftp s p q =>
    refine ⟨trust.untrusted, ?_, .inr rfl⟩
    simp [Phase.Sock, Phase.Session, Phase.Sftp, Phase.held, Position.watch,
      Held.none, Trust.untrusted]

/-! ## Results -/

/-- What a function comes to. -/
structure Outcome where
  /-- `none` after an exception. -/
  result : Option Bool
  conn : CSftpConnection
  calls : List SshCall

namespace Outcome

/-- `if (!...) return false;` and what comes then. -/
def next (o : Outcome) (f : CSftpConnection → Outcome) : Outcome :=
  if o.result = some true then
    let n := f o.conn
    ⟨n.result, n.conn, o.calls ++ n.calls⟩
  else o

/-- `if (!...) { Disconnect(); return false; }` -/
def orDisconnect (o : Outcome) : Outcome :=
  if o.result = some false then ⟨some false, o.conn.disconnect.1, o.calls ++ o.conn.disconnect.2⟩
    else o

/-- A function goes from a position on to one that is right for its result. -/
def Goes (o : Outcome) (pos : Position) (target : Option Bool → Position → Prop) : Prop :=
  ∃ pos', target o.result pos' ∧ o.conn.At pos'.phase ∧ pos.watch.follow o.calls = some pos'.watch

variable {o : Outcome} {pos : Position} {target R : Option Bool → Position → Prop}
  {f : CSftpConnection → Outcome}

theorem Goes.mono (h : o.Goes pos target) (hmono : ∀ r pos', target r pos' → R r pos') :
    o.Goes pos R := by
  obtain ⟨pos', htarget, hat, hfollow⟩ := h
  exact ⟨pos', hmono _ _ htarget, hat, hfollow⟩

/-- What is right for a function that fails is right for what it is a part of. -/
theorem Goes.next (h : o.Goes pos target)
    (hstop : ∀ r pos', r ≠ some true → target r pos' → R r pos')
    (hnext : ∀ pos', target (some true) pos' → o.conn.At pos'.phase → (f o.conn).Goes pos' R) :
    (o.next f).Goes pos R := by
  obtain ⟨pos', htarget, hat, hfollow⟩ := h
  unfold Outcome.next
  split_ifs with hresult
  · rw [hresult] at htarget
    obtain ⟨pos'', htarget', hat', hfollow'⟩ := hnext pos' htarget hat
    exact ⟨pos'', htarget', hat', Watch.follow_append_of hfollow hfollow'⟩
  · exact ⟨pos', hstop _ _ hresult htarget, hat, hfollow⟩

theorem Goes.orDisconnect (h : o.Goes pos target) :
    o.orDisconnect.Goes pos fun r pos' => if r = some false then pos'.phase =
      .idle else target r pos' := by
  obtain ⟨pos', htarget, hat, hfollow⟩ := h
  unfold Outcome.orDisconnect
  split_ifs with hresult
  · obtain ⟨hidle, trust, htrust, -⟩ := CSftpConnection.At.disconnect hat
    exact ⟨⟨.idle, trust⟩, rfl, hidle, Watch.follow_append_of hfollow htrust⟩
  · refine ⟨pos', ?_, hat, hfollow⟩
    show if o.result = some false then _ else _
    rwa [if_neg hresult]

end Outcome

end SalamanderSftp
