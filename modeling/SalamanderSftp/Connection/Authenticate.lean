import SalamanderSftp.Connection.PpkAuth
import SalamanderSftp.Connection.Session

/-!
# Authentication

`Authenticate` tries the key file, if there is one, and nothing else then; without one it tries the
password and keyboard-interactive, as far as the server offers them. The stored password answers the
first prompt of the server, and the callback all others, over any number of rounds
(`kbdAnswers_flatten`).
-/

namespace SalamanderSftp

open Handles

/-! ## Prompts -/

structure KbdPrompt where
  text : CStr
  echo : Bool

/-- `CKbdData`; the callback is given how many prompts were answered before. -/
structure KbdData where
  password : Option CStr
  used : Bool
  cb : Option (ℕ → CStr → Bool → Option CStr)

/-- As `Authenticate` fills it in. -/
def KbdData.start (password : CStr) (cb : Option (ℕ → CStr → Bool → Option CStr)) : KbdData :=
  ⟨if password = [] then none else some password, false, cb⟩

/-- The response to a prompt, and what is known afterwards. -/
def KbdData.answer (d : KbdData) (n : ℕ) (prompt : KbdPrompt) : KbdAnswer × KbdData :=
  match d.used, d.password with
  | false, some password => (.stored (lstrcpyn password 1024), { d with used := true })
  | _, _ =>
    match d.cb with
    | some cb => (.typed prompt.text prompt.echo (cb n prompt.text prompt.echo), d)
    | none => (.nothing, d)

/-- `KbdInteractiveThunk`, where so many prompts were answered before. -/
def kbdInteractiveThunk : ℕ → KbdData → List KbdPrompt → List KbdAnswer × KbdData
  | _, d, [] => ([], d)
  | n, d, prompt :: prompts =>
    let first := d.answer n prompt
    let more := kbdInteractiveThunk (n + 1) first.2 prompts
    (first.1 :: more.1, more.2)

/-- All responses to the rounds of a server. -/
def kbdAnswers : ℕ → KbdData → List (List KbdPrompt) → List KbdAnswer
  | _, _, [] => []
  | n, d, round :: rounds =>
    let now := kbdInteractiveThunk n d round
    now.1 ++ kbdAnswers (n + round.length) now.2 rounds

/-- The responses when the stored password has been used, or there is none. -/
def typedAnswers (cb : Option (ℕ → CStr → Bool → Option CStr)) (n : ℕ) (prompts : List KbdPrompt) :
    List KbdAnswer :=
  prompts.mapIdx fun i prompt =>
    match cb with
    | some cb => .typed prompt.text prompt.echo (cb (n + i) prompt.text prompt.echo)
    | none => .nothing

/-- The responses to all prompts of a server: a stored password goes to the first. -/
def responsesTo (password : CStr) (cb : Option (ℕ → CStr → Bool → Option CStr))
    (prompts : List KbdPrompt) :
    List KbdAnswer :=
  if password = [] then typedAnswers cb 0 prompts
  else
    match prompts with
    | [] => []
    | _ :: prompts => .stored (lstrcpyn password 1024) :: typedAnswers cb 1 prompts

/-! ## Authenticate -/

/-- What the server, libssh2 and the user answer. -/
structure AuthWorld where
  authlist : Option CStr
  ssl : OpenSsl
  platform : Platform
  /-- The content of the key file. -/
  keyFile : Option Bytes
  /-- What OpenSSL says when it cannot write the PEM. -/
  pemError : CStr
  publickey : Bool
  password : Bool
  rounds : List (List KbdPrompt)
  keyboard : Bool
  kbdCb : Option (ℕ → CStr → Bool → Option CStr)
  errors : CSftpConnection.LastErrors

namespace CSftpConnection

/-- A function of libssh2 with the session. -/
def withSession (c : CSftpConnection) (f : ℕ → Outcome) :
    Outcome := c.Session.elim ⟨none, c, [.invalid]⟩ f

theorem withSession_eq {c : CSftpConnection} {session : ℕ}
    (h : c.Session = some session) (f : ℕ → Outcome) :
    c.withSession f = f session := by
  unfold withSession
  rw [h]
  rfl

/-- `SetError(ctx); return false;` behind some calls. -/
def failed (c : CSftpConnection) (errors : LastErrors) (ctx : CStr) (calls : List SshCall) :
    Outcome :=
  ⟨some false, (c.setError errors ctx).1, calls ++ (c.setError errors ctx).2⟩

/-- A method is offered, or it is not known what is offered. -/
def offered (w : AuthWorld) (method : CStr) :
    Bool := w.authlist.elim true fun list => (Components.findText method list).isSome

/-- 1) key authentication -/
def keyAuth (c : CSftpConnection) (w : AuthWorld) (user password keyFile : CStr) (session : ℕ) :
    Outcome :=
  match tryPpkAuth w.ssl w.platform w.keyFile password with
  | .ok pem =>
    let calls := [.publickeyFromMemory session user pem]
    if w.publickey then ⟨some true, c, calls⟩
      else c.failed w.errors (ascii ".ppk key authentication failed") calls
  | .error .notPpk =>
    let calls :=
      [.publickeyFromFile session user keyFile (if password = [] then none else some password)]
    if w.publickey then ⟨some true, c, calls⟩
      else c.failed w.errors (ascii "Key authentication") calls
  | .error (.context ctx) => c.failed w.errors ctx []
  | .error (.message text) => ⟨some false, { c with ErrorMsg := text }, []⟩
  | .error .notWritten =>
    ⟨some false, { c with ErrorMsg := ascii "Cannot convert .ppk to PEM " ++ w.pemError }, []⟩
  | .error .thrown => ⟨none, c, []⟩

/-- 3) keyboard-interactive -/
def kbdAuth (c : CSftpConnection) (w : AuthWorld) (user password : CStr) (session : ℕ) : Outcome :=
  if offered w (ascii "keyboard-interactive") then
    let calls := .keyboardInteractive session user ::
      (kbdAnswers 0 (.start password w.kbdCb) w.rounds).map (.kbdResponse session)
    if w.keyboard then ⟨some true, c, calls⟩
      else c.failed w.errors (ascii "Authentication failed") calls
  else c.failed w.errors (ascii "Authentication failed") []

/-- 2) password, and keyboard-interactive when it fails -/
def passwordAuth (c : CSftpConnection) (w : AuthWorld) (user password : CStr) (session : ℕ) :
    Outcome :=
  if offered w (ascii "password") then
    if w.password then ⟨some true, c, [.userauthPassword session user password]⟩
    else
      let o := c.kbdAuth w user password session
      ⟨o.result, o.conn, .userauthPassword session user password :: o.calls⟩
  else c.kbdAuth w user password session

def authenticate (c : CSftpConnection) (w : AuthWorld) (user password keyFile : CStr) : Outcome :=
  c.withSession fun session =>
    let o := if keyFile ≠ [] then c.keyAuth w user password keyFile session
        else c.passwordAuth w user password session
    ⟨o.result, o.conn, .userauthList session user :: o.calls⟩

end CSftpConnection

/-! ## The responses -/

section Responses

variable {d : KbdData} {n : ℕ} {prompts : List KbdPrompt}

theorem typedAnswers_cons (cb : Option (ℕ → CStr → Bool → Option CStr)) (n : ℕ) (prompt : KbdPrompt)
    (prompts : List KbdPrompt) : typedAnswers cb n (prompt :: prompts) =
      (match cb with
        | some cb => .typed prompt.text prompt.echo (cb n prompt.text prompt.echo)
        | none => .nothing) :: typedAnswers cb (n + 1) prompts := by
  unfold typedAnswers
  rw [List.mapIdx_cons]
  congr 2
  funext i prompt
  rw [Nat.add_right_comm, Nat.add_assoc]

/-- Once the stored password cannot be used, every prompt goes to the callback. -/
theorem kbdInteractiveThunk_typed (h : d.used = true ∨ d.password = none) :
    kbdInteractiveThunk n d prompts = (typedAnswers d.cb n prompts, d) := by
  have hone : ∀ (n : ℕ) (prompt : KbdPrompt), d.answer n prompt =
      ((match d.cb with
        | some cb => .typed prompt.text prompt.echo (cb n prompt.text prompt.echo)
        | none => .nothing), d) := by
    intro n prompt
    obtain ⟨password, used, cb⟩ := d
    unfold KbdData.answer
    rcases h with h | h
    · dsimp only at h
      subst h
      cases cb <;> rfl
    · dsimp only at h
      subst h
      cases used <;> cases cb <;> rfl
  induction prompts generalizing n with
  | nil => rfl
  | cons prompt prompts ih =>
    rw [kbdInteractiveThunk, hone]
    dsimp only
    rw [ih, typedAnswers_cons]

theorem kbdInteractiveThunk_append (more : List KbdPrompt) :
    kbdInteractiveThunk n d (prompts ++ more) =
    ((kbdInteractiveThunk n d prompts).1 ++
      (kbdInteractiveThunk (n + prompts.length) (kbdInteractiveThunk n d prompts).2 more).1,
      (kbdInteractiveThunk (n + prompts.length) (kbdInteractiveThunk n d prompts).2 more).2) := by
  induction prompts generalizing n d with
  | nil => rfl
  | cons prompt prompts ih =>
    have hcount : n + (prompts.length + 1) = n + 1 + prompts.length := by omega
    rw [List.cons_append, kbdInteractiveThunk, ih, kbdInteractiveThunk, List.length_cons, hcount]
    rfl

/-- The rounds make no difference. -/
theorem kbdAnswers_eq (rounds : List (List KbdPrompt)) :
    kbdAnswers n d rounds = (kbdInteractiveThunk n d rounds.flatten).1 := by
  induction rounds generalizing n d with
  | nil => rfl
  | cons round rounds ih => rw [kbdAnswers, ih, List.flatten_cons, kbdInteractiveThunk_append]

/-- The stored password answers the first prompt, whichever round it comes in; the user is asked all
others, in their order. -/
theorem kbdAnswers_flatten (password : CStr) (cb : Option (ℕ → CStr → Bool → Option CStr))
    (rounds : List (List KbdPrompt)) :
    kbdAnswers 0 (.start password cb) rounds = responsesTo password cb rounds.flatten := by
  rw [kbdAnswers_eq]
  unfold KbdData.start responsesTo
  split_ifs with hpassword
  · rw [kbdInteractiveThunk_typed (.inr rfl)]
  · rcases rounds.flatten with _ | ⟨prompt, prompts⟩
    · rfl
    · rw [kbdInteractiveThunk]
      show KbdAnswer.stored _ :: (kbdInteractiveThunk 1 ⟨some password, true, cb⟩ prompts).1 = _
      rw [kbdInteractiveThunk_typed (.inl rfl)]

/-- The call of keyboard-interactive, or a response within it. -/
def SshCall.isKeyboard : SshCall → Bool
  | .keyboardInteractive .. | .kbdResponse .. => true
  | _ => false

/-- The part of the calls that is keyboard-interactive. -/
def keyboardCalls (calls : List SshCall) : List SshCall := calls.filter SshCall.isKeyboard

theorem keyboardCalls_round (session : ℕ) (user : CStr) (answers : List KbdAnswer) :
    keyboardCalls (.keyboardInteractive session user :: answers.map (.kbdResponse session)) =
      .keyboardInteractive session user :: answers.map (.kbdResponse session) := by
  refine List.filter_eq_self.mpr fun call hcall => ?_
  rcases List.mem_cons.mp hcall with rfl | hcall
  · rfl
  · obtain ⟨answer, -, rfl⟩ := List.mem_map.mp hcall
    rfl

variable {c : CSftpConnection} {w : AuthWorld} {user password keyFile : CStr} {session : ℕ}

theorem keyboardCalls_failed (errors : CSftpConnection.LastErrors)
    (ctx : CStr) (calls : List SshCall) :
    keyboardCalls (c.failed errors ctx calls).calls = keyboardCalls calls := by
  have hsetError : keyboardCalls (c.setError errors ctx).2 = [] := by
    unfold CSftpConnection.setError
    rcases c.sftpDesc errors with _ | desc <;> rcases c.Session with _ | session
      <;> rcases c.Sftp with _ | sftp <;> rfl
  show keyboardCalls (calls ++ _) = _
  unfold keyboardCalls at *
  rw [List.filter_append, hsetError, List.append_nil]

theorem keyboardCalls_keyAuth :
    keyboardCalls (c.keyAuth w user password keyFile session).calls = [] := by
  unfold CSftpConnection.keyAuth
  rcases tryPpkAuth w.ssl w.platform w.keyFile password with stop | pem
  · cases stop with
    | notPpk =>
      dsimp only
      split_ifs
      all_goals first | rfl | exact keyboardCalls_failed _ _ _
    | context ctx => exact keyboardCalls_failed _ _ _
    | _ => rfl
  · dsimp only
    split_ifs
    · rfl
    · exact keyboardCalls_failed _ _ _

theorem keyboardCalls_kbdAuth : keyboardCalls (c.kbdAuth w user password session).calls =
    if CSftpConnection.offered w (ascii "keyboard-interactive") then
      .keyboardInteractive session user :: (responsesTo password w.kbdCb w.rounds.flatten).map
        (.kbdResponse session)
    else [] := by
  have hcalls := keyboardCalls_round session user (kbdAnswers 0 (.start password w.kbdCb) w.rounds)
  rw [← kbdAnswers_flatten]
  unfold CSftpConnection.kbdAuth
  split_ifs with hoffered haccepted
  · exact hcalls
  · exact (keyboardCalls_failed _ _ _).trans hcalls
  · exact keyboardCalls_failed _ _ _

/-- There is no key file, keyboard-interactive is offered, or it is not known what is, and the
password is not enough. -/
def CSftpConnection.TriesKeyboard (w : AuthWorld) (keyFile : CStr) : Prop :=
  keyFile = [] ∧ offered w (ascii "keyboard-interactive") = true ∧
    ¬(offered w (ascii "password") = true ∧ w.password = true)

/-- Keyboard-interactive is called once or not at all; within the call the stored password answers
the first prompt of the server, whichever round it comes in, and the user is asked all others, in
their order and once. -/
theorem authenticate_keyboard (c : CSftpConnection) (w : AuthWorld) (user password keyFile : CStr) :
    (∀ session, c.Session = some session → CSftpConnection.TriesKeyboard w keyFile →
      keyboardCalls (c.authenticate w user password keyFile).calls =
        .keyboardInteractive session user ::
        (responsesTo password w.kbdCb w.rounds.flatten).map (.kbdResponse session)) ∧
      (c.Session = none ∨ ¬ CSftpConnection.TriesKeyboard w keyFile →
        keyboardCalls (c.authenticate w user password keyFile).calls = []) := by
  unfold CSftpConnection.TriesKeyboard CSftpConnection.authenticate CSftpConnection.withSession
  rcases c.Session with _ | session
  · exact ⟨nofun, fun _ => rfl⟩
  have hlist : ∀ calls, keyboardCalls (.userauthList session user :: calls) = keyboardCalls calls :=
    fun _ => rfl
  have hrefused : ∀ calls, keyboardCalls (.userauthPassword session user password :: calls) =
      keyboardCalls calls :=
    fun _ => rfl
  show (∀ _, _ → _ → keyboardCalls (_ :: _) = _) ∧ (_ → keyboardCalls (_ :: _) = _)
  rw [hlist]
  by_cases hkey : keyFile = []
  · rw [if_neg (not_not.mpr hkey)]
    unfold CSftpConnection.passwordAuth
    split_ifs with hpassword haccepted
    · exact ⟨fun _ _ h => absurd ⟨hpassword, haccepted⟩ h.2.2, fun _ => rfl⟩
    all_goals
      first | rw [hrefused, keyboardCalls_kbdAuth] | rw [keyboardCalls_kbdAuth]
      constructor
      · rintro _ ⟨⟩ h
        exact if_pos h.2.1
      · rintro (hnone | h)
        · cases hnone
        · refine if_neg fun hoffered => h ⟨hkey, hoffered, fun hboth => ?_⟩
          first | exact haccepted hboth.2 | exact hpassword hboth.1
  · rw [if_pos hkey, keyboardCalls_keyAuth]
    exact ⟨fun _ _ h => absurd h.1 hkey, fun _ => rfl⟩

end Responses

/-! ## What is given away -/

section GivenAway

variable {c : CSftpConnection} {w : AuthWorld} {a : ConnectArgs} {s p : ℕ} {trust : Trust}

/-- The position behind `VerifyHostKey`. -/
def trustedPosition (a : ConnectArgs) (s p : ℕ) :
    Position := ⟨.shaken s p false, ⟨some a, some p, 0, 0, []⟩⟩

/-- The session is not left, and stays trusted. -/
def StaysWith (s p : ℕ) (_ : Option Bool) (pos : Position) : Prop :=
  pos.phase = .shaken s p false ∧ pos.trust.session = some p

attribute [local simp] Watch.follow_cons Watch.step Trust.step SshCall.events
  Held.follow_cons Held.track Phase.held
  Position.watch trustedPosition Trust.Allows

theorem follow_typedAnswers {cb : Option (ℕ → CStr → Bool → Option CStr)} (hkey : a.keyFile = []) :
    ∀ (prompts : List KbdPrompt) (n passwords responses : ℕ), ∃ responses',
      (Position.watch ⟨.shaken s p false, ⟨some a, some p, passwords, responses, []⟩⟩).follow
          ((typedAnswers cb n prompts).map (.kbdResponse p)) =
        some (Position.watch ⟨.shaken s p false, ⟨some a, some p, passwords, responses', []⟩⟩) := by
  intro prompts
  induction prompts with
  | nil => exact fun _ _ responses => ⟨responses, rfl⟩
  | cons prompt prompts ih =>
    intro n passwords responses
    obtain ⟨responses', ih⟩ := ih (n + 1) passwords (responses + 1)
    refine ⟨responses', ?_⟩
    rw [typedAnswers_cons, List.map_cons, Watch.follow_cons, ← ih]
    cases cb <;> simp [hkey]

theorem follow_kbdAnswers {cb : Option (ℕ → CStr → Bool → Option CStr)}
    (rounds : List (List KbdPrompt))
    (hkey : a.keyFile = []) (passwords : ℕ) : ∃ responses,
      (Position.watch ⟨.shaken s p false, ⟨some a, some p, passwords, 0, []⟩⟩).follow
          ((kbdAnswers 0 (.start a.password cb) rounds).map (.kbdResponse p)) =
        some (Position.watch ⟨.shaken s p false, ⟨some a, some p, passwords, responses, []⟩⟩) := by
  rw [kbdAnswers_flatten]
  unfold responsesTo
  split_ifs with hpassword
  · exact follow_typedAnswers hkey _ _ _ _
  · rcases rounds.flatten with _ | ⟨prompt, prompts⟩
    · exact ⟨0, rfl⟩
    · obtain ⟨responses, hfollow⟩ := @follow_typedAnswers a s p cb hkey prompts 1 passwords 1
      refine ⟨responses, ?_⟩
      dsimp only
      rw [List.map_cons, Watch.follow_cons, ← hfollow]
      simp [hkey, hpassword]

theorem CSftpConnection.At.withMessage {phase : Phase} (h : c.At phase) (text : CStr) :
    { c with ErrorMsg := text }.At phase := ⟨h.sock, h.session, h.sftp, h.scp⟩

theorem setError_follow (hat : c.At (.shaken s p false)) (trust : Trust)
    (errors : CSftpConnection.LastErrors) (ctx : CStr) :
    (c.setError errors ctx).1.At (.shaken s p false) ∧
      (Position.watch ⟨.shaken s p false, trust⟩).follow (c.setError errors ctx).2 =
        some (Position.watch ⟨.shaken s p false, trust⟩) := by
  obtain ⟨hsock, hsession, hsftp, hscp⟩ := hat
  change c.Session = some p at hsession
  change c.Sftp = none at hsftp
  unfold CSftpConnection.setError
  rw [hsession, hsftp]
  rcases c.sftpDesc errors with _ | desc
  · exact ⟨⟨hsock, rfl, rfl, hscp⟩, by simp⟩
  · exact ⟨⟨hsock, rfl, rfl, hscp⟩, rfl⟩

theorem goes_stays {pos : Position} {r : Option Bool} {calls : List SshCall}
    (hat : c.At (.shaken s p false))
    (htrust : trust.session = some p)
    (hfollow : pos.watch.follow calls = some (Position.watch ⟨.shaken s p false, trust⟩)) :
    (Outcome.mk r c calls).Goes pos (StaysWith s p) :=
  ⟨⟨.shaken s p false, trust⟩, ⟨rfl, htrust⟩, hat, hfollow⟩

theorem goes_failed {pos : Position} {calls : List SshCall} (hat : c.At (.shaken s p false))
    (htrust : trust.session = some p)
    (hfollow : pos.watch.follow calls = some (Position.watch ⟨.shaken s p false, trust⟩))
    (errors : CSftpConnection.LastErrors) (ctx : CStr) :
    (c.failed errors ctx calls).Goes pos (StaysWith s p) := by
  obtain ⟨hat', hfollow'⟩ := setError_follow hat trust errors ctx
  exact ⟨⟨.shaken s p false, trust⟩, ⟨rfl, htrust⟩, hat', Watch.follow_append_of hfollow hfollow'⟩

theorem goes_keyAuth (hat : c.At (.shaken s p false)) (hkey : a.keyFile ≠ []) :
    (c.keyAuth w a.user a.password a.keyFile p).Goes (trustedPosition a s p) (StaysWith s p) := by
  have hmemory : ∀ pem, (trustedPosition a s p).watch.follow [.publickeyFromMemory p a.user pem] =
      some (trustedPosition a s p).watch := by
    intro pem
    simp [hkey]
  have hfile : ∀ passphrase,
      (trustedPosition a s p).watch.follow [.publickeyFromFile p a.user a.keyFile passphrase] =
      some (trustedPosition a s p).watch := by
    intro passphrase
    simp [hkey]
  unfold CSftpConnection.keyAuth
  rcases tryPpkAuth w.ssl w.platform w.keyFile a.password with stop | pem
  · cases stop with
    | notPpk =>
      dsimp only
      generalize (if a.password = [] then none else some a.password) = passphrase
      split_ifs
      · exact goes_stays hat rfl (hfile _)
      · exact goes_failed hat rfl (hfile _) _ _
    | context ctx => exact goes_failed hat rfl rfl _ _
    | message text => exact goes_stays (hat.withMessage _) rfl rfl
    | notWritten => exact goes_stays (hat.withMessage _) rfl rfl
    | thrown => exact goes_stays hat rfl rfl
  · dsimp only
    split_ifs
    · exact goes_stays hat rfl (hmemory _)
    · exact goes_failed hat rfl (hmemory _) _ _

theorem goes_kbdAuth (hat : c.At (.shaken s p false)) (hkey : a.keyFile = []) (passwords : ℕ) :
    (c.kbdAuth w a.user a.password p).Goes ⟨.shaken s p false,
      ⟨some a, some p, passwords, 0, []⟩⟩ (StaysWith s p) := by
  unfold CSftpConnection.kbdAuth
  by_cases hoffered : CSftpConnection.offered w (ascii "keyboard-interactive") = true
  · rw [if_pos hoffered]
    obtain ⟨responses, hfollow⟩ := @follow_kbdAnswers a s p w.kbdCb w.rounds hkey passwords
    have hcalls : (Position.watch ⟨.shaken s p false, ⟨some a, some p, passwords, 0, []⟩⟩).follow
        (.keyboardInteractive p a.user :: (kbdAnswers 0 (.start a.password w.kbdCb) w.rounds).map
          (.kbdResponse p)) =
        some (Position.watch ⟨.shaken s p false, ⟨some a, some p, passwords, responses, []⟩⟩) := by
      rw [Watch.follow_cons, ← hfollow]
      simp [hkey]
    dsimp only
    split_ifs
    · exact goes_stays hat rfl hcalls
    · exact goes_failed hat rfl hcalls _ _
  · rw [if_neg hoffered]
    exact goes_failed hat rfl rfl _ _

theorem goes_passwordAuth (hat : c.At (.shaken s p false)) (hkey : a.keyFile = []) :
    (c.passwordAuth w a.user a.password p).Goes (trustedPosition a s p) (StaysWith s p) := by
  have hpassword : (trustedPosition a s p).watch.step (.userauthPassword p a.user a.password) =
      some (Position.watch ⟨.shaken s p false, ⟨some a, some p, 1, 0, []⟩⟩) := by
    simp [hkey]
  unfold CSftpConnection.passwordAuth
  split_ifs with hoffered haccepted
  · have hfollow : (trustedPosition a s p).watch.follow [.userauthPassword p a.user a.password] =
        some (Position.watch ⟨.shaken s p false, ⟨some a, some p, 1, 0, []⟩⟩) := by
      rw [Watch.follow_cons, hpassword]
      rfl
    exact goes_stays hat rfl hfollow
  · obtain ⟨pos', hphase, hat', hfollow⟩ := goes_kbdAuth (w := w) hat hkey 1
    refine ⟨pos', hphase, hat', ?_⟩
    rw [Watch.follow_cons, hpassword]
    exact hfollow
  · exact goes_kbdAuth hat hkey 0

theorem goes_authenticate (hat : c.At (.shaken s p false)) :
    (c.authenticate w a.user a.password a.keyFile).Goes
      (trustedPosition a s p) (StaysWith s p) := by
  have hsession : c.Session = some p := hat.session
  have hlist : (trustedPosition a s p).watch.step (.userauthList p a.user) =
      some (trustedPosition a s p).watch := by
    simp
  have hgoes : (if a.keyFile ≠ [] then c.keyAuth w a.user a.password a.keyFile p
      else c.passwordAuth w a.user a.password p).Goes (trustedPosition a s p) (StaysWith s p) := by
    split_ifs with hkey
    · exact goes_keyAuth hat hkey
    · exact goes_passwordAuth hat (not_not.mp hkey)
  obtain ⟨pos', hphase, hat', hfollow⟩ := hgoes
  unfold CSftpConnection.authenticate
  rw [CSftpConnection.withSession_eq hsession]
  refine ⟨pos', hphase, hat', ?_⟩
  show (trustedPosition a s p).watch.follow (_ :: _) = _
  rw [Watch.follow_cons, hlist]
  exact hfollow

end GivenAway

end SalamanderSftp
