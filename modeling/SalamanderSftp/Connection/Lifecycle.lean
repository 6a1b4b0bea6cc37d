import SalamanderSftp.Connection.Connect
import SalamanderSftp.Fs.ChangePath

/-!
# Connections over whole runs

1. Whatever is done with any number of connections, and however their calls are mixed, each call
   finds its handles held, and connections that are destroyed leave nothing behind
   (`connections_safe`).
2. Passwords, responses and keys go only to a session whose host key was accepted for the host and
   the port that `Connect` was called with, and commands, files and directories to what was opened
   on it (`given_to_verified`).
3. `IsConnected` confirms exactly what a successful `Connect` made, as long as the server answers
   (`isConnected_run`); a `Connect` that fails leaves nothing and says why (`connect_failed`).
-/

namespace SalamanderSftp

open Handles Journal

/-! ## Handles -/

section Handles

variable {ι : Type*} [DecidableEq ι] {all : List (ι × SshCall)} {hmac : Bytes → CStr → Bytes}

def callsOf (i : ι) (all : List (ι × SshCall)) : List SshCall := (all.filter (·.1 = i)).map Prod.snd

/-- What the calls do with handles, with the connection that makes the call. -/
def taggedEvents (all : List (ι × SshCall)) : List (ι × Event Handle) :=
  all.flatMap fun call => call.2.events.map (call.1, ·)

omit [DecidableEq ι] in
theorem taggedEvents_events (all : List (ι × SshCall)) :
    (taggedEvents all).map Prod.snd = (all.map Prod.snd).flatMap SshCall.events := by
  unfold taggedEvents
  rw [List.map_flatMap, List.flatMap_map]
  refine List.flatMap_congr fun call _ => ?_
  rw [List.map_map]
  exact List.map_id _

theorem own_taggedEvents (i : ι) (all : List (ι × SshCall)) :
    Held.own i (taggedEvents all) = (callsOf i all).flatMap SshCall.events := by
  induction all with
  | nil => rfl
  | cons call all ih =>
    obtain ⟨j, call⟩ := call
    unfold Held.own callsOf taggedEvents at ih ⊢
    rw [List.flatMap_cons, List.filter_append, List.map_append, ih]
    by_cases hij : j = i
    · simp [hij, List.filter_map, Function.comp_def]
    · simp [hij]

/-- What a connection does alone can be followed. -/
theorem follow_run (acts : List ConnectionAct) :
    ∃ pos : Position, pos.Settled ∧ (CSftpConnection.new.run hmac acts).1.At pos.phase ∧
      Watch.none.follow (CSftpConnection.new.run hmac acts).2 = some pos.watch :=
  @goes_run _ hmac ⟨.idle, .none⟩ ⟨rfl, rfl, rfl, rfl⟩ trivial acts

/-- A connection that is destroyed holds nothing. -/
theorem follow_destroyed (acts : List ConnectionAct) :
    ∃ trust, Watch.none.follow (CSftpConnection.new.run hmac (acts ++ [.disconnect])).2 =
      some ⟨.none, trust⟩ := by
  have happend : ∀ (c : CSftpConnection), (c.run hmac (acts ++ [.disconnect])).2 =
      (c.run hmac acts).2 ++ (c.run hmac acts).1.disconnect.2 := by
    induction acts with
    | nil => exact fun c => List.append_nil _
    | cons a acts ih =>
      intro c
      show (c.act hmac a).calls ++ ((c.act hmac a).conn.run hmac (acts ++ [.disconnect])).2 = _
      rw [ih, ← List.append_assoc]
      rfl
  obtain ⟨pos, -, hat, hfollow⟩ := @follow_run hmac acts
  obtain ⟨-, trust, hdisconnect, -⟩ := hat.disconnect
  exact ⟨trust, happend _ ▸ Watch.follow_append_of hfollow hdisconnect⟩

/-- A server that takes no connections. -/
def refusingWorld (res sock : ℕ) : ConnectWorld where
  getaddrinfo := some res
  socket := some sock
  connects := false
  sessionInit := none
  handshake := false
  hostKey := ⟨none, none, false⟩
  store := ⟨none, [], none, false⟩
  knownhosts := 0
  auth :=
    { authlist := none, ssl := plainOpenSsl, platform := .x64, keyFile := none, pemError := [],
      publickey := false, password := false, rounds := [], keyboard := false, kbdCb := none,
      errors := ⟨0, none⟩ }
  sftpInit := none
  errors := ⟨0, none⟩

/-- Two connections are tried in turns. -/
def twoAttempts (args : ConnectArgs) : List (Bool × SshCall) :=
  [(false, .begin args), (true, .begin args), (false, .getaddrinfo (some 5)),
    (true, .getaddrinfo (some 6)),
    (true, .socket 6 (some 8)), (false, .socket 5 (some 7)), (true, .connect 8 6),
      (true, .freeaddrinfo 6),
    (true, .closesocket 8), (false, .connect 7 5), (false, .freeaddrinfo 5),
      (false, .closesocket 7)]

end Handles

/-! ## What is given away -/

section Secrets

variable {log : List SshCall} {t : Trust} {p : ℕ} {args : ConnectArgs} {hmac : Bytes → CStr → Bytes}

/-- The last call of `Connect`, and the calls since. -/
def sinceConnect (log : List SshCall) : Option (ConnectArgs × List SshCall) :=
  log.foldl (fun since call => match call with
    | .begin args => some (args, [])
    | call => since.map fun (args, calls) => (args, calls ++ [call])) none

/-- A call that does not make or end a session. -/
def KeepsSession (call : SshCall) : Prop :=
  (∀ session, call ≠ .sessionInit session) ∧ ∀ session, call ≠ .sessionFree session

/-- The host key of the session was accepted for the host and the port, and the session is still
there. -/
def Verified (args : ConnectArgs) (p : ℕ) (calls : List SshCall) : Prop :=
  ∃ before after, calls = before ++ .verified p args.host args.port :: after ∧
    ∀ call ∈ after, KeepsSession call

/-- A call gives one handle, which rests on another. -/
def SshCall.Opens (call : SshCall) (base h : Handle) : Prop :=
  .acquire h ∈ call.events ∧ .rest h base ∈ call.events

/-- Some calls open a handle on another, in any number of steps. -/
def OpenedOn (calls : List SshCall) : Handle → Handle → Prop :=
  Relation.ReflTransGen fun base h => ∃ call ∈ calls, call.Opens base h

/-- Since the last `Connect` a session was verified, and a handle was opened on it. -/
def Behind (log : List SshCall) (h : Handle) : Prop :=
  ∃ args p before after, sinceConnect log =
    some (args, before ++ .verified p args.host args.port :: after) ∧
    (∀ call ∈ after, KeepsSession call) ∧ OpenedOn after (.session p) h

/-- Since the last `Connect`, whose arguments are right, the session was verified, and something did
not happen yet. -/
def GivenUnder (log : List SshCall) (p : ℕ) (right : ConnectArgs → Prop) (yet : SshCall → Prop) :
    Prop :=
  ∃ args calls, sinceConnect log = some (args, calls) ∧ right args ∧ Verified args p calls ∧
    ∀ call ∈ calls, ¬ yet call

def IsPassword (call : SshCall) :
    Prop := ∃ p user password, call = .userauthPassword p user password

def IsResponse (call : SshCall) : Prop := ∃ p answer, call = .kbdResponse p answer

/-- What may be given away behind some calls. The password goes out at most once as such, and at
most once as a response, the first one; what follows on the authentication goes to the session, or
to what was opened on it. -/
def RightlyGiven (log : List SshCall) : SshCall → Prop
  | .userauthList p user => GivenUnder log p (fun args => args.user = user) fun _ => False
  | .userauthPassword p user password =>
    GivenUnder log p (fun args => args.keyFile = [] ∧ args.user = user ∧
      args.password = password) IsPassword
  | .keyboardInteractive p user =>
    GivenUnder log p (fun args => args.keyFile = [] ∧ args.user = user) fun _ => False
  | .kbdResponse p (.stored text) =>
    GivenUnder log p (fun args => args.keyFile = [] ∧ args.password ≠ [] ∧
      text = lstrcpyn args.password 1024) IsResponse
  | .kbdResponse p _ => GivenUnder log p (fun args => args.keyFile = []) fun _ => False
  | .publickeyFromFile p user _ _ =>
    GivenUnder log p (fun args => args.keyFile ≠ [] ∧ args.user = user) fun _ => False
  | .publickeyFromMemory p user _ =>
    GivenUnder log p (fun args => args.keyFile ≠ [] ∧ args.user = user) fun _ => False
  | .sftpInit p _ _ | .channelOpen p _ | .scpOpen p _ => Behind log (.session p)
  | .sftpCall q | .sftpOpen q _ => Behind log (.sftp q)
  | .fileCall f => Behind log (.file f)
  | .channelCall ch => Behind log (.channel ch)
  -- what is left is done with the machine itself, before the host key is known, or with a handle
  -- that is given back
  | _ => True

/-- What `Trust` knows is so. -/
structure Describes (t : Trust) (log : List SshCall) : Prop where
  args : t.args = (sinceConnect log).map Prod.fst
  session : ∀ p, t.session = some p →
    ∃ args calls, sinceConnect log = some (args, calls) ∧ Verified args p calls
  passwords : t.passwords = 0 → ∀ args calls, sinceConnect log = some (args, calls) →
    ∀ call ∈ calls, ¬ IsPassword call
  responses : t.responses = 0 → ∀ args calls, sinceConnect log = some (args, calls) →
    ∀ call ∈ calls, ¬ IsResponse call
  reached : ∀ h ∈ t.reached, Behind log h

theorem sinceConnect_begin (log : List SshCall) (args : ConnectArgs) :
    sinceConnect (log ++ [.begin args]) = some (args, []) := by
  unfold sinceConnect
  rw [List.foldl_append]
  rfl

theorem sinceConnect_concat {call : SshCall} (h : ∀ args, call ≠ .begin args) (log : List SshCall) :
    sinceConnect (log ++ [call]) = (sinceConnect log).map fun (args, calls) =>
      (args, calls ++ [call]) := by
  unfold sinceConnect
  rw [List.foldl_append]
  cases call with
  | begin args => exact absurd rfl (h args)
  | _ => rfl

theorem describes_none : Describes .none [] := ⟨rfl, nofun, nofun, nofun, nofun⟩

section Concat

variable {call : SshCall} {base h : Handle}

theorem forall_mem_concat {calls : List SshCall} {P : SshCall → Prop}
    (hcalls : ∀ other ∈ calls, P other)
    (hcall : P call) : ∀ other ∈ calls ++ [call], P other := by
  intro other hother
  rcases List.mem_append.mp hother with hother | hother
  · exact hcalls other hother
  · exact List.mem_singleton.mp hother ▸ hcall

theorem OpenedOn.mono {calls more : List SshCall}
    (hopened : OpenedOn calls base h) (hsub : calls ⊆ more) :
    OpenedOn more base h := by
  refine Relation.ReflTransGen.mono (fun _ _ hstep => ?_) _ _ hopened
  obtain ⟨call, hcall, hopens⟩ := hstep
  exact ⟨call, hsub hcall, hopens⟩

/-- What is behind a session stays there as long as the session does. -/
theorem Behind.concat (hbehind : Behind log h) (hbegin : ∀ args, call ≠ .begin args)
    (hkeeps : KeepsSession call) :
    Behind (log ++ [call]) h := by
  obtain ⟨args, p, before, after, hsince, hafter, hopened⟩ := hbehind
  refine ⟨args, p, before, after ++ [call], ?_, forall_mem_concat hafter hkeeps,
    hopened.mono (List.subset_append_left _ _)⟩
  rw [sinceConnect_concat hbegin, hsince, Option.map_some]
  dsimp only
  rw [List.append_assoc, List.cons_append]

theorem Behind.opens (hbehind : Behind log base) (hbegin : ∀ args, call ≠ .begin args)
    (hkeeps : KeepsSession call)
    (hopens : call.Opens base h) : Behind (log ++ [call]) h := by
  obtain ⟨args, p, before, after, hsince, hafter, hopened⟩ := hbehind
  refine ⟨args, p, before, after ++ [call], ?_, forall_mem_concat hafter hkeeps,
    (hopened.mono (List.subset_append_left _ _)).tail ⟨call, by simp, hopens⟩⟩
  rw [sinceConnect_concat hbegin, hsince, Option.map_some]
  dsimp only
  rw [List.append_assoc, List.cons_append]

theorem Describes.behind (hdescribes : Describes t log) (hsession : t.session = some p) :
    Behind log (.session p) := by
  obtain ⟨args, calls, hsince, before, after, rfl, hafter⟩ := hdescribes.session p hsession
  exact ⟨args, p, before, after, hsince, hafter, .refl⟩

/-- A call that is not the beginning of another `Connect`. -/
theorem Describes.concat {t' : Trust} (h : Describes t log) (hbegin : ∀ args, call ≠ .begin args)
    (hargs : t'.args = t.args)
    (hsession : ∀ p, t'.session = some p → (t.session = some p ∧ KeepsSession call) ∨
      ∃ args ∈ t.args, call = .verified p args.host args.port)
    (hpasswords : t'.passwords = 0 → t.passwords = 0 ∧ ¬ IsPassword call)
    (hresponses : t'.responses = 0 → t.responses = 0 ∧ ¬ IsResponse call)
    (hreached : ∀ h ∈ t'.reached, Behind (log ++ [call]) h) : Describes t' (log ++ [call]) := by
  have hsince := sinceConnect_concat hbegin log
  refine ⟨?_, ?_, ?_, ?_, hreached⟩
  · rw [hargs, h.args, hsince]
    cases sinceConnect log <;> rfl
  · intro p hp
    rcases hsession p hp with ⟨hp, hkeeps⟩ | ⟨args, hmem, rfl⟩
    · obtain ⟨args, calls, heq, before, after, hcalls, hafter⟩ := h.session p hp
      refine ⟨args, calls ++ [call], by rw [hsince, heq]; rfl, before, after ++ [call], ?_,
        forall_mem_concat hafter hkeeps⟩
      rw [hcalls, List.append_assoc, List.cons_append]
    · rw [h.args] at hmem
      obtain ⟨⟨args', calls⟩, heq, rfl⟩ := Option.map_eq_some_iff.mp hmem
      exact ⟨args', calls ++ [_], by rw [hsince, heq]; rfl, calls, [], rfl, nofun⟩
  · intro hzero args calls heq
    rw [hsince] at heq
    obtain ⟨⟨args', calls'⟩, heq', hpair⟩ := Option.map_eq_some_iff.mp heq
    obtain ⟨rfl, rfl⟩ := Prod.mk.inj hpair
    exact forall_mem_concat (h.passwords (hpasswords hzero).1 _ _ heq') (hpasswords hzero).2
  · intro hzero args calls heq
    rw [hsince] at heq
    obtain ⟨⟨args', calls'⟩, heq', hpair⟩ := Option.map_eq_some_iff.mp heq
    obtain ⟨rfl, rfl⟩ := Prod.mk.inj hpair
    exact forall_mem_concat (h.responses (hresponses hzero).1 _ _ heq') (hresponses hzero).2

/-- A call that leaves the session and the secrets, and may open something or give something
back. -/
theorem Describes.moves {t' : Trust} (h : Describes t log) (hbegin : ∀ args, call ≠ .begin args)
    (hkeeps : KeepsSession call) (hpassword : ¬ IsPassword call) (hresponse : ¬ IsResponse call)
    (hsame : t' = { t with reached := t'.reached })
    (hreached : ∀ h ∈ t'.reached, h ∈ t.reached ∨ Behind (log ++ [call]) h) :
    Describes t' (log ++ [call]) := by
  rw [hsame]
  refine h.concat hbegin rfl (fun _ hp => .inl ⟨hp, hkeeps⟩) (fun hzero => ⟨hzero, hpassword⟩)
    (fun hzero => ⟨hzero, hresponse⟩) fun handle hhandle => ?_
  exact (hreached handle hhandle).elim (fun hold => (h.reached handle hold).concat hbegin hkeeps) id

theorem Describes.same (h : Describes t log) (hbegin : ∀ args, call ≠ .begin args)
    (hkeeps : KeepsSession call)
    (hpassword : ¬ IsPassword call) (hresponse : ¬ IsResponse call) : Describes t (log ++ [call]) :=
  h.moves hbegin hkeeps hpassword hresponse rfl fun _ => .inl

theorem Describes.reach {handle : Option Handle} (h : Describes t log)
    (hbegin : ∀ args, call ≠ .begin args)
    (hkeeps : KeepsSession call) (hpassword : ¬ IsPassword call) (hresponse : ¬ IsResponse call)
    (hbase : Behind log base) (hopens : ∀ new ∈ handle, call.Opens base new) :
    Describes (t.reach handle) (log ++ [call]) := by
  refine h.moves hbegin hkeeps hpassword hresponse rfl fun new hnew => ?_
  rcases List.mem_append.mp hnew with hnew | hnew
  · exact .inr (hbase.opens hbegin hkeeps (hopens new (Option.mem_toList.mp hnew)))
  · exact .inl hnew

theorem Describes.leave (h : Describes t log) (hbegin : ∀ args, call ≠ .begin args)
    (hkeeps : KeepsSession call)
    (hpassword : ¬ IsPassword call) (hresponse : ¬ IsResponse call) (handle : Handle) :
    Describes (t.leave handle) (log ++ [call]) :=
  h.moves hbegin hkeeps hpassword hresponse rfl fun _ hmem => .inl (List.mem_of_mem_erase hmem)

theorem Describes.untrust (h : Describes t log) (hbegin : ∀ args, call ≠ .begin args)
    (hpassword : ¬ IsPassword call)
    (hresponse : ¬ IsResponse call) : Describes t.untrusted (log ++ [call]) :=
  h.concat hbegin rfl nofun (fun hzero => ⟨hzero, hpassword⟩)
    (fun hzero => ⟨hzero, hresponse⟩) nofun

end Concat

theorem Describes.given {ok : ConnectArgs → Prop} {yet : SshCall → Prop}
    (h : Describes t log) (hallows : t.Allows p ok)
    (hyet : ∀ args calls, sinceConnect log = some (args, calls) → ∀ call ∈ calls, ¬ yet call) :
    GivenUnder log p ok yet := by
  obtain ⟨hsession, a, hmem, hok⟩ := hallows
  obtain ⟨args, calls, heq, hverified⟩ := h.session p hsession
  rw [h.args, heq] at hmem
  obtain rfl := Option.some.inj hmem
  exact ⟨args, calls, heq, hok, hverified, hyet args calls heq⟩

/-- Without a bound on how often. -/
theorem Describes.givenFreely {ok : ConnectArgs → Prop} (h : Describes t log)
    (hallows : t.Allows p ok) :
    GivenUnder log p ok fun _ => False := h.given hallows fun _ _ _ _ _ => not_false

theorem describes_begin (log : List SshCall) (args : ConnectArgs) :
    Describes ⟨some args, none, 0, 0, []⟩ (log ++ [.begin args]) := by
  have hsince := sinceConnect_begin log args
  have hempty : ∀ {P : SshCall → Prop} (a : ConnectArgs) (calls : List SshCall),
      sinceConnect (log ++ [.begin args]) = some (a, calls) → ∀ call ∈ calls, ¬ P call := by
    intro P a calls heq
    rw [hsince] at heq
    obtain ⟨rfl, rfl⟩ := Prod.mk.inj (Option.some.inj heq)
    exact nofun
  exact ⟨by rw [hsince]; rfl, nofun, fun _ => hempty, fun _ => hempty, nofun⟩

theorem Describes.verified {a : ConnectArgs} (h : Describes t log) (hmem : a ∈ t.args) :
    Describes { t with session := some p, reached := [] } (log ++ [.verified p a.host a.port]) := by
  refine h.concat nofun rfl (fun q hq => .inr ⟨a, hmem, ?_⟩)
    (fun hzero => ⟨hzero, by simp [IsPassword]⟩)
    (fun hzero => ⟨hzero, by simp [IsResponse]⟩) nofun
  obtain rfl := Option.some.inj hq
  rfl

theorem Describes.passwordStep {user password : CStr} {t' : Trust} (h : Describes t log)
    (hstep : t.step (.userauthPassword p user password) = some t') :
    Describes t' (log ++ [.userauthPassword p user password]) ∧
      RightlyGiven log (.userauthPassword p user password) := by
  obtain ⟨⟨hallows, hzero⟩, ⟨⟩⟩ : (_ ∧ _) ∧ _ := Option.ite_none_right_eq_some.mp hstep
  refine ⟨h.concat nofun rfl (fun p hp => .inl ⟨hp, nofun, nofun⟩) nofun
    (fun hzero => ⟨hzero, by simp [IsResponse]⟩)
    fun handle hhandle => (h.reached handle hhandle).concat nofun ⟨nofun, nofun⟩, ?_⟩
  exact h.given hallows (h.passwords hzero)

theorem Describes.responseStep {answer : KbdAnswer} {t' : Trust} (h : Describes t log)
    (hstep : t.step (.kbdResponse p answer) = some t') :
    Describes t' (log ++ [.kbdResponse p answer]) ∧ RightlyGiven log (.kbdResponse p answer) := by
  have hmore : Describes { t with responses := t.responses + 1 } (log ++ [.kbdResponse p answer]) :=
    h.concat nofun rfl (fun p hp => .inl ⟨hp, nofun, nofun⟩)
      (fun hzero => ⟨hzero, by simp [IsPassword]⟩) nofun
      fun handle hhandle => (h.reached handle hhandle).concat nofun ⟨nofun, nofun⟩
  cases answer with
  | stored text =>
    obtain ⟨⟨hallows, hzero⟩, ⟨⟩⟩ : (_ ∧ _) ∧ _ := Option.ite_none_right_eq_some.mp hstep
    exact ⟨hmore, h.given hallows (h.responses hzero)⟩
  | typed prompt echo text =>
    obtain ⟨hallows, ⟨⟩⟩ := Option.ite_none_right_eq_some.mp hstep
    exact ⟨hmore, h.givenFreely hallows⟩
  | nothing =>
    obtain ⟨hallows, ⟨⟩⟩ := Option.ite_none_right_eq_some.mp hstep
    exact ⟨hmore, h.givenFreely hallows⟩

theorem Describes.step {call : SshCall} {t' : Trust} (h : Describes t log)
    (hstep : t.step call = some t') :
    Describes t' (log ++ [call]) ∧ RightlyGiven log call := by
  cases call with
  | begin args =>
    obtain rfl := Option.some.inj hstep
    exact ⟨describes_begin log args, trivial⟩
  | sessionInit session =>
    obtain rfl := Option.some.inj hstep
    exact ⟨h.untrust nofun (by simp [IsPassword]) (by simp [IsResponse]), trivial⟩
  | sessionFree session =>
    obtain rfl := Option.some.inj hstep
    exact ⟨h.untrust nofun (by simp [IsPassword]) (by simp [IsResponse]), trivial⟩
  | verified session host port =>
    obtain ⟨⟨a, hmem, rfl, rfl⟩, ⟨⟩⟩ := Option.ite_none_right_eq_some.mp hstep
    exact ⟨h.verified hmem, trivial⟩
  | userauthPassword session user password => exact h.passwordStep hstep
  | kbdResponse session answer => exact h.responseStep hstep
  | userauthList session user | keyboardInteractive session user
  | publickeyFromFile session user keyFile passphrase
  | publickeyFromMemory session user pem =>
    obtain ⟨hallows, ⟨⟩⟩ := Option.ite_none_right_eq_some.mp hstep
    exact ⟨h.same nofun ⟨nofun, nofun⟩ (by simp [IsPassword]) (by simp [IsResponse]),
      h.givenFreely hallows⟩
  | sftpInit session command sftp | channelOpen session channel | scpOpen session channel =>
    obtain ⟨hsession, ⟨⟩⟩ := Option.ite_none_right_eq_some.mp hstep
    have hbehind := h.behind hsession
    refine ⟨h.reach nofun ⟨nofun, nofun⟩
      (by simp [IsPassword]) (by simp [IsResponse]) hbehind fun new hnew => ?_,
      hbehind⟩
    obtain ⟨_, rfl, rfl⟩ := Option.map_eq_some_iff.mp hnew
    simp [SshCall.Opens, SshCall.events, givenOn]
  | sftpOpen sftp file =>
    obtain ⟨hmem, ⟨⟩⟩ := Option.ite_none_right_eq_some.mp hstep
    have hbehind := h.reached _ hmem
    refine ⟨h.reach nofun ⟨nofun, nofun⟩
      (by simp [IsPassword]) (by simp [IsResponse]) hbehind fun new hnew => ?_,
      hbehind⟩
    obtain ⟨_, rfl, rfl⟩ := Option.map_eq_some_iff.mp hnew
    simp [SshCall.Opens, SshCall.events, givenOn]
  | sftpCall handle | fileCall handle | channelCall handle =>
    obtain ⟨hmem, ⟨⟩⟩ := Option.ite_none_right_eq_some.mp hstep
    exact ⟨h.same nofun ⟨nofun, nofun⟩ (by simp [IsPassword]) (by simp [IsResponse]),
      h.reached _ hmem⟩
  | sftpClose file =>
    obtain rfl := Option.some.inj hstep
    refine ⟨h.leave ?_ ⟨?_, ?_⟩ (by simp [IsPassword]) (by simp [IsResponse]) (.file file), trivial⟩
    all_goals exact nofun
  | channelFree channel =>
    obtain rfl := Option.some.inj hstep
    refine ⟨h.leave ?_ ⟨?_, ?_⟩ (by simp [IsPassword]) (by simp [IsResponse]) (.channel channel),
      trivial⟩
    all_goals exact nofun
  | _ =>
    obtain rfl := Option.some.inj hstep
    exact ⟨h.same nofun ⟨nofun, nofun⟩ (by simp [IsPassword]) (by simp [IsResponse]), trivial⟩

theorem rightlyGiven_of_follow {calls : List SshCall} {s s' : Watch} (h : Describes s.trust log)
    (hlog : AtEach RightlyGiven log) (hfollow : s.follow calls = some s') :
    AtEach RightlyGiven (log ++ calls) := by
  induction calls generalizing s log with
  | nil => rwa [List.append_nil]
  | cons call calls ih =>
    rw [Watch.follow_cons] at hfollow
    obtain ⟨u, hu, hrest⟩ := Option.bind_eq_some_iff.mp hfollow
    obtain ⟨held, -, hmap⟩ := Option.bind_eq_some_iff.mp hu
    obtain ⟨trust, htrust, rfl⟩ := Option.map_eq_some_iff.mp hmap
    obtain ⟨hdescribes, hright⟩ := h.step htrust
    have hnext := ih hdescribes (atEach_concat.mpr ⟨hlog, hright⟩) hrest
    rwa [List.append_assoc] at hnext

/-- In every run of acts whatever is given away, and whatever is asked for behind it, goes to a
session whose host key was accepted, for the host and the port that `Connect` was called with
last. -/
theorem given_to_verified (hmac : Bytes → CStr → Bytes) (acts : List ConnectionAct) :
    AtEach RightlyGiven (CSftpConnection.new.run hmac acts).2 := by
  obtain ⟨pos, -, -, hfollow⟩ := @follow_run hmac acts
  exact rightlyGiven_of_follow describes_none atEach_nil hfollow

end Secrets

/-! ## What `Connect` comes to -/

section Result

theorem ascii_ne_nil {s : String} (h : s ≠ "") : ascii s ≠ [] := by
  intro hnil
  exact h (String.toList_eq_nil_iff.mp (List.map_eq_nil_iff.mp hnil))

/-- The error carries a text. -/
def PpkStop.Explained : PpkStop → Prop
  | .context ctx => ctx ≠ []
  | .message text => text ≠ []
  | .notPpk | .notWritten | .thrown => True

/-- Every error carries a text. -/
def Says {α : Type*} (x : Except PpkStop α) : Prop := ∀ stop, x = .error stop → stop.Explained

variable {α β : Type*} {x : Except PpkStop α} {f : α → Except PpkStop β}

theorem says_ok (a : α) : Says (.ok a : Except PpkStop α) := nofun

theorem says_error {stop : PpkStop} (h : stop.Explained) :
    Says (.error stop : Except PpkStop α) := by
  rintro _ ⟨⟩
  exact h

theorem Says.bind (hx : Says x) (hf : ∀ a, Says (f a)) : Says (x.bind f) := by
  cases x with
  | error stop => exact says_error (hx stop rfl)
  | ok a => exact hf a

theorem says_ppkField {platform : Platform} {blob : Bytes} {n : ℕ} {ctx : CStr} (hctx : ctx ≠ []) :
    Says (ppkField platform blob n ctx) := by
  unfold ppkField
  split_ifs
  · cases Blob.returned _ n with
    | some data => exact says_ok data
    | none => exact says_error hctx
  · exact says_error trivial

theorem says_keyFromBlobs (ssl : OpenSsl) (platform : Platform) (pub priv : Bytes) :
    Says (keyFromBlobs ssl platform pub priv) := by
  have hrsa : Says (rsaFromBlobs platform pub priv) :=
    (says_ppkField (ascii_ne_nil (by decide))).bind fun _ =>
      (says_ppkField (ascii_ne_nil (by decide))).bind fun _ =>
      (says_ppkField (ascii_ne_nil (by decide))).bind fun _ =>
        (says_ppkField (ascii_ne_nil (by decide))).bind fun _ =>
        (says_ppkField (ascii_ne_nil (by decide))).bind fun _ =>
          (says_ppkField (ascii_ne_nil (by decide))).bind fun _ => says_ok _
  have hed : Says (ed25519FromBlobs ssl platform pub priv) := by
    refine (says_ppkField (ascii_ne_nil (by decide))).bind fun _ =>
      (says_ppkField (ascii_ne_nil (by decide))).bind fun privKey => ?_
    split_ifs
    · exact says_error (ascii_ne_nil (by decide))
    · exact says_ok _
    · exact says_error (ascii_ne_nil (by decide))
  refine (says_ppkField (ascii_ne_nil (by decide))).bind fun keyalg => ?_
  split_ifs
  · exact hrsa
  · exact hed
  · exact says_error (List.append_ne_nil_of_left_ne_nil
      (List.append_ne_nil_of_left_ne_nil (ascii_ne_nil (by decide)) _) _)

theorem says_clearPrivate (ssl : OpenSsl) (version : ℕ) (h : PpkHeader)
    (passphrase : CStr) (priv : Bytes) :
    Says (ssl.clearPrivate version h passphrase priv) := by
  have hkey : Says (ssl.keyIv version h passphrase) := by
    unfold OpenSsl.keyIv
    split_ifs
    · rcases b64Decode ssl.evpDecodeBlock h.a2salt with _ | salt
      · exact says_error trivial
      · dsimp only
        rcases ssl.ppk3DeriveKey passphrase salt h with _ | out
        · exact says_error (ascii_ne_nil (by decide))
        · exact says_ok _
    · exact says_ok _
  unfold OpenSsl.clearPrivate
  split_ifs
  · exact says_error (ascii_ne_nil (by decide))
  · exact hkey.bind fun _ => says_ok _
  · exact says_ok _

theorem says_tryPpkAuth (ssl : OpenSsl) (platform : Platform) (file : Option Bytes)
    (passphrase : CStr) :
    Says (tryPpkAuth ssl platform file passphrase) := by
  rcases file with _ | text
  · exact says_error trivial
  · refine Says.bind ?_ fun pkey => ?_
    · unfold ppkKey
      cases readPpk ssl.evpDecodeBlock text with
      | other => exact says_error trivial
      | invalid => exact says_error (ascii_ne_nil (by decide))
      | thrown => exact says_error trivial
      | key version header pub priv =>
        exact (says_clearPrivate _ _ _ _ _).bind fun _ => says_keyFromBlobs _ _ _ _
    · cases ssl.writePem pkey with
      | some pem => exact says_ok pem
      | none => exact says_error trivial

/-- A failure has its message. -/
def Outcome.Explains (o : Outcome) : Prop := o.result = some false → o.conn.ErrorMsg ≠ []

namespace CSftpConnection

variable {hmac : Bytes → CStr → Bytes} {w : ConnectWorld} {args : ConnectArgs} (c : CSftpConnection)

theorem explains_next {o : Outcome} {f : CSftpConnection → Outcome} (ho : o.Explains)
    (hf : ∀ c, (f c).Explains) :
    (o.next f).Explains := by
  unfold Outcome.next
  split_ifs
  · exact hf o.conn
  · exact ho

theorem explains_orDisconnect {o : Outcome} (h : o.Explains) : o.orDisconnect.Explains := by
  unfold Outcome.orDisconnect
  split_ifs with hresult
  · exact fun _ => h hresult
  · exact h

theorem explains_ite {r : Prop} [Decidable r] {o o' : Outcome}
    (ho : o.Explains) (ho' : o'.Explains) :
    (if r then o else o').Explains := by
  split_ifs
  · exact ho
  · exact ho'

theorem explains_withSession {f : ℕ → Outcome} (hf : ∀ session, (f session).Explains) :
    (c.withSession f).Explains := by
  unfold withSession
  cases c.Session with
  | none => exact nofun
  | some session => exact hf session

theorem setError_ne_nil (errors : LastErrors) {ctx : CStr} (hctx : ctx ≠ []) :
    (c.setError errors ctx).1.ErrorMsg ≠ [] := by
  have hcut : ∀ rest : CStr, lstrcpyn (ctx ++ rest) 512 ≠ [] := by
    intro rest hnil
    obtain ⟨b, ctx, rfl⟩ := List.exists_cons_of_ne_nil hctx
    cases hnil
  unfold setError
  cases c.sftpDesc errors with
  | some desc => simpa only [List.append_assoc] using hcut _
  | none =>
    cases c.Session with
    | some session => simpa only [List.append_assoc] using hcut _
    | none => simpa only [List.append_nil] using hcut []

theorem explains_failed (errors : LastErrors) {ctx : CStr}
    (hctx : ctx ≠ []) (calls : List SshCall) :
    (c.failed errors ctx calls).Explains := fun _ => c.setError_ne_nil errors hctx

theorem explains_openSocket : (c.openSocket w).Explains := by
  unfold openSocket
  rcases w.getaddrinfo with _ | res
  · exact fun _ => ascii_ne_nil (by decide)
  · rcases w.socket with _ | sock
    · exact explains_orDisconnect fun _ => ascii_ne_nil (by decide)
    · dsimp only
      split_ifs
      · exact nofun
      · exact explains_orDisconnect fun _ => ascii_ne_nil (by decide)

theorem explains_startSession (useCompression : Bool) :
    (c.startSession w useCompression).Explains := by
  unfold startSession withSocket
  cases c.Sock with
  | none => exact nofun
  | some sock =>
    rcases w.sessionInit with _ | session
    · exact explains_orDisconnect fun _ => ascii_ne_nil (by decide)
    · show Outcome.Explains (if w.handshake = true then _ else _)
      split_ifs
      · exact nofun
      · exact explains_orDisconnect (explains_failed _ _ (ascii_ne_nil (by decide)) _)

theorem explains_checkHostKey (host : CStr) (port : ℤ) :
    (c.checkHostKey hmac w host port).Explains := by
  have hmessage : (verifyHostKey hmac w.store w.hostKey host port).accepted = false →
      (verifyHostKey hmac w.store w.hostKey host port).ErrorMsg.getD c.ErrorMsg ≠ [] := by
    unfold verifyHostKey
    rcases w.hostKey.hostkey with _ | ⟨hk, ktype⟩
    · exact fun _ => ascii_ne_nil (by decide)
    · dsimp only
      split_ifs <;> first | exact fun _ => ascii_ne_nil (by decide) | exact nofun
  refine c.explains_withSession fun session => ?_
  dsimp only
  split_ifs with haccepted
  · exact nofun
  · exact explains_orDisconnect fun _ => hmessage (by simpa using haccepted)

theorem explains_authenticate (a : AuthWorld) (user password keyFile : CStr) :
    (c.authenticate a user password keyFile).Explains := by
  have hkbd : ∀ session, (c.kbdAuth a user password session).Explains := by
    intro session
    unfold kbdAuth
    refine explains_ite (explains_ite nofun ?_) ?_
    · exact c.explains_failed _ (ascii_ne_nil (by decide)) _
    · exact c.explains_failed _ (ascii_ne_nil (by decide)) _
  have hpassword : ∀ session, (c.passwordAuth a user password session).Explains := by
    intro session
    exact explains_ite (explains_ite nofun (hkbd session)) (hkbd session)
  have hkey : ∀ session, (c.keyAuth a user password keyFile session).Explains := by
    intro session
    unfold keyAuth
    rcases htry : tryPpkAuth a.ssl a.platform a.keyFile password with stop | pem
    · have hexplained := says_tryPpkAuth _ _ _ _ stop htry
      cases stop with
      | notPpk => exact explains_ite nofun (c.explains_failed _ (ascii_ne_nil (by decide)) _)
      | context ctx => exact c.explains_failed _ hexplained _
      | message text => exact fun _ => hexplained
      | notWritten => exact fun _ => List.append_ne_nil_of_left_ne_nil (ascii_ne_nil (by decide)) _
      | thrown => exact nofun
    · exact explains_ite nofun (c.explains_failed _ (ascii_ne_nil (by decide)) _)
  refine c.explains_withSession fun session => ?_
  show Outcome.Explains ⟨(if keyFile ≠ [] then _ else _ : Outcome).result, _, _⟩
  split_ifs
  · exact hkey session
  · exact hpassword session

theorem explains_startSftp : (c.startSftp w args).Explains := by
  unfold startSftp
  by_cases hprotocol : args.protocol = 1
  · dsimp only
    rw [if_pos hprotocol]
    exact nofun
  · dsimp only
    rw [if_neg hprotocol]
    refine explains_withSession _ fun session => ?_
    rcases w.sftpInit with _ | sftp
    · refine explains_ite nofun (explains_orDisconnect fun _ => ?_)
      dsimp only
      refine ascii_ne_nil ?_
      simp
    · exact nofun

theorem explains_connect : (c.connect hmac w args).Explains := by
  show (c.disconnect.1.connectSteps hmac w args).Explains
  unfold connectSteps
  refine explains_next (explains_next (explains_next (explains_next ?_ fun c => ?_) fun c =>
    ?_) fun c => ?_) fun c => ?_
  · exact explains_openSocket _
  · exact c.explains_startSession _
  · exact c.explains_checkHostKey _ _
  · exact explains_orDisconnect (c.explains_authenticate _ _ _ _)
  · exact c.explains_startSftp

end CSftpConnection

/-- A `Connect` that fails, whatever was done before, leaves no handle and a message. -/
theorem connect_failed (hmac : Bytes → CStr → Bytes) (acts : List ConnectionAct)
    (w : ConnectWorld) (args : ConnectArgs)
    (hfailed : ((CSftpConnection.new.run hmac acts).1.connect hmac w args).result = some false) :
    ((CSftpConnection.new.run hmac acts).1.connect hmac w args).conn.At .idle ∧
      ((CSftpConnection.new.run hmac acts).1.connect hmac w args).conn.ErrorMsg ≠ [] := by
  obtain ⟨pos, -, hat, -⟩ := @follow_run hmac acts
  obtain ⟨pos', hstage, hat', -⟩ := @goes_connect _ hmac _ hat w args
  rw [hfailed] at hstage
  have hidle : pos'.phase = .idle := hstage
  rw [hidle] at hat'
  exact ⟨hat', CSftpConnection.explains_connect _ hfailed⟩

/-- A second attempt, behind one that failed and a keepalive. -/
theorem connect_failed_refused :
    let args : ConnectArgs := ⟨[], 22, [], [], [], false, 0, false, []⟩
    let before := [.connect (refusingWorld 5 7) args, .sendKeepalive true]
    let o := (CSftpConnection.new.run (fun _ _ => []) before).1.connect (fun _ _ => [])
        (refusingWorld 6 8) args
    o.conn.At .idle ∧ o.conn.ErrorMsg ≠ [] :=
  connect_failed (fun _ _ => []) _ (refusingWorld 6 8) _ rfl

end Result

/-! ## What `IsConnected` confirms -/

section Confirmed

variable {c : CSftpConnection} {hmac : Bytes → CStr → Bytes} {phase : Phase} {pos : Position}

/-- The server answers, as far as `IsConnected` sees. -/
def Liveness.Alive (live : Liveness) : Prop :=
  0 ≤ live.select ∧ live.keepaliveFails = false ∧ (0 < live.select → live.exceptional = false ∧
    (live.readable = true → 0 < live.recv ∨ live.recv < 0 ∧ live.wouldBlock = true))

/-- A connection as `Connect` leaves it behind when it succeeds. -/
def CSftpConnection.Usable (c : CSftpConnection) : Prop :=
  (∃ sock, c.Sock = some sock) ∧ (∃ session, c.Session = some session) ∧
    (c.ScpMode = true ∨ ∃ sftp, c.Sftp = some sftp)

theorem isConnected_iff (c : CSftpConnection) (live : Liveness) :
    (c.isConnected live).1 = true ↔ c.Usable ∧ live.Alive := by
  unfold CSftpConnection.isConnected CSftpConnection.Usable Liveness.Alive
  rcases c.Sock with _ | sock
  · simp
  rcases c.Session with _ | session
  · simp
  rcases c.Sftp with _ | sftp
  all_goals
    dsimp only
    split_ifs <;> grind

/-- What the phase is after `Connect`. -/
theorem usable_of_at (hat : c.At phase) :
    c.Usable ↔ (∃ s p, phase = .shaken s p true) ∨ ∃ s p q, phase = .sftp s p q := by
  unfold CSftpConnection.Usable
  rw [hat.sock, hat.session, hat.sftp, hat.scp]
  cases phase with
  | idle => simp [Phase.Sock]
  | socket s => simp [Phase.Session]
  | session s p => simp [Phase.Sftp, Phase.ScpMode]
  | shaken s p scp => simp [Phase.Sock, Phase.Session, Phase.Sftp, Phase.ScpMode]
  | sftp s p q => simp [Phase.Sock, Phase.Session, Phase.Sftp]

/-- The acts that do not touch the handles of a connection. -/
def ConnectionAct.Keeps : ConnectionAct → Prop
  | .connect _ _ | .disconnect => False
  | .isConnected _ | .sendKeepalive _ | .method _ _ => True

/-- The last act that made or ended a connection is a `Connect` that succeeded. -/
def Connected (hmac : Bytes → CStr → Bytes) (acts : List ConnectionAct) : Prop :=
  ∃ before w args after, acts = before ++ .connect w args :: after ∧ (∀ a ∈ after, a.Keeps) ∧
    ((CSftpConnection.new.run hmac before).1.connect hmac w args).result = some true

theorem run_concat (c : CSftpConnection) (acts : List ConnectionAct) (a : ConnectionAct) :
    (c.run hmac (acts ++ [a])).1 = ((c.run hmac acts).1.act hmac a).conn := by
  induction acts generalizing c with
  | nil => rfl
  | cons b acts ih => exact ih _

theorem connected_concat {acts : List ConnectionAct} {a : ConnectionAct} :
    Connected hmac (acts ++ [a]) ↔ (a.Keeps ∧ Connected hmac acts) ∨
      ∃ w args, a = .connect w args ∧
      ((CSftpConnection.new.run hmac acts).1.connect hmac w args).result = some true := by
  constructor
  · rintro ⟨before, w, args, after, heq, hkeeps, hresult⟩
    rcases List.eq_nil_or_concat after with rfl | ⟨after, b, rfl⟩
    · obtain ⟨rfl, hlast⟩ := List.append_inj' heq rfl
      obtain rfl := List.singleton_inj.mp hlast
      exact .inr ⟨w, args, rfl, hresult⟩
    · rw [List.concat_eq_append, ← List.cons_append, ← List.append_assoc] at heq
      obtain ⟨rfl, hlast⟩ := List.append_inj' heq rfl
      obtain rfl := List.singleton_inj.mp hlast
      rw [List.concat_eq_append] at hkeeps
      refine .inl ⟨hkeeps a (by simp), before, w, args, after, rfl,
        fun b hb => hkeeps b (by simp [hb]), hresult⟩
  · rintro (⟨hkeep, before, w, args, after, rfl, hkeeps, hresult⟩ | ⟨w, args, rfl, hresult⟩)
    · refine ⟨before, w, args, after ++ [a], by simp, fun b hb => ?_, hresult⟩
      rcases List.mem_append.mp hb with hb | hb
      · exact hkeeps b hb
      · exact List.mem_singleton.mp hb ▸ hkeep
    · exact ⟨acts, w, args, [], rfl, fun b hb => absurd hb List.not_mem_nil, hresult⟩

theorem usable_act (hat : c.At pos.phase) (a : ConnectionAct) : (c.act hmac a).conn.Usable ↔
    (a.Keeps ∧ c.Usable) ∨ ∃ w args, a = .connect w args ∧
    (c.connect hmac w args).result = some true := by
  cases a with
  | connect w args =>
    have hgoal : (c.act hmac (.connect w args)).conn.Usable ↔
        (c.connect hmac w args).result = some true := by
      obtain ⟨pos', hstage, hat', -⟩ := @goes_connect _ hmac _ hat w args
      show (c.connect hmac w args).conn.Usable ↔ _
      rw [usable_of_at hat']
      match (c.connect hmac w args).result, hstage with
      | some true, .inl ⟨s, p, hphase, _⟩ => exact ⟨fun _ => rfl, fun _ => .inl ⟨s, p, hphase⟩⟩
      | some true, .inr ⟨s, p, q, hphase, _⟩ =>
        exact ⟨fun _ => rfl, fun _ => .inr ⟨s, p, q, hphase⟩⟩
      | some false, hidle =>
        have hidle : pos'.phase = .idle := hidle
        simp [hidle]
      | none, ⟨s, p, hshaken, _⟩ => simp [hshaken]
    rw [hgoal]
    constructor
    · exact fun hresult => .inr ⟨w, args, rfl, hresult⟩
    · rintro (⟨hkeeps, -⟩ | ⟨_, _, heq, hresult⟩)
      · exact hkeeps.elim
      · cases heq
        exact hresult
  | disconnect =>
    have hidle : (c.act hmac .disconnect).conn.At .idle := hat.disconnect.1
    rw [usable_of_at hidle]
    simp [ConnectionAct.Keeps]
  | isConnected live => simp [CSftpConnection.act, ConnectionAct.Keeps]
  | sendKeepalive fails => simp [CSftpConnection.act, ConnectionAct.Keeps]
  | method interactions text =>
    simp [CSftpConnection.act, ConnectionAct.Keeps, CSftpConnection.Usable]

/-- In every run, a connection can be used when the last act that made or ended one was a `Connect`
that succeeded. -/
theorem usable_run (acts : List ConnectionAct) :
    (CSftpConnection.new.run hmac acts).1.Usable ↔ Connected hmac acts := by
  induction acts using List.reverseRecOn with
  | nil =>
    constructor
    · rintro ⟨⟨_, hsock⟩, -⟩
      cases hsock
    · rintro ⟨before, w, args, after, heq, -⟩
      exact absurd heq (by simp)
  | append_singleton acts a ih =>
    obtain ⟨pos, -, hat, -⟩ := @follow_run hmac acts
    rw [run_concat, usable_act hat, ih, connected_concat]

/-- `IsConnected` is true exactly when the last act that made or ended a connection is a `Connect`
that succeeded, and the server answers. -/
theorem isConnected_run (hmac : Bytes → CStr → Bytes)
    (acts : List ConnectionAct) (live : Liveness) :
    ((CSftpConnection.new.run hmac acts).1.isConnected live).1 = true ↔
    Connected hmac acts ∧ live.Alive := by
  rw [isConnected_iff, usable_run]

end Confirmed

end SalamanderSftp
