import SalamanderSftp.Fs.TypedAddress

/-!
# ChangePath

`CPluginFSInterface::ChangePath` with `SftpEnsureConnected`: it takes over a typed server, connects,
and looks for a directory on the way up from the path. The server is asked for one path after the
other; its answers, and whether connecting succeeds, are the `SshWorld`.

1. `pathsTried` are the paths the search asks for, and `searchPath_isSome_iff` says when it finds
   one.
2. A failure of `ChangePath` leaves the profile and the path as they were unless the profile had
   been switched to another server before (`change_path_atomic_iff`).
3. What a switched profile keeps goes to the new server, the password included
   (`credentials_stay_iff`).
-/

namespace SalamanderSftp

/-! ## State and environment -/

/-- The arguments of `CSftpConnection::Connect`. -/
structure ConnectArgs where
  host : CStr
  port : ℤ
  user : CStr
  password : CStr
  keyFile : CStr
  useCompression : Bool
  protocol : ℤ
  scpFallback : Bool
  sftpServer : CStr
  deriving DecidableEq

def CSftpProfile.connectArgs (p : CSftpProfile) : ConnectArgs where
  host := p.Host.text
  port := p.Port
  user := p.User.text
  password := p.Password.text
  keyFile := p.KeyFile.text
  useCompression := p.UseCompression
  protocol := p.Protocol
  scpFallback := p.ScpFallback
  sftpServer := p.SftpServer.text

/-- The fields of `CPluginFSInterface` that `ChangePath` uses. -/
structure FsInstance where
  Profile : CSftpProfile
  /-- `Conn.IsConnected()`. -/
  connected : Bool
  Path : CharBuf 260
  PathError : Bool
  FatalError : Bool

/-- The global `ConnectData` of the Connect dialog. -/
structure ConnectData where
  UseConnectData : Bool
  Profile : CSftpProfile
  UserPart : CStr

structure SshWorld where
  /-- `Connect` succeeds. -/
  connects : ConnectArgs → Bool
  /-- `GetHomeDir`, empty where it fails. -/
  homeDir : CStr
  /-- The answers to `PathType`: 0 = not found, 1 = file, 2 = directory. -/
  pathType : ℕ → CStr → ℕ

/-- `PathType` does not ask for the root. -/
def SshWorld.typeOf (world : SshWorld) (n : ℕ) (path : CStr) :
    ℕ := if path = [slash] then 2 else world.pathType n path

/-! ## Connecting -/

/-- `SftpEnsureConnected`: its result, whether there is a connection now, and the calls of
`Connect`. -/
def sftpEnsureConnected (world : SshWorld) (connected : Bool) (p : CSftpProfile) :
    Bool × Bool × List ConnectArgs :=
  if connected then (true, true, [])
  else if !p.Valid || p.Host.text = [] then (false, false, [])
  else (world.connects p.connectArgs, world.connects p.connectArgs, [p.connectArgs])

/-! ## The search for a directory -/

/-- The path that is tried after this one. -/
def nextTried (path : CStr) : Option CStr :=
  match splitLast (· == slash) path with
  | none => none
  | some (before, _) =>
    if before = [] ∨
      sftpIsRoot path then none else some (lstrcpyn (sftpParent path MAX_PATH) MAX_PATH)

/-- What `ChangePath` reports about the path: whether it was cut, and the file name to focus. -/
structure CutInfo where
  pathWasCut : Bool
  cutFileName : CStr
  fileNameAlreadyCut : Bool

/-- The name that is cut off, which is reported when it is a file and cut off first. -/
def CutInfo.cut (info : CutInfo) (path : CStr) (type : ℕ) : CutInfo where
  pathWasCut := true
  cutFileName :=
    if info.fileNameAlreadyCut then []
    else if type = 1 then lstrcpyn (((splitLast (· == slash) path).map Prod.snd).getD []) MAX_PATH
    else info.cutFileName
  fileNameAlreadyCut := true

/-- The loop of `ChangePath`; `n` counts its turns. It ends within `fuel` turns
(`searchPath_fuel`). -/
def searchPath (world : SshWorld) : (fuel n : ℕ) → CStr → CutInfo → Option CStr × CutInfo
  | 0, _, _, info => (none, info)
  | fuel + 1, n, path, info =>
    let type := world.typeOf n path
    if type = 2 then (some path, info)
    else
      match nextTried path with
      | none => (none, info)
      | some parent => searchPath world fuel (n + 1) parent (info.cut path type)

/-- The paths that the search may ask for, in order. -/
def pathsTried : (fuel : ℕ) → CStr → List CStr
  | 0, _ => []
  | fuel + 1, path => path :: ((nextTried path).map (pathsTried fuel)).getD []

/-! ## ChangePath -/

/-- The profile to connect with, and whether the connection was dropped. -/
def takeServer (data : ConnectData) (saved : List CSftpSavedProfile)
    (fs : FsInstance) (userPart : CStr) :
    CSftpProfile × Bool :=
  if data.UseConnectData then ({ data.Profile with Valid := true }, false)
  else sftpParseHostInto saved fs.Profile userPart

/-- The path that the search starts from. -/
def inputPath (world : SshWorld) (data : ConnectData) (fs : FsInstance) (userPart : CStr) : CStr :=
  let path :=
    if userPart = [] ∧ data.UseConnectData then lstrcpyn data.UserPart MAX_PATH
    else lstrcpyn (sftpStripHost userPart) MAX_PATH
  let path := if path =
      [] then (if world.homeDir = [] then [slash] else lstrcpyn world.homeDir MAX_PATH) else path
  let path :=
    if path.head? = some slash then path
    else lstrcpyn
      (sftpJoin (if fs.Path.text = [] then [slash] else fs.Path.text) path MAX_PATH) MAX_PATH
  sftpNormalize path

/-- After `PathError` the search starts one level up, if there is one. -/
def startPath (pathError : Bool) (path : CStr) : Option CStr :=
  if pathError then
    let parentPath := sftpParent path MAX_PATH
    if sftpIsSamePath path parentPath ||
      sftpIsRoot path then none else some (lstrcpyn parentPath MAX_PATH)
  else some path

structure ChangePathResult where
  ok : Bool
  fs : FsInstance
  connects : List ConnectArgs
  cut : CutInfo

def changePath (world : SshWorld) (data : ConnectData)
    (saved : List CSftpSavedProfile) (fs : FsInstance)
    (userPart : CStr) : ChangePathResult :=
  if fs.FatalError then ⟨false, { fs with FatalError := false }, [], ⟨false, [], false⟩⟩
  else
    let (p, dropped) := takeServer data saved fs userPart
    let (ok, connected, connects) := sftpEnsureConnected world (fs.connected && !dropped) p
    let fs := { fs with Profile := p, connected := connected }
    if !ok then ⟨false, fs, connects, ⟨false, [], false⟩⟩
    else
      let path := inputPath world data fs userPart
      match startPath fs.PathError path with
      | none => ⟨false, { fs with PathError := false }, connects, ⟨false, [], false⟩⟩
      | some start =>
        let info : CutInfo := ⟨fs.PathError, [], false⟩
        let fs := { fs with PathError := false }
        match searchPath world (start.length + 1) 0 start info with
        | (none, info) => ⟨false, fs, connects, info⟩
        | (some found, info) => ⟨true, { fs with Path := .copy 260 found }, connects, info⟩

/-! ## How the search ends -/

theorem length_nextTried {path parent : CStr} (h : nextTried path = some parent) :
    parent.length < path.length := by
  unfold nextTried at h
  rcases hs : splitLast (· == slash) path with _ | ⟨before, after⟩
  · simp [hs] at h
  rw [hs] at h
  dsimp only at h
  split_ifs at h with hstop
  obtain rfl := Option.some.inj h
  have hbefore := length_splitLast hs
  have hpos : 0 < before.length := List.length_pos_of_ne_nil fun hnil => hstop (Or.inl hnil)
  have hne : path ≠ [] := by
    rintro rfl
    simp at hbefore
  refine (List.length_take_le' _ _).trans_lt ?_
  unfold sftpParent
  rw [if_neg hne]
  dsimp only
  rcases hout : splitLast (· == slash) (lstrcpyn path MAX_PATH) with _ | ⟨before', after'⟩
  · by_cases hfits : path.length < MAX_PATH
    · rw [lstrcpyn_eq_self hfits, hs] at hout
      exact absurd hout (by simp)
    · have := length_lstrcpyn_le path MAX_PATH
      dsimp only
      unfold MAX_PATH at *
      omega
  · have hlen := length_splitLast hout
    have hle : (lstrcpyn path MAX_PATH).length ≤ path.length := List.length_take_le' _ _
    dsimp only
    split_ifs
    · rw [List.length_singleton]
      omega
    · omega

/-- The search does not need more turns than the path has characters. -/
theorem searchPath_fuel (world : SshWorld) {fuel : ℕ} :
    ∀ {fuel' n : ℕ} {path : CStr} {info : CutInfo}, path.length < fuel → path.length < fuel' →
      searchPath world fuel n path info = searchPath world fuel' n path info := by
  induction fuel with
  | zero => intro _ _ _ _ h; omega
  | succ fuel ih =>
    intro fuel' n path info h h'
    obtain ⟨fuel', rfl⟩ : ∃ k, fuel' = k + 1 := ⟨fuel' - 1, by omega⟩
    rw [searchPath, searchPath]
    rcases hn : nextTried path with _ | parent
    · rfl
    · have hlen := length_nextTried hn
      dsimp only
      rw [ih (by omega : parent.length < fuel) (by omega : parent.length < fuel')]

/-- The search succeeds when one of the paths it may ask for is a directory when its turn comes. -/
theorem searchPath_isSome_iff (world : SshWorld) {fuel : ℕ} :
    ∀ {n : ℕ} {path : CStr} {info : CutInfo}, (searchPath world fuel n path info).1.isSome = true ↔
      ∃ i q, (pathsTried fuel path)[i]? = some q ∧ world.typeOf (n + i) q = 2 := by
  induction fuel with
  | zero => intro n path info; simp [searchPath, pathsTried]
  | succ fuel ih =>
    intro n path info
    rw [searchPath, pathsTried]
    by_cases htype : world.typeOf n path = 2
    · rw [if_pos htype]
      exact ⟨fun _ => ⟨0, path, rfl, htype⟩, fun _ => rfl⟩
    rw [if_neg htype]
    rcases hn : nextTried path with _ | parent
    · constructor
      · simp
      · rintro ⟨_ | i, q, hq, hdir⟩
        · obtain rfl := Option.some.inj hq
          exact absurd hdir htype
        · simp at hq
    · dsimp only
      rw [ih]
      constructor
      · rintro ⟨i, q, hq, hdir⟩
        exact ⟨i + 1, q, by simpa using hq, by rwa [← Nat.add_assoc, Nat.add_right_comm]⟩
      · rintro ⟨_ | i, q, hq, hdir⟩
        · obtain rfl := Option.some.inj hq
          exact absurd hdir htype
        · exact ⟨i, q, by simpa using hq, by rwa [Nat.add_right_comm, Nat.add_assoc]⟩

/-! ## Failing without a trace -/

/-- When `ChangePath` fails, the server and the path are what they were. -/
def AtomicOnFailure (world : SshWorld) (data : ConnectData)
    (saved : List CSftpSavedProfile) (fs : FsInstance)
    (userPart : CStr) : Prop :=
  let r := changePath world data saved fs userPart
  r.ok = false → r.fs.Profile.server = fs.Profile.server ∧ r.fs.Path = fs.Path

/-- The Connect dialog or the typed address names another server than the profile denotes. -/
def NamesOther (data : ConnectData) (fs : FsInstance) (userPart : CStr) : Prop :=
  if data.UseConnectData then data.Profile.server ≠ fs.Profile.server
  else ∃ buf rest, splitHost userPart = some (buf, rest) ∧ buf ≠ [] ∧ buf.length < 320 ∧
    (parseHost buf).host.text ≠ [] ∧ (parseHost buf).Differs fs.Profile

/-- There is or will be a connection, and some path on the way up is a directory when it is asked
for. -/
def Arrives (world : SshWorld) (data : ConnectData)
    (saved : List CSftpSavedProfile) (fs : FsInstance)
    (userPart : CStr) : Prop :=
  let (p, dropped) := takeServer data saved fs userPart
  ((fs.connected = true ∧ dropped = false) ∨
    (p.Valid = true ∧ p.Host.text ≠ [] ∧ world.connects p.connectArgs = true)) ∧
    ∃ start, startPath fs.PathError (inputPath world data fs userPart) = some start ∧
      ∃ i q, (pathsTried (start.length + 1) start)[i]? = some q ∧ world.typeOf i q = 2

section Atomic

variable {world : SshWorld} {data : ConnectData} {saved : List CSftpSavedProfile}
  {fs : FsInstance} {userPart : CStr}

theorem server_switchProfile_ne {p : CSftpProfile} {a : HostParts} (h : a.Differs p) :
    (switchProfile saved p a).server ≠ p.server := by
  intro heq
  obtain ⟨hhost, -, huser⟩ := Server.mk.inj heq
  rcases h with h | ⟨hne, h⟩
  · exact h hhost
  · have hswitched : (switchProfile saved p a).User.text = a.user.text := by
      simp [switchProfile, hne]
    rw [hswitched] at huser
    exact h (huser ▸ .refl _)

theorem server_takeServer : (takeServer data saved fs userPart).1.server ≠ fs.Profile.server ↔
    NamesOther data fs userPart := by
  unfold takeServer NamesOther
  by_cases huse : data.UseConnectData = true
  · rw [if_pos huse, if_pos huse]
    rfl
  rw [if_neg huse, if_neg huse]
  unfold sftpParseHostInto
  rcases splitHost userPart with _ | ⟨buf, rest⟩
  · simp
  · simp only [Option.some.injEq, Prod.mk.injEq]
    constructor
    · intro hne
      split_ifs at hne with hlen hhost hd
      · exact absurd rfl hne
      · exact absurd rfl hne
      · rw [not_or, not_le] at hlen
        exact ⟨buf, rest, ⟨rfl, rfl⟩, hlen.1, hlen.2, hhost, hd⟩
      · exact absurd rfl hne
    · rintro ⟨_, _, ⟨rfl, rfl⟩, hne, hlen, hhost, hd⟩
      rw [if_neg (by simp [hne, hlen]), if_neg hhost, if_pos hd]
      exact server_switchProfile_ne hd

theorem changePath_profile (hfatal : fs.FatalError = false) :
    (changePath world data saved fs userPart).fs.Profile =
      (takeServer data saved fs userPart).1 := by
  unfold changePath
  rw [if_neg (by simp [hfatal])]
  dsimp only
  split_ifs
  · rfl
  · split
    · rfl
    · split <;> rfl

theorem sftpEnsureConnected_ok {connected : Bool} {p : CSftpProfile} :
    (sftpEnsureConnected world connected p).1 = true ↔
      connected = true ∨
      (p.Valid = true ∧ p.Host.text ≠ [] ∧ world.connects p.connectArgs = true) := by
  unfold sftpEnsureConnected
  rcases connected with _ | _
  · by_cases hvalid : (!p.Valid || decide (p.Host.text = [])) = true
    · rw [if_neg (by simp), if_pos hvalid]
      rw [Bool.or_eq_true, Bool.not_eq_true', decide_eq_true_eq] at hvalid
      rcases hvalid with hvalid | hhost
      · simp [hvalid]
      · simp [hhost]
    · rw [if_neg (by simp), if_neg hvalid]
      simp only [Bool.or_eq_true, Bool.not_eq_true', decide_eq_true_eq, not_or,
        Bool.not_eq_false] at hvalid
      simp [hvalid.1, hvalid.2]
  · simp

/-- A call that is let in succeeds when it arrives. -/
theorem changePath_ok_iff (hfatal : fs.FatalError = false) :
    (changePath world data saved fs userPart).ok = true ↔ Arrives world data saved fs userPart := by
  unfold changePath Arrives
  rw [if_neg (by simp [hfatal])]
  dsimp only
  have hconn : (sftpEnsureConnected world (fs.connected && !(takeServer data saved fs userPart).2)
      (takeServer data saved fs userPart).1).1 = true ↔ _ := sftpEnsureConnected_ok
  rw [Bool.and_eq_true, Bool.not_eq_true'] at hconn
  rw [← hconn]
  by_cases hok : (sftpEnsureConnected world (fs.connected && !(takeServer data saved fs userPart).2)
      (takeServer data saved fs userPart).1).1 = true
  · rw [if_neg (by simp [hok])]
    simp only [hok, true_and]
    have hinput : ∀ p b, inputPath world data { fs with Profile := p, connected := b } userPart =
        inputPath world data fs userPart := fun _ _ => rfl
    rw [hinput]
    rcases startPath fs.PathError (inputPath world data fs userPart) with _ | start
    · simp
    · simp only [Option.some.injEq, exists_eq_left']
      have hsearch :=
        @searchPath_isSome_iff world (start.length + 1) 0 start ⟨fs.PathError, [], false⟩
      simp only [Nat.zero_add] at hsearch
      rw [← hsearch]
      rcases searchPath world (start.length + 1) 0 start ⟨fs.PathError, [],
          false⟩ with ⟨_ | found, info⟩
      · simp
      · simp
  · rw [if_pos (by simp [hok])]
    simp [hok]

theorem changePath_path (h : (changePath world data saved fs userPart).ok = false) :
    (changePath world data saved fs userPart).fs.Path = fs.Path := by
  revert h
  unfold changePath
  dsimp only
  split_ifs
  · intro _; rfl
  · intro _; rfl
  · split
    · intro _; rfl
    · split
      · intro _; rfl
      · intro h; simp at h

/-- A failure goes unnoticed when the call is not let in or names the server of the profile;
otherwise it must not happen. -/
theorem change_path_atomic_iff (world : SshWorld) (data : ConnectData)
    (saved : List CSftpSavedProfile)
    (fs : FsInstance) (userPart : CStr) :
    AtomicOnFailure world data saved fs userPart ↔
      fs.FatalError = true ∨ ¬ NamesOther data fs userPart ∨
      Arrives world data saved fs userPart := by
  unfold AtomicOnFailure
  dsimp only
  by_cases hfatal : fs.FatalError = true
  · have hsame : (changePath world data saved fs userPart).fs =
        { fs with FatalError := false } := by
      unfold changePath
      rw [if_pos hfatal]
    simp only [hfatal, true_or, iff_true]
    intro _
    rw [hsame]
    exact ⟨rfl, rfl⟩
  rw [Bool.not_eq_true] at hfatal
  have hprofile := @changePath_profile world data saved fs userPart hfatal
  have hok := @changePath_ok_iff world data saved fs userPart hfatal
  rw [← hok, ← @server_takeServer data saved, ← hprofile, hfatal]
  constructor
  · intro h
    by_cases hr : (changePath world data saved fs userPart).ok = true
    · exact Or.inr (Or.inr hr)
    · exact Or.inr (Or.inl (not_not.mpr (h (by simpa using hr)).1))
  · rintro (h | h | h) hfail
    · simp at h
    · exact ⟨not_not.mp h, changePath_path hfail⟩
    · rw [h] at hfail
      simp at hfail

end Atomic

/-- An instance that is connected to a host, in a directory. -/
def FsInstance.connectedTo (host : CharBuf 256) (path : CharBuf 260) :
    FsInstance := ⟨.at host 22, true, path, false, false⟩

/-- A server that refuses the connection. -/
def SshWorld.refusing : SshWorld := ⟨fun _ => false, [], fun _ _ => 0⟩

/-- The Connect dialog was not used. -/
def ConnectData.unused : ConnectData := ⟨false, .at (.copy 256 []) 22, []⟩

/-- A refused connection leaves the old path with the new server. -/
theorem not_change_path_atomic :
    ¬ ∀ (world : SshWorld) (data : ConnectData) (saved : List CSftpSavedProfile)
      (fs : FsInstance) (userPart : CStr),
      fs.connected = true → AtomicOnFailure world data saved fs userPart := by
  intro h
  have hserver := (h .refusing .unused []
      (.connectedTo (.copy 256 (ascii "g")) (.copy 260 (ascii "/data"))) (ascii "//h/")
    rfl (by decide +kernel)).1
  exact absurd hserver (by decide +kernel)

/-! ## What goes to the new server -/

/-- The fields of a profile that are meant for its own server. -/
structure Secrets where
  Password : CharBuf 256
  KeyFile : CharBuf 260
  SftpServer : CharBuf 260

def FsInstance.withSecrets (fs : FsInstance) (s : Secrets) : FsInstance :=
  { fs with
    Profile := { fs.Profile with
      Password := s.Password, KeyFile := s.KeyFile, SftpServer := s.SftpServer } }

/-- The arguments of the calls of `Connect` for another host than the profile had. -/
def connectsElsewhere (world : SshWorld) (data : ConnectData)
    (saved : List CSftpSavedProfile) (fs : FsInstance)
    (userPart : CStr) : List ConnectArgs :=
  (changePath world data saved fs userPart).connects.filter fun c =>
    ¬ stricmpEq c.host fs.Profile.Host.text

/-- Another host is told nothing about the secrets of the profile. -/
def CredentialsStay (world : SshWorld) (data : ConnectData)
    (saved : List CSftpSavedProfile) (fs : FsInstance)
    (userPart : CStr) : Prop :=
  ∀ s s' : Secrets, connectsElsewhere world data saved (fs.withSecrets s) userPart =
    connectsElsewhere world data saved (fs.withSecrets s') userPart

section Credentials

variable {world : SshWorld} {data : ConnectData} {saved : List CSftpSavedProfile}
  {fs : FsInstance} {userPart : CStr}
  {a : Address}

@[simp] theorem withSecrets_host (s : Secrets) :
    (fs.withSecrets s).Profile.Host = fs.Profile.Host := rfl
@[simp] theorem withSecrets_connected (s : Secrets) :
    (fs.withSecrets s).connected = fs.connected := rfl
@[simp] theorem withSecrets_FatalError (s : Secrets) :
    (fs.withSecrets s).FatalError = fs.FatalError := rfl

theorem changePath_connects (hfatal : fs.FatalError = false) :
    (changePath world data saved fs userPart).connects =
      (sftpEnsureConnected world (fs.connected && !(takeServer data saved fs userPart).2)
        (takeServer data saved fs userPart).1).2.2 := by
  unfold changePath
  rw [if_neg (by simp [hfatal])]
  dsimp only
  split_ifs
  · rfl
  · split
    · rfl
    · split <;> rfl

theorem sftpEnsureConnected_connects {connected : Bool} {p : CSftpProfile} {c : ConnectArgs}
    (h : c ∈ (sftpEnsureConnected world connected p).2.2) : c = p.connectArgs := by
  unfold sftpEnsureConnected at h
  split_ifs at h
  · simp at h
  · simp at h
  · simpa using h

/-- Nothing goes to another host while the profile keeps its host. -/
theorem connectsElsewhere_of_host (hfatal : fs.FatalError = false)
    (h : stricmpEq (takeServer data saved fs userPart).1.Host.text fs.Profile.Host.text) :
    connectsElsewhere world data saved fs userPart = [] := by
  unfold connectsElsewhere
  rw [changePath_connects hfatal, List.filter_eq_nil_iff]
  intro c hc
  rw [sftpEnsureConnected_connects hc, decide_eq_true_eq, not_not]
  exact h

theorem connectsElsewhere_switch (hfatal : fs.FatalError = false)
    (huse : data.UseConnectData = false)
    (ht : a.Typed userPart) (hlen : a.text.length < 320)
    (hhost : ¬ stricmpEq (parseHost a.text).host.text fs.Profile.Host.text) :
    connectsElsewhere world data saved fs userPart =
      [(switchProfile saved fs.Profile (parseHost a.text)).connectArgs] := by
  have htake : takeServer data saved fs userPart =
      (switchProfile saved fs.Profile (parseHost a.text), true) := by
    unfold takeServer
    rw [if_neg (by simp [huse]), Address.sftpParseHostInto_typed ht hlen]
    exact if_pos (Or.inl hhost)
  have hne : (parseHost a.text).host.text ≠ [] := by
    have hhost := a.host_plain.1
    rw [Address.parseHost_text]
    simp [lstrcpyn, hhost]
  unfold connectsElsewhere
  rw [changePath_connects hfatal, htake]
  unfold sftpEnsureConnected
  rw [Bool.not_true, Bool.and_false, if_neg (by simp), if_neg (by simp [switchProfile, hne])]
  apply List.filter_eq_self.mpr
  intro c hc
  obtain rfl := List.mem_singleton.mp hc
  simpa [CSftpProfile.connectArgs, switchProfile] using hhost

/-- Another host is told the secrets of the profile unless the address is not read or comes out as
the host of the profile. -/
theorem credentials_stay_iff (world : SshWorld) (data : ConnectData)
    (saved : List CSftpSavedProfile)
    (fs : FsInstance) (a : Address) (userPart : CStr) (ht : a.Typed userPart) :
    CredentialsStay world data saved fs userPart ↔
      fs.FatalError = true ∨ data.UseConnectData = true ∨ 320 ≤ a.text.length ∨
        stricmpEq (parseHost a.text).host.text fs.Profile.Host.text := by
  by_cases hfatal : fs.FatalError = true
  · simp only [hfatal, true_or, iff_true]
    intro s s'
    unfold connectsElsewhere changePath
    rw [if_pos (by simpa using hfatal), if_pos (by simpa using hfatal)]
    rfl
  rw [Bool.not_eq_true] at hfatal
  have hlet : ∀ s, (fs.withSecrets s).FatalError = false := fun _ => hfatal
  by_cases huse : data.UseConnectData = true
  · simp only [huse, true_or, or_true, iff_true]
    intro s s'
    unfold connectsElsewhere
    rw [changePath_connects (hlet s), changePath_connects (hlet s')]
    unfold takeServer
    rw [if_pos huse, if_pos huse]
    rfl
  rw [Bool.not_eq_true] at huse
  by_cases hlen : 320 ≤ a.text.length
  · simp only [hlen, true_or, or_true, iff_true]
    obtain ⟨rest, hsplit⟩ := Address.splitHost_typed ht
    have hkept : ∀ s, takeServer data saved (fs.withSecrets s) userPart =
        ((fs.withSecrets s).Profile, false) := by
      intro s
      unfold takeServer sftpParseHostInto
      rw [if_neg (by simp [huse]), hsplit]
      exact if_pos (Or.inr hlen)
    intro s s'
    rw [connectsElsewhere_of_host (hlet s) (by rw [hkept]; exact .refl _),
      connectsElsewhere_of_host (hlet s') (by rw [hkept]; exact .refl _)]
  by_cases hhost : stricmpEq (parseHost a.text).host.text fs.Profile.Host.text
  · simp only [hhost, or_true, iff_true]
    have hkept : ∀ s, stricmpEq
        (takeServer data saved (fs.withSecrets s) userPart).1.Host.text fs.Profile.Host.text := by
      intro s
      unfold takeServer
      rw [if_neg (by simp [huse]), Address.sftpParseHostInto_typed ht (not_le.mp hlen)]
      split_ifs
      · exact hhost
      · exact .refl _
    intro s s'
    rw [connectsElsewhere_of_host (hlet s) (hkept s),
      connectsElsewhere_of_host (hlet s') (hkept s')]
  · simp only [hfatal, huse, hlen, hhost, Bool.false_eq_true, or_false, iff_false]
    intro hstay
    -- two passwords tell the runs apart
    have hrun := hstay ⟨.copy 256 [], .copy 260 [], .copy 260 []⟩ ⟨.copy 256 (ascii "x"),
        .copy 260 [], .copy 260 []⟩
    rw [connectsElsewhere_switch (hlet _) huse ht (not_le.mp hlen) hhost,
      connectsElsewhere_switch (hlet _) huse ht (not_le.mp hlen) hhost] at hrun
    have hpassword := congrArg ConnectArgs.password (List.singleton_injective hrun)
    exact absurd hpassword
      (by simp only [CSftpProfile.connectArgs, switchProfile, FsInstance.withSecrets]; decide)

/-- The Connect dialog does not use the secrets of the profile. -/
theorem credentials_stay_dialog :
    CredentialsStay .refusing { ConnectData.unused with UseConnectData := true } []
      (.connectedTo (.copy 256 (ascii "g")) (.copy 260 [])) (ascii "//h/") :=
  (credentials_stay_iff _ _ _ _ shortAddress _ typed_shortAddress).mpr (Or.inr (Or.inl rfl))

/-- The password for `g` is sent to `h`. -/
theorem not_credentials_stay :
    ¬ ∀ (world : SshWorld) (data : ConnectData) (saved : List CSftpSavedProfile)
      (fs : FsInstance) (a : Address)
      (userPart : CStr), a.Typed userPart → ¬ stricmpEq a.host fs.Profile.Host.text →
        CredentialsStay world data saved fs userPart := by
  intro h
  have hstay :=
    h .refusing .unused [] (.connectedTo (.copy 256 (ascii "g")) (.copy 260 [])) shortAddress _
    typed_shortAddress (by decide)
  have hrun := hstay ⟨.copy 256 [], .copy 260 [], .copy 260 []⟩ ⟨.copy 256 (ascii "x"),
      .copy 260 [], .copy 260 []⟩
  exact absurd hrun (by decide +kernel)

end Credentials

end SalamanderSftp
