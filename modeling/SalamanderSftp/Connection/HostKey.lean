import SalamanderSftp.Connection.KnownHosts

/-!
# Verifying the host key

`VerifyHostKey` looks the key of the server up in the known hosts and asks the callback about a key
that is not there: with status 1 when the look-up says that it has changed, else with status 0.
Without a callback a changed key is rejected and any other accepted.

The look-up compares keys of the type of the server's key only, among the entries before the first
line that cannot be parsed, and it gives up on a name that is too long. Which key a server shows is
its own choice, so a changed key is recognised exactly when an entry of its type was read
(`treatedAsChanged_iff_comparable`).
-/

namespace SalamanderSftp

/-! ## The types of keys -/

/-- `LIBSSH2_HOSTKEY_TYPE_...` -/
def LIBSSH2_HOSTKEY_TYPE_RSA : ℤ := 1
def LIBSSH2_HOSTKEY_TYPE_DSS : ℤ := 2
def LIBSSH2_HOSTKEY_TYPE_ECDSA_256 : ℤ := 3
def LIBSSH2_HOSTKEY_TYPE_ECDSA_384 : ℤ := 4
def LIBSSH2_HOSTKEY_TYPE_ECDSA_521 : ℤ := 5
def LIBSSH2_HOSTKEY_TYPE_ED25519 : ℤ := 6

def hostKeyBit (ktype : ℤ) : KnownHostKey :=
  if ktype = LIBSSH2_HOSTKEY_TYPE_RSA then .SSHRSA
  else if ktype = LIBSSH2_HOSTKEY_TYPE_DSS then .SSHDSS
  else if ktype = LIBSSH2_HOSTKEY_TYPE_ECDSA_256 then .ECDSA_256
  else if ktype = LIBSSH2_HOSTKEY_TYPE_ECDSA_384 then .ECDSA_384
  else if ktype = LIBSSH2_HOSTKEY_TYPE_ECDSA_521 then .ECDSA_521
  else if ktype = LIBSSH2_HOSTKEY_TYPE_ED25519 then .ED25519
  else .SSHRSA

def hostKeyTypeName (ktype : ℤ) : CStr :=
  if ktype = LIBSSH2_HOSTKEY_TYPE_RSA then ascii "RSA"
  else if ktype = LIBSSH2_HOSTKEY_TYPE_DSS then ascii "DSS"
  else if ktype ∈ [LIBSSH2_HOSTKEY_TYPE_ECDSA_256, LIBSSH2_HOSTKEY_TYPE_ECDSA_384,
    LIBSSH2_HOSTKEY_TYPE_ECDSA_521] then
    ascii "ECDSA"
  else if ktype = LIBSSH2_HOSTKEY_TYPE_ED25519 then ascii "ED25519"
  else ascii "unknown"

/-! ## The fingerprint -/

/-- `%02x` -/
def hexByte (b : Byte) : CStr := [b >>> 4, b &&& 15].map fun d => if d < 10 then d + 48 else d + 87

/-- The bytes of the hash, with ":" between them. -/
def fingerprint (hash : Option Bytes) : CStr :=
  match hash with
  | none => ascii "(unknown)"
  | some fp => ((fp.map hexByte).intersperse [colon]).flatten

/-! ## VerifyHostKey -/

/-- What the callback is asked. -/
structure HostKeyQuestion where
  host : CStr
  port : ℤ
  type : CStr
  fp : CStr
  status : ℤ
  deriving DecidableEq

/-- `HostKeyVerifyFn` with its context: 0 rejects, 1 trusts once, 2 trusts and saves. -/
abbrev HostKeyVerifyFn := HostKeyQuestion → ℤ

/-- What libssh2 answers about the session: the server's key and its type, the hash of the key, and
whether there is memory for a collection of known hosts. -/
structure HostKeySession where
  hostkey : Option (Bytes × ℤ)
  hash : Option Bytes
  knownhosts : Bool

/-- The static members, and the file of that name. -/
structure HostKeyStore where
  HostKeyCb : Option HostKeyVerifyFn
  KnownHostsFile : CStr
  file : Option Bytes
  writable : Bool

/-- The return value, what was asked, the message that was set, and the file afterwards. -/
structure HostKeyResult where
  accepted : Bool
  asked : Option HostKeyQuestion
  ErrorMsg : Option CStr
  file : Option Bytes
  deriving DecidableEq

variable (hmac : Bytes → CStr → Bytes)

/-- The collection after `libssh2_knownhost_readfile`. -/
def knownHosts (st : HostKeyStore) (s : HostKeySession) : List KnownHost :=
  if s.knownhosts = true ∧ st.KnownHostsFile ≠ [] then knownhostReadfile st.file else []

/-- What is looked up, and the entry that `khentry` points to. -/
def lookUp (st : HostKeyStore) (s : HostKeySession) (host : CStr) (port : ℤ)
    (hk : Bytes) (ktype : ℤ) :
    KnownHostCheck × Option ℕ :=
  if s.knownhosts then knownhostCheckp hmac (knownHosts st s) host port hk
    (hostKeyBit ktype) else (.NOTFOUND, none)

/-- Trust and save: the changed entry goes, the key is added for the host, and the file is written
anew. -/
def saveHostKey (st : HostKeyStore) (s : HostKeySession) (khentry : Option ℕ) (host : CStr)
    (hk : Bytes) (ktype : ℤ) :
    Option Bytes :=
  let nodes := match khentry with
    | some i => knownhostDel (knownHosts st s) i
    | none => knownHosts st s
  if st.KnownHostsFile ≠ [] ∧ st.writable = true then
    some (knownhostWritefile (knownhostAddc nodes host hk (hostKeyBit ktype)))
  else st.file

/-- 0 = unknown, 1 = changed -/
def statusOf (check : KnownHostCheck) : ℤ := if check = .MISMATCH then 1 else 0

/-- The question about a key that does not match. -/
def hostKeyQuestion (s : HostKeySession) (host : CStr) (port ktype status : ℤ) : HostKeyQuestion :=
  ⟨host, port, hostKeyTypeName ktype, fingerprint s.hash, status⟩

def verifyHostKey (st : HostKeyStore) (s : HostKeySession) (host : CStr) (port : ℤ) :
    HostKeyResult :=
  match s.hostkey with
  | none => ⟨false, none, some (ascii "Cannot retrieve server host key."), st.file⟩
  | some (hk, ktype) =>
    let check := lookUp hmac st s host port hk ktype
    if check.1 = .MATCH then ⟨true, none, none, st.file⟩
    else
      let status := statusOf check.1
      let question := hostKeyQuestion s host port ktype status
      let asked := st.HostKeyCb.map fun _ => question
      let decision : ℤ := match st.HostKeyCb with
        | some cb => cb question
        | none => if status = 1 then 0 else 1
      if decision = 0 then
        ⟨false, asked, some (if status = 1 then
          ascii "Server host key has CHANGED - connection rejected (possible MITM attack)."
          else ascii "Server host key is not trusted - connection rejected."), st.file⟩
      else if decision = 2 ∧ s.knownhosts = true then
        ⟨true, asked, none, saveHostKey st s check.2 host hk ktype⟩
      else ⟨true, asked, none, st.file⟩

/-! ## The callback of the plugin -/

inductive MsgBoxAnswer
  | IDYES
  | IDNO
  | IDCANCEL
  deriving DecidableEq

/-- A box with its text, its title and whether it can be cancelled. -/
structure MsgBox where
  text : CStr
  title : CStr
  cancel : Bool
  deriving DecidableEq

/-- The box of `SftpHostKeyCallback`; `msg` has 1024 bytes. -/
def hostKeyBox (q : HostKeyQuestion) : MsgBox :=
  let server := q.host ++ [colon] ++ decimalInt q.port
  let key := ascii "Key type: " ++ q.type ++ ascii "\nFingerprint (SHA256):\n" ++ q.fp
  if q.status = 1 then
    ⟨lstrcpyn (ascii "WARNING: Host key for " ++ server ++ ascii " has CHANGED!\n\n" ++ key ++
        ascii "\n\nThis could be a MITM attack. Really connect and save the new key?") 1024,
      ascii "SFTP " ++ [226, 128, 147] ++ ascii " host key changed", false⟩
  else
    ⟨lstrcpyn (ascii "Server " ++ server ++ ascii " is not yet known.\n\n" ++ key ++
        ascii "\n\nTrust this server?\nYes = save key and connect\nNo = connect this time only" ++
        ascii "\nCancel = reject connection") 1024,
      ascii "SFTP " ++ [226, 128, 147] ++ ascii " unknown server", true⟩

/-- `SftpHostKeyCallback`, with what the user answers to a box. -/
def sftpHostKeyCallback (answer : MsgBox → MsgBoxAnswer) : HostKeyVerifyFn := fun q =>
  match answer (hostKeyBox q) with
  | .IDYES => 2
  | .IDNO => if q.status = 1 then 0 else 1
  | .IDCANCEL => 0

/-! ## What becomes of a key -/

variable {hmac} {st : HostKeyStore} {s : HostKeySession} {host : CStr}
  {port : ℤ} {hk : Bytes} {ktype : ℤ}

theorem verifyHostKey_match (hs : s.hostkey = some (hk, ktype))
    (h : (lookUp hmac st s host port hk ktype).1 = .MATCH) :
    verifyHostKey hmac st s host port = ⟨true, none, none, st.file⟩ := by
  unfold verifyHostKey
  rw [hs]
  dsimp only
  rw [if_pos h]

theorem statusOf_eq_one_iff {check : KnownHostCheck} : statusOf check = 1 ↔ check = .MISMATCH := by
  cases check <;> decide

/-- A callback is asked about everything but a match. -/
theorem verifyHostKey_asked (hs : s.hostkey = some (hk, ktype))
    (h : (lookUp hmac st s host port hk ktype).1 ≠ .MATCH) :
    (verifyHostKey hmac st s host port).asked =
      st.HostKeyCb.map fun _ =>
        hostKeyQuestion s host port ktype (statusOf (lookUp hmac st s host port hk ktype).1) := by
  unfold verifyHostKey
  rw [hs]
  dsimp only
  rw [if_neg h]
  split_ifs <;> rfl

/-- Without a callback exactly a changed key is rejected. -/
theorem verifyHostKey_accepted_without_callback (hs : s.hostkey = some (hk, ktype))
    (hcb : st.HostKeyCb = none) :
    (verifyHostKey hmac st s host port).accepted = true ↔
    (lookUp hmac st s host port hk ktype).1 ≠ .MISMATCH := by
  unfold verifyHostKey
  rw [hs, hcb]
  cases hcheck : (lookUp hmac st s host port hk ktype).1 <;> simp [hcheck, statusOf]

theorem lookUp_mismatch_iff : (lookUp hmac st s host port hk ktype).1 = .MISMATCH ↔
    s.knownhosts = true ∧ Checkable host port hk ∧
    ¬ Stored hmac (knownHosts st s) host port hk (hostKeyBit ktype) ∧
      ∃ e ∈ knownHosts st s, e.Compared hmac host port (hostKeyBit ktype) := by
  unfold lookUp
  by_cases hinit : s.knownhosts = true
  · rw [if_pos hinit, knownhostCheckp_mismatch_iff, and_iff_right hinit]
  · rw [if_neg hinit]
    exact ⟨fun h => (by cases h), fun h => absurd h.1 hinit⟩

theorem lookUp_match_iff : (lookUp hmac st s host port hk ktype).1 = .MATCH ↔
    s.knownhosts = true ∧ Checkable host port hk ∧
    Stored hmac (knownHosts st s) host port hk (hostKeyBit ktype) := by
  unfold lookUp
  by_cases hinit : s.knownhosts = true
  · rw [if_pos hinit, knownhostCheckp_match_iff, and_iff_right hinit]
  · rw [if_neg hinit]
    exact ⟨fun h => (by cases h), fun h => absurd h.1 hinit⟩

/-! ## A changed key -/

/-- Status 1: the callback gets it, and without a callback the connection is rejected. -/
def TreatedAsChanged (hmac : Bytes → CStr → Bytes) (st : HostKeyStore) (s : HostKeySession)
    (host : CStr) (port : ℤ) :
    Prop :=
  match st.HostKeyCb with
  | some _ => ∃ q, (verifyHostKey hmac st s host port).asked = some q ∧ q.status = 1
  | none => (verifyHostKey hmac st s host port).accepted = false

theorem treatedAsChanged_iff_mismatch (hs : s.hostkey = some (hk, ktype)) :
    TreatedAsChanged hmac st s host port ↔ (lookUp hmac st s host port hk ktype).1 = .MISMATCH := by
  unfold TreatedAsChanged
  rcases hcb : st.HostKeyCb with _ | cb
  · dsimp only
    rw [← Bool.not_eq_true, verifyHostKey_accepted_without_callback hs hcb, not_not]
  · dsimp only
    by_cases hmatch : (lookUp hmac st s host port hk ktype).1 = .MATCH
    · rw [verifyHostKey_match hs hmatch, hmatch]
      exact ⟨fun ⟨q, hq, _⟩ => (by cases hq), fun h => (by cases h)⟩
    · rw [verifyHostKey_asked hs hmatch, hcb, ← statusOf_eq_one_iff]
      refine ⟨fun ⟨q, hq, hstatus⟩ => ?_, fun h => ⟨_, rfl, h⟩⟩
      rw [← Option.some.inj hq] at hstatus
      exact hstatus

/-- What the lines of the file hold, those behind an unparsable one included. -/
def writtenEntries (file : Option Bytes) : List KnownHost :=
  (file.map fun content => (knownHostsLines content).flatMap fun line =>
    (knownhostReadline line).1).getD []

/-- A line without an error has an entry for the host, as "host" or as "[host]:port". -/
def HoldsEntryFor (content : Bytes) (host : CStr) (port : ℤ) : Prop :=
  ∃ line ∈ knownHostsLines content, (knownhostReadline line).2 = true ∧
    ∃ e ∈ (knownhostReadline line).1, e.name = .plain host ∨ e.name = .plain (hostPort host port)

/-- The key is none of those that the file has for the host. -/
def DiffersFromStored (hmac : Bytes → CStr → Bytes) (file : Option Bytes) (host : CStr)
    (port : ℤ) (hk : Bytes) : Prop :=
  ∀ e ∈ writtenEntries file, (e.isFor hmac host = true ∨ e.isFor hmac (hostPort host port) = true) →
    e.key ≠ Base64.encode hk

/-- What is read are the entries of the lines up to the first that cannot be parsed. -/
theorem mem_readLines_iff {lines : List CStr} {e : KnownHost} : e ∈ readLines lines ↔
    ∃ before line after, lines = before ++ line :: after ∧
    (∀ l ∈ before, (knownhostReadline l).2 = true) ∧
      e ∈ (knownhostReadline line).1 := by
  induction lines with
  | nil => simp [readLines]
  | cons line lines ih =>
    unfold readLines
    rw [List.mem_append]
    constructor
    · rintro (hhere | hrest)
      · exact ⟨[], line, lines, rfl, by simp, hhere⟩
      · split_ifs at hrest with hparses
        · obtain ⟨before, line', after, rfl, hbefore, he⟩ := ih.mp hrest
          exact ⟨line :: before, line', after, rfl, List.forall_mem_cons.mpr ⟨hparses, hbefore⟩, he⟩
        · exact absurd hrest List.not_mem_nil
    · rintro ⟨before, line', after, hlines, hbefore, he⟩
      cases before with
      | nil =>
        obtain ⟨rfl, -⟩ := List.cons.inj hlines
        exact .inl he
      | cons l before =>
        obtain ⟨rfl, rfl⟩ := List.cons.inj hlines
        obtain ⟨hl, hbefore⟩ := List.forall_mem_cons.mp hbefore
        rw [if_pos hl]
        exact .inr (ih.mpr ⟨before, line', after, rfl, hbefore, he⟩)

/-- Nothing is read that the file does not have. -/
theorem writtenEntries_of_knownHosts {e : KnownHost} (h : e ∈ knownHosts st s) :
    e ∈ writtenEntries st.file := by
  unfold knownHosts at h
  split_ifs at h with hopen
  · unfold knownhostReadfile at h
    unfold writtenEntries
    rcases hfile : st.file with _ | content
    · rw [hfile] at h
      exact absurd h List.not_mem_nil
    · rw [hfile] at h
      obtain ⟨before, line, after, hlines, -, he⟩ := mem_readLines_iff.mp h
      exact List.mem_flatMap.mpr ⟨line, by rw [hlines]; simp, he⟩
  · exact absurd h List.not_mem_nil

theorem KnownHost.isFor_of_compared {e : KnownHost} {t : KnownHostKey}
    (h : e.Compared hmac host port t) :
    e.isFor hmac host = true ∨ e.isFor hmac (hostPort host port) = true := by
  obtain ⟨name, hname, hcomp⟩ := h
  have hfor : e.isFor hmac name = true := by
    unfold KnownHost.compares at hcomp
    simp only [Bool.and_eq_true] at hcomp
    exact hcomp.1.1
  unfold hostNames at hname
  split_ifs at hname
  · rcases List.mem_cons.mp hname with rfl | hname
    · exact .inr hfor
    · rw [List.mem_singleton.mp hname] at hfor
      exact .inl hfor
  · rw [List.mem_singleton.mp hname] at hfor
    exact .inl hfor

/-- A key that the file does not have is treated as changed exactly when an entry of its own type
was read for the host and the look-up took place at all. -/
theorem treatedAsChanged_iff_comparable (hs : s.hostkey = some (hk, ktype))
    (hdiffers : DiffersFromStored hmac st.file host port hk) :
    TreatedAsChanged hmac st s host port ↔
      s.knownhosts = true ∧ Checkable host port hk ∧
        ∃ e ∈ knownHosts st s, e.Compared hmac host port (hostKeyBit ktype) := by
  have hnot : ¬ Stored hmac (knownHosts st s) host port hk (hostKeyBit ktype) := by
    rintro ⟨e, he, hcomp, hkey⟩
    exact hdiffers e (writtenEntries_of_knownHosts he) (KnownHost.isFor_of_compared hcomp) hkey
  rw [treatedAsChanged_iff_mismatch hs, lookUp_mismatch_iff]
  exact ⟨fun ⟨hinit, hc, _, he⟩ => ⟨hinit, hc, he⟩, fun ⟨hinit, hc, he⟩ => ⟨hinit, hc, hnot, he⟩⟩

theorem treatedAsChanged_iff_comparable_rsa :
    TreatedAsChanged (fun _ _ => [])
      ⟨none, ascii "known_hosts",
        some (ascii "a ssh-rsa AAAAB3NzaC1yc2E=\nb ssh-rsa AAAAB3NzaC1yc2E=\n"), true⟩
      ⟨some ([1, 2, 3], LIBSSH2_HOSTKEY_TYPE_RSA), none, true⟩ (ascii "a") 22 := by
  refine (treatedAsChanged_iff_comparable rfl ?_).mpr
    ⟨rfl, ⟨by decide, by decide, fun _ => by decide +kernel⟩, ?_⟩
  · unfold DiffersFromStored
    decide +kernel
  · unfold KnownHost.Compared
    decide +kernel

/-- An RSA key is on file, and the server shows one of another type: without a callback it is
accepted. -/
theorem not_changed_otherType :
    ¬ ∀ (hmac : Bytes → CStr → Bytes) (st : HostKeyStore) (content : Bytes)
    (s : HostKeySession) (host : CStr) (port : ℤ) (hk : Bytes) (ktype : ℤ),
    st.KnownHostsFile ≠ [] → st.file = some content →
    HoldsEntryFor content host port → s.knownhosts = true →
      s.hostkey = some (hk, ktype) → DiffersFromStored hmac st.file host port hk →
      TreatedAsChanged hmac st s host port := by
  intro h
  have hchanged :=
    h (fun _ _ => []) ⟨none, ascii "known_hosts", some (ascii "a ssh-rsa AAAAB3NzaC1yc2E=\n"), true⟩
    (ascii "a ssh-rsa AAAAB3NzaC1yc2E=\n") ⟨some ([1, 2, 3], LIBSSH2_HOSTKEY_TYPE_ED25519),
      none, true⟩ (ascii "a") 22
    [1, 2, 3] LIBSSH2_HOSTKEY_TYPE_ED25519 (by decide) rfl
      (by unfold HoldsEntryFor; decide +kernel) rfl rfl
    (by unfold DiffersFromStored; decide +kernel)
  have haccepted : (verifyHostKey (fun _ _ => [])
      ⟨none, ascii "known_hosts", some (ascii "a ssh-rsa AAAAB3NzaC1yc2E=\n"), true⟩
      ⟨some ([1, 2, 3], LIBSSH2_HOSTKEY_TYPE_ED25519), none, true⟩ (ascii "a") 22).accepted =
        true := by decide +kernel
  unfold TreatedAsChanged at hchanged
  dsimp only at hchanged
  rw [haccepted] at hchanged
  cases hchanged

end SalamanderSftp
