import SalamanderSftp.Connection.HostKey

/-!
# Saving a host key

With decision 2 the changed entry is deleted, the key is added under the plain name of the host, and
the file is written anew from what could be read of it. The look-up knows "[host]:port" and "host",
the save only the second. So a save that has an effect has one too many: the entry that makes the
next connection succeed is an entry for its name on every port (`save_not_effective_and_isolated`).
-/

namespace SalamanderSftp

variable {hmac : Bytes → CStr → Bytes} {st : HostKeyStore} {s : HostKeySession}
  {host : CStr} {port : ℤ} {hk : Bytes}
  {ktype : ℤ}

/-- What the caller and the user see of a verification. -/
def HostKeyResult.outcome (r : HostKeyResult) : Bool × Option HostKeyQuestion × Option CStr :=
  (r.accepted, r.asked, r.ErrorMsg)

/-- The static members and the file after a verification. -/
def HostKeyStore.after (hmac : Bytes → CStr → Bytes) (st : HostKeyStore) (s : HostKeySession)
    (host : CStr) (port : ℤ) :
    HostKeyStore :=
  { st with file := (verifyHostKey hmac st s host port).file }

/-- The callback is asked about the key and says: trust and save. -/
structure SavesKey (hmac : Bytes → CStr → Bytes) (st : HostKeyStore)
    (s : HostKeySession) (host : CStr) (port : ℤ)
    (hk : Bytes) (ktype : ℤ) (cb : HostKeyVerifyFn) : Prop where
  hostkey : s.hostkey = some (hk, ktype)
  callback : st.HostKeyCb = some cb
  asked : (lookUp hmac st s host port hk ktype).1 ≠ .MATCH
  decision : cb
    (hostKeyQuestion s host port ktype (statusOf (lookUp hmac st s host port hk ktype).1)) = 2

/-- The next verification of the same host, port and key succeeds without asking. -/
def SaveEffective (hmac : Bytes → CStr → Bytes) (st : HostKeyStore) (s : HostKeySession)
    (host : CStr) (port : ℤ) : Prop :=
  (verifyHostKey hmac (st.after hmac s host port) s host port).accepted = true ∧
    (verifyHostKey hmac (st.after hmac s host port) s host port).asked = none

/-- For every other host, for the same host on every other port, and for every key of the server the
outcome is what it was before the save. -/
def SaveIsolated (hmac : Bytes → CStr → Bytes) (st : HostKeyStore) (s : HostKeySession)
    (host : CStr) (port : ℤ) : Prop :=
  ∀ (s' : HostKeySession) (host' : CStr) (port' : ℤ), -2 ^ 31 ≤ port' → port' < 2 ^ 31 →
    ¬(host' = host ∧ port' = port) →
    (verifyHostKey hmac (st.after hmac s host port) s' host' port').outcome =
      (verifyHostKey hmac st s' host' port').outcome

@[simp] theorem HostKeyStore.after_HostKeyCb :
    (st.after hmac s host port).HostKeyCb = st.HostKeyCb := rfl

/-- With a callback exactly the keys that match are accepted without asking. -/
theorem not_asked_iff {cb : HostKeyVerifyFn} (hs : s.hostkey = some (hk, ktype))
    (hcb : st.HostKeyCb = some cb) :
    (verifyHostKey hmac st s host port).asked = none ↔
    (lookUp hmac st s host port hk ktype).1 = .MATCH := by
  by_cases hmatch : (lookUp hmac st s host port hk ktype).1 = .MATCH
  · rw [verifyHostKey_match hs hmatch]
    exact ⟨fun _ => hmatch, fun _ => rfl⟩
  · rw [verifyHostKey_asked hs hmatch, hcb]
    exact ⟨fun h => (by cases h), fun h => absurd h hmatch⟩

theorem hostNames_of_neg (hport : port < 0) : hostNames host port = [host] := by
  unfold hostNames
  rw [if_neg (by omega)]

theorem Stored.of_name {nodes : List KnownHost} {t : KnownHostKey} {name : CStr} {port' : ℤ}
    (hname : name ∈ hostNames host port) (hport : port' < 0)
    (h : Stored hmac nodes name port' hk t) :
    Stored hmac nodes host port hk t := by
  obtain ⟨e, he, ⟨name', hname', hcomp⟩, hkey⟩ := h
  rw [hostNames_of_neg hport, List.mem_singleton] at hname'
  exact ⟨e, he, ⟨name, hname, hname' ▸ hcomp⟩, hkey⟩

theorem Stored.exists_name {nodes : List KnownHost} {t : KnownHostKey}
    (h : Stored hmac nodes host port hk t) :
    ∃ name ∈ hostNames host port, ∀ port' < 0, Stored hmac nodes name port' hk t := by
  obtain ⟨e, he, ⟨name, hname, hcomp⟩, hkey⟩ := h
  refine ⟨name, hname, fun port' hport => ⟨e, he, ⟨name, ?_, hcomp⟩, hkey⟩⟩
  rw [hostNames_of_neg hport]
  exact List.mem_singleton_self name

/-- No save is effective and isolated: what lets the host in on its port lets one of its names in on
another. -/
theorem save_not_effective_and_isolated {cb : HostKeyVerifyFn}
    (h : SavesKey hmac st s host port hk ktype cb) :
    ¬(SaveEffective hmac st s host port ∧ SaveIsolated hmac st s host port) := by
  rintro ⟨heffective, hisolated⟩
  have hcb' : (st.after hmac s host port).HostKeyCb = some cb := h.callback
  have hmatch := (not_asked_iff h.hostkey hcb').mp heffective.2
  obtain ⟨hinit, hcheckable, hstored⟩ := lookUp_match_iff.mp hmatch
  obtain ⟨name, hname, hother⟩ := hstored.exists_name
  -- a negative port other than this one: only the plain name is looked up
  obtain ⟨port', hneg, hmin, hne⟩ : ∃ port' : ℤ, port' < 0 ∧ -2 ^ 31 ≤ port' ∧ port' ≠ port := by
    by_cases hport : port = -1
    · exact ⟨-2, by norm_num, by norm_num, by omega⟩
    · exact ⟨-1, by norm_num, by norm_num, fun heq => hport heq.symm⟩
  have hcheckable' : Checkable name port' hk :=
    ⟨hcheckable.key_ne_nil, hcheckable.key_fits, fun hpos => absurd hpos (by omega)⟩
  have hafter : (verifyHostKey hmac (st.after hmac s host port) s name port').asked = none :=
    (not_asked_iff h.hostkey hcb').mpr
      (lookUp_match_iff.mpr ⟨hinit, hcheckable', hother port' hneg⟩)
  have hbefore : (verifyHostKey hmac st s name port').asked ≠ none := by
    intro hasked
    obtain ⟨-, -, hold⟩ := lookUp_match_iff.mp ((not_asked_iff h.hostkey h.callback).mp hasked)
    exact h.asked (lookUp_match_iff.mpr ⟨hinit, hcheckable, hold.of_name hname hneg⟩)
  have hsame := hisolated s name port' hmin (by omega) fun heq => hne heq.2
  exact hbefore ((congrArg (fun o => o.2.1) hsame).symm.trans hafter)

/-- A user who says yes to whatever the plugin asks. -/
def sayYes : HostKeyVerifyFn := sftpHostKeyCallback fun _ => .IDYES

/-- No hosts are known, and every key is to be saved. -/
def emptyKnownHosts : HostKeyStore := ⟨some sayYes, ascii "known_hosts", some [], true⟩

def rsaSession : HostKeySession :=
  ⟨some ([1, 2, 3, 4, 5, 6, 7, 8, 9, 10, 11, 12], LIBSSH2_HOSTKEY_TYPE_RSA), none, true⟩

theorem savesKey_empty : SavesKey (fun _ _ => []) emptyKnownHosts rsaSession (ascii "a") 22
    [1, 2, 3, 4, 5, 6, 7, 8, 9, 10, 11, 12] LIBSSH2_HOSTKEY_TYPE_RSA sayYes where
  hostkey := rfl
  callback := rfl
  asked := by decide +kernel
  decision := rfl

theorem save_not_effective_and_isolated_empty :
    ¬(SaveEffective (fun _ _ => []) emptyKnownHosts rsaSession (ascii "a") 22 ∧
      SaveIsolated (fun _ _ => []) emptyKnownHosts rsaSession (ascii "a") 22) :=
  save_not_effective_and_isolated savesKey_empty

/-- A key that was saved for port 22 is not asked about on port 2222. -/
theorem not_save_isolated :
    ¬ ∀ (hmac : Bytes → CStr → Bytes) (st : HostKeyStore) (s : HostKeySession) (host : CStr)
    (port : ℤ) (hk : Bytes) (ktype : ℤ) (cb : HostKeyVerifyFn),
      SavesKey hmac st s host port hk ktype cb →
      SaveEffective hmac st s host port ∧ SaveIsolated hmac st s host port := by
  intro h
  have hisolated := (h _ _ _ _ _ _ _ _ savesKey_empty).2
  have hsame := hisolated rsaSession (ascii "a") 2222 (by norm_num) (by norm_num) (by decide)
  have hbefore : (verifyHostKey (fun _ _ => []) emptyKnownHosts rsaSession
      (ascii "a") 2222).asked.isSome = true := by
    decide +kernel
  have hafter : (verifyHostKey (fun _ _ => [])
      (emptyKnownHosts.after (fun _ _ => []) rsaSession (ascii "a") 22) rsaSession
      (ascii "a") 2222).asked.isSome = false := by decide +kernel
  have hasked := congrArg (fun o => o.2.1.isSome) hsame
  unfold HostKeyResult.outcome at hasked
  dsimp only at hasked
  rw [hafter, hbefore] at hasked
  cases hasked

end SalamanderSftp
