import SalamanderSftp.Fs.Profile

/-!
# When a typed address selects its server

`SftpParseHostInto` compares host and user with the profile, without case, and switches the profile
when one of them differs. The port is taken over in that case only, so an address that differs in
the port alone does not select its server (`typed_address_selects_iff`).
-/

namespace SalamanderSftp

namespace Address

/-- The profile denotes the server of the address afterwards, and the connection was dropped unless
it did before. -/
structure Selects (saved : List CSftpSavedProfile) (p : CSftpProfile) (a : Address)
    (userPart : CStr) : Prop where
  denotes : a.Denotes (sftpParseHostInto saved p userPart).1
  disconnects : ¬ a.Denotes p → (sftpParseHostInto saved p userPart).2 = true

/-- The address names another host or user than the profile, apart from case. -/
def Differs (a : Address) (p : CSftpProfile) : Prop :=
  ¬ stricmpEq a.host p.Host.text ∨ ∃ u ∈ a.user, ¬ stricmpEq u p.User.text

/-- The host fits its buffer; when host or user differ, so do the user and the port, and otherwise
the profile has the port and, in its own case, the user already. -/
structure Selectable (a : Address) (p : CSftpProfile) : Prop where
  host : a.host.length < 256
  switched : a.Differs p → (∀ u ∈ a.user, u.length < 128) ∧ ∀ n ∈ a.port, 0 < n ∧ n < 2 ^ 31
  kept : ¬ a.Differs p → (∀ u ∈ a.user, p.User.text = u) ∧ p.Port = (a.port.getD 22 : ℕ)

variable {saved : List CSftpSavedProfile} {p : CSftpProfile} {a : Address} {userPart : CStr}

theorem sftpParseHostInto_typed (ht : a.Typed userPart) (hlen : a.text.length < 320) :
    sftpParseHostInto saved p userPart =
      if (parseHost a.text).Differs p then (switchProfile saved p (parseHost a.text), true)
        else (p, false) := by
  obtain ⟨rest, hsplit⟩ := splitHost_typed ht
  have hhost : (parseHost a.text).host.text ≠ [] := by
    rw [parseHost_text]
    have hne := a.host_plain.1
    simp [lstrcpyn, hne]
  unfold sftpParseHostInto
  rw [hsplit]
  dsimp only
  rw [if_neg (by simp [text_ne_nil, hlen]), if_neg hhost]

/-- A user that fits is compared as it was typed. -/
theorem differs_iff (hhost : a.host.length < 256) (huser : ∀ u ∈ a.user, u.length < 128) :
    (parseHost a.text).Differs p ↔ a.Differs p := by
  unfold HostParts.Differs Differs
  rw [parseHost_text]
  simp only [CharBuf.copy_text, lstrcpyn_eq_self hhost]
  rcases hu : a.user with _ | u
  · simp [lstrcpyn]
  · have hne := (a.user_plain u hu).1
    simp [lstrcpyn_eq_self (huser u hu), hne]

theorem denotes_switchProfile (hhost : a.host.length < 256) (huser : ∀ u ∈ a.user, u.length < 128) :
    a.Denotes (switchProfile saved p (parseHost a.text)) ↔ ∀ n ∈ a.port, 0 < n ∧ n < 2 ^ 31 := by
  have huser' : ∀ u ∈ a.user, (switchProfile saved p (parseHost a.text)).User.text = u := by
    intro u hu
    have hne := (a.user_plain u hu).1
    rw [Option.mem_def] at hu
    simp [switchProfile, parseHost_text, hu, lstrcpyn_eq_self (huser u hu), hne]
  have hhost' : stricmpEq (switchProfile saved p (parseHost a.text)).Host.text a.host := by
    simp only [switchProfile, parseHost_text, CharBuf.copy_text, lstrcpyn_eq_self hhost]
    exact .refl _
  have hport : (switchProfile saved p (parseHost a.text)).Port = (a.port.getD 22 : ℕ) ↔
      ∀ n ∈ a.port, 0 < n ∧ n < 2 ^ 31 := by
    simp only [switchProfile, parseHost_text]
    rcases a.port with _ | n
    · simp
    · simp only [Option.map_some, Option.getD_some, Option.mem_def, Option.some.injEq, forall_eq']
      split_ifs <;> omega
  exact ⟨fun h => hport.mp h.port, fun h => ⟨hhost', huser', hport.mpr h⟩⟩

/-- A typed address selects its server exactly when what differs makes the profile switch. -/
theorem typed_address_selects_iff (saved : List CSftpSavedProfile) (p : CSftpProfile)
    (a : Address) (userPart : CStr)
    (ht : a.Typed userPart) (hlen : a.text.length < 320) :
    a.Selects saved p userPart ↔ a.Selectable p := by
  have hparse := @sftpParseHostInto_typed saved p a userPart ht hlen
  constructor
  · intro h
    have hden := h.denotes
    rw [hparse] at hden
    have hhost : a.host.length < 256 := by
      rw [← hden.host.length_eq]
      exact CharBuf.fits _
    have huser : ∀ u ∈ a.user, u.length < 128 := by
      intro u hu
      rw [← hden.user u hu]
      exact CharBuf.fits _
    have hiff := differs_iff (p := p) hhost huser
    refine ⟨hhost, fun hd => ⟨huser, ?_⟩, fun hd => ?_⟩
    · rw [if_pos (hiff.mpr hd)] at hden
      exact (denotes_switchProfile hhost huser).mp hden
    · rw [if_neg (mt hiff.mp hd)] at hden
      exact ⟨hden.user, hden.port⟩
  · intro h
    by_cases hd : a.Differs p
    · obtain ⟨huser, hport⟩ := h.switched hd
      rw [if_pos ((differs_iff h.host huser).mpr hd)] at hparse
      exact ⟨by rw [hparse]; exact (denotes_switchProfile h.host huser).mpr hport,
        fun _ => by rw [hparse]⟩
    · obtain ⟨huser, hport⟩ := h.kept hd
      have hfits : ∀ u ∈ a.user, u.length < 128 := fun u hu => by
        rw [← huser u hu]
        exact CharBuf.fits _
      have hhost : stricmpEq a.host p.Host.text := by
        by_contra hne
        exact hd (Or.inl hne)
      have hden : a.Denotes p := ⟨hhost.symm, huser, hport⟩
      rw [if_neg (mt (differs_iff h.host hfits).mp hd)] at hparse
      exact ⟨by rw [hparse]; exact hden, fun hno => absurd hden hno⟩

end Address

/-- A profile for a host and a port, without a user. -/
def CSftpProfile.at (host : CharBuf 256) (port : ℤ) : CSftpProfile where
  Name := .copy 128 []
  Host := host
  Port := port
  User := .copy 128 []
  Password := .copy 256 []
  KeyFile := .copy 260 []
  Path := .copy 260 []
  SftpServer := .copy 260 []
  UseCompression := false
  Protocol := 0
  ScpFallback := false
  ExecOnEnter := false
  Valid := true

/-- The address `h`, without user and port. -/
def shortAddress : Address := ⟨none, ascii "h", none, by simp, by decide +kernel⟩

theorem typed_shortAddress : shortAddress.Typed (ascii "//h/") :=
  ⟨slash, slash, [slash], by decide, by decide, by decide +kernel, by decide +kernel⟩

/-- A profile of another host takes it over. -/
theorem typed_address_selects_other :
    shortAddress.Selects [] (.at (.copy 256 (ascii "g")) 2222) (ascii "//h/") :=
  (Address.typed_address_selects_iff [] _ shortAddress _ typed_shortAddress (by decide +kernel)).mpr
    ⟨by decide, fun _ => ⟨by simp [shortAddress], by simp [shortAddress]⟩,
      fun h => absurd (Or.inl (by decide)) h⟩

/-- A profile of the same host stays on its own port. -/
theorem not_typed_address_selects :
    ¬ ∀ (saved : List CSftpSavedProfile) (p : CSftpProfile) (a : Address) (userPart : CStr),
      a.Typed userPart →
      a.text.length < 320 → a.Selects saved p userPart := by
  intro h
  have hsel :=
    h [] (.at (.copy 256 (ascii "h")) 2222) shortAddress _ typed_shortAddress (by decide +kernel)
  exact absurd hsel.denotes.port (by decide)

end SalamanderSftp
