import SalamanderSftp.Fs.TypedAddress

/-!
# Printed paths

`GetCurrentPath` prints the server of the profile and the path; `SftpParseHostInto` and
`SftpStripHost` read such a text again. The printed text has neither quotes nor brackets, and it is
cut at `MAX_PATH`.

1. `splitHost_getCurrentPath` says what the readers see between the slashes and behind them.
2. A printed path is read back when what they see is the profile's own server and the path. Without
   '@' and slashes in user and host, the only thing that can go wrong with a text that fits is a ':'
   inside the host (`printed_path_round_trips_iff`).
-/

namespace SalamanderSftp

open Components

def getCurrentPath (p : CSftpProfile) (Path : CStr) : CStr :=
  lstrcpyn (sftpHostPrefix p 320 ++ if Path = [] then [slash] else Path) MAX_PATH

/-- What is printed behind the two slashes, before it is cut. -/
def CSftpProfile.printed (p : CSftpProfile) (Path : CStr) :
    CStr := p.shown ++ if Path = [] then [slash] else Path

/-- User and host are free of what the readers cut the text at. -/
structure CSftpProfile.Plain (p : CSftpProfile) : Prop where
  userAt : at_ ∉ p.User.text
  userSlash : ∀ c ∈ p.User.text, isSlash c = false
  hostAt : at_ ∉ p.Host.text
  hostSlash : ∀ c ∈ p.Host.text, isSlash c = false

/-- The printed path leaves the profile and the connection alone and is read as the path. -/
structure RoundTrips (saved : List CSftpSavedProfile) (p : CSftpProfile) (Path : CStr) : Prop where
  host : (sftpParseHostInto saved p (getCurrentPath p Path)).1.Host = p.Host
  user : (sftpParseHostInto saved p (getCurrentPath p Path)).1.User = p.User
  port : (sftpParseHostInto saved p (getCurrentPath p Path)).1.Port = p.Port
  stays : (sftpParseHostInto saved p (getCurrentPath p Path)).2 = false
  path : sftpStripHost (getCurrentPath p Path) = Path

/-- In the 257 bytes behind the slashes, the text before the next slash names no host or nothing but
the profile's own, and what follows is the path. Where nothing follows, the path is the root. -/
structure PrintsReadably (p : CSftpProfile) (Path : CStr) : Prop where
  server : (parseHost (((p.printed Path).takeWhile (!isSlash ·)).take 257)).host.text = [] ∨
    ¬ (parseHost (((p.printed Path).takeWhile (!isSlash ·)).take 257)).Differs p
  path : if 257 ≤ ((p.printed Path).takeWhile (!isSlash ·)).length then Path = [slash]
    else Path ≠ [] ∧
      ((p.printed Path).dropWhile (!isSlash ·)).take
      (257 - ((p.printed Path).takeWhile (!isSlash ·)).length) = Path

/-! ## What the readers see -/

theorem dropWhile_take {α : Type*} (q : α → Bool) (s : List α) :
    ∀ n : ℕ, (s.take n).dropWhile q = (s.dropWhile q).take (n - (s.takeWhile q).length) := by
  induction s with
  | nil => simp
  | cons c s ih =>
    rintro (_ | n)
    · simp
    · by_cases hc : q c = true
      · rw [List.take_succ_cons, List.dropWhile_cons_of_pos hc, List.dropWhile_cons_of_pos hc,
          List.takeWhile_cons_of_pos hc, ih, List.length_cons, Nat.add_sub_add_right]
      · rw [List.take_succ_cons, List.dropWhile_cons_of_neg hc, List.dropWhile_cons_of_neg hc,
          List.takeWhile_cons_of_neg hc]
        rfl

/-- The buffer of the prefix is larger than that of the whole text. -/
theorem getCurrentPath_eq (p : CSftpProfile) (Path : CStr) :
    getCurrentPath p Path = slash :: slash :: (p.printed Path).take 257 := by
  have hcut : ∀ s t : CStr, (s.take 317 ++ t).take 257 = (s ++ t).take 257 := by
    intro s t
    by_cases hs : s.length ≤ 317
    · rw [List.take_of_length_le hs]
    · rw [List.take_append_of_le_length (by rw [List.length_take]; omega), List.take_take,
        List.take_append_of_le_length (by omega)]
      rfl
  show slash :: slash :: (p.shown.take 317 ++ _).take 257 = _
  rw [hcut]
  rfl

theorem splitHost_getCurrentPath (p : CSftpProfile) (Path : CStr) :
    splitHost (getCurrentPath p Path) =
      some (((p.printed Path).takeWhile (!isSlash ·)).take 257,
        ((p.printed Path).dropWhile (!isSlash ·)).take
        (257 - ((p.printed Path).takeWhile (!isSlash ·)).length)) := by
  rw [getCurrentPath_eq, splitHost, if_pos (by decide), List.take_takeWhile, dropWhile_take]

theorem sftpParseHostInto_printed (saved : List CSftpSavedProfile)
    (p : CSftpProfile) (Path : CStr) :
    let a := parseHost (((p.printed Path).takeWhile (!isSlash ·)).take 257)
    sftpParseHostInto saved p (getCurrentPath p Path) =
      if a.host.text = [] ∨ ¬ a.Differs p then (p, false) else (switchProfile saved p a, true) := by
  intro a
  unfold sftpParseHostInto
  rw [splitHost_getCurrentPath]
  dsimp only
  have hlen : ¬ 320 ≤ (((p.printed Path).takeWhile (!isSlash ·)).take 257).length := by
    rw [List.length_take]
    omega
  by_cases hbuf : ((p.printed Path).takeWhile (!isSlash ·)).take 257 = []
  · have hnone : a.host.text = [] := by
      show (parseHost _).host.text = []
      rw [hbuf]
      rfl
    rw [if_pos (Or.inl hbuf), if_pos (Or.inl hnone)]
  · rw [if_neg (by simp only [hbuf, hlen, or_self, not_false_eq_true])]
    by_cases hhost : a.host.text = []
    · rw [if_pos hhost, if_pos (Or.inl hhost)]
    · by_cases hd : a.Differs p
      · rw [if_neg hhost, if_pos hd, if_neg (by simp [hhost, hd])]
      · rw [if_neg hhost, if_neg hd, if_pos (Or.inr hd)]

/-- The path that is read is the root where nothing is left of the printed one. -/
theorem sftpStripHost_printed (p : CSftpProfile) (Path : CStr) :
    sftpStripHost (getCurrentPath p Path) = Path ↔
      if 257 ≤ ((p.printed Path).takeWhile (!isSlash ·)).length then Path = [slash]
      else Path ≠ [] ∧
        ((p.printed Path).dropWhile (!isSlash ·)).take
          (257 - ((p.printed Path).takeWhile (!isSlash ·)).length) = Path := by
  unfold sftpStripHost
  rw [splitHost_getCurrentPath]
  dsimp only
  by_cases hlong : 257 ≤ ((p.printed Path).takeWhile (!isSlash ·)).length
  · rw [if_pos hlong, Nat.sub_eq_zero_of_le hlong, List.take_zero, if_pos rfl]
    exact eq_comm
  rw [if_neg hlong]
  rcases hrest : (p.printed Path).dropWhile (!isSlash ·) with _ | ⟨c, rest⟩
  · -- the root would have left a slash
    have hno : slash ∉ p.printed Path := by
      intro hmem
      have := List.dropWhile_eq_nil_iff.mp hrest slash hmem
      exact absurd this (by decide)
    have hne : Path ≠ [slash] := by
      rintro rfl
      exact hno (by simp [CSftpProfile.printed])
    simp only [List.take_nil, if_true]
    exact iff_of_false (Ne.symm hne) fun h => h.1 h.2.symm
  · obtain ⟨k, hk⟩ := Nat.exists_eq_succ_of_ne_zero (Nat.sub_ne_zero_of_lt (not_le.mp hlong))
    rw [hk, List.take_succ_cons, if_neg (by simp)]
    constructor
    · rintro rfl
      exact ⟨by simp, rfl⟩
    · exact fun h => h.2

/-! ## Reading back -/

theorem roundTrips_iff (saved : List CSftpSavedProfile) (p : CSftpProfile) (Path : CStr) :
    RoundTrips saved p Path ↔ PrintsReadably p Path := by
  have hparse := sftpParseHostInto_printed saved p Path
  have hstrip := sftpStripHost_printed p Path
  dsimp only at hparse
  constructor
  · intro h
    refine ⟨?_, hstrip.mp h.path⟩
    by_contra hserver
    have hstays := h.stays
    rw [hparse, if_neg hserver] at hstays
    simp at hstays
  · intro h
    rw [if_pos h.server] at hparse
    refine ⟨?_, ?_, ?_, ?_, hstrip.mpr h.path⟩
    · rw [hparse]
    · rw [hparse]
    · rw [hparse]
    · rw [hparse]

theorem cutAt_host_portPart (host : CStr) (port : ℤ) :
    (cutAt colon (host ++ portPart port)).1 = host.takeWhile (· != colon) := by
  show (host ++ portPart port).takeWhile (· != colon) = _
  have hport : (portPart port).takeWhile (· != colon) = [] := by
    unfold portPart
    split_ifs
    · rfl
    · rfl
  by_cases hall : ∀ c ∈ host, (c != colon) = true
  · rw [List.takeWhile_append_of_pos hall, hport, List.append_nil,
      List.takeWhile_eq_self_iff.mpr hall]
  · rw [List.takeWhile_append, if_neg]
    intro hlen
    refine hall fun c hc => ?_
    have hself := (List.takeWhile_prefix (· != colon) (l := host)).eq_of_length hlen
    exact List.takeWhile_eq_self_iff.mp hself c hc

theorem portPart_plain {port : ℤ} {c : Byte} (h : c ∈ portPart port) :
    c ≠ at_ ∧ isSlash c = false := by
  have hdigit : ∀ n : ℕ, ∀ c ∈ decimal n, c ≠ at_ ∧ isSlash c = false :=
    fun n c hc => Address.digit_plain hc
  unfold portPart at h
  split_ifs at h
  · rcases List.mem_cons.mp (List.mem_of_mem_take h) with rfl | h
    · decide
    · unfold decimalInt at h
      split_ifs at h
      · rcases List.mem_cons.mp h with rfl | h
        · decide
        · exact hdigit _ c h
      · exact hdigit _ c h
  · simp at h

theorem CSftpProfile.Plain.not_slash {p : CSftpProfile} (h : p.Plain) {c : Byte}
    (hc : c ∈ p.shown) : isSlash c = false := by
  unfold CSftpProfile.shown at hc
  rw [List.mem_append, List.mem_append] at hc
  rcases hc with (hc | hc) | hc
  · split_ifs at hc
    · rcases List.mem_append.mp hc with hc | hc
      · exact h.userSlash c hc
      · obtain rfl := List.mem_singleton.mp hc
        decide
    · simp at hc
  · exact h.hostSlash c hc
  · exact (portPart_plain hc).2

theorem parseHost_shown {p : CSftpProfile} (huser : at_ ∉ p.User.text) (hhost : at_ ∉ p.Host.text) :
    (parseHost p.shown).user = p.User ∧
      (parseHost p.shown).host.text = p.Host.text.takeWhile (· != colon) := by
  have hcopy : lstrcpyn (p.Host.text.takeWhile (· != colon)) 256 =
      p.Host.text.takeWhile (· != colon) :=
    lstrcpyn_eq_self (((List.takeWhile_prefix _).length_le).trans_lt p.Host.fits)
  have hno : at_ ∉ p.Host.text ++ portPart p.Port := by
    rw [List.mem_append, not_or]
    exact ⟨hhost, fun hc => (portPart_plain hc).1 rfl⟩
  unfold parseHost CSftpProfile.shown
  by_cases hnil : p.User.text = []
  · have hself : p.User = CharBuf.copy 128 [] := by
      rcases hp : p.User with ⟨text, fits⟩
      simp_all [CharBuf.copy, lstrcpyn]
    rw [if_neg (by simp [hnil]), List.nil_append, cutAt_of_notMem hno]
    refine ⟨hself.symm, ?_⟩
    show lstrcpyn (cutAt colon (p.Host.text ++ portPart p.Port)).1 256 = _
    rw [cutAt_host_portPart, hcopy]
  · rw [if_pos hnil, List.append_assoc, List.append_assoc,
      List.singleton_append, cutAt_append huser]
    refine ⟨?_, ?_⟩
    · show CharBuf.copy 128 p.User.text = p.User
      rcases p.User with ⟨text, fits⟩
      simp [CharBuf.copy, lstrcpyn_eq_self fits]
    · show lstrcpyn (cutAt colon (p.Host.text ++ portPart p.Port)).1 256 = _
      rw [cutAt_host_portPart, hcopy]

/-- With a plain user and a text that fits, a host is read back unless a ':' stands behind its
first character. -/
theorem printsReadably_iff_of_plain {p : CSftpProfile} {Path : CStr} (h : p.Plain)
    (hpath : Path.head? = some slash) (hfits : (p.printed Path).length ≤ 257) :
    PrintsReadably p Path ↔ colon ∉ p.Host.text ∨ p.Host.text.head? = some colon := by
  obtain ⟨path, rfl⟩ : ∃ path, Path = slash :: path := by
    rcases Path with _ | ⟨c, path⟩
    · simp at hpath
    · obtain rfl := Option.some.inj hpath
      exact ⟨path, rfl⟩
  have hshown : ∀ c ∈ p.shown, (!isSlash c) = true := fun c hc => by simp [h.not_slash hc]
  have hprinted : p.printed (slash :: path) = p.shown ++ slash :: path := rfl
  have htake : (p.printed (slash :: path)).takeWhile (!isSlash ·) = p.shown := by
    rw [hprinted, List.takeWhile_append_of_pos hshown,
      List.takeWhile_cons_of_neg (by decide), List.append_nil]
  have hdrop : (p.printed (slash :: path)).dropWhile (!isSlash ·) = slash :: path := by
    rw [hprinted, List.dropWhile_append_of_pos hshown, List.dropWhile_cons_of_neg (by decide)]
  have hlen : p.shown.length + (path.length + 1) ≤ 257 := by
    rw [hprinted, List.length_append, List.length_cons] at hfits
    exact hfits
  obtain ⟨hread, hcut⟩ := parseHost_shown h.userAt h.hostAt
  have hbuf : p.shown.take 257 = p.shown := List.take_of_length_le (by omega)
  have hdiffers : (parseHost p.shown).Differs p ↔ colon ∈ p.Host.text := by
    unfold HostParts.Differs
    rw [hread, hcut]
    constructor
    · rintro (h | h)
      · by_contra hno
        have hself : p.Host.text.takeWhile (· != colon) = p.Host.text :=
          congrArg Prod.fst (cutAt_of_notMem hno)
        apply h
        rw [hself]
        exact .refl _
      · exact absurd (.refl _) h.2
    · intro hmem
      refine Or.inl fun heq => ?_
      have hself :=
        (List.takeWhile_prefix (· != colon) (l := p.Host.text)).eq_of_length heq.length_eq
      have := List.takeWhile_eq_self_iff.mp hself colon hmem
      simp at this
  have hempty : (parseHost p.shown).host.text = [] ↔ p.Host.text = [] ∨
      p.Host.text.head? = some colon := by
    rw [hcut]
    rcases p.Host.text with _ | ⟨c, host⟩
    · simp
    · by_cases hc : c = colon
      · simp [hc]
      · simp [hc]
  constructor
  · intro h
    have hserver := h.server
    rw [htake, hbuf, hempty, hdiffers] at hserver
    rcases hserver with (hnil | hhead) | hno
    · simp [hnil]
    · exact Or.inr hhead
    · exact Or.inl hno
  · intro h
    refine ⟨?_, ?_⟩
    · rw [htake, hbuf, hempty, hdiffers]
      tauto
    · rw [htake, hdrop, if_neg (by omega)]
      refine ⟨by simp, List.take_of_length_le ?_⟩
      rw [List.length_cons]
      omega

/-- A printed path is read back when it is cut neither by its own characters nor by its length: for
a plain profile and a text that fits, when no ':' stands inside the host. -/
theorem printed_path_round_trips_iff (saved : List CSftpSavedProfile) (p : CSftpProfile)
    (Path : CStr) :
    (RoundTrips saved p Path ↔ PrintsReadably p Path) ∧
      (p.Plain → Path.head? = some slash → (p.printed Path).length ≤ 257 →
        (RoundTrips saved p Path ↔ colon ∉ p.Host.text ∨ p.Host.text.head? = some colon)) := by
  refine ⟨roundTrips_iff saved p Path, fun hplain hpath hfits => ?_⟩
  rw [roundTrips_iff]
  exact printsReadably_iff_of_plain hplain hpath hfits

/-- A user with an '@' is not read back. -/
theorem not_printed_path_round_trips :
    ¬ ∀ (saved : List CSftpSavedProfile) (p : CSftpProfile) (Path : CStr), p.Host.text ≠ [] →
    1 ≤ p.Port →
      p.Port ≤ 65535 → Path.length < MAX_PATH → sftpNormalize Path = Path →
      RoundTrips saved p Path := by
  intro h
  have hrt :=
    h [] { CSftpProfile.at (.copy 256 (ascii "h")) 22 with User := .copy 128 (ascii "me@corp") }
      [slash]
    (by decide +kernel) (by decide) (by decide) (by decide) (by decide +kernel)
  exact absurd hrt.stays (by decide +kernel)

end SalamanderSftp
