import SalamanderSftp.Fs.NormalizeCalls

/-!
# The viewer cache

`ViewFile` opens the cached copy that Salamander keeps under a key: the printed location of the file
in lower case, its size and its last write. Size and time can be told apart in the key whatever
stands before them (`uniqueFileName_eq_iff`); the locations only as far as they print differently
without case.
-/

namespace SalamanderSftp

/-! ## The key -/

@[ext]
structure FileTime where
  dwLowDateTime : UInt32
  dwHighDateTime : UInt32
  deriving DecidableEq

/-- What `ViewFile` is called with: the panel's profile and path, and of the file its name, size and
time. -/
structure ViewedFile where
  fsName : CharBuf 260
  Profile : CSftpProfile
  Path : CharBuf 260
  Name : CStr
  Size : UInt64
  LastWrite : FileTime

namespace ViewedFile

/-- The path that is downloaded. -/
def remote (f : ViewedFile) : CStr := sftpJoin f.Path.text f.Name MAX_PATH

def getFullName (f : ViewedFile) (bufSize : ℕ) :
    CStr := lstrcpyn (sftpHostPrefix f.Profile 320 ++ f.remote) bufSize

/-- What stands before size and time, as it is before `ToLowerCase`. -/
def located (f : ViewedFile) : CStr := f.fsName.text ++ colon :: f.getFullName (2 * MAX_PATH)

/-- `":%I64u:%08lx%08lx"`. -/
def stamp (f : ViewedFile) : CStr :=
  colon :: (decimal f.Size.toNat ++ colon ::
    (hexDigits 8 f.LastWrite.dwHighDateTime.toNat ++ hexDigits 8 f.LastWrite.dwLowDateTime.toNat))

/-- The key, with the table that `ToLowerCase` looks characters up in. -/
def uniqueFileName (lowerCase : Byte → Byte) (f : ViewedFile) : CStr :=
  let name := f.located.map lowerCase
  name ++ lstrcpyn f.stamp (3 * MAX_PATH + 64 - name.length)

theorem length_located_le (f : ViewedFile) : f.located.length ≤ 779 := by
  have hname := f.fsName.fits
  have hfull := length_lstrcpyn_le (sftpHostPrefix f.Profile 320 ++ f.remote) (2 * MAX_PATH)
  have hsize : 2 * MAX_PATH - 1 = 519 := rfl
  unfold located getFullName
  rw [List.length_append, List.length_cons]
  omega

theorem length_stamp_le (f : ViewedFile) : f.stamp.length ≤ 38 := by
  have hsize := length_decimal_le (k := 20) (by decide) (f.Size.toNat_lt.trans (by decide))
  unfold stamp
  simp only [List.length_cons, List.length_append, length_hexDigits]
  omega

/-- The buffer has room for all of the key. -/
theorem uniqueFileName_eq (lowerCase : Byte → Byte) (f : ViewedFile) :
    f.uniqueFileName lowerCase = f.located.map lowerCase ++ f.stamp := by
  have hlocated := f.length_located_le
  have hstamp := f.length_stamp_le
  have hmax : MAX_PATH = 260 := rfl
  unfold uniqueFileName
  dsimp only
  rw [lstrcpyn_eq_self]
  rw [List.length_map]
  omega

/-- Two files with one print up to case, one size and one time. -/
structure LookAlike (lowerCase : Byte → Byte) (f g : ViewedFile) : Prop where
  located : f.located.map lowerCase = g.located.map lowerCase
  size : f.Size = g.Size
  time : f.LastWrite = g.LastWrite

/-- The key can be read from its end. -/
theorem uniqueFileName_eq_iff (lowerCase : Byte → Byte) (f g : ViewedFile) :
    f.uniqueFileName lowerCase = g.uniqueFileName lowerCase ↔ LookAlike lowerCase f g := by
  constructor
  · intro h
    have hassoc : ∀ f : ViewedFile, f.uniqueFileName lowerCase =
        (f.located.map lowerCase ++ colon :: (decimal f.Size.toNat ++ [colon])) ++
          (hexDigits 8 f.LastWrite.dwHighDateTime.toNat ++
            hexDigits 8 f.LastWrite.dwLowDateTime.toNat) := by
      intro f
      rw [uniqueFileName_eq]
      simp [stamp]
    rw [hassoc, hassoc] at h
    obtain ⟨hfront, htime⟩ := List.append_inj' h (by simp [length_hexDigits])
    obtain ⟨hhigh, hlow⟩ := List.append_inj htime (by simp [length_hexDigits])
    rw [← List.cons_append, ← List.cons_append, ← List.append_assoc, ← List.append_assoc] at hfront
    obtain ⟨hlocated, hsize⟩ :=
      Components.append_cons_inj_last (colon_notMem_decimal _) (colon_notMem_decimal _)
      (List.append_inj' hfront rfl).1
    have hword : ∀ a b : UInt32, hexDigits 8 a.toNat = hexDigits 8 b.toNat → a = b := fun a b heq =>
      UInt32.toNat_inj.mp (hexDigits_injective (a.toNat_lt.trans_eq (by decide))
        (b.toNat_lt.trans_eq (by decide)) heq)
    exact ⟨hlocated, UInt64.toNat_inj.mp (decimal_injective hsize),
      FileTime.ext (hword _ _ hlow) (hword _ _ hhigh)⟩
  · intro h
    rw [uniqueFileName_eq, uniqueFileName_eq, h.located]
    unfold stamp
    rw [h.size, h.time]

/-- One file on one server, as it was at one time. -/
structure SameFile (f g : ViewedFile) : Prop where
  server : f.Profile.server = g.Profile.server
  path : f.remote = g.remote
  size : f.Size = g.Size
  time : f.LastWrite = g.LastWrite

/-! ## Plain servers -/

/-- `ToLowerCase` changes letters to letters. -/
structure KeepsSeparators (lowerCase : Byte → Byte) : Prop where
  keeps : ∀ {s c}, s = at_ ∨ s = colon ∨ s = slash ∨ s = 45 ∨
    isDigit s = true → (lowerCase c = s ↔ c = s)

theorem keepsSeparators_toLower : KeepsSeparators toLower := by
  have hletters : ∀ c : Byte, toLower c = c ∨ 97 ≤ (toLower c).toNat ∧ 65 ≤ c.toNat := by
    decide +kernel
  have hsmall : ∀ s : Byte, s = at_ ∨ s = colon ∨ s = slash ∨ s = 45 ∨ isDigit s = true →
      s.toNat < 65 := by decide +kernel
  refine ⟨fun {s c} hs => ?_⟩
  have hlt := hsmall s hs
  rcases hletters c with hsame | ⟨hlow, hup⟩
  · rw [hsame]
  · refine iff_of_false ?_ ?_
    · rintro rfl
      omega
    · rintro rfl
      omega

section Lowered

variable {lowerCase : Byte → Byte}

theorem KeepsSeparators.mem_map (h : KeepsSeparators lowerCase) {s : Byte}
    (hs : s = at_ ∨ s = colon ∨ s = slash ∨ s = 45 ∨ isDigit s = true)
    (text : CStr) : s ∈ text.map lowerCase ↔ s ∈ text := by
  rw [List.mem_map]
  constructor
  · rintro ⟨c, hc, heq⟩
    exact (h.keeps hs).mp heq ▸ hc
  · exact fun hmem => ⟨s, hmem, (h.keeps hs).mpr rfl⟩

theorem KeepsSeparators.map_portPart (h : KeepsSeparators lowerCase) (port : ℤ) :
    (portPart port).map lowerCase = portPart port := by
  have hkept : ∀ c ∈ portPart port, lowerCase c = c := by
    intro c hc
    refine (h.keeps ?_).mpr rfl
    have hdecimal : ∀ n : ℕ, c ∈ decimal n → isDigit c = true := fun n => isDigit_of_mem_decimal
    unfold portPart at hc
    split_ifs at hc
    · rcases List.mem_cons.mp (List.mem_of_mem_take hc) with rfl | hc
      · exact .inr (.inl rfl)
      · unfold decimalInt at hc
        split_ifs at hc
        · rcases List.mem_cons.mp hc with rfl | hc
          · exact .inr (.inr (.inr (.inl rfl)))
          · exact .inr (.inr (.inr (.inr (hdecimal _ hc))))
        · exact .inr (.inr (.inr (.inr (hdecimal _ hc))))
    · simp at hc
  rw [List.map_congr_left hkept, List.map_id']

/-- The profile with user and host in lower case. -/
def lowered (lowerCase : Byte → Byte) (p : CSftpProfile) : CSftpProfile :=
  { p with
    User := ⟨p.User.text.map lowerCase, by rw [List.length_map]; exact p.User.fits⟩
    Host := ⟨p.Host.text.map lowerCase, by rw [List.length_map]; exact p.Host.fits⟩ }

theorem shown_lowered (h : KeepsSeparators lowerCase) (p : CSftpProfile) :
    (lowered lowerCase p).shown = p.shown.map lowerCase := by
  have hat : lowerCase at_ = at_ := (h.keeps (.inl rfl)).mpr rfl
  have huser : (if (lowered lowerCase p).User.text ≠
      [] then (lowered lowerCase p).User.text ++ [at_] else []) =
      (if p.User.text ≠ [] then p.User.text ++ [at_] else []).map lowerCase := by
    show (if p.User.text.map lowerCase ≠ [] then p.User.text.map lowerCase ++ [at_] else []) = _
    by_cases hnil : p.User.text = []
    · rw [hnil]
      rfl
    · rw [if_pos hnil, if_pos (by simpa using hnil), List.map_append, List.map_singleton, hat]
  unfold CSftpProfile.shown
  rw [huser, List.map_append, List.map_append, h.map_portPart]
  rfl

/-- User and host have no separators, and the port is a number. -/
structure PlainServer (p : CSftpProfile) : Prop where
  user : at_ ∉ p.User.text ∧ slash ∉ p.User.text
  host : at_ ∉ p.Host.text ∧ colon ∉ p.Host.text ∧ slash ∉ p.Host.text
  port : 0 ≤ p.Port ∧ p.Port < 2 ^ 31

theorem PlainServer.lowered (h : KeepsSeparators lowerCase) {p : CSftpProfile}
    (hp : PlainServer p) : PlainServer (lowered lowerCase p) where
  user := ⟨fun hm => hp.user.1 ((h.mem_map (.inl rfl) _).mp hm),
    fun hm => hp.user.2 ((h.mem_map (by simp) _).mp hm)⟩
  host := ⟨fun hm => hp.host.1 ((h.mem_map (.inl rfl) _).mp hm),
    fun hm => hp.host.2.1 ((h.mem_map (by simp) _).mp hm),
    fun hm => hp.host.2.2 ((h.mem_map (by simp) _).mp hm)⟩
  port := hp.port

def effectivePort (p : CSftpProfile) : ℤ := if p.Port = 0 then 22 else p.Port

/-- What is printed for a plain server can be read back. -/
theorem PlainServer.shown_eq_iff {p q : CSftpProfile} (hp : PlainServer p) (hq : PlainServer q) :
    p.shown = q.shown ↔ p.User = q.User ∧ p.Host = q.Host ∧ effectivePort p = effectivePort q := by
  have hwhole : ∀ {p : CSftpProfile}, PlainServer p →
      (parseHost p.shown).host.text = p.Host.text := by
    intro p hp
    rw [(parseHost_shown hp.user.1 hp.host.1).2, List.takeWhile_eq_self_iff]
    intro c hc
    rw [bne_iff_ne]
    rintro rfl
    exact hp.host.2.1 hc
  constructor
  · intro h
    have huser : p.User = q.User := by
      rw [← (parseHost_shown hp.user.1 hp.host.1).1, h, (parseHost_shown hq.user.1 hq.host.1).1]
    have hhost : p.Host.text = q.Host.text := by rw [← hwhole hp, h, hwhole hq]
    have hport : (if p.Port = 22 then 0 else p.Port) = if q.Port = 22 then 0 else q.Port := by
      rw [← parseHost_shown_port hp.user.1 hp.host.1 hp.host.2.1 hp.port, h,
        parseHost_shown_port hq.user.1 hq.host.1 hq.host.2.1 hq.port]
    refine ⟨huser, CharBuf.ext hhost, ?_⟩
    unfold effectivePort
    split_ifs at hport ⊢ <;> omega
  · rintro ⟨huser, hhost, hport⟩
    have hpart : portPart p.Port = portPart q.Port := by
      unfold effectivePort at hport
      unfold portPart
      by_cases h0 : p.Port ≠ 0 ∧ p.Port ≠ 22
      · have heq : p.Port = q.Port := by
          split_ifs at hport <;> omega
        rw [heq]
      · have h0' : ¬ (q.Port ≠ 0 ∧ q.Port ≠ 22) := by
          split_ifs at hport <;> omega
        rw [if_neg h0, if_neg h0']
    unfold CSftpProfile.shown
    rw [huser, hhost, hpart]

/-- A file on a plain server, whose print fits its buffer. -/
structure Plain (f : ViewedFile) : Prop where
  fsName : colon ∉ f.fsName.text
  server : PlainServer f.Profile
  fits : f.Profile.shown.length ≤ 317

/-- The path as far as there is room behind the server. -/
def keyPath (f : ViewedFile) : CStr := f.remote.take (517 - f.Profile.shown.length)

theorem Plain.located_eq {f : ViewedFile} (hf : f.Plain) :
    f.located = f.fsName.text ++ colon :: slash :: slash :: (f.Profile.shown ++ f.keyPath) := by
  have hfits := hf.fits
  have hserver : sftpHostPrefix f.Profile 320 = slash :: slash :: f.Profile.shown :=
    lstrcpyn_eq_self (by rw [List.length_cons, List.length_cons]; omega)
  have hall : lstrcpyn (slash :: slash :: f.Profile.shown ++ f.remote) (2 * MAX_PATH) =
      slash :: slash :: (f.Profile.shown ++ f.keyPath) := by
    show (slash :: slash :: (f.Profile.shown ++ f.remote)).take (517 + 1 + 1) = _
    rw [List.take_succ_cons, List.take_succ_cons, List.take_append,
      List.take_of_length_le (by omega)]
    rfl
  unfold located getFullName
  rw [hserver, hall]

theorem PlainServer.slash_notMem_shown {p : CSftpProfile} (hp : PlainServer p) :
    slash ∉ p.shown := by
  unfold CSftpProfile.shown
  rw [List.mem_append, List.mem_append, not_or, not_or]
  refine ⟨⟨?_, hp.host.2.2⟩, fun h => absurd (portPart_plain h).2 (by decide)⟩
  split_ifs
  · rw [List.mem_append, not_or]
    exact ⟨hp.user.2, by decide⟩
  · exact List.not_mem_nil

theorem Plain.exists_keyPath {f : ViewedFile} (hf : f.Plain) :
    ∃ path, f.keyPath = slash :: path := by
  have hfits := hf.fits
  have hroom : 0 < 517 - f.Profile.shown.length := by omega
  have hhead : f.keyPath.head? = some slash := by
    show (f.remote.take _).head? = _
    rw [List.head?_take, if_neg (by omega)]
    exact head_sftpNormalize _
  exact ⟨_, List.eq_cons_of_mem_head? hhead⟩

/-- Without regard to case all fields are the same, the path as far as it is in the key. -/
structure SameLetters (lowerCase : Byte → Byte) (f g : ViewedFile) : Prop where
  fsName : f.fsName.text.map lowerCase = g.fsName.text.map lowerCase
  user : f.Profile.User.text.map lowerCase = g.Profile.User.text.map lowerCase
  host : f.Profile.Host.text.map lowerCase = g.Profile.Host.text.map lowerCase
  port : effectivePort f.Profile = effectivePort g.Profile
  path : f.keyPath.map lowerCase = g.keyPath.map lowerCase

theorem Plain.map_located (h : KeepsSeparators lowerCase) {f : ViewedFile} (hf : f.Plain) :
    f.located.map lowerCase = f.fsName.text.map lowerCase ++
      colon :: slash :: slash :: (f.Profile.shown.map lowerCase ++ f.keyPath.map lowerCase) := by
  have hcolon : lowerCase colon = colon := (h.keeps (.inr (.inl rfl))).mpr rfl
  have hslash : lowerCase slash = slash := (h.keeps (.inr (.inr (.inl rfl)))).mpr rfl
  rw [hf.located_eq]
  simp only [List.map_append, List.map_cons, hcolon, hslash]

theorem PlainServer.map_shown_eq_iff (h : KeepsSeparators lowerCase) {p q : CSftpProfile}
    (hp : PlainServer p) (hq : PlainServer q) : p.shown.map lowerCase = q.shown.map lowerCase ↔
      p.User.text.map lowerCase = q.User.text.map lowerCase ∧
        p.Host.text.map lowerCase = q.Host.text.map lowerCase ∧
        effectivePort p = effectivePort q := by
  rw [← shown_lowered h, ← shown_lowered h,
    (hp.lowered h).shown_eq_iff (hq.lowered h), CharBuf.ext_iff,
    CharBuf.ext_iff]
  rfl

/-- What is printed of a file on a plain server can be read back up to case. -/
theorem Plain.map_located_eq_iff (h : KeepsSeparators lowerCase) {f g : ViewedFile}
    (hf : f.Plain) (hg : g.Plain) :
    f.located.map lowerCase = g.located.map lowerCase ↔ f.SameLetters lowerCase g := by
  have hshown := hf.server.map_shown_eq_iff h hg.server
  rw [hf.map_located h, hg.map_located h]
  constructor
  · intro hlocated
    have hslash : lowerCase slash = slash := (h.keeps (.inr (.inr (.inl rfl)))).mpr rfl
    -- the first colon ends the name of the file system
    have hcutName := Components.cutAt_append (mt (h.mem_map (.inr (.inl rfl)) _).mp hf.fsName)
      (slash :: slash :: (f.Profile.shown.map lowerCase ++ f.keyPath.map lowerCase))
    rw [hlocated,
      Components.cutAt_append (mt (h.mem_map (.inr (.inl rfl)) _).mp hg.fsName)] at hcutName
    obtain ⟨hname, hrest⟩ := Prod.mk.inj hcutName
    have hboth := (List.cons.inj (List.cons.inj (Option.some.inj hrest)).2).2
    -- and the next slash the server
    obtain ⟨path, hpath⟩ := hf.exists_keyPath
    obtain ⟨path', hpath'⟩ := hg.exists_keyPath
    rw [hpath, hpath', List.map_cons, List.map_cons, hslash] at hboth
    have hcutServer := Components.cutAt_append
      (mt (h.mem_map (.inr (.inr (.inl rfl))) _).mp hf.server.slash_notMem_shown)
      (path.map lowerCase)
    rw [← hboth, Components.cutAt_append
      (mt (h.mem_map (.inr (.inr (.inl rfl))) _).mp hg.server.slash_notMem_shown)] at hcutServer
    obtain ⟨hserver, htail⟩ := Prod.mk.inj hcutServer
    obtain ⟨huser, hhost, hport⟩ := hshown.mp hserver.symm
    refine ⟨hname.symm, huser, hhost, hport, ?_⟩
    rw [hpath, hpath', List.map_cons, List.map_cons, Option.some.inj htail]
  · intro hsame
    rw [hsame.fsName, hsame.path, hshown.mpr ⟨hsame.user, hsame.host, hsame.port⟩]

end Lowered

end ViewedFile

namespace ViewedFile

/-- Two files on plain servers, of one size and one time, that are apart in the case of letters
alone or behind the end of the key. -/
structure CaseTwins (lowerCase : Byte → Byte) (f g : ViewedFile) : Prop where
  plain : f.Plain ∧ g.Plain
  size : f.Size = g.Size
  time : f.LastWrite = g.LastWrite
  letters : f.SameLetters lowerCase g
  apart : f.Profile.User ≠ g.Profile.User ∨
    f.Profile.Host.text.map toLower ≠ g.Profile.Host.text.map toLower ∨ f.remote ≠ g.remote

/-- The fields one behind the other, each as far as there is room for it. -/
def written (f : ViewedFile) : CStr :=
  f.fsName.text ++ colon :: ((slash :: slash :: f.Profile.shown).take 319 ++ f.remote).take 519

/-- Two files of which one has a separator in its fields or a server that does not fit, so that the
fields of one read like others of the other. -/
structure RunTogether (lowerCase : Byte → Byte) (f g : ViewedFile) : Prop where
  notPlain : ¬ (f.Plain ∧ g.Plain)
  size : f.Size = g.Size
  time : f.LastWrite = g.LastWrite
  written : f.written.map lowerCase = g.written.map lowerCase
  apart : f.Profile.server ≠ g.Profile.server ∨ f.remote ≠ g.remote

theorem server_eq_iff {p q : CSftpProfile} : p.server = q.server ↔
    p.User = q.User ∧ p.Host.text.map toLower = q.Host.text.map toLower ∧
    effectivePort p = effectivePort q := by
  rw [CharBuf.ext_iff]
  unfold CSftpProfile.server effectivePort
  rw [Server.mk.injEq]
  tauto

theorem sameFile_iff_of_lookAlike {lowerCase : Byte → Byte} {f g : ViewedFile}
    (h : LookAlike lowerCase f g) :
    f.SameFile g ↔ f.Profile.server = g.Profile.server ∧ f.remote = g.remote :=
  ⟨fun hsame => ⟨hsame.server, hsame.path⟩, fun hboth => ⟨hboth.1, hboth.2, h.size, h.time⟩⟩

/-- On plain servers a file stands for another exactly if they are apart in case alone. -/
theorem Plain.mistaken_iff {lowerCase : Byte → Byte}
    (h : KeepsSeparators lowerCase) {f g : ViewedFile}
    (hf : f.Plain) (hg : g.Plain) :
    LookAlike lowerCase f g ∧ ¬ f.SameFile g ↔ f.CaseTwins lowerCase g := by
  constructor
  · rintro ⟨hlook, hother⟩
    have hletters := (hf.map_located_eq_iff h hg).mp hlook.located
    refine ⟨⟨hf, hg⟩, hlook.size, hlook.time, hletters, ?_⟩
    rw [sameFile_iff_of_lookAlike hlook, server_eq_iff] at hother
    have hport := hletters.port
    tauto
  · intro htwins
    have hlook : LookAlike lowerCase f g :=
      ⟨(hf.map_located_eq_iff h hg).mpr htwins.letters, htwins.size, htwins.time⟩
    refine ⟨hlook, ?_⟩
    rw [sameFile_iff_of_lookAlike hlook, server_eq_iff]
    have hapart := htwins.apart
    tauto

/-- Elsewhere exactly if what is written reads alike. -/
theorem mistaken_iff_of_not_plain {lowerCase : Byte → Byte} {f g : ViewedFile}
    (hnot : ¬ (f.Plain ∧ g.Plain)) :
    LookAlike lowerCase f g ∧ ¬ f.SameFile g ↔ f.RunTogether lowerCase g := by
  constructor
  · rintro ⟨hlook, hother⟩
    refine ⟨hnot, hlook.size, hlook.time, hlook.located, ?_⟩
    rw [sameFile_iff_of_lookAlike hlook] at hother
    tauto
  · intro htogether
    have hlook : LookAlike lowerCase f g := ⟨htogether.written, htogether.size, htogether.time⟩
    refine ⟨hlook, ?_⟩
    rw [sameFile_iff_of_lookAlike hlook]
    have hapart := htogether.apart
    tauto

end ViewedFile

def hostH : CSftpProfile := .at (.copy 256 (ascii "h")) 22

def rootFile (name : CStr) : ViewedFile :=
  ⟨.copy 260 (ascii "sftp"), hostH, .copy 260 [slash], name, 1, ⟨0, 0⟩⟩

theorem plain_rootFile (name : CStr) : (rootFile name).Plain where
  fsName := show colon ∉ (CharBuf.copy 260 (ascii "sftp")).text by decide +kernel
  server :=
    show ViewedFile.PlainServer hostH from ⟨by decide +kernel, by decide +kernel, by decide +kernel⟩
  fits := show hostH.shown.length ≤ 317 by decide +kernel

end SalamanderSftp
