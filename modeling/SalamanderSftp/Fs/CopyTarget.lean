import SalamanderSftp.Fs.DiskToServer
import SalamanderSftp.Fs.PrintedPath

/-!
# The target of a copy between servers

`CopyOrMoveFromFS` reads its target as `sftp://user@host:port/path`, decides whether that is the
server of the panel, and otherwise looks for a profile in the active panels, among the saved
profiles and in the local `targetProfile`, which is not initialised.

The uploads go to the named server, for every content of these, exactly when the panel's own server
is the named one and the text is read that way, as it always is for a profile with plain user and
host (`copy_goes_to_named_iff`).
-/

namespace SalamanderSftp

open Components

/-! ## Reading the target -/

/-- `while (_strnicmp(p, "sftp:", 5) == 0) p += 5;` -/
def skipScheme : CStr → CStr
  | a :: b :: c :: d :: e :: rest =>
    if stricmpEq [a, b, c, d,
      e] (ascii "sftp:") then skipScheme rest else a :: b :: c :: d :: e :: rest
  | s => s

/-- `targetHost`, `targetUser`, `targetPort` and `remoteTargetDir`. -/
structure CopyTarget where
  host : CharBuf 256
  user : CharBuf 128
  port : ℤ
  dir : CStr

/-- The target of a copy, as it is read behind the "sftp:". -/
def parseTarget (p : CStr) : CopyTarget :=
  let dir (s : CStr) : CStr :=
    sftpNormalize ((lstrcpyn s MAX_PATH).map fun c => if c = backslash then slash else c)
  match splitHost p with
  | none => ⟨.copy 256 [], .copy 128 [], 0, dir p⟩
  | some (buf, rest) =>
    let dir := dir (if rest = [] then [slash] else rest)
    if buf = [] ∨ 256 ≤ buf.length then ⟨.copy 256 [], .copy 128 [], 0, dir⟩
    else ⟨(parseHost buf).host, (parseHost buf).user, (parseHost buf).port.getD 0, dir⟩

/-- The target without its mask, in a buffer of `2 * MAX_PATH` bytes. -/
def copyTargetText (targetPath : CStr) :
    CStr := trimMask backslash (lstrcpyn targetPath (2 * MAX_PATH))

/-- `X:` or `\\server`. -/
def isDiskPath (target : CStr) :
    Bool := target[1]? == some colon || target.take 2 == [backslash, backslash]

/-- The target names the server of the profile, or none. -/
def isSameServer (p : CSftpProfile) (t : CopyTarget) : Bool :=
  t.host.text = [] ∨
    (stricmpEq t.host.text p.Host.text ∧ ¬ (0 < t.port ∧ t.port ≠ p.Port) ∧
      ¬ (t.user.text ≠ [] ∧ p.User.text ≠ [] ∧ ¬ stricmpEq t.user.text p.User.text))

/-! ## The connection to the target -/

structure ActiveFs where
  Profile : CSftpProfile
  connected : Bool

/-- The test of the lookups; an empty user and port 0 match any. -/
def CopyTarget.matches (t : CopyTarget) (host user : CStr) (port : ℤ) : Bool :=
  stricmpEq host t.host.text ∧ (t.user.text = [] ∨ stricmpEq user t.user.text) ∧
    (t.port = 0 ∨ port = t.port)

/-- What another server's profile is looked for in; the last is the content of the uninitialised
local. -/
structure Lookup where
  active : List ActiveFs
  saved : List CSftpSavedProfile
  targetProfile : CSftpProfile

/-- `targetProfile` after the lookups, and whether it comes from a panel that is connected. -/
def findTarget (lookup : Lookup) (t : CopyTarget) : CSftpProfile × Bool :=
  let (p, connected) :=
    match lookup.active.find? fun fs =>
      t.matches fs.Profile.Host.text fs.Profile.User.text fs.Profile.Port with
    | some fs => (fs.Profile, fs.connected)
    | none => (lookup.targetProfile, false)
  let p :=
    if p.Host.text = [] then
      match lookup.saved.find? fun s => t.matches s.Host.text s.User.text s.Port with
      | some s => sftpProfileFromSaved s
      | none => p
    else p
  let p :=
    if p.Host.text = [] then
      { p with
        Host := t.host
        User := if t.user.text ≠ [] then t.user else p.User
        Port := if 0 < t.port then t.port else 22
        Valid := true }
    else p
  (p, connected)

inductive CopyPlan
  /-- A target on the local disk. -/
  | toDisk
  | cancelled
  /-- The profile that the uploads are connected with. -/
  | toServer (p : CSftpProfile)

/-- `CopyOrMoveFromFS` up to the point where it starts to copy. -/
def copyPlan (world : SshWorld) (lookup : Lookup) (fs : FsInstance) (targetPath : CStr) :
    CopyPlan :=
  let target := copyTargetText targetPath
  if (sftpEnsureConnected world fs.connected fs.Profile).1 = false then .cancelled
  else if isDiskPath target then .toDisk
  else
    let t := parseTarget (skipScheme target)
    if isSameServer fs.Profile t then .toServer fs.Profile
    else
      let (p, connected) := findTarget lookup t
      if connected || (sftpEnsureConnected world false p).1 then .toServer p else .cancelled

/-! ## The named server -/

/-- The target text for a directory of a profile's server. -/
def serverTarget (p : CSftpProfile) (path : CStr) :
    CStr := ascii "sftp:" ++ sftpHostPrefix p 320 ++ path

/-- The target is taken for the server of the panel when it is that, and the uploads go to the
server it is printed for. -/
structure GoesToNamed (source target : CSftpProfile) (path : CStr) : Prop where
  same : isSameServer source
    (parseTarget (skipScheme (copyTargetText (serverTarget target path)))) = true ↔
    source.server = target.server
  uploads : ∀ (world : SshWorld) (lookup : Lookup) (fs : FsInstance) (p : CSftpProfile),
    fs.Profile = source →
    copyPlan world lookup fs (serverTarget target path) = .toServer p → p.server = target.server

/-- The text names no host, or the profile's own host with nothing that speaks against it. -/
structure NamesNoOther (p : CSftpProfile) (t : CopyTarget) : Prop where
  host : t.host.text ≠ [] → stricmpEq t.host.text p.Host.text
  port : t.host.text ≠ [] → 0 < t.port → t.port = p.Port
  user : t.host.text ≠ [] → t.user.text ≠ [] → p.User.text ≠ [] → stricmpEq t.user.text p.User.text

theorem isSameServer_iff {p : CSftpProfile} {t : CopyTarget} :
    isSameServer p t = true ↔ NamesNoOther p t := by
  unfold isSameServer
  rw [decide_eq_true_iff]
  by_cases hhost : t.host.text = []
  · simp only [hhost, true_or, true_iff]
    exact ⟨fun h => absurd hhost h, fun h => absurd hhost h, fun h => absurd hhost h⟩
  · simp only [hhost, false_or]
    constructor
    · rintro ⟨h, hport, huser⟩
      refine ⟨fun _ => h, fun _ hpos => ?_, fun _ ht hp => ?_⟩
      · by_contra hne
        exact hport ⟨hpos, hne⟩
      · by_contra hne
        exact huser ⟨ht, hp, hne⟩
    · intro h
      exact ⟨h.host hhost, fun hp => hp.2 (h.port hhost hp.1),
        fun hu => hu.2.2 (h.user hhost hu.1 hu.2.1)⟩

/-! ## The text of the target -/

/-- Trimming a mask leaves a beginning of the path, at least what is before its first separator. -/
theorem trimMask_cases (separator : Byte) (s : CStr) :
    trimMask separator s = [] ∨ trimMask separator s = s ∨
      ∃ after, s = trimMask separator s ++ separator :: after := by
  unfold trimMask
  rcases hs : splitLast (· == separator) s with _ | ⟨before, after⟩
  · dsimp only [Option.getD_none]
    split_ifs
    · exact Or.inl rfl
    · exact Or.inr (Or.inl rfl)
  · obtain ⟨c, hsplit, hc⟩ := eq_of_splitLast hs
    obtain rfl := beq_iff_eq.mp hc
    dsimp only [Option.getD_some]
    split_ifs
    · exact Or.inr (Or.inr ⟨after, hsplit⟩)
    · exact Or.inr (Or.inl rfl)

theorem serverTarget_eq (p : CSftpProfile) (path : CStr) :
    serverTarget p path =
      115 :: 102 :: 116 :: 112 :: colon :: slash :: slash :: (p.shown.take 317 ++ path) := by
  have hscheme : ascii "sftp:" = [115, 102, 116, 112, colon] := by decide +kernel
  unfold serverTarget
  rw [hscheme]
  rfl

/-- A text that starts with two letters is no path of a disk, whatever is trimmed from it. -/
theorem isDiskPath_serverTarget (p : CSftpProfile) (path : CStr) :
    isDiskPath (copyTargetText (serverTarget p path)) = false := by
  have hpre : copyTargetText (serverTarget p path) <+: serverTarget p path := by
    have hcut : lstrcpyn (serverTarget p path) (2 * MAX_PATH) <+: serverTarget p path :=
      List.take_prefix _ _
    unfold copyTargetText
    rcases trimMask_cases backslash
        (lstrcpyn (serverTarget p path) (2 * MAX_PATH)) with h | h | ⟨after, h⟩
    · rw [h]
      exact List.nil_prefix
    · rw [h]
      exact hcut
    · exact List.IsPrefix.trans ⟨_, h.symm⟩ hcut
  obtain ⟨rest, hrest⟩ := hpre
  rcases htext : copyTargetText (serverTarget p path) with _ | ⟨c, _ | ⟨d, text⟩⟩
  · rfl
  · rw [htext, serverTarget_eq] at hrest
    obtain ⟨rfl, -⟩ := List.cons.inj hrest
    rfl
  · rw [htext, serverTarget_eq] at hrest
    simp only [List.cons_append, List.cons.injEq] at hrest
    obtain ⟨rfl, rfl, -⟩ := hrest
    rfl

/-! ## Where the uploads go -/

theorem exists_other_server (s : Server) :
    ∃ p : CSftpProfile, p.Valid = true ∧ p.Host.text ≠ [] ∧ p.server ≠ s := by
  by_cases hs : s.host = ascii "x"
  · refine ⟨.at (.copy 256 (ascii "y")) 22, rfl, by decide +kernel, ?_⟩
    rintro rfl
    exact absurd hs (by decide +kernel)
  · refine ⟨.at (.copy 256 (ascii "x")) 22, rfl, by decide +kernel, ?_⟩
    rintro rfl
    exact hs (by decide +kernel)

theorem goesToNamed_iff (source target : CSftpProfile) (path : CStr) :
    GoesToNamed source target path ↔ source.server = target.server ∧
      NamesNoOther source
        (parseTarget (skipScheme (copyTargetText (serverTarget target path)))) := by
  rw [← isSameServer_iff]
  constructor
  · intro h
    by_cases hsame : isSameServer source
      (parseTarget (skipScheme (copyTargetText (serverTarget target path)))) = true
    · exact ⟨h.same.mp hsame, hsame⟩
    · -- what the uninitialised profile happens to hold is taken for the target
      obtain ⟨other, hvalid, hhost, hother⟩ := exists_other_server target.server
      refine absurd (h.uploads ⟨fun _ => true, [], fun _ _ => 2⟩ ⟨[], [], other⟩
        ⟨source, true, .copy 260 [], false, false⟩ other rfl ?_) hother
      unfold copyPlan
      dsimp only
      rw [if_neg (by simp [sftpEnsureConnected]), isDiskPath_serverTarget,
        if_neg (by simp), if_neg hsame]
      simp [findTarget, hhost, sftpEnsureConnected, hvalid]
  · rintro ⟨hserver, hsame⟩
    refine ⟨iff_of_true hsame hserver, ?_⟩
    rintro world lookup fs p rfl hplan
    unfold copyPlan at hplan
    dsimp only at hplan
    rw [isDiskPath_serverTarget, if_neg (by simp : ¬ false = true), if_pos hsame] at hplan
    split_ifs at hplan
    obtain rfl := CopyPlan.toServer.inj hplan
    exact hserver

/-! ## Plain profiles -/

/-- What is before every separator survives the trimming, unless nothing does. -/
theorem trimMask_append {separator : Byte} {s : CStr} (hs : separator ∉ s) (path : CStr) :
    trimMask separator (s ++ path) = [] ∨ ∃ path', path' <+: path ∧
    trimMask separator (s ++ path) = s ++ path' := by
  rcases trimMask_cases separator (s ++ path) with h | h | ⟨after, h⟩
  · exact Or.inl h
  · exact Or.inr ⟨path, List.prefix_rfl, h⟩
  · right
    rcases List.append_eq_append_iff.mp h with ⟨rest, htrim, hpath⟩ | ⟨rest, hbefore, hafter⟩
    · exact ⟨rest, ⟨_, hpath.symm⟩, htrim⟩
    · rcases rest with _ | ⟨c, rest⟩
      · exact ⟨[], List.nil_prefix, by rw [List.append_nil] at hbefore ⊢; exact hbefore.symm⟩
      · obtain ⟨rfl, -⟩ := List.cons.inj hafter
        exact absurd (by rw [hbefore]; simp) hs

theorem skipScheme_slash (s : CStr) : skipScheme (slash :: s) = slash :: s := by
  unfold skipScheme
  split
  · next a b c d e rest heq =>
    obtain ⟨rfl, -⟩ := List.cons.inj heq
    rw [if_neg]
    · exact heq.symm
    · intro h
      have hscheme : ascii "sftp:" = [115, 102, 116, 112, colon] := by decide +kernel
      rw [hscheme] at h
      exact absurd (List.cons.inj h).1 (by decide)
  · rfl

theorem parseHost_shown_port {p : CSftpProfile} (huser : at_ ∉ p.User.text)
    (hhost : at_ ∉ p.Host.text) (hcolon : colon ∉ p.Host.text)
    (hport : 0 ≤ p.Port ∧ p.Port < 2 ^ 31) :
    (parseHost p.shown).port.getD 0 = if p.Port = 22 then 0 else p.Port := by
  obtain ⟨n, hn⟩ : ∃ n : ℕ, p.Port = n := ⟨p.Port.toNat, by omega⟩
  have hprinted : portPart p.Port = if n ≠ 0 ∧ n ≠ 22 then colon :: decimal n else [] := by
    have hlen : (colon :: decimal n).length < 16 := by
      unfold decimal
      split_ifs
      · decide
      · have hdigits := (Nat.digits_length_le_iff (by norm_num : 1 < 10) (k := 10) n).mpr (by omega)
        simp only [List.length_cons, List.length_reverse, List.length_map]
        omega
    have hint : decimalInt p.Port = decimal n := by
      unfold decimalInt
      rw [if_neg (by omega), hn, Int.natAbs_natCast]
    unfold portPart
    rw [hint, lstrcpyn_eq_self hlen]
    exact if_congr (by omega) rfl rfl
  have hread : (cutAt colon (p.Host.text ++ portPart p.Port)).2 =
      if n ≠ 0 ∧ n ≠ 22 then some (decimal n) else none := by
    rw [hprinted]
    split_ifs
    · rw [cutAt_append hcolon]
    · rw [List.append_nil, cutAt_of_notMem hcolon]
  have hno : at_ ∉ p.Host.text ++ portPart p.Port := by
    rw [List.mem_append, not_or]
    exact ⟨hhost, fun hc => (portPart_plain hc).1 rfl⟩
  have hpart :
      (parseHost p.shown).port = ((cutAt colon (p.Host.text ++ portPart p.Port)).2).map atoi := by
    unfold parseHost CSftpProfile.shown
    by_cases hnil : p.User.text = []
    · rw [if_neg (by simp [hnil]), List.nil_append, cutAt_of_notMem hno]
    · rw [if_pos hnil, List.append_assoc, List.append_assoc,
        List.singleton_append, cutAt_append huser]
  rw [hpart, hread]
  split_ifs with hshown h22 h22
  · omega
  · rw [Option.map_some, Option.getD_some, atoi_decimal]
    omega
  · rfl
  · rw [Option.map_none, Option.getD_none]
    omega

/-- The mask can only be trimmed behind the server. -/
theorem copyTargetText_serverTarget {p : CSftpProfile} {path : CStr}
    (hplain : ∀ c ∈ p.shown, isSlash c = false)
    (hpath : ∀ c ∈ path.head?, isSlash c = true) :
    copyTargetText (serverTarget p path) = [] ∨ ∃ path', (∀ c ∈ path'.head?, isSlash c = true) ∧
      copyTargetText (serverTarget p path) =
        ascii "sftp:" ++ slash :: slash :: (p.shown.take 317 ++ path') := by
  have hlen : (ascii "sftp:" ++ slash :: slash :: p.shown.take 317).length ≤ 519 := by
    have hscheme : (ascii "sftp:").length = 5 := by decide +kernel
    simp only [List.length_append, List.length_cons, List.length_take, hscheme]
    omega
  have hbackslash : backslash ∉ ascii "sftp:" ++ slash :: slash :: p.shown.take 317 := by
    have hscheme : backslash ∉ ascii "sftp:" := by decide +kernel
    rw [List.mem_append, List.mem_cons, List.mem_cons, not_or, not_or, not_or]
    exact ⟨hscheme, by decide, by decide,
      fun h => absurd (hplain _ (List.mem_of_mem_take h)) (by decide)⟩
  have hcut : lstrcpyn (serverTarget p path) (2 * MAX_PATH) =
      (ascii "sftp:" ++ slash :: slash :: p.shown.take 317) ++
        path.take (519 - (ascii "sftp:" ++ slash :: slash :: p.shown.take 317).length) := by
    show List.take 519 ((ascii "sftp:" ++ slash :: slash :: p.shown.take 317) ++ path) = _
    rw [List.take_append, List.take_of_length_le hlen]
  unfold copyTargetText
  rw [hcut]
  refine (trimMask_append hbackslash _).imp_right ?_
  rintro ⟨path', hpath', htrim⟩
  refine ⟨path', ?_, by rw [htrim, List.append_assoc]; rfl⟩
  intro c hc
  rcases path' with _ | ⟨d, path'⟩
  · simp at hc
  · obtain ⟨rest, rfl⟩ := hpath'.trans (List.take_prefix _ path)
    exact hpath c hc

/-- For plain users and hosts the target is read as what it is printed for, so all depends on the
panel's server being the named one. -/
theorem goesToNamed_iff_of_plain {source target : CSftpProfile} {path : CStr} (h : target.Plain)
    (hcolon : colon ∉ target.Host.text) (hport : 0 ≤ target.Port ∧ target.Port < 2 ^ 31)
    (hpath : ∀ c ∈ path.head?, isSlash c = true) :
    GoesToNamed source target path ↔ source.server = target.server := by
  rw [goesToNamed_iff]
  constructor
  · exact fun h => h.1
  intro hserver
  refine ⟨hserver, ?_⟩
  have hnone : ∀ t : CopyTarget, t.host.text = [] → NamesNoOther source t := by
    intro t ht
    exact ⟨fun h => absurd ht h, fun h => absurd ht h, fun h => absurd ht h⟩
  have hplain : ∀ c ∈ target.shown, isSlash c = false := fun c hc => h.not_slash hc
  rcases copyTargetText_serverTarget hplain hpath with htext | ⟨path', hpath', htext⟩
  · rw [htext]
    exact hnone _ rfl
  have hskip : skipScheme (copyTargetText (serverTarget target path)) =
      slash :: slash :: (target.shown.take 317 ++ path') := by
    have hscheme : ascii "sftp:" = [115, 102, 116, 112, colon] := by decide +kernel
    rw [htext, hscheme]
    show skipScheme (115 :: 102 :: 116 :: 112 :: colon :: slash :: slash :: _) = _
    rw [skipScheme, if_pos (by decide +kernel), skipScheme_slash]
  have hsplit : splitHost (skipScheme (copyTargetText (serverTarget target path))) =
      some (target.shown.take 317, path') := by
    rw [hskip]
    exact splitHost_append (by decide) (by decide)
      (fun c hc => hplain c (List.mem_of_mem_take hc)) hpath'
  unfold parseTarget
  rw [hsplit]
  dsimp only
  by_cases hlen : target.shown.take 317 = [] ∨ 256 ≤ (target.shown.take 317).length
  · rw [if_pos hlen]
    exact hnone _ rfl
  have hwhole : target.shown.take 317 = target.shown := by
    rw [not_or, not_le, List.length_take] at hlen
    exact List.take_of_length_le (by omega)
  obtain ⟨hname, hhostname⟩ := parseHost_shown h.userAt h.hostAt
  have hself : target.Host.text.takeWhile (· != colon) = target.Host.text :=
    congrArg Prod.fst (cutAt_of_notMem hcolon)
  have hnum := parseHost_shown_port h.userAt h.hostAt hcolon hport
  obtain ⟨hsame, hsameport, hsameuser⟩ := Server.mk.inj hserver
  rw [if_neg hlen, hwhole]
  refine ⟨fun _ => ?_, fun _ hpos => ?_, fun _ _ _ => ?_⟩
  · show stricmpEq (parseHost target.shown).host.text source.Host.text
    rw [hhostname, hself]
    exact hsame.symm
  · dsimp only at hpos ⊢
    rw [hnum] at hpos ⊢
    split_ifs at hpos hsameport ⊢
    all_goals omega
  · show stricmpEq (parseHost target.shown).user.text source.User.text
    rw [hname, hsameuser]
    exact .refl _

/-- The uploads go to the named server, whatever else there is to find, when it is the panel's own
and the text names no other. The text printed for a plain profile never does. -/
theorem copy_goes_to_named_iff (source target : CSftpProfile) (path : CStr) :
    (GoesToNamed source target path ↔ source.server = target.server ∧
      NamesNoOther source
        (parseTarget (skipScheme (copyTargetText (serverTarget target path))))) ∧
    (target.Plain → colon ∉ target.Host.text → 0 ≤ target.Port ∧ target.Port < 2 ^ 31 →
      (∀ c ∈ path.head?, isSlash c = true) →
      (GoesToNamed source target path ↔ source.server = target.server)) :=
  ⟨goesToNamed_iff source target path, goesToNamed_iff_of_plain⟩

/-- The port of the panel's server is not looked at where the target's is 22. -/
theorem not_copy_goes_to_named :
    ¬ ∀ (source target : CSftpProfile) (path : CStr), target.Host.text ≠ [] →
    GoesToNamed source target path := by
  intro h
  have hserver := (h (.at (.copy 256 (ascii "h")) 2222) (.at (.copy 256 (ascii "h")) 22) [slash]
      (by decide +kernel)).same.mp
    (by decide +kernel)
  exact absurd (congrArg Server.port hserver) (by decide)

end SalamanderSftp
