import SalamanderSftp.Fs.CopyTarget
import SalamanderSftp.PathLaws

/-!
# What is normalized in place

`SftpNormalize` writes its result into the buffer it reads, with a slash in front. The callers copy
into `MAX_PATH` bytes first, which leaves no room for the slash when a text of 259 bytes has none
and nothing is dropped from it (`sftpNormalize_fits_iff`). Most callers start with a slash;
`SftpIsSamePath`, `SftpIsRoot`, `SftpJoin` and the two copy functions take what they are given
(`normalized_fits_iff`).
-/

namespace SalamanderSftp

open Components

/-- The longest text of a buffer, with no slash in front and nothing in it to drop. -/
def Overlong (s : CStr) : Prop :=
  (lstrcpyn s MAX_PATH).length = MAX_PATH - 1 ∧ Unreduced isSlash dot dotdot (lstrcpyn s MAX_PATH)

/-- The result and its terminator fit the buffer. -/
def FitsInPlace (s : CStr) : Prop := (sftpNormalize s).length + 1 ≤ MAX_PATH

theorem sftpNormalize_fits_iff (s : CStr) : FitsInPlace s ↔ ¬ Overlong s := by
  have hcut := length_lstrcpyn_le s MAX_PATH
  have hcost := cost_reduce_tokens_le dot dotdot isSlash (lstrcpyn s MAX_PATH)
  have hiff := cost_reduce_tokens_eq_iff dot dotdot isSlash (lstrcpyn s MAX_PATH)
  have hmax : MAX_PATH = 260 := rfl
  unfold FitsInPlace Overlong
  rw [sftpNormalize_eq, ← hiff]
  by_cases hnil : comps (lstrcpyn s MAX_PATH) = []
  · have hzero : cost (reduce dot dotdot (tokens isSlash (lstrcpyn s MAX_PATH))) = 0 := by
      have hcomps : reduce dot dotdot (tokens isSlash (lstrcpyn s MAX_PATH)) = [] := hnil
      rw [hcomps, cost_nil]
    rw [hnil, absolute_nil, List.length_singleton]
    omega
  · have hlen : (absolute slash (comps (lstrcpyn s MAX_PATH))).length =
        cost (reduce dot dotdot (tokens isSlash (lstrcpyn s MAX_PATH))) :=
          length_absolute slash hnil
    omega

theorem not_overlong_of_separated {s : CStr} (h : ∃ c ∈ s.head?, isSlash c = true) :
    ¬ Overlong s := by
  obtain ⟨c, hc, hsep⟩ := h
  refine fun hover => not_unreduced_of_separated ⟨c, ?_, hsep⟩ hover.2
  cases s with
  | nil => cases hc
  | cons d rest => exact hc

theorem fitsInPlace_of_slash {s : CStr} (h : s.head? = some slash) : FitsInPlace s :=
  (sftpNormalize_fits_iff s).mpr (not_overlong_of_separated ⟨slash, h, by decide⟩)

/-! ## The callers -/

/-- The callers of `SftpNormalize`, with what is passed to them. -/
inductive NormalizeCaller
  | isSamePath (a b : CStr)
  | isRoot (path : CStr)
  | join (base name : CStr)
  | changePath (world : SshWorld) (data : ConnectData) (fs : FsInstance) (userPart : CStr)
  | getFullFSPath (fs : FsInstance) (path : CStr)
  | createDir (fs : FsInstance) (newName : CStr)
  | copyOrMoveFromFS (targetPath : CStr)
  | copyOrMoveFromDiskToFS (targetPath : CStr)

/-- A path that starts with a slash, and another joined to the current one. -/
def joinedPath (fs : FsInstance) (path : CStr) : CStr :=
  if path.head? = some slash then lstrcpyn path MAX_PATH
  else lstrcpyn
    (sftpJoin (if fs.Path.text = [] then [slash] else fs.Path.text) path MAX_PATH) MAX_PATH

/-- The path of `ChangePath` before it is joined. -/
def givenPath (world : SshWorld) (data : ConnectData) (userPart : CStr) : CStr :=
  let path :=
    if userPart = [] ∧ data.UseConnectData then lstrcpyn data.UserPart MAX_PATH
    else lstrcpyn (sftpStripHost userPart) MAX_PATH
  if path = [] then (if world.homeDir = [] then [slash] else lstrcpyn world.homeDir MAX_PATH)
    else path

/-- The remote directory of `CopyOrMoveFromFS` before it is normalized. -/
def copyTargetDir (targetPath : CStr) : CStr :=
  let p := skipScheme (copyTargetText targetPath)
  let dir := match splitHost p with
    | none => p
    | some (_, rest) => if rest = [] then [slash] else rest
  (lstrcpyn dir MAX_PATH).map fun c => if c = backslash then slash else c

/-- That of `CopyOrMoveFromDiskToFS`. -/
def diskTargetDir (targetPath : CStr) : CStr :=
  trimMask slash ((lstrcpyn (sftpStripHost (behindColon targetPath)) MAX_PATH).map fun c =>
    if c = backslash then slash else c)

/-- The texts that a caller has in its buffers when it calls `SftpNormalize`. -/
def NormalizeCaller.buffers : NormalizeCaller → List CStr
  | isSamePath a b => [lstrcpyn a MAX_PATH, lstrcpyn b MAX_PATH]
  | isRoot path => [lstrcpyn path MAX_PATH]
  | join base name => [lstrcpyn (joinBase base ++ slash :: name) MAX_PATH]
  | changePath world data fs userPart => [joinedPath fs (givenPath world data userPart)]
  | getFullFSPath fs path => [joinedPath fs (sftpStripHost path)]
  | createDir fs newName => [joinedPath fs newName]
  | copyOrMoveFromFS targetPath => [copyTargetDir targetPath]
  | copyOrMoveFromDiskToFS targetPath => [diskTargetDir targetPath]

/-- What the functions of the model have when `SftpNormalize` has returned. -/
def NormalizeCaller.results : NormalizeCaller → List CStr
  | isSamePath a b => [sftpNormalize (lstrcpyn a MAX_PATH), sftpNormalize (lstrcpyn b MAX_PATH)]
  | isRoot path => [sftpNormalize (lstrcpyn path MAX_PATH)]
  | join base name => [sftpJoin base name MAX_PATH]
  | changePath world data fs userPart => [inputPath world data fs userPart]
  | getFullFSPath fs path => [sftpNormalize (joinedPath fs (sftpStripHost path))]
  | createDir fs newName => [sftpNormalize (joinedPath fs newName)]
  | copyOrMoveFromFS targetPath => [(parseTarget (skipScheme (copyTargetText targetPath))).dir]
  | copyOrMoveFromDiskToFS targetPath => [targetDir targetPath]

theorem lstrcpyn_of_head {s : CStr} (h : s.head? = some slash) :
    (lstrcpyn s MAX_PATH).head? = some slash := by
  cases s with
  | nil => cases h
  | cons c rest => exact h

theorem length_givenPath_lt (world : SshWorld) (data : ConnectData) (userPart : CStr) :
    (givenPath world data userPart).length < MAX_PATH := by
  have hcut : ∀ s, (lstrcpyn s MAX_PATH).length < MAX_PATH :=
    fun s => (length_lstrcpyn_le s MAX_PATH).trans_lt (by decide)
  unfold givenPath
  dsimp only
  split_ifs
  · decide
  · exact hcut _
  · exact hcut _
  · decide
  · exact hcut _
  · exact hcut _

theorem inputPath_eq (world : SshWorld) (data : ConnectData) (fs : FsInstance) (userPart : CStr) :
    inputPath world data fs userPart =
      sftpNormalize (joinedPath fs (givenPath world data userPart)) := by
  have hshort := length_givenPath_lt world data userPart
  unfold joinedPath
  rw [lstrcpyn_eq_self hshort]
  rfl

theorem parseTarget_dir (targetPath : CStr) :
    (parseTarget (skipScheme (copyTargetText targetPath))).dir =
      sftpNormalize (copyTargetDir targetPath) := by
  unfold parseTarget copyTargetDir
  dsimp only
  rcases splitHost (skipScheme (copyTargetText targetPath)) with _ | ⟨buf, rest⟩
  · rfl
  · dsimp only
    split_ifs <;> rfl

theorem NormalizeCaller.results_eq (caller : NormalizeCaller) :
    caller.results = caller.buffers.map sftpNormalize := by
  cases caller with
  | changePath world data fs userPart =>
    exact congrArg (fun s => [s]) (inputPath_eq world data fs userPart)
  | copyOrMoveFromFS targetPath => exact congrArg (fun s => [s]) (parseTarget_dir targetPath)
  | isSamePath => rfl
  | isRoot => rfl
  | join => rfl
  | getFullFSPath => rfl
  | createDir => rfl
  | copyOrMoveFromDiskToFS => rfl

/-- What is passed leaves room for the slash. -/
def NormalizeCaller.LeavesRoom : NormalizeCaller → Prop
  | isSamePath a b => ¬ Overlong a ∧ ¬ Overlong b
  | isRoot path => ¬ Overlong path
  | join base name => ¬ Overlong (joinBase base ++ slash :: name)
  | changePath .. => True
  | getFullFSPath .. => True
  | createDir .. => True
  | copyOrMoveFromFS targetPath =>
    splitHost (skipScheme (copyTargetText targetPath)) = none →
      ¬ Overlong (copyTargetDir targetPath)
  | copyOrMoveFromDiskToFS targetPath => ¬ Overlong (diskTargetDir targetPath)

theorem head_sftpNormalize (s : CStr) : (sftpNormalize s).head? = some slash := by
  rw [sftpNormalize_eq]
  rfl

theorem fitsInPlace_joinedPath (fs : FsInstance) (path : CStr) :
    FitsInPlace (joinedPath fs path) := by
  refine fitsInPlace_of_slash ?_
  unfold joinedPath
  split_ifs with hslash
  · exact lstrcpyn_of_head hslash
  · exact lstrcpyn_of_head (head_sftpNormalize _)
  · exact lstrcpyn_of_head (head_sftpNormalize _)

theorem overlong_lstrcpyn_iff (s : CStr) : Overlong (lstrcpyn s MAX_PATH) ↔ Overlong s := by
  unfold Overlong
  rw [lstrcpyn_lstrcpyn]

/-- Behind a host there is a slash, or nothing. -/
theorem separated_of_splitHost {p buf rest : CStr}
    (h : splitHost p = some (buf, rest)) (hne : rest ≠ []) :
    ∃ c ∈ rest.head?, isSlash c = true := by
  rcases p with _ | ⟨c, _ | ⟨d, p⟩⟩
  · cases h
  · cases h
  · unfold splitHost at h
    dsimp only at h
    split_ifs at h
    obtain ⟨-, rfl⟩ := Prod.mk.inj (Option.some.inj h)
    have hhead := List.head_dropWhile_not (p := (!isSlash ·)) (l := p) hne
    exact ⟨_, List.head_mem_head? hne, by simpa using hhead⟩

theorem fitsInPlace_copyTargetDir {targetPath buf rest : CStr}
    (h : splitHost (skipScheme (copyTargetText targetPath)) = some (buf, rest)) :
    FitsInPlace (copyTargetDir targetPath) := by
  refine fitsInPlace_of_slash ?_
  unfold copyTargetDir
  dsimp only
  rw [h]
  dsimp only
  split_ifs with hnil
  · rfl
  · obtain ⟨c, hc, hsep⟩ := separated_of_splitHost h hnil
    obtain ⟨tail, rfl⟩ : ∃ tail, rest = c :: tail := by
      cases rest with
      | nil => exact absurd rfl hnil
      | cons d tail => exact ⟨tail, by rw [Option.some.inj hc]⟩
    have hcut : lstrcpyn (c :: tail) MAX_PATH = c :: tail.take 258 := rfl
    rw [hcut, List.map_cons, List.head?_cons]
    unfold isSlash at hsep
    rw [Bool.or_eq_true, beq_iff_eq, beq_iff_eq] at hsep
    rcases hsep with rfl | rfl <;> rfl

/-- Everything that is normalized in place fits its buffer exactly if what is passed leaves room for
the slash; where a path is joined to the current one, or behind a host, it always does. -/
theorem normalized_fits_iff (caller : NormalizeCaller) :
    caller.results = caller.buffers.map sftpNormalize ∧
      ((∀ s ∈ caller.buffers, (sftpNormalize s).length + 1 ≤ MAX_PATH) ↔ caller.LeavesRoom) := by
  refine ⟨caller.results_eq, ?_⟩
  have hfits : ∀ s, (sftpNormalize s).length + 1 ≤ MAX_PATH ↔ ¬ Overlong s := sftpNormalize_fits_iff
  cases caller with
  | isSamePath a b =>
    simp [NormalizeCaller.buffers, NormalizeCaller.LeavesRoom, hfits, overlong_lstrcpyn_iff]
  | isRoot path =>
    simp [NormalizeCaller.buffers, NormalizeCaller.LeavesRoom, hfits, overlong_lstrcpyn_iff]
  | join base name =>
    simp [NormalizeCaller.buffers, NormalizeCaller.LeavesRoom, hfits, overlong_lstrcpyn_iff]
  | changePath world data fs userPart =>
    refine iff_of_true (fun s hs => ?_) trivial
    rw [List.mem_singleton.mp hs]
    exact fitsInPlace_joinedPath _ _
  | getFullFSPath fs path =>
    refine iff_of_true (fun s hs => ?_) trivial
    rw [List.mem_singleton.mp hs]
    exact fitsInPlace_joinedPath _ _
  | createDir fs newName =>
    refine iff_of_true (fun s hs => ?_) trivial
    rw [List.mem_singleton.mp hs]
    exact fitsInPlace_joinedPath _ _
  | copyOrMoveFromFS targetPath =>
    simp only [NormalizeCaller.buffers, NormalizeCaller.LeavesRoom,
      List.mem_singleton, forall_eq, hfits]
    refine ⟨fun h _ => h, fun h => ?_⟩
    rcases hsplit : splitHost (skipScheme (copyTargetText targetPath)) with _ | ⟨buf, rest⟩
    · exact h hsplit
    · exact (sftpNormalize_fits_iff _).mp (fitsInPlace_copyTargetDir hsplit)
  | copyOrMoveFromDiskToFS targetPath =>
    simp only [NormalizeCaller.buffers, NormalizeCaller.LeavesRoom,
      List.mem_singleton, forall_eq, hfits]

/-- A target of 259 letters behind the scheme gets a slash too many. -/
theorem not_normalized_fits : ¬ ∀ caller : NormalizeCaller, ∀ s ∈ caller.buffers,
      (sftpNormalize s).length + 1 ≤ MAX_PATH := by
  intro h
  have hfits :=
    h (.copyOrMoveFromFS (ascii "sftp:" ++ List.replicate 259 97)) _ (List.mem_singleton_self _)
  exact absurd hfits (by decide +kernel)

end SalamanderSftp
