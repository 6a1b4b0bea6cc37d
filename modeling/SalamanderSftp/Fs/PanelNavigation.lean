import SalamanderSftp.Connection.Execute
import SalamanderSftp.Connection.Listing
import SalamanderSftp.Fs.SearchDirectory
import SalamanderSftp.Fs.ViewerCache
import SalamanderSftp.Lib.Machine

/-!
# Moving about in a panel

The panel shows what `ListCurrentPath` lists, and Enter on a directory or on ".." calls
`ChangePath`. A path that cannot be listed is left by the next `ChangePath`.

1. Whatever was done in a panel, its path is in normal form (`panel_path_normal`).
2. Who enters directories and leaves them again is back, with the cursor on each directory that was
   left (`enter_and_return`).
3. When one listing after the other fails, each `ChangePath` goes further up, until there is no way
   up (`retreats_end`).
4. A panel is refreshed for every change at its path, and for those above that reach down to it
   (`changes_noticed`).
-/

open Machine

namespace SalamanderSftp

open Components

/-! ## The listing -/

/-- The data of a `CFileData` and of its `CFSData`. -/
structure PanelFile where
  Name : CStr
  Ext : CStr
  Size : ℕ
  isDir : Bool
  LastWrite : ℕ
  Hidden : Bool
  IsLink : Bool
  Rights : CStr
  Owner : CStr
  Group : CStr

/-- The permissions as letters. -/
def rightsText (e : CSftpEntry) : CStr :=
  (if e.IsLink then 108 else if e.IsDir then 100 else 45) ::
    (List.range 9).map fun k =>
      if e.Permissions.testBit (8 - k) then (ascii "rwxrwxrwx").getD k 45 else 45

/-- What follows the last dot of the name. -/
def extension (sortByExtDirsAsFiles : Bool) (e : CSftpEntry) : CStr :=
  if !sortByExtDirsAsFiles &&
    e.IsDir then [] else ((splitLast (· == 46) e.Name).map Prod.snd).getD []

def panelFile (sortByExtDirsAsFiles : Bool) (e : CSftpEntry) : PanelFile where
  Name := e.Name
  Ext := extension sortByExtDirsAsFiles e
  Size := e.Size
  isDir := e.IsDir
  LastWrite := (e.MTime * 10000000 + 116444736000000000) % 2 ^ 64
  Hidden := e.Name.head? = some 46
  IsLink := e.IsLink
  Rights := rightsText e
  Owner := e.Owner
  Group := e.Group

def upDir : PanelFile := ⟨dotdot, [], 0, true, 0, false, false, [], [], []⟩

/-- What the panel shows of these entries. -/
def panelFiles (sortByExtDirsAsFiles : Bool) (path : CStr) (entries : List CSftpEntry) :
    List PanelFile :=
  (if sftpIsRoot path then [] else [upDir]) ++ entries.map (panelFile sortByExtDirsAsFiles)

/-- What `ListCurrentPath` meets. -/
structure ListWorld where
  ssh : SshWorld
  /-- `IsConnected`, after a listing has failed. -/
  stillConnected : Bool
  listDir : ℕ → CStr → Option (List CSftpEntry)
  sortByExtDirsAsFiles : Bool

/-- `ListCurrentPath`, which tries a second time; the files are `none` when it fails. -/
def listCurrentPath (world : ListWorld) (fs : FsInstance) : FsInstance × Option (List PanelFile) :=
  let path := if fs.Path.text = [] then [slash] else fs.Path.text
  let (ok, connected, _) := sftpEnsureConnected world.ssh fs.connected fs.Profile
  if !ok then ({ fs with connected := connected, PathError := true }, none)
  else
    match world.listDir 0 path with
    | some entries =>
      ({ fs with connected := connected },
        some (panelFiles world.sortByExtDirsAsFiles fs.Path.text entries))
    | none =>
      let (ok, connected, _) := sftpEnsureConnected world.ssh world.stillConnected fs.Profile
      match if ok then world.listDir 1 path else none with
      | some entries =>
        ({ fs with connected := connected },
          some (panelFiles world.sortByExtDirsAsFiles fs.Path.text entries))
      | none => ({ fs with connected := connected, PathError := true }, none)

/-! ## Enter on a directory -/

/-- `isDir` of `ExecuteOnFS`, 2 and 1. -/
inductive PanelDir
  | up
  | sub (name : CStr)

/-- The path that `ExecuteOnFS` goes to, and the name that gets the cursor there. -/
def executeOnDir (path : CStr) : PanelDir → CStr × Option CStr
  | .up =>
    let currentPath := sftpNormalize (lstrcpyn path MAX_PATH)
    let currentPath :=
      if 1 < currentPath.length ∧
        currentPath.getLast? = some slash then currentPath.dropLast else currentPath
    let focusName :=
      ((splitLast (· == slash) currentPath).map fun split => lstrcpyn split.2 MAX_PATH).getD []
    (sftpParent path MAX_PATH, if focusName = [] then none else some focusName)
  | .sub name => (sftpJoin path name MAX_PATH, none)

/-- `ExecuteOnFS` on a directory: the `ChangePath` it asks for, and the name that gets the
cursor. -/
def executeOnFS (world : SshWorld) (data : ConnectData)
    (saved : List CSftpSavedProfile) (fs : FsInstance)
    (dir : PanelDir) : ChangePathResult × Option CStr :=
  let (newPath, focusName) := executeOnDir fs.Path.text dir
  (changePath world data saved fs newPath, focusName)

/-- One directory after the other is opened, and the names that got the cursor; `none` when one
fails. -/
def openAll (data : ConnectData) (saved : List CSftpSavedProfile) :
    List (SshWorld × PanelDir) → FsInstance → Option (FsInstance × List (Option CStr))
  | [], fs => some (fs, [])
  | (world, dir) :: rest, fs =>
    let (r, focusName) := executeOnFS world data saved fs dir
    if r.ok then (openAll data saved rest r.fs).map fun (fs, names) =>
      (fs, focusName :: names) else none

/-- `ListCurrentPath`, and `ChangePath` on the same path when it fails; `none` when there is nowhere
to go. -/
def retreat (data : ConnectData) (saved : List CSftpSavedProfile)
    (lists : ListWorld) (world : SshWorld)
    (fs : FsInstance) : Option FsInstance :=
  match listCurrentPath lists fs with
  | (_, some _) => none
  | (fs, none) =>
    let r := changePath world data saved fs fs.Path.text
    if r.ok then some r.fs else none

def retreats (data : ConnectData) (saved : List CSftpSavedProfile) :
    List (ListWorld × SshWorld) → FsInstance → Option FsInstance
  | [], fs => some fs
  | (lists, world) :: rest, fs =>
    (retreat data saved lists world fs).bind (retreats data saved rest)

/-! ## Paths in normal form -/

section Paths

variable {cs ds : List CStr} {world : SshWorld} {data : ConnectData}
  {saved : List CSftpSavedProfile} {fs : FsInstance}
  {path : CStr}

/-- The text of a directory begins that of everything below. -/
theorem absolute_mono (h : ds <+: cs) : absolute slash ds <+: absolute slash cs := by
  obtain ⟨rest, rfl⟩ := h
  induction rest using List.reverseRecOn with
  | nil =>
    rw [List.append_nil]
  | append_singleton rest t ih =>
    rw [← List.append_assoc]
    refine ih.trans ?_
    rcases eq_or_ne (ds ++ rest) [] with hnil | hne
    · rw [hnil, absolute_nil, List.nil_append, absolute_singleton]
      exact ⟨t, rfl⟩
    · rw [absolute_concat slash hne]
      exact List.prefix_append _ _

theorem length_lt_of_above (h : ds <+: cs) (hfits : (absolute slash cs).length < MAX_PATH) :
    (absolute slash ds).length < MAX_PATH :=
  (absolute_mono h).length_le.trans_lt hfits

theorem splitHost_absolute (h : PlainParts cs) : splitHost (absolute slash cs) = none := by
  cases cs with
  | nil => rfl
  | cons t ts =>
    obtain ⟨hne, hclean⟩ := h.whole t List.mem_cons_self
    obtain ⟨c, rest, rfl⟩ := List.exists_cons_of_ne_nil hne
    have hc : isSlash c = false := hclean c List.mem_cons_self
    obtain ⟨more, hmore⟩ : ∃ more, absolute slash ((c :: rest) :: ts) = slash :: c :: more := by
      cases ts with
      | nil => exact ⟨rest, absolute_singleton slash _⟩
      | cons u us =>
        exact ⟨rest ++ slash :: [slash].intercalate (u :: us), by simp [absolute, List.intercalate]⟩
    rw [hmore, splitHost, hc, Bool.and_false]
    rfl

theorem sftpStripHost_of_splitHost (h : splitHost path = none) : sftpStripHost path = path := by
  unfold sftpStripHost
  rw [h]

theorem sftpStripHost_absolute (h : PlainParts cs) :
    sftpStripHost (absolute slash cs) = absolute slash cs :=
  sftpStripHost_of_splitHost (splitHost_absolute h)

theorem takeServer_absolute (hdata : data.UseConnectData = false) (h : PlainParts cs) :
    takeServer data saved fs (absolute slash cs) = (fs.Profile, false) := by
  unfold takeServer sftpParseHostInto
  rw [hdata, splitHost_absolute h]
  rfl

theorem inputPath_canonical (world : SshWorld) (data : ConnectData)
    (fs : FsInstance) (userPart : CStr) :
    sftpNormalize (inputPath world data fs userPart) = inputPath world data fs userPart := by
  unfold inputPath
  extract_lets given path joined
  have hpath : path.length < MAX_PATH := by
    unfold path given
    split_ifs <;> first | exact (length_lstrcpyn_le _ _).trans_lt (by decide) | decide
  have hjoined : joined.length < MAX_PATH ∧ joined.head? = some slash := by
    unfold joined
    by_cases hhead : path.head? = some slash
    · rw [if_pos hhead]
      exact ⟨hpath, hhead⟩
    · rw [if_neg hhead]
      refine ⟨(length_lstrcpyn_le _ _).trans_lt (by decide), ?_⟩
      unfold sftpJoin
      rw [sftpNormalize_eq]
      rfl
  exact sftpNormalize_idempotent ⟨joined, hjoined.1, slash, hjoined.2, by decide⟩

theorem inputPath_absolute (hdata : data.UseConnectData = false) (h : PlainParts cs)
    (hfits : (absolute slash cs).length < MAX_PATH) :
    inputPath world data fs (absolute slash cs) = absolute slash cs := by
  have hne : absolute slash cs ≠ [] := by simp [absolute]
  have hhead : (absolute slash cs).head? = some slash := rfl
  unfold inputPath
  simp only [hdata, Bool.false_eq_true, and_false, if_false,
    sftpStripHost_absolute h, lstrcpyn_eq_self hfits,
    if_neg hne, if_pos hhead, sftpNormalize_absolute h hfits]

/-- The search ends at a path above the one it began with. -/
theorem searchPath_above {fuel : ℕ} :
    ∀ {cs : List CStr} {n : ℕ} {info info' : CutInfo} {found : CStr}, PlainParts cs →
    (absolute slash cs).length < MAX_PATH →
    searchPath world fuel n (absolute slash cs) info = (some found, info') →
    ∃ ds, ds <+: cs ∧ found = absolute slash ds := by
  induction fuel with
  | zero =>
    intro cs n info info' found _ _ hsearch
    cases hsearch
  | succ fuel ih =>
    intro cs n info info' found h hfits hsearch
    rw [searchPath] at hsearch
    split_ifs at hsearch with htype
    · cases hsearch
      exact ⟨cs, List.prefix_rfl, rfl⟩
    · rcases List.eq_nil_or_concat cs with rfl | ⟨front, name, rfl⟩
      · exact absurd (if_pos rfl) htype
      · rw [List.concat_eq_append] at h hfits hsearch ⊢
        rw [nextTried_absolute h hfits] at hsearch
        by_cases hnil : front = []
        · rw [if_pos hnil] at hsearch
          cases hsearch
        · rw [if_neg hnil] at hsearch
          have hshort := length_lt_of_above (List.prefix_append front [name]) hfits
          obtain ⟨ds, hds, hfound⟩ := ih (h.mono (List.subset_append_left _ _)) hshort hsearch
          exact ⟨ds, hds.trans (List.prefix_append _ _), hfound⟩

theorem sftpParent_dropLast (h : PlainParts cs) (hfits : (absolute slash cs).length < MAX_PATH) :
    sftpParent (absolute slash cs) MAX_PATH = absolute slash cs.dropLast := by
  rcases List.eq_nil_or_concat cs with rfl | ⟨front, name, rfl⟩
  · decide
  · rw [List.concat_eq_append] at h hfits ⊢
    have hname : slash ∉ name :=
      fun hmem => absurd ((h.whole name (by simp)).2 slash hmem) (by decide)
    rw [(sftpParent_absolute hname hfits).2, List.dropLast_concat]

/-- The path that `startPath` gives is above the one it was given. -/
theorem startPath_above {pathError : Bool} {start : CStr} (h : PlainParts cs)
    (hfits : (absolute slash cs).length < MAX_PATH)
    (hstart : startPath pathError (absolute slash cs) = some start) :
    ∃ ds, ds <+: cs ∧ start = absolute slash ds ∧
    (pathError = true → ds = cs.dropLast ∧ cs ≠ []) := by
  unfold startPath at hstart
  cases pathError with
  | false =>
    cases hstart
    exact ⟨cs, List.prefix_rfl, rfl, fun hon => absurd hon Bool.false_ne_true⟩
  | true =>
    rw [if_pos rfl, sftpParent_dropLast h hfits] at hstart
    dsimp only at hstart
    split_ifs at hstart with hend
    rw [Bool.or_eq_true, not_or] at hend
    have hne : cs ≠ [] := fun hnil => hend.2 ((sftpIsRoot_absolute h hfits).mpr hnil)
    rw [lstrcpyn_eq_self (length_lt_of_above (List.dropLast_prefix cs) hfits)] at hstart
    cases hstart
    exact ⟨cs.dropLast, List.dropLast_prefix cs, rfl, fun _ => ⟨rfl, hne⟩⟩

theorem changePath_found {userPart : CStr}
    (hok : (changePath world data saved fs userPart).ok = true) :
    ∃ start found info, startPath fs.PathError (inputPath world data fs userPart) = some start ∧
      searchPath world (start.length + 1) 0 start ⟨fs.PathError, [], false⟩ = (some found, info) ∧
        (changePath world data saved fs userPart).fs.Path = .copy 260 found ∧
          (changePath world data saved fs userPart).fs.PathError = false := by
  unfold changePath at hok ⊢
  by_cases hfatal : fs.FatalError = true
  · rw [if_pos hfatal] at hok
    cases hok
  rw [if_neg hfatal] at hok ⊢
  dsimp only at hok ⊢
  split_ifs at hok ⊢
  have hinput : inputPath world data { fs with
      Profile := (takeServer data saved fs userPart).1
      connected :=
        (sftpEnsureConnected world (fs.connected && !(takeServer data saved fs userPart).2)
        (takeServer data saved fs userPart).1).2.1 } userPart =
          inputPath world data fs userPart := rfl
  rw [hinput] at hok ⊢
  rcases hstart : startPath fs.PathError (inputPath world data fs userPart) with _ | start
  · rw [hstart] at hok
    cases hok
  rw [hstart] at hok
  dsimp only at hok ⊢
  rcases hsearch :
      searchPath world (start.length + 1) 0 start ⟨fs.PathError, [], false⟩ with ⟨_ | found, info⟩
  · rw [hsearch] at hok
    cases hok
  · exact ⟨start, found, info, rfl, hsearch, rfl, rfl⟩

/-- The path of `ChangePath` lies above the one it was given, and further up after an error. -/
theorem changePath_above {userPart : CStr}
    (hok : (changePath world data saved fs userPart).ok = true) :
    ∃ cs ds, PlainParts cs ∧ (absolute slash cs).length < MAX_PATH ∧
      inputPath world data fs userPart = absolute slash cs ∧ ds <+: cs ∧
        (changePath world data saved fs userPart).fs.Path.text = absolute slash ds ∧
          (fs.PathError = true → ds <+: cs.dropLast ∧ cs ≠ []) := by
  obtain ⟨start, found, info, hstart, hsearch, hpath, -⟩ := changePath_found hok
  obtain ⟨cs, hcs, hinput, hfits⟩ :=
    exists_parts_of_canonical (inputPath_canonical world data fs userPart)
  rw [hinput] at hstart hfits
  obtain ⟨above, habove, rfl, herror⟩ := startPath_above hcs hfits hstart
  obtain ⟨ds, hds, rfl⟩ :=
    searchPath_above (hcs.mono habove.subset) (length_lt_of_above habove hfits) hsearch
  refine ⟨cs, ds, hcs, hfits, hinput, hds.trans habove, ?_, fun hpathError => ?_⟩
  · rw [hpath, CharBuf.copy_text]
    exact lstrcpyn_eq_self (length_lt_of_above (hds.trans habove) hfits)
  · obtain ⟨rfl, hne⟩ := herror hpathError
    exact ⟨hds, hne⟩

theorem changePath_directory (hfatal : fs.FatalError = false) (herror : fs.PathError = false)
    (hdata : data.UseConnectData = false)
    (hconn : (sftpEnsureConnected world fs.connected fs.Profile).1 = true)
    (h : PlainParts cs) (hfits : (absolute slash cs).length < MAX_PATH)
    (hdir : world.typeOf 0 (absolute slash cs) = 2) :
    (changePath world data saved fs (absolute slash cs)).ok = true ∧
      (changePath world data saved fs (absolute slash cs)).fs =
        { fs with connected := true, Path := .copy 260 (absolute slash cs) } := by
  obtain ⟨p, connected, path, pathError, fatalError⟩ := fs
  dsimp only at hfatal herror hconn
  subst hfatal herror
  have htake :
      takeServer data saved ⟨p, connected, path, false, false⟩ (absolute slash cs) = (p, false) :=
    takeServer_absolute hdata h
  have hconnected : (sftpEnsureConnected world connected p).2.1 = true := by
    unfold sftpEnsureConnected at hconn ⊢
    split_ifs at hconn ⊢
    · rfl
    · exact hconn
  have hinput : ∀ b, inputPath world data ⟨p, b, path, false, false⟩ (absolute slash cs) =
      absolute slash cs := fun _ =>
    inputPath_absolute hdata h hfits
  unfold changePath
  rw [htake, if_neg Bool.false_ne_true]
  dsimp only
  rw [Bool.not_false, Bool.and_true, hconn, hconnected, Bool.not_true,
    if_neg Bool.false_ne_true, hinput]
  have hstart : startPath false (absolute slash cs) = some (absolute slash cs) := rfl
  rw [hstart]
  dsimp only
  rw [searchPath, hdir, if_pos rfl]
  exact ⟨rfl, rfl⟩

end Paths

/-! ## There and back -/

/-- The paths on the way to a directory below. -/
def wayDown (dir : CStr) : List CStr → List CStr
  | [] => [dir]
  | name :: names => dir :: wayDown (childPath dir name) names

/-- The server can be reached, and these are directories on it. -/
structure SshWorld.Shows (world : SshWorld) (fs : FsInstance) (paths : List CStr) : Prop where
  connects : (sftpEnsureConnected world fs.connected fs.Profile).1 = true
  directories : ∀ path ∈ paths, world.typeOf 0 path = 2

/-- A directory that is entered and left. -/
structure DirVisit where
  name : CStr
  entering : SshWorld
  leaving : SshWorld

/-- All of them are entered, and then left. -/
def thereAndBack (visits : List DirVisit) : List (SshWorld × PanelDir) :=
  visits.map (fun v => (v.entering, .sub v.name)) ++ visits.reverse.map fun v => (v.leaving, .up)

section Return

variable {cs : List CStr} {name : CStr} {world : SshWorld} {data : ConnectData}
  {saved : List CSftpSavedProfile}
  {fs : FsInstance}

theorem executeOnDir_sub (h : PlainParts (cs ++ [name]))
    (hfits : (absolute slash (cs ++ [name])).length < MAX_PATH) :
    executeOnDir (absolute slash cs) (.sub name) = (absolute slash (cs ++ [name]), none) := by
  rw [executeOnDir, sftpJoin_absolute h hfits]

/-- On the way up the cursor is put on the directory that is left. -/
theorem executeOnDir_up (h : PlainParts (cs ++ [name]))
    (hfits : (absolute slash (cs ++ [name])).length < MAX_PATH) :
    executeOnDir (absolute slash (cs ++ [name])) .up = (absolute slash cs, some name) := by
  obtain ⟨hne, hclean⟩ := h.whole name (by simp)
  have hslash : slash ∉ name := fun hmem => absurd (hclean slash hmem) (by decide)
  obtain ⟨hsplit, hparent⟩ := sftpParent_absolute hslash hfits
  obtain ⟨before, hbefore⟩ : ∃ before, absolute slash (cs ++ [name]) = before ++ name := by
    by_cases hnil : cs = []
    · exact ⟨[slash], by rw [hnil, List.nil_append, absolute_singleton, List.singleton_append]⟩
    · exact ⟨absolute slash cs ++ [slash],
        by rw [absolute_concat slash hnil, List.append_assoc, List.singleton_append]⟩
  have hlast : ¬ (1 < (absolute slash (cs ++ [name])).length ∧
      (absolute slash (cs ++ [name])).getLast? = some slash) := by
    rintro ⟨-, hend⟩
    rw [hbefore, List.getLast?_append_of_ne_nil _ hne] at hend
    exact hslash (List.mem_of_getLast? hend)
  have hname : name.length < MAX_PATH := by
    rw [hbefore, List.length_append] at hfits
    omega
  unfold executeOnDir
  dsimp only
  rw [lstrcpyn_eq_self hfits, sftpNormalize_absolute h hfits, if_neg hlast,
    hsplit, hparent, Option.map_some,
    Option.getD_some, lstrcpyn_eq_self hname, if_neg hne]

theorem executeOnFS_directory {dir : PanelDir} {focusName : Option CStr} {paths : List CStr}
    (hfatal : fs.FatalError = false) (herror : fs.PathError = false)
    (hdata : data.UseConnectData = false)
    (hshows : world.Shows fs paths) (hmem : absolute slash cs ∈ paths) (h : PlainParts cs)
    (hfits : (absolute slash cs).length < MAX_PATH)
    (hdir : executeOnDir fs.Path.text dir = (absolute slash cs, focusName))
    (rest : List (SshWorld × PanelDir)) :
    openAll data saved ((world, dir) :: rest) fs =
      (openAll data saved rest
        { fs with connected := true, Path := .copy 260 (absolute slash cs) }).map
        fun (fs, names) => (fs, focusName :: names) := by
  have hdirectory := hshows.directories _ hmem
  obtain ⟨hok, hfs⟩ :=
    @changePath_directory cs world data saved fs hfatal herror hdata
      hshows.connects h hfits hdirectory
  rw [openAll, executeOnFS, hdir]
  dsimp only
  rw [if_pos hok, hfs]

theorem openAll_append (as bs : List (SshWorld × PanelDir)) (fs : FsInstance) :
    openAll data saved (as ++ bs) fs = (openAll data saved as fs).bind fun (fs, names) =>
      (openAll data saved bs fs).map fun (fs, more) => (fs, names ++ more) := by
  induction as generalizing fs with
  | nil => simp [openAll]
  | cons a as ih =>
    obtain ⟨world, dir⟩ := a
    rw [List.cons_append, openAll, openAll]
    dsimp only
    split_ifs
    · rw [ih]
      cases openAll data saved as (executeOnFS world data saved fs dir).1.fs with
      | none => rfl
      | some r => simp [Function.comp_def]
    · rfl

theorem mem_wayDown (dir : CStr) (names : List CStr) : dir ∈ wayDown dir names := by
  cases names <;> exact List.mem_cons_self

theorem thereAndBack_cons (v : DirVisit) (visits : List DirVisit) : thereAndBack (v :: visits) =
    (v.entering, .sub v.name) :: (thereAndBack visits ++ [(v.leaving, .up)]) := by
  simp [thereAndBack]

theorem SshWorld.Shows.mono {world : SshWorld} {fs fs' : FsInstance} {paths paths' : List CStr}
    (h : world.Shows fs paths) (hconn : fs'.connected = true) (hsub : paths' ⊆ paths) :
    world.Shows fs' paths' where
  connects := sftpEnsureConnected_ok.mpr (.inl hconn)
  directories path hpath := h.directories path (hsub hpath)

/-- By induction on the directories: the last one that is entered is the first one that is left. -/
theorem openAll_thereAndBack (hdata : data.UseConnectData = false) (visits : List DirVisit) :
    ∀ {fs : FsInstance} {cs : List CStr}, fs.FatalError = false →
    fs.PathError = false → PlainParts cs →
      fs.Path.text = absolute slash cs → (∀ v ∈ visits, EntryName v.name ∧ backslash ∉ v.name) →
        (∀ path ∈ wayDown (absolute slash cs) (visits.map DirVisit.name), path.length < MAX_PATH) →
          (∀ v ∈ visits,
            v.entering.Shows fs (wayDown (absolute slash cs) (visits.map DirVisit.name)) ∧
            v.leaving.Shows fs (wayDown (absolute slash cs) (visits.map DirVisit.name))) →
              ∃ b : Bool, (fs.connected = true → b = true) ∧
              openAll data saved (thereAndBack visits) fs =
                some ({ fs with connected := b },
                  visits.map (fun _ => none) ++ visits.reverse.map fun v => some v.name) := by
  induction visits with
  | nil =>
    intro fs cs _ _ _ _ _ _ _
    exact ⟨fs.connected, id, rfl⟩
  | cons v visits ih =>
    intro fs cs hfatal herror hcs hpath hnames hfits hshows
    obtain ⟨hentry, hbackslash⟩ := hnames v List.mem_cons_self
    have hplain : PlainParts (cs ++ [v.name]) := hcs.append (hentry.plainParts hbackslash)
    have hchild : childPath (absolute slash cs) v.name = absolute slash (cs ++ [v.name]) :=
      childPath_absolute hcs _
    have hway : wayDown (absolute slash cs) ((v :: visits).map DirVisit.name) =
        absolute slash cs :: wayDown (absolute slash (cs ++ [v.name]))
          (visits.map DirVisit.name) := by
      rw [List.map_cons, wayDown, hchild]
    have hbelow : absolute slash (cs ++ [v.name]) ∈
        wayDown (absolute slash (cs ++ [v.name])) (visits.map DirVisit.name) := mem_wayDown _ _
    rw [hway] at hfits hshows
    have hfit : (absolute slash (cs ++ [v.name])).length < MAX_PATH :=
      hfits _ (List.mem_cons_of_mem _ hbelow)
    have hhere : (absolute slash cs).length < MAX_PATH := hfits _ List.mem_cons_self
    obtain ⟨hentering, hleaving⟩ := hshows v List.mem_cons_self
    have hin : executeOnDir fs.Path.text (.sub v.name) =
        (absolute slash (cs ++ [v.name]), none) := by
      rw [hpath]
      exact executeOnDir_sub hplain hfit
    -- the directories below, from the one that was entered
    let inside : FsInstance :=
      { fs with connected := true, Path := .copy 260 (absolute slash (cs ++ [v.name])) }
    have hinside : inside.Path.text = absolute slash (cs ++ [v.name]) := lstrcpyn_eq_self hfit
    obtain ⟨b, hb, hrest⟩ := @ih inside (cs ++ [v.name]) hfatal herror hplain hinside
      (fun u hu => hnames u (List.mem_cons_of_mem _ hu))
      (fun path hmem => hfits path (List.mem_cons_of_mem _ hmem))
      (fun u hu => by
        obtain ⟨hdown, hup⟩ := hshows u (List.mem_cons_of_mem _ hu)
        exact ⟨hdown.mono rfl (List.subset_cons_self _ _),
          hup.mono rfl (List.subset_cons_self _ _)⟩)
    have hconnected : b = true := hb rfl
    have hup : executeOnDir inside.Path.text .up = (absolute slash cs, some v.name) := by
      rw [hinside]
      exact executeOnDir_up hplain hfit
    refine ⟨true, fun _ => rfl, ?_⟩
    rw [thereAndBack_cons,
      executeOnFS_directory hfatal herror hdata hentering (List.mem_cons_of_mem _ hbelow) hplain
      hfit hin, openAll_append, hrest, Option.bind_some]
    dsimp only
    let back : FsInstance := { inside with connected := b }
    have hback : back.FatalError = false ∧ back.PathError = false := ⟨hfatal, herror⟩
    rw [executeOnFS_directory hback.1 hback.2 hdata
      (hleaving.mono hconnected (List.Subset.refl _)) List.mem_cons_self
      hcs hhere hup]
    have hsame : CharBuf.copy 260 (absolute slash cs) = fs.Path :=
      CharBuf.ext ((lstrcpyn_eq_self hhere).trans hpath.symm)
    rw [hsame]
    simp [openAll, back, inside]

/-- Who enters directories and leaves them again is where he was, and the cursor is put on each
directory that is left. The names are proper and without a backslash, the paths fit, and the server
shows the directories meanwhile. -/
theorem enter_and_return (hfatal : fs.FatalError = false) (herror : fs.PathError = false)
    (hdata : data.UseConnectData = false)
    (hpath : sftpNormalize fs.Path.text = fs.Path.text) {visits : List DirVisit}
    (hnames : ∀ v ∈ visits, EntryName v.name ∧ backslash ∉ v.name)
    (hfits : ∀ path ∈ wayDown fs.Path.text (visits.map DirVisit.name), path.length < MAX_PATH)
    (hshows : ∀ v ∈ visits, v.entering.Shows fs (wayDown fs.Path.text (visits.map DirVisit.name)) ∧
      v.leaving.Shows fs (wayDown fs.Path.text (visits.map DirVisit.name))) :
    ∃ b, openAll data saved (thereAndBack visits) fs =
      some ({ fs with connected := b },
        visits.map (fun _ => none) ++ visits.reverse.map fun v => some v.name) := by
  obtain ⟨cs, hcs, htext, -⟩ := exists_parts_of_canonical hpath
  rw [htext] at hfits hshows
  obtain ⟨b, -, hopen⟩ :=
    openAll_thereAndBack hdata visits hfatal herror hcs htext hnames hfits hshows
  exact ⟨b, hopen⟩

/-- From "/home" to "/home/a/b" and back. -/
theorem enter_and_return_home : ∃ b, openAll .unused []
    (thereAndBack [⟨ascii "a", .ofAnswers fun _ => 2, .ofAnswers fun _ => 2⟩,
      ⟨ascii "b", .ofAnswers fun _ => 2, .ofAnswers fun _ => 2⟩])
    (.connectedTo (.copy 256 (ascii "h")) (.copy 260 (ascii "/home"))) =
      some ({ FsInstance.connectedTo (.copy 256 (ascii "h")) (.copy 260 (ascii "/home")) with
          connected := b },
        [none, none, some (ascii "b"), some (ascii "a")]) := by
  have hshows : ∀ paths, (SshWorld.ofAnswers fun _ => 2).Shows
      (.connectedTo (.copy 256 (ascii "h")) (.copy 260 (ascii "/home"))) paths :=
    fun _ => ⟨rfl, fun path _ => by unfold SshWorld.typeOf; split_ifs <;> rfl⟩
  refine enter_and_return rfl rfl rfl (by decide +kernel) ?_ ?_ ?_
  · intro v hv
    simp only [List.mem_cons, List.not_mem_nil, or_false] at hv
    rcases hv with rfl | rfl
    · exact ⟨⟨by decide, by decide, by decide, by decide⟩, by decide⟩
    · exact ⟨⟨by decide, by decide, by decide, by decide⟩, by decide⟩
  · decide +kernel
  · intro v hv
    simp only [List.mem_cons, List.not_mem_nil, or_false] at hv
    rcases hv with rfl | rfl
    · exact ⟨hshows _, hshows _⟩
    · exact ⟨hshows _, hshows _⟩

end Return

/-! ## Paths that cannot be listed -/

section Retreat

variable {data : ConnectData} {saved : List CSftpSavedProfile} {fs fs' : FsInstance}

theorem listCurrentPath_path (lists : ListWorld) (fs : FsInstance) :
    (listCurrentPath lists fs).1.Path = fs.Path ∧
    ((listCurrentPath lists fs).2 = none → (listCurrentPath lists fs).1.PathError = true) := by
  unfold listCurrentPath
  dsimp only
  by_cases hconn : (!(sftpEnsureConnected lists.ssh fs.connected fs.Profile).1) = true
  · rw [if_pos hconn]
    exact ⟨rfl, fun _ => rfl⟩
  rw [if_neg hconn]
  generalize lists.listDir 0 _ = first
  generalize (if (sftpEnsureConnected lists.ssh lists.stillConnected fs.Profile).1 =
    true then lists.listDir 1 _
    else none) = second
  cases first with
  | some entries => exact ⟨rfl, fun hnone => absurd hnone (Option.some_ne_none _)⟩
  | none =>
    cases second with
    | some entries => exact ⟨rfl, fun hnone => absurd hnone (Option.some_ne_none _)⟩
    | none => exact ⟨rfl, fun _ => rfl⟩

/-- After a listing that fails `ChangePath` goes further up. -/
theorem retreat_above {lists : ListWorld} {world : SshWorld} {cs : List CStr}
    (hdata : data.UseConnectData = false)
    (hcs : PlainParts cs) (hpath : fs.Path.text = absolute slash cs)
    (hfits : (absolute slash cs).length < MAX_PATH)
    (h : retreat data saved lists world fs = some fs') :
    ∃ ds, ds <+: cs ∧ ds.length < cs.length ∧ fs'.Path.text = absolute slash ds := by
  unfold retreat at h
  rcases hlist : listCurrentPath lists fs with ⟨failed, _ | files⟩
  · rw [hlist] at h
    dsimp only at h
    split_ifs at h with hok
    obtain rfl := Option.some.inj h
    obtain ⟨hsame, hnoted⟩ := listCurrentPath_path lists fs
    have herror := hnoted (congrArg Prod.snd hlist)
    rw [hlist] at hsame herror
    dsimp only at hsame herror
    obtain ⟨as, ds, has, -, hinput, -, htext, hup⟩ := changePath_above hok
    rw [hsame, hpath, inputPath_absolute hdata hcs hfits] at hinput
    obtain rfl : cs = as := by
      rw [← comps_absolute hcs, hinput, comps_absolute has]
    obtain ⟨hds, hne⟩ := hup herror
    have hshort := hds.length_le
    rw [List.length_dropLast] at hshort
    have hpos := List.length_pos_of_ne_nil hne
    exact ⟨ds, hds.trans (List.dropLast_prefix _), by omega, htext⟩
  · rw [hlist] at h
    cases h

/-- Each time one component is left behind at least, so there are no more times than components. -/
theorem retreats_end (hdata : data.UseConnectData = false) {turns : List (ListWorld × SshWorld)} :
    ∀ {fs : FsInstance}, sftpNormalize fs.Path.text = fs.Path.text →
    retreats data saved turns fs = some fs' →
      comps fs'.Path.text <+: comps fs.Path.text ∧
        (comps fs'.Path.text).length + turns.length ≤ (comps fs.Path.text).length := by
  induction turns with
  | nil =>
    intro fs _ h
    obtain rfl := Option.some.inj h
    exact ⟨List.prefix_rfl, le_rfl⟩
  | cons turn turns ih =>
    intro fs hpath h
    obtain ⟨cs, hcs, htext, hfits⟩ := exists_parts_of_canonical hpath
    rw [htext] at hfits
    obtain ⟨next, hnext, hrest⟩ := Option.bind_eq_some_iff.mp h
    obtain ⟨ds, hds, hshort, hds'⟩ := retreat_above hdata hcs htext hfits hnext
    have hplain : PlainParts ds := hcs.mono hds.subset
    have hcanonical : sftpNormalize next.Path.text = next.Path.text := by
      rw [hds']
      exact sftpNormalize_absolute hplain (length_lt_of_above hds hfits)
    obtain ⟨habove, hle⟩ := ih hcanonical hrest
    rw [hds', comps_absolute hplain] at habove hle
    rw [htext, comps_absolute hcs, List.length_cons]
    exact ⟨habove.trans hds, by omega⟩

/-- A listing that fails, and a server on which every directory is there. -/
def failedListing : ListWorld × SshWorld :=
  (⟨.refusing, false, fun _ _ => none, false⟩, .ofAnswers fun _ => 2)

/-- Neither "/home/a" nor "/home" can be listed. -/
theorem retreats_end_home : ∃ fs' : FsInstance,
    retreats .unused [] [failedListing, failedListing]
      (.connectedTo (.copy 256 (ascii "h")) (.copy 260 (ascii "/home/a"))) = some fs' ∧
    comps fs'.Path.text <+: comps (ascii "/home/a") ∧
    (comps fs'.Path.text).length + 2 ≤ (comps (ascii "/home/a")).length := by
  have hretreat : ∃ fs', retreats .unused [] [failedListing, failedListing]
      (.connectedTo (.copy 256 (ascii "h")) (.copy 260 (ascii "/home/a"))) = some fs' := by
    rw [← Option.isSome_iff_exists]
    decide +kernel
  obtain ⟨fs', hfs'⟩ := hretreat
  exact ⟨fs', hfs', retreats_end rfl (by decide +kernel) hfs'⟩

end Retreat

/-! ## Runs -/

inductive PanelAct
  | changePath (world : SshWorld) (data : ConnectData)
      (saved : List CSftpSavedProfile) (userPart : CStr)
  | listCurrentPath (lists : ListWorld)
  | executeOnFS (world : SshWorld) (data : ConnectData)
      (saved : List CSftpSavedProfile) (dir : PanelDir)

def PanelAct.act : PanelAct → FsInstance → Option FsInstance
  | .changePath world data saved userPart, fs =>
    some (SalamanderSftp.changePath world data saved fs userPart).fs
  | .listCurrentPath lists, fs => some (SalamanderSftp.listCurrentPath lists fs).1
  | .executeOnFS world data saved dir, fs =>
    some (SalamanderSftp.executeOnFS world data saved fs dir).1.fs

section Runs

variable {fs fs' : FsInstance}

/-- Before the first `ChangePath` there is no path. -/
def NormalPath (fs : FsInstance) :
    Prop := fs.Path.text = [] ∨ sftpNormalize fs.Path.text = fs.Path.text

theorem NormalPath.changePath (h : NormalPath fs) (world : SshWorld) (data : ConnectData)
    (saved : List CSftpSavedProfile) (userPart : CStr) :
    NormalPath (changePath world data saved fs userPart).fs := by
  by_cases hok : (SalamanderSftp.changePath world data saved fs userPart).ok = true
  · obtain ⟨cs, ds, hcs, hfits, -, hds, htext, -⟩ := changePath_above hok
    right
    rw [htext]
    exact sftpNormalize_absolute (hcs.mono hds.subset) (length_lt_of_above hds hfits)
  · have hsame := changePath_path (Bool.eq_false_of_not_eq_true hok)
    unfold NormalPath
    rw [hsame]
    exact h

/-- Whatever was done in a panel, its path is empty or in normal form. -/
theorem normalPath_reached (h : Reaches PanelAct.act (fun _ _ => True) fs fs')
    (hnew : fs.Path.text = []) :
    NormalPath fs' := by
  refine h.invariant (fun fs a fs' hfs _ hstep => ?_) (.inl hnew)
  cases a with
  | changePath world data saved userPart =>
    obtain rfl := Option.some.inj hstep
    exact hfs.changePath world data saved userPart
  | listCurrentPath lists =>
    obtain rfl := Option.some.inj hstep
    unfold NormalPath
    rw [(listCurrentPath_path lists fs).1]
    exact hfs
  | executeOnFS world data saved dir =>
    obtain rfl := Option.some.inj hstep
    exact hfs.changePath world data saved _

/-- Whatever was done in a panel, its path is in normal form, and `ChangePath` to it stays with the
server. -/
theorem panel_path_normal (h : Reaches PanelAct.act (fun _ _ => True) fs fs')
    (hnew : fs.Path.text = []) :
    fs'.Path.text = [] ∨ sftpNormalize fs'.Path.text = fs'.Path.text ∧
      ∀ data saved, data.UseConnectData = false →
      takeServer data saved fs' fs'.Path.text = (fs'.Profile, false) := by
  refine (normalPath_reached h hnew).imp_right fun hpath => ⟨hpath, fun data saved hdata => ?_⟩
  obtain ⟨cs, hcs, htext, -⟩ := exists_parts_of_canonical hpath
  rw [htext]
  exact takeServer_absolute hdata hcs

/-- An address with a server is typed, and its path is cleaned up. -/
theorem panel_path_normal_typed : ∃ fs, Reaches PanelAct.act (fun _ _ => True)
    (.connectedTo (.copy 256 (ascii "h")) (.copy 260 [])) fs ∧ fs.Path.text = ascii "/a/b" ∧
      ∀ data saved, data.UseConnectData = false →
      takeServer data saved fs fs.Path.text = (fs.Profile, false) := by
  let world : SshWorld := .ofAnswers fun _ => 2
  let start : FsInstance := .connectedTo (.copy 256 (ascii "h")) (.copy 260 [])
  let fs := (changePath world .unused [] start (ascii "//h/a//b")).fs
  have hreaches : Reaches PanelAct.act (fun _ _ => True) start fs :=
    .single ⟨.changePath world .unused [] (ascii "//h/a//b"), trivial, rfl⟩
  have hpath : fs.Path.text = ascii "/a/b" := by decide +kernel
  have hne : fs.Path.text ≠ [] := by rw [hpath]; decide
  exact ⟨fs, hreaches, hpath, ((panel_path_normal hreaches rfl).resolve_left hne).2⟩

end Runs

/-! ## Changes that others report -/

/-- `AcceptChangeOnPathNotification`, and whether a refresh of the panel is posted; `StrNICmp`
compares after `lowerCase`. -/
def acceptChangeOnPathNotification (lowerCase : Byte → Byte)
    (fsName path : CStr) (includingSubdirs : Bool)
    (fs : FsInstance) : Bool :=
  if fs.Path.text = [] ∨ path = [] then false
  else
    let userPart : Option CStr :=
      if (path.take fsName.length).map lowerCase = fsName.map lowerCase ∧
        path[fsName.length]? = some colon then
        some (path.drop (fsName.length + 1))
      else if path.head? ≠ some slash then none
      else some path
    userPart.any fun userPart =>
      let userPart := sftpStripHost userPart
      sftpIsSamePath userPart fs.Path.text || includingSubdirs && userPart.isPrefixOf fs.Path.text

/-- How the path of a change is written. -/
inductive ChangeText
  | userPart
  | withName
  | withHost (host : CStr)

def ChangeText.text (fsName path : CStr) : ChangeText → CStr
  | .userPart => path
  | .withName => fsName ++ colon :: path
  | .withHost host => fsName ++ colon :: slash :: slash :: (host ++ path)

/-- The host has no slashes. -/
def ChangeText.Plain : ChangeText → Prop
  | .userPart => True
  | .withName => True
  | .withHost host => ∀ c ∈ host, isSlash c = false

section Changes

open ViewedFile (KeepsSeparators keepsSeparators_toLower)

variable {fs fs' : FsInstance} {fsName path : CStr} {text : ChangeText} {lowerCase : Byte → Byte}

theorem sftpStripHost_withHost {host : CStr} (hhost : ∀ c ∈ host, isSlash c = false)
    (hslash : path.head? = some slash) :
    sftpStripHost (slash :: slash :: (host ++ path)) = path := by
  have hpath : ∀ c ∈ path.head?, isSlash c = true := by
    intro c hc
    rw [hslash] at hc
    obtain rfl := Option.some.inj hc
    decide
  have hne : path ≠ [] := by
    rintro rfl
    cases hslash
  unfold sftpStripHost
  rw [splitHost_append (by decide) (by decide) hhost hpath]
  exact if_neg hne

theorem named_text (fsName rest : CStr) : (fsName ++ colon :: rest).take fsName.length = fsName ∧
    (fsName ++ colon :: rest)[fsName.length]? = some colon ∧
      (fsName ++ colon :: rest).drop (fsName.length + 1) = rest := by
  refine ⟨List.take_left, ?_, ?_⟩
  · rw [List.getElem?_append_right le_rfl, Nat.sub_self]
    rfl
  · rw [List.drop_append, List.drop_of_length_le (by omega), Nat.add_sub_cancel_left]
    rfl

/-- No name of a file system begins with a slash, so a path is not taken for one. -/
theorem not_named_of_slash (hlower : KeepsSeparators lowerCase) (hname : fsName.head? ≠ some slash)
    (hslash : path.head? = some slash) :
    ¬ ((path.take fsName.length).map lowerCase = fsName.map lowerCase ∧
      path[fsName.length]? = some colon) := by
  have hkept : ∀ c, lowerCase c = slash ↔ c = slash := fun c => hlower.keeps (by simp)
  obtain ⟨rest, rfl⟩ : ∃ rest, path = slash :: rest := List.head?_eq_some_iff.mp hslash
  rintro ⟨heq, hcolon⟩
  rcases fsName with _ | ⟨c, name⟩
  · have hsame : slash = colon := Option.some.inj hcolon
    exact absurd hsame (by decide)
  · obtain ⟨hhead, -⟩ := List.cons.inj heq
    have hfirst : lowerCase c = slash := hhead.symm.trans ((hkept slash).mpr rfl)
    exact hname (congrArg some ((hkept c).mp hfirst))

/-- However the path is written, it is compared as it is. -/
theorem acceptChangeOnPathNotification_text (hlower : KeepsSeparators lowerCase)
    (hshown : fs.Path.text ≠ [])
    (hname : fsName.head? ≠ some slash) (hslash : path.head? = some slash)
    (hhost : splitHost path = none)
    (htext : text.Plain) (includingSubdirs : Bool) :
    acceptChangeOnPathNotification lowerCase fsName (text.text fsName path) includingSubdirs fs =
      (sftpIsSamePath path fs.Path.text || includingSubdirs && path.isPrefixOf fs.Path.text) := by
  have hstrip := sftpStripHost_of_splitHost hhost
  have hnamed : ∀ rest,
      acceptChangeOnPathNotification lowerCase fsName
        (fsName ++ colon :: rest) includingSubdirs fs =
      (sftpIsSamePath (sftpStripHost rest) fs.Path.text ||
        includingSubdirs && (sftpStripHost rest).isPrefixOf fs.Path.text) := by
    intro rest
    obtain ⟨hsame, hcolon, hrest⟩ := named_text fsName rest
    unfold acceptChangeOnPathNotification
    rw [if_neg (by simp [hshown]), if_pos ⟨congrArg (List.map lowerCase) hsame, hcolon⟩, hrest]
    rfl
  cases text with
  | userPart =>
    have hne : path ≠ [] := by
      rintro rfl
      cases hslash
    show acceptChangeOnPathNotification lowerCase fsName path includingSubdirs fs = _
    unfold acceptChangeOnPathNotification
    rw [if_neg (by simp [hshown, hne]), if_neg (not_named_of_slash hlower hname hslash),
      if_neg (not_not_intro hslash)]
    dsimp only
    rw [Option.any_some, hstrip]
  | withName =>
    show acceptChangeOnPathNotification lowerCase fsName
        (fsName ++ colon :: path) includingSubdirs fs = _
    rw [hnamed, hstrip]
  | withHost host =>
    show acceptChangeOnPathNotification lowerCase fsName
        (fsName ++ colon :: slash :: slash :: (host ++ path)) _ fs = _
    rw [hnamed, sftpStripHost_withHost htext hslash]

/-- A panel is refreshed for a change of its path, and with everything below for one of a text that
its path begins with. So none is missed on the way to the root. -/
theorem changes_noticed (h : Reaches PanelAct.act (fun _ _ => True) fs fs')
    (hnew : fs.Path.text = [])
    (hshown : fs'.Path.text ≠ []) (hlower : KeepsSeparators lowerCase)
    (hname : fsName.head? ≠ some slash)
    (hslash : path.head? = some slash) (hhost : splitHost path = none)
    (hfits : path.length < MAX_PATH)
    (htext : text.Plain) (includingSubdirs : Bool) :
    (acceptChangeOnPathNotification lowerCase fsName (text.text fsName path) includingSubdirs fs' =
      true ↔
      comps fs'.Path.text = comps path ∨ includingSubdirs = true ∧ path <+: fs'.Path.text) ∧
    (sftpNormalize path = path → includingSubdirs = true → comps path <+: comps fs'.Path.text →
      acceptChangeOnPathNotification lowerCase fsName (text.text fsName path) includingSubdirs fs' =
        true) := by
  have hshort : fs'.Path.text.length < MAX_PATH := fs'.Path.fits
  have hiff : acceptChangeOnPathNotification lowerCase fsName
      (text.text fsName path) includingSubdirs fs' = true ↔
      comps fs'.Path.text = comps path ∨ includingSubdirs = true ∧ path <+: fs'.Path.text := by
    rw [acceptChangeOnPathNotification_text hlower hshown hname hslash hhost htext,
      Bool.or_eq_true, Bool.and_eq_true,
      sftpIsSamePath_iff, lstrcpyn_eq_self hfits, lstrcpyn_eq_self hshort,
        List.isPrefixOf_iff_prefix]
    exact or_congr_left eq_comm
  refine ⟨hiff, fun hnormal hbelow hprefix => hiff.mpr (.inr ⟨hbelow, ?_⟩)⟩
  obtain ⟨ds, hds, rfl, -⟩ := exists_parts_of_canonical hnormal
  obtain ⟨cs, hcs, hpath, -⟩ :=
    exists_parts_of_canonical ((normalPath_reached h hnew).resolve_left hshown)
  rw [hpath, comps_absolute hds, comps_absolute hcs] at hprefix
  rw [hpath]
  exact absolute_mono hprefix

/-- The panel shows "/a/b", and something has changed below "/a". -/
theorem changes_noticed_above : ∃ fs, Reaches PanelAct.act (fun _ _ => True)
    (.connectedTo (.copy 256 (ascii "h")) (.copy 260 [])) fs ∧ fs.Path.text = ascii "/a/b" ∧
      acceptChangeOnPathNotification toLower (ascii "sftp") (ascii "sftp://h/a") true fs =
        true := by
  let world : SshWorld := .ofAnswers fun _ => 2
  let start : FsInstance := .connectedTo (.copy 256 (ascii "h")) (.copy 260 [])
  let fs := (changePath world .unused [] start (ascii "//h/a//b")).fs
  have hreaches : Reaches PanelAct.act (fun _ _ => True) start fs :=
    .single ⟨.changePath world .unused [] (ascii "//h/a//b"), trivial, rfl⟩
  have hpath : fs.Path.text = ascii "/a/b" := by decide +kernel
  have hhost : ChangeText.Plain (.withHost (ascii "h")) := by
    unfold ChangeText.Plain
    decide +kernel
  have hnoticed := (@changes_noticed start fs (ascii "sftp") (ascii "/a")
      (.withHost (ascii "h")) toLower hreaches rfl
    (by rw [hpath]; decide) keepsSeparators_toLower (by decide) rfl rfl (by decide) hhost true).2
  exact ⟨fs, hreaches, hpath, hnoticed (by decide +kernel) rfl (by rw [hpath]; decide +kernel)⟩

end Changes

end SalamanderSftp
