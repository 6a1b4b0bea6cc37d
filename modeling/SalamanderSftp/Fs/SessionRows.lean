import SalamanderSftp.Fs.SessionManager
import SalamanderSftp.Lib.KeyedTable

/-!
# The rows of the session list

`FillSessionList` shows a profile below the header of its folder. It looks a folder up in the list
of folders without regard to case, but compares with regard to it, and there is room for 64 folders
only. The name of a folder that is selected is read from the text of its header.

`session_list_iff` says for which folders every profile is shown once and every row is read back as
what it shows.
-/

namespace SalamanderSftp

open Components (findText exists_findText findText_of_prefix)

/-! ## What is shown -/

inductive RowSource
  | root (i : ℕ) (p : ProfileInFolder)
  | folder (name : CharBuf 128)
  | inFolder (i : ℕ) (p : ProfileInFolder)

def RowSource.row : RowSource → SessionRow
  | .root i p => ⟨p.shownName, some i⟩
  | .folder name => ⟨folderHeader name, none⟩
  | .inFolder i p => ⟨p.indented, some i⟩

def profilesIn (profiles : List ProfileInFolder) (folder : CStr) : List (ℕ × ProfileInFolder) :=
  profiles.zipIdx.filterMap fun (p, i) => if p.Folder.text = folder then some (i, p) else none

/-- The connections in the root, then the folders and their contents. -/
def rowSources (profiles : List ProfileInFolder) (folders : List (CharBuf 128)) : List RowSource :=
  (profilesIn profiles []).map (fun ip => .root ip.1 ip.2) ++
    folders.flatMap fun f =>
      .folder f :: (profilesIn profiles f.text).map fun ip => .inFolder ip.1 ip.2

/-- The indices in the list, each with the header above it. -/
def underHeaders : Option CStr → List SessionRow → List (Option CStr × ℕ)
  | _, [] => []
  | header, r :: rows =>
    match r.data with
    | none => underHeaders (some r.text) rows
    | some i => (header, i) :: underHeaders header rows

/-- The header that names the folder of a profile; in the root there is none. -/
def ProfileInFolder.header (p : ProfileInFolder) : Option CStr :=
  if p.Folder.text = [] then none else some (folderHeader p.Folder)

/-- The folders that profiles name. -/
def folderNames (profiles : List ProfileInFolder) : List (CharBuf 128) :=
  (profiles.map fun p => p.Folder).filter fun f => f.text ≠ []

namespace SessionManager

/-- What is read of the selected row is what it was built from. -/
def Decodes (s : SessionManager) (d : ConnectDialog) : RowSource → Prop
  | .root i p | .inFolder i p => s.selected d = some (i, p) ∧ s.getSelFolder d = p.Folder
  | .folder name => s.getSelProfile d = none ∧ s.getSelFolder d = name

/-- Every profile is shown once, where it belongs, and every row can be read. -/
structure ListedRight (s : SessionManager) (d : ConnectDialog) : Prop where
  built : d.rows = (rowSources s.SftpProfiles s.SftpFolders).map RowSource.row
  once : ∀ i p, s.SftpProfiles[i]? = some p →
    (underHeaders none d.rows).filter (·.2 = i) = [(p.header, i)]
  decodes : ∀ row source, (rowSources s.SftpProfiles s.SftpFolders)[row]? = some source →
    s.Decodes { d with curSel := some row } source

/-- Spelling and number of the folders, before the list is filled. -/
structure FoldersInOrder (s : SessionManager) : Prop where
  /-- A profile is in the root only. -/
  root : ∀ p ∈ s.SftpProfiles, p.Folder.text = [] → ∀ f ∈ s.SftpFolders, f.text ≠ []
  /-- A folder is listed once, or it is in no other spelling anywhere. -/
  alone : ∀ p ∈ s.SftpProfiles, p.Folder.text ≠ [] → s.SftpFolders.count p.Folder = 1 ∨
    (∀ f ∈ s.SftpFolders, ¬ stricmpEq f.text p.Folder.text) ∧
      ∀ q ∈ s.SftpProfiles, stricmpEq q.Folder.text p.Folder.text → q.Folder = p.Folder
  room : s.SftpFolders.length +
    (KeyedTable.missing s.SftpFolders (folderNames s.SftpProfiles)).length ≤ SFTP_MAX_FOLDERS
  plain : ∀ f ∈ s.SftpFolders ++ s.SftpProfiles.map (fun p => p.Folder), ¬ ascii " ]" <:+: f.text

end SessionManager

/-! ## The table of folders -/

section Folders

variable (folders : List (CharBuf 128)) (profiles : List ProfileInFolder)

def folderKey (f : CharBuf 128) : CStr := f.text.map toLower

theorem addFolder_eq (name : CharBuf 128) :
    addFolder folders name = KeyedTable.add folderKey SFTP_MAX_FOLDERS folders name := by
  have hknown : folderKnown folders name = false ↔ folderKey name ∉ folders.map folderKey := by
    unfold folderKnown
    rw [List.any_eq_false, List.mem_map, not_exists]
    exact forall_congr' fun f => by rw [not_and, decide_eq_true_eq]; rfl
  have hadd : (!folderKnown folders name && decide (folders.length < SFTP_MAX_FOLDERS)) = true ↔
      folderKey name ∉ folders.map folderKey ∧ folders.length < SFTP_MAX_FOLDERS := by
    rw [Bool.and_eq_true, Bool.not_eq_true', decide_eq_true_eq, hknown]
  unfold addFolder KeyedTable.add
  by_cases h : folderKey name ∉ folders.map folderKey ∧ folders.length < SFTP_MAX_FOLDERS
  · rw [if_pos (hadd.mpr h), if_pos h]
  · rw [if_neg (mt hadd.mp h), if_neg h]

theorem addProfileFolders_eq :
    addProfileFolders folders profiles =
      KeyedTable.addAll folderKey SFTP_MAX_FOLDERS folders (folderNames profiles) := by
  unfold addProfileFolders KeyedTable.addAll folderNames
  rw [List.foldl_filter, List.foldl_map]
  congr 1
  funext fs p
  simp only [addFolder_eq, decide_eq_true_eq]

theorem mem_folderNames {f : CharBuf 128} :
    f ∈ folderNames profiles ↔ (∃ p ∈ profiles, p.Folder = f) ∧ f.text ≠ [] := by
  unfold folderNames
  rw [List.mem_filter, List.mem_map, decide_eq_true_eq]

theorem mem_addProfileFolders {f : CharBuf 128} (h : f ∈ addProfileFolders folders profiles) :
    f ∈ folders ∨ f ∈ folderNames profiles := by
  rw [addProfileFolders_eq] at h
  obtain ⟨added, heq, hadded⟩ :=
    KeyedTable.exists_added folderKey SFTP_MAX_FOLDERS folders (folderNames profiles)
  rw [heq] at h
  exact (List.mem_append.mp h).imp_right (hadded.mem f)

theorem subset_addProfileFolders {f : CharBuf 128} (h : f ∈ folders) :
    f ∈ addProfileFolders folders profiles := by
  rw [addProfileFolders_eq]
  obtain ⟨added, heq, -⟩ :=
    KeyedTable.exists_added folderKey SFTP_MAX_FOLDERS folders (folderNames profiles)
  rw [heq]
  exact List.mem_append_left _ h

end Folders

/-! ## Rows and their headers -/

section Rows

variable {profiles : List ProfileInFolder} {folders : List (CharBuf 128)}
  {i : ℕ} {p : ProfileInFolder}

theorem folderRows_eq (folder : CStr) (text : ProfileInFolder → CStr) :
    folderRows profiles folder text = (profilesIn profiles folder).map fun ip =>
      ⟨text ip.2, some ip.1⟩ := by
  unfold folderRows profilesIn
  rw [List.map_filterMap]
  congr 1
  funext ⟨p, i⟩
  dsimp only
  split_ifs <;> rfl

theorem sessionRows_eq :
    sessionRows profiles folders = (rowSources profiles folders).map RowSource.row := by
  unfold sessionRows rowSources
  rw [List.map_append, List.map_map, List.map_flatMap, folderRows_eq]
  congr 1
  refine List.flatMap_congr fun f _ => ?_
  rw [List.map_cons, List.map_map, folderRows_eq]
  rfl

theorem getElem?_of_mem_profilesIn {folder : CStr} {ip : ℕ × ProfileInFolder}
    (h : ip ∈ profilesIn profiles folder) :
    profiles[ip.1]? = some ip.2 := by
  obtain ⟨⟨p, i⟩, hmem, hip⟩ := List.mem_filterMap.mp h
  dsimp only at hip
  split_ifs at hip
  obtain rfl := Option.some.inj hip
  exact List.mk_mem_zipIdx_iff_getElem?.mp hmem

theorem filter_zipIdx {α : Type*} {l : List α} {x : α} (h : l[i]? = some x)
    {k j : ℕ} (hj : j = k + i) :
    (l.zipIdx k).filter (·.2 = j) = [(x, j)] := by
  induction l generalizing k i with
  | nil => cases h
  | cons y l ih =>
    rw [List.zipIdx_cons, List.filter_cons]
    rcases i with _ | i
    · obtain rfl := Option.some.inj h
      obtain rfl : j = k := hj
      have hrest : (l.zipIdx (j + 1)).filter (·.2 = j) = [] := by
        refine List.filter_eq_nil_iff.mpr fun z hz => ?_
        have hle := (List.mem_zipIdx hz).1
        rw [decide_eq_true_eq]
        omega
      rw [hrest]
      exact if_pos (decide_eq_true rfl)
    · have hfirst : ¬ decide (k = j) = true := by
        rw [decide_eq_true_eq]
        omega
      rw [if_neg hfirst]
      exact ih h (by omega)

theorem filter_profilesIn (h : profiles[i]? = some p) (folder : CStr) :
    (profilesIn profiles folder).filter (·.1 = i) = if p.Folder.text =
      folder then [(i, p)] else [] := by
  have hone := filter_zipIdx h (Nat.zero_add i).symm
  calc (profilesIn profiles folder).filter (·.1 = i)
      = (profiles.zipIdx.filter (·.2 = i)).filterMap
          fun (p, i) => if p.Folder.text = folder then some (i, p) else none := by
        unfold profilesIn
        rw [List.filter_filterMap, List.filterMap_filter]
        congr 1
        funext ⟨q, j⟩
        by_cases hj : j = i <;> by_cases hq : q.Folder.text = folder <;> simp [hj, hq]
    _ = _ := by
      rw [hone]
      split_ifs with hp
      · simp [hp]
      · simp [hp]

theorem underHeaders_profiles (header : Option CStr) (text : ProfileInFolder → CStr)
    (l : List (ℕ × ProfileInFolder))
    (rows : List SessionRow) :
    underHeaders header (l.map (fun ip => ⟨text ip.2, some ip.1⟩) ++ rows) =
      l.map (fun ip => (header, ip.1)) ++ underHeaders header rows := by
  induction l with
  | nil => rfl
  | cons ip l ih =>
    rw [List.map_cons, List.map_cons, List.cons_append, List.cons_append, ← ih]
    rfl

theorem underHeaders_folders (header : Option CStr) :
    underHeaders header (folders.flatMap fun f =>
        ⟨folderHeader f, none⟩ :: folderRows profiles f.text ProfileInFolder.indented) =
      folders.flatMap fun f => (profilesIn profiles f.text).map fun ip =>
        (some (folderHeader f), ip.1) := by
  induction folders generalizing header with
  | nil => rfl
  | cons f folders ih =>
    rw [List.flatMap_cons, List.flatMap_cons, List.cons_append, folderRows_eq, underHeaders,
      underHeaders_profiles, ih]

theorem filter_under (h : profiles[i]? = some p) (header : Option CStr) (folder : CStr) :
    ((profilesIn profiles folder).map fun ip => (header, ip.1)).filter (·.2 = i) =
      if p.Folder.text = folder then [(header, i)] else [] := by
  rw [List.filter_map]
  show ((profilesIn profiles folder).filter (·.1 = i)).map _ = _
  rw [filter_profilesIn h]
  split_ifs <;> rfl

theorem filter_underHeaders (h : profiles[i]? = some p) :
    (underHeaders none (sessionRows profiles folders)).filter (·.2 = i) =
      (if p.Folder.text = [] then [(none, i)] else []) ++
        List.replicate (folders.count p.Folder) (some (folderHeader p.Folder), i) := by
  unfold sessionRows
  rw [folderRows_eq, underHeaders_profiles, underHeaders_folders,
    List.filter_append, filter_under h]
  congr 1
  induction folders with
  | nil => rfl
  | cons f folders ih =>
    rw [List.flatMap_cons, List.filter_append, filter_under h, ih]
    by_cases hf : p.Folder.text = f.text
    · obtain rfl := CharBuf.ext hf
      rw [if_pos rfl, List.count_cons_self, List.replicate_succ]
      rfl
    · have hne : f ≠ p.Folder := fun heq => hf (congrArg CharBuf.text heq).symm
      rw [if_neg hf, List.count_cons_of_ne hne]
      rfl

/-- A profile is shown once, where it belongs, if its folder has one header, or none for the
root. -/
theorem shown_once_iff (h : profiles[i]? = some p) :
    (underHeaders none (sessionRows profiles folders)).filter (·.2 = i) = [(p.header, i)] ↔
      folders.count p.Folder = if p.Folder.text = [] then 0 else 1 := by
  rw [filter_underHeaders h]
  unfold ProfileInFolder.header
  split_ifs
  · rw [List.singleton_append, List.cons.injEq, and_iff_right rfl, List.replicate_eq_nil_iff]
  · rw [List.nil_append]
    constructor
    · intro heq
      simpa using congrArg List.length heq
    · intro hcount
      rw [hcount]
      rfl

end Rows

/-! ## Reading a row -/

theorem folderHeader_eq (f : CharBuf 128) :
    folderHeader f = ascii "[ " ++ (f.text ++ ascii " ]") := by
  have hlen : (ascii "[ " ++ f.text ++ ascii " ]").length < 160 := by
    have hfits := f.fits
    have hopen : (ascii "[ ").length = 2 := by decide
    have hclose : (ascii " ]").length = 2 := by decide
    rw [List.length_append, List.length_append]
    omega
  unfold folderHeader
  rw [lstrcpyn_eq_self hlen, List.append_assoc]

theorem findText_close {s : CStr} (h : ¬ ascii " ]" <:+: s) :
    findText (ascii " ]") (s ++ ascii " ]") = some (s, ascii " ]") := by
  have hclose : ascii " ]" = [32, 93] := by decide
  rw [hclose] at h ⊢
  induction s with
  | nil => exact findText_of_prefix (List.prefix_refl _)
  | cons c s ih =>
    have hrest : ¬ [32, 93] <:+: s := fun hs => h (hs.trans (List.suffix_cons c s).isInfix)
    have hc : ¬ [32, 93] <+: c :: (s ++ [32, 93]) := by
      intro hpre
      obtain ⟨rfl, hsecond⟩ := List.cons_prefix_cons.mp hpre
      rcases s with _ | ⟨d, s⟩
      · exact absurd hsecond (by decide)
      · obtain ⟨rfl, -⟩ := List.cons_prefix_cons.mp hsecond
        exact h ⟨[], s, rfl⟩
    rw [List.cons_append, findText, if_neg hc, ih hrest]
    rfl

theorem exists_headerName (f : CharBuf 128) : ∃ before after,
    findText (ascii " ]") (f.text ++ ascii " ]") = some (before, after) ∧
    headerName (folderHeader f) = before := by
  have hopen : findText (ascii "[ ") (folderHeader f) = some ([], folderHeader f) := by
    rw [folderHeader_eq]
    exact findText_of_prefix (List.prefix_append _ _)
  have hdrop : (folderHeader f).drop 2 = f.text ++ ascii " ]" := by
    rw [folderHeader_eq]
    rfl
  obtain ⟨before, after, hfind, -⟩ := exists_findText (s := f.text) (List.prefix_refl (ascii " ]"))
  refine ⟨before, after, hfind, ?_⟩
  unfold headerName
  rw [hopen]
  dsimp only
  rw [hdrop, hfind]

/-- The name of a folder is read from its header, unless it has a closing bracket. -/
theorem copy_headerName_iff (f : CharBuf 128) :
    CharBuf.copy 128 (headerName (folderHeader f)) = f ↔ ¬ ascii " ]" <:+: f.text := by
  obtain ⟨before, after, hfind, hname⟩ := exists_headerName f
  rw [hname]
  constructor
  · rintro heq ⟨s, t, htext⟩
    have hbegin : ascii " ]" <+: ascii " ]" ++ (t ++ ascii " ]") := List.prefix_append _ _
    obtain ⟨before', after', hfind', hbefore⟩ := exists_findText (s := s) hbegin
    rw [← htext, List.append_assoc, List.append_assoc, hfind'] at hfind
    obtain ⟨rfl, -⟩ := Prod.mk.inj (Option.some.inj hfind)
    have hlen := congrArg List.length (congrArg CharBuf.text heq)
    have hcopy : (CharBuf.copy 128 before').text.length ≤ before'.length :=
      (List.take_prefix 127 before').length_le
    have hle := hbefore.length_le
    have hclose : (ascii " ]").length = 2 := by decide
    rw [← htext, List.length_append, List.length_append, hclose] at hlen
    omega
  · intro hplain
    rw [findText_close hplain] at hfind
    obtain ⟨rfl, -⟩ := Prod.mk.inj (Option.some.inj hfind)
    exact CharBuf.copy_text_self f

namespace SessionManager

variable {s : SessionManager} {d : ConnectDialog} {row : ℕ}

theorem selected_of_row {i : ℕ} {p : ProfileInFolder} {text : CStr}
    (hp : s.SftpProfiles[i]? = some p)
    (hrow : d.curRow = some ⟨text, some i⟩) :
    s.selected d = some (i, p) ∧ s.getSelFolder d = p.Folder := by
  have hlt : i < s.SftpProfiles.length := (List.getElem?_eq_some_iff.mp hp).1
  have hprofile : s.getSelProfile d = some i := by
    unfold getSelProfile
    rw [hrow]
    exact Option.filter_some_pos (decide_eq_true hlt)
  constructor
  · unfold selected profileAt
    rw [hprofile]
    show (s.SftpProfiles[i]?).map _ = _
    rw [hp]
    rfl
  · unfold getSelFolder
    rw [hrow]
    dsimp only [Option.bind_some]
    rw [hp]
    exact CharBuf.copy_text_self p.Folder

theorem getSelFolder_of_header {name : CharBuf 128}
    (hrow : d.curRow = some ⟨folderHeader name, none⟩) :
    s.getSelProfile d = none ∧ s.getSelFolder d = .copy 128 (headerName (folderHeader name)) := by
  constructor
  · unfold getSelProfile
    rw [hrow]
    rfl
  · unfold getSelFolder
    rw [hrow]
    rfl

/-- Every row is read as what it shows, if no name has a closing bracket. -/
theorem decodes_iff (hrows : d.rows = (rowSources s.SftpProfiles s.SftpFolders).map RowSource.row) :
    (∀ row source, (rowSources s.SftpProfiles s.SftpFolders)[row]? = some source →
      s.Decodes { d with curSel := some row } source) ↔
        ∀ f ∈ s.SftpFolders, ¬ ascii " ]" <:+: f.text := by
  have hcur : ∀ {row source}, (rowSources s.SftpProfiles s.SftpFolders)[row]? = some source →
      ({ d with curSel := some row } : ConnectDialog).curRow = some source.row := by
    intro row source hsource
    show d.rows[row]? = _
    rw [hrows, List.getElem?_map, hsource]
    rfl
  constructor
  · intro hdecodes f hf
    have hmem : RowSource.folder f ∈ rowSources s.SftpProfiles s.SftpFolders :=
      List.mem_append_right _ (List.mem_flatMap.mpr ⟨f, hf, List.mem_cons_self⟩)
    obtain ⟨row, hrow⟩ := List.getElem?_of_mem hmem
    have hfolder := (hdecodes row _ hrow).2
    rw [(getSelFolder_of_header (hcur hrow)).2] at hfolder
    exact (copy_headerName_iff f).mp hfolder
  · intro hplain row source hsource
    have hrow := hcur hsource
    rcases List.mem_append.mp (List.mem_of_getElem? hsource) with hmem | hmem
    · obtain ⟨ip, hip, rfl⟩ := List.mem_map.mp hmem
      exact selected_of_row (getElem?_of_mem_profilesIn hip) hrow
    · obtain ⟨f, hf, hmem⟩ := List.mem_flatMap.mp hmem
      rcases List.mem_cons.mp hmem with rfl | hmem
      · obtain ⟨hprofile, hfolder⟩ := getSelFolder_of_header (s := s) hrow
        exact ⟨hprofile, hfolder.trans ((copy_headerName_iff f).mpr (hplain f hf))⟩
      · obtain ⟨ip, hip, rfl⟩ := List.mem_map.mp hmem
        exact selected_of_row (getElem?_of_mem_profilesIn hip) hrow

/-! ## The list as it is filled -/

theorem alone_iff (p : ProfileInFolder) :
    KeyedTable.Alone folderKey s.SftpFolders (folderNames s.SftpProfiles) p.Folder ↔
      s.SftpFolders.count p.Folder = 1 ∨ (∀ f ∈ s.SftpFolders, ¬ stricmpEq f.text p.Folder.text) ∧
        ∀ q ∈ s.SftpProfiles, stricmpEq q.Folder.text p.Folder.text → q.Folder = p.Folder := by
  unfold KeyedTable.Alone
  refine or_congr_right (and_congr ?_ ?_)
  · rw [List.mem_map, not_exists]
    exact forall_congr' fun f => not_and
  · constructor
    · intro h q hq hkey
      by_cases hne : q.Folder.text = []
      · have hnil : p.Folder.text = [] :=
          List.map_eq_nil_iff.mp (hkey.symm.trans (by rw [hne]; rfl))
        exact CharBuf.ext (hne.trans hnil.symm)
      · exact h q.Folder ((mem_folderNames _).mpr ⟨⟨q, hq, rfl⟩, hne⟩) hkey
    · intro h f hf hkey
      obtain ⟨⟨q, hq, rfl⟩, -⟩ := (mem_folderNames _).mp hf
      exact h q hq hkey

/-- Which folders the list must have when it has been filled. -/
theorem listedRight_iff (hrows : d.rows = sessionRows s.SftpProfiles s.SftpFolders) :
    s.ListedRight d ↔
    (∀ p ∈ s.SftpProfiles, s.SftpFolders.count p.Folder = if p.Folder.text = [] then 0 else 1) ∧
      ∀ f ∈ s.SftpFolders, ¬ ascii " ]" <:+: f.text := by
  have hbuilt : d.rows = (rowSources s.SftpProfiles s.SftpFolders).map RowSource.row :=
    hrows.trans sessionRows_eq
  constructor
  · intro h
    refine ⟨fun p hp => ?_, (decodes_iff hbuilt).mp h.decodes⟩
    obtain ⟨i, hi⟩ := List.getElem?_of_mem hp
    exact (shown_once_iff hi).mp (hrows ▸ h.once i p hi)
  · rintro ⟨hcount, hplain⟩
    refine ⟨hbuilt, fun i p hi => ?_, (decodes_iff hbuilt).mpr hplain⟩
    rw [hrows]
    exact (shown_once_iff hi).mpr (hcount p (List.mem_of_getElem? hi))

variable (s) in
/-- A folder without a name is not added. -/
theorem count_root_iff {p : ProfileInFolder} (hp : p.Folder.text = []) :
    (addProfileFolders s.SftpFolders s.SftpProfiles).count p.Folder = 0 ↔
    ∀ f ∈ s.SftpFolders, f.text ≠ [] := by
  rw [List.count_eq_zero]
  constructor
  · intro hnot f hf hnil
    obtain rfl : f = p.Folder := CharBuf.ext (hnil.trans hp.symm)
    exact hnot (subset_addProfileFolders _ _ hf)
  · intro h hmem
    rcases mem_addProfileFolders _ _ hmem with hmem | hmem
    · exact h _ hmem hp
    · exact ((mem_folderNames _).mp hmem).2 hp

/-- The folders that profiles name stand once in the list. -/
theorem count_named_iff (hroom : s.SftpFolders.length ≤ SFTP_MAX_FOLDERS) :
    (∀ p ∈ s.SftpProfiles, p.Folder.text ≠ [] →
      (addProfileFolders s.SftpFolders s.SftpProfiles).count p.Folder = 1) ↔
      (∀ p ∈ s.SftpProfiles, p.Folder.text ≠ [] →
        KeyedTable.Alone folderKey s.SftpFolders (folderNames s.SftpProfiles) p.Folder) ∧
      s.SftpFolders.length +
        (KeyedTable.missing s.SftpFolders (folderNames s.SftpProfiles)).length ≤
        SFTP_MAX_FOLDERS := by
  have hall : ∀ {P : CharBuf 128 → Prop}, (∀ p ∈ s.SftpProfiles, p.Folder.text ≠ [] → P p.Folder) ↔
      ∀ f ∈ folderNames s.SftpProfiles, P f := by
    intro P
    constructor
    · intro h f hf
      obtain ⟨⟨p, hp, rfl⟩, hne⟩ := (mem_folderNames _).mp hf
      exact h p hp hne
    · exact fun h p hp hne => h _ ((mem_folderNames _).mpr ⟨⟨p, hp, rfl⟩, hne⟩)
  rw [addProfileFolders_eq]
  exact (hall.trans (KeyedTable.count_addAll_iff hroom)).trans (and_congr_left' hall.symm)

/-- When the list is filled, every folder that a profile names is in it. -/
theorem plain_iff (hcount : ∀ p ∈ s.SftpProfiles, p.Folder.text ≠ [] →
    (addProfileFolders s.SftpFolders s.SftpProfiles).count p.Folder = 1) :
    (∀ f ∈ addProfileFolders s.SftpFolders s.SftpProfiles, ¬ ascii " ]" <:+: f.text) ↔
      ∀ f ∈ s.SftpFolders ++ s.SftpProfiles.map (fun p => p.Folder), ¬ ascii " ]" <:+: f.text := by
  constructor
  · intro h f hf
    rcases List.mem_append.mp hf with hf | hf
    · exact h f (subset_addProfileFolders _ _ hf)
    · obtain ⟨p, hp, rfl⟩ := List.mem_map.mp hf
      by_cases hne : p.Folder.text = []
      · rw [hne]
        decide
      · exact h _ (List.count_pos_iff.mp (hcount p hp hne ▸ Nat.one_pos))
  · intro h f hf
    rcases mem_addProfileFolders _ _ hf with hf | hf
    · exact h f (List.mem_append_left _ hf)
    · obtain ⟨⟨p, hp, rfl⟩, -⟩ := (mem_folderNames _).mp hf
      exact h _ (List.mem_append_right _ (List.mem_map_of_mem hp))

/-- The condition on the folders before says what they are like afterwards. -/
theorem foldersInOrder_iff (hroom : s.SftpFolders.length ≤ SFTP_MAX_FOLDERS) : s.FoldersInOrder ↔
    (∀ p ∈ s.SftpProfiles,
      (addProfileFolders s.SftpFolders s.SftpProfiles).count p.Folder =
        if p.Folder.text = [] then 0 else 1) ∧
    ∀ f ∈ addProfileFolders s.SftpFolders s.SftpProfiles, ¬ ascii " ]" <:+: f.text := by
  constructor
  · intro h
    have hnamed :=
      (count_named_iff hroom).mpr ⟨fun p hp hne => (alone_iff p).mpr (h.alone p hp hne), h.room⟩
    refine ⟨fun p hp => ?_, (plain_iff hnamed).mpr h.plain⟩
    split_ifs with hnil
    · exact (count_root_iff s hnil).mpr (h.root p hp hnil)
    · exact hnamed p hp hnil
  · rintro ⟨hcount, hplain⟩
    have hnamed : ∀ p ∈ s.SftpProfiles, p.Folder.text ≠ [] →
        (addProfileFolders s.SftpFolders s.SftpProfiles).count p.Folder = 1 :=
      fun p hp hne => (hcount p hp).trans (if_neg hne)
    obtain ⟨halone, hfits⟩ := (count_named_iff hroom).mp hnamed
    exact {
      root := fun p hp hnil => (count_root_iff s hnil).mp ((hcount p hp).trans (if_pos hnil))
      alone := fun p hp hne => (alone_iff p).mp (halone p hp hne)
      room := hfits
      plain := (plain_iff hnamed).mp hplain }

end SessionManager

/-- The list shows every profile once and is read right, exactly if the folders are in order. -/
theorem session_list_iff (s : SessionManager) (d : ConnectDialog)
    (hroom : s.SftpFolders.length ≤ SFTP_MAX_FOLDERS) :
    (∃ d', (s.fillSessionList d).dialog = some d' ∧ (s.fillSessionList d).ListedRight d') ↔
    s.FoldersInOrder := by
  rw [SessionManager.foldersInOrder_iff hroom]
  constructor
  · rintro ⟨d', hd', h⟩
    obtain rfl := Option.some.inj hd'
    exact (SessionManager.listedRight_iff rfl).mp h
  · exact fun h => ⟨_, rfl, (SessionManager.listedRight_iff rfl).mpr h⟩

/-- One profile in a folder and two in the root. -/
theorem session_list_three :
    ∃ d', (threeSessions.fillSessionList portTyped).dialog = some d' ∧
      (threeSessions.fillSessionList portTyped).ListedRight d' :=
  (session_list_iff threeSessions portTyped (by decide)).mpr
    { root := by decide +kernel
      alone := by decide +kernel
      room := by decide +kernel
      plain := by decide +kernel }

/-- The list has the folder in another spelling. -/
def otherSpelling : SessionManager :=
  { threeSessions with
    SftpProfiles := [namedSession "a" "work"]
    SftpFolders := [.copy 128 (ascii "Work")] }

/-- A profile whose folder is listed in another spelling has no row. -/
theorem not_session_list :
    ¬ ∀ (s : SessionManager) (d : ConnectDialog), s.SftpProfiles.length ≤ SFTP_MAX_PROFILES →
    s.SftpFolders.length ≤ SFTP_MAX_FOLDERS →
    ∃ d', (s.fillSessionList d).dialog = some d' ∧ (s.fillSessionList d).ListedRight d' := by
  intro h
  obtain ⟨d', hd', hright⟩ := h otherSpelling portTyped (by decide) (by decide)
  obtain rfl := Option.some.inj hd'
  have hcount := ((SessionManager.listedRight_iff rfl).mp hright).1 _ List.mem_cons_self
  revert hcount
  decide +kernel

end SalamanderSftp
