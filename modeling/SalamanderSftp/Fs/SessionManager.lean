import SalamanderSftp.Fs.Configuration
import SalamanderSftp.Lib.Machine
import SalamanderSftp.Lib.OneEntry

/-!
# The session manager

The connect dialog shows the saved profiles in a list box, each row with the index of its profile,
below the header of its folder. What Save writes is remembered apart from the list, in
`g_SelectedProfileIndex`, which outlives the dialog.

1. The rows are those of the profiles, whatever was done (`Synced.step`).
2. Rename, New folder and Delete go by the highlighted row (`kept_of_ne_save`).
3. Save goes by the index, and so `selected_only_iff` says in which runs it writes what is
   highlighted.
-/

namespace SalamanderSftp

open Components (findText)
open OneEntry

/-! ## The dialog -/

structure DialogFields where
  Host : CStr
  Port : CStr
  User : CStr
  Password : CStr
  KeyFile : CStr
  Path : CStr
  SftpServer : CStr
  UseCompression : Bool
  ScpFallback : Bool
  ExecOnEnter : Bool
  /-- The second entry of the protocols. -/
  scp : Bool

/-- A row of the list box with its item data, which is -1 for no profile. -/
structure SessionRow where
  text : CStr
  data : Option ℕ

structure ConnectDialog where
  fields : DialogFields
  rows : List SessionRow
  /-- `LB_GETCURSEL`, where -1 is none. -/
  curSel : Option ℕ
  activePage : ℕ

/-- The profiles and what else outlives the dialog, which may be open. -/
structure SessionManager where
  SftpProfiles : List ProfileInFolder
  SftpFolders : List (CharBuf 128)
  SftpDefaultSession : CharBuf 128
  /-- -1 is none. -/
  g_SelectedProfileIndex : Option ℕ
  g_DlgProfile : CSftpProfile
  ConnectPath : CharBuf 260
  dialog : Option ConnectDialog

/-! ## Rows -/

def ProfileInFolder.shownName (p : ProfileInFolder) :
    CStr := if p.Name.text ≠ [] then p.Name.text else p.Host.text

/-- The row of a profile in a folder. -/
def ProfileInFolder.indented (p : ProfileInFolder) :
    CStr := lstrcpyn (ascii "      " ++ p.shownName) 220

def folderHeader (folder : CharBuf 128) :
    CStr := lstrcpyn (ascii "[ " ++ folder.text ++ ascii " ]") 160

def folderKnown (folders : List (CharBuf 128)) (name : CharBuf 128) : Bool :=
  folders.any fun f => stricmpEq f.text name.text

/-- The name is added, if it is new and there is room. -/
def addFolder (folders : List (CharBuf 128)) (name : CharBuf 128) : List (CharBuf 128) :=
  if !folderKnown folders name &&
    folders.length < SFTP_MAX_FOLDERS then folders ++ [name] else folders

/-- The folders that are only in profiles are added. -/
def addProfileFolders (folders : List (CharBuf 128)) (profiles : List ProfileInFolder) :
    List (CharBuf 128) :=
  profiles.foldl (fun fs p => if p.Folder.text ≠ [] then addFolder fs p.Folder else fs) folders

/-- A row for each profile of a folder. -/
def folderRows (profiles : List ProfileInFolder) (folder : CStr) (text : ProfileInFolder → CStr) :
    List SessionRow :=
  profiles.zipIdx.filterMap fun (p, i) => if p.Folder.text =
    folder then some ⟨text p, some i⟩ else none

/-- The rows that `FillSessionList` adds. -/
def sessionRows (profiles : List ProfileInFolder) (folders : List (CharBuf 128)) :
    List SessionRow :=
  folderRows profiles [] ProfileInFolder.shownName ++
    folders.flatMap fun f =>
      ⟨folderHeader f, none⟩ :: folderRows profiles f.text ProfileInFolder.indented

def SessionRow.Shows (r : SessionRow) (i : ℕ) (p : ProfileInFolder) : Prop :=
  r.data = some i ∧ (r.text = p.shownName ∨ r.text = p.indented)

theorem mem_folderRows {profiles : List ProfileInFolder} {folder : CStr}
    {text : ProfileInFolder → CStr}
    {r : SessionRow} (h : r ∈ folderRows profiles folder text) :
    ∃ i p, profiles[i]? = some p ∧ r = ⟨text p, some i⟩ := by
  obtain ⟨⟨p, i⟩, hmem, hr⟩ := List.mem_filterMap.mp h
  dsimp only at hr
  split_ifs at hr
  exact ⟨i, p, List.mk_mem_zipIdx_iff_getElem?.mp hmem, (Option.some.inj hr).symm⟩

/-- Every row with an index is that of the profile with this index. -/
theorem shows_of_mem {profiles : List ProfileInFolder}
    {folders : List (CharBuf 128)} {r : SessionRow} {i : ℕ}
    (h : r ∈ sessionRows profiles folders) (hi : r.data = some i) :
    ∃ p, profiles[i]? = some p ∧ r.Shows i p := by
  rcases List.mem_append.mp h with h | h
  · obtain ⟨j, p, hp, rfl⟩ := mem_folderRows h
    obtain rfl := Option.some.inj hi
    exact ⟨p, hp, rfl, .inl rfl⟩
  · obtain ⟨f, -, hr⟩ := List.mem_flatMap.mp h
    rcases List.mem_cons.mp hr with rfl | hr
    · cases hi
    · obtain ⟨j, p, hp, rfl⟩ := mem_folderRows hr
      obtain rfl := Option.some.inj hi
      exact ⟨p, hp, rfl, .inr rfl⟩

/-! ## Fields -/

/-- `atoi` of the text in a buffer of 16 bytes, where what is not positive is 22. -/
def DialogFields.port (f : DialogFields) : ℤ :=
  let n := atoi (lstrcpyn f.Port 16)
  if n ≤ 0 then 22 else n

theorem isInt_atoi (s : CStr) : IsInt (atoi s) := by
  have hdigits : ∀ t, IsInt (min (digitsValue t : ℤ) (2 ^ 31 - 1)) := by
    intro t
    have hnonneg := Int.natCast_nonneg (digitsValue t)
    exact ⟨by omega, by omega⟩
  unfold atoi
  split
  · next t _ =>
    have hnonneg := Int.natCast_nonneg (digitsValue t)
    exact ⟨by omega, by omega⟩
  · exact hdigits _
  · exact hdigits _

theorem DialogFields.isInt_port (f : DialogFields) : IsInt f.port := by
  unfold port
  dsimp only
  split_ifs
  · exact ⟨by decide, by decide⟩
  · exact isInt_atoi _

/-- The fields as a profile, with a name and a folder. -/
def DialogFields.profile (f : DialogFields) (name folder : CharBuf 128) : ProfileInFolder where
  Name := name
  Host := .copy 256 f.Host
  Port := f.port
  User := .copy 128 f.User
  Password := .copy 256 f.Password
  KeyFile := .copy 260 f.KeyFile
  Path := .copy 260 f.Path
  SftpServer := .copy 260 f.SftpServer
  UseCompression := f.UseCompression
  Protocol := if f.scp then 1 else 0
  ScpFallback := f.ScpFallback
  ExecOnEnter := f.ExecOnEnter
  Folder := folder
  port_int := f.isInt_port
  protocol_int := by split_ifs <;> exact ⟨by decide, by decide⟩

/-- The name that a new profile gets: `user@host:port`, or without a user `host:port`. -/
def DialogFields.generatedName (f : DialogFields) : CharBuf 128 :=
  let user := (CharBuf.copy 128 f.User).text
  let hostPort := (CharBuf.copy 256 f.Host).text ++ colon :: decimalInt f.port
  .copy 128 (if user ≠ [] then user ++ at_ :: hostPort else hostPort)

/-- The fields that show a profile. -/
def fieldsOf (p : CSftpSavedProfile) (path : CStr) : DialogFields where
  Host := p.Host.text
  Port := lstrcpyn (decimalInt (if 0 < p.Port then p.Port else 22)) 16
  User := p.User.text
  Password := p.Password.text
  KeyFile := p.KeyFile.text
  Path := if path ≠ [] then path else [slash]
  SftpServer := p.SftpServer.text
  UseCompression := p.UseCompression
  ScpFallback := p.ScpFallback
  ExecOnEnter := p.ExecOnEnter
  scp := p.Protocol = 1

/-- The fields after New, which keeps one of them. -/
def DialogFields.cleared (f : DialogFields) : DialogFields where
  Host := []
  Port := ascii "22"
  User := []
  Password := []
  KeyFile := []
  Path := [slash]
  SftpServer := []
  UseCompression := false
  ScpFallback := false
  ExecOnEnter := f.ExecOnEnter
  scp := false

/-! ## The selection -/

def ConnectDialog.curRow (d : ConnectDialog) : Option SessionRow := d.curSel.bind (d.rows[·]?)

/-- `LB_SETCURSEL`, which does nothing without such a row. -/
def ConnectDialog.setCurSel (d : ConnectDialog) (row : ℕ) : ConnectDialog :=
  if row < d.rows.length then { d with curSel := some row } else d

/-- The first row of the profile is selected, if there is one. -/
def ConnectDialog.selectProfileInList (d : ConnectDialog) (profileIndex : ℕ) : ConnectDialog :=
  match d.rows.findIdx? (·.data = some profileIndex) with
  | some item => d.setCurSel item
  | none => d

/-- The text between the first `"[ "` and the next `" ]"`. -/
def headerName (text : CStr) : CStr :=
  match findText (ascii "[ ") text with
  | none => []
  | some (_, found) =>
    let s := found.drop 2
    match findText (ascii " ]") s with
    | some (name, _) => name
    | none => s

namespace SessionManager

def getSelProfile (s : SessionManager) (d : ConnectDialog) : Option ℕ :=
  (d.curRow.bind SessionRow.data).filter (· < s.SftpProfiles.length)

/-- An index with its profile. -/
def profileAt (s : SessionManager) (index : Option ℕ) : Option (ℕ × ProfileInFolder) :=
  index.bind fun i => s.SftpProfiles[i]?.map (i, ·)

def selected (s : SessionManager) (d : ConnectDialog) :
    Option (ℕ × ProfileInFolder) := s.profileAt (s.getSelProfile d)

/-- The profile at `g_SelectedProfileIndex`, if that is an index. -/
def edited (s : SessionManager) :
    Option (ℕ × ProfileInFolder) := s.profileAt s.g_SelectedProfileIndex

def getSelFolder (s : SessionManager) (d : ConnectDialog) : CharBuf 128 :=
  match d.curRow with
  | none => .copy 128 []
  | some r => match r.data.bind (s.SftpProfiles[·]?) with
    | some p => .copy 128 p.Folder.text
    | none => .copy 128 (headerName r.text)

/-- The list is filled anew, without a selection. -/
def fillSessionList (s : SessionManager) (d : ConnectDialog) : SessionManager :=
  let folders := addProfileFolders s.SftpFolders s.SftpProfiles
  { s with
    SftpFolders := folders
    dialog := some { d with rows := sessionRows s.SftpProfiles folders, curSel := none } }

def onDialog (s : SessionManager) (f : ConnectDialog → ConnectDialog) : SessionManager :=
  { s with dialog := s.dialog.map f }

def closed (s : SessionManager) : SessionManager := { s with dialog := none }

def loadProfileToFields (s : SessionManager) (p : ProfileInFolder) : SessionManager :=
  { s with g_DlgProfile := { s.g_DlgProfile with Name := .copy 128 p.Name.text } }.onDialog fun d =>
    { d with fields := fieldsOf p.toCSftpSavedProfile p.Path.text }

/-! ## Commands -/

/-- `WM_INITDIALOG`. -/
def initDialog (s : SessionManager) : SessionManager :=
  let s := s.fillSessionList
    { fields := fieldsOf s.g_DlgProfile.toCSftpSavedProfile s.ConnectPath.text
      rows := [], curSel := none, activePage := 0 }
  if s.SftpDefaultSession.text ≠ [] then
    match s.profileAt (s.SftpProfiles.findIdx? (·.Name.text = s.SftpDefaultSession.text)) with
    -- the row is that of the profile's index
    | some (i, p) => ({ s with g_SelectedProfileIndex := some i }.loadProfileToFields p).onDialog
        fun d => d.setCurSel i
    | none => s
  else s

/-- `LBN_SELCHANGE`, or the selection is cancelled. -/
def sessions (s : SessionManager) (d : ConnectDialog) (row : Option ℕ) : SessionManager :=
  let d := { d with curSel := row }
  let s := { s with dialog := some d }
  match s.selected d with
  | some (sel, p) => { s with g_SelectedProfileIndex := some sel }.loadProfileToFields p
  | none => s

/-- Another notification from the list. -/
def sessionsNotify (s : SessionManager) (d : ConnectDialog) : SessionManager :=
  match s.getSelProfile d with
  | some sel => { s with g_SelectedProfileIndex := some sel }
  | none => s

def sessNew (s : SessionManager) (d : ConnectDialog) : SessionManager :=
  { s with
    g_SelectedProfileIndex := none
    g_DlgProfile := { s.g_DlgProfile with Name := .copy 128 [] }
    dialog := some { d with fields := d.fields.cleared, activePage := 0 } }

def sessEdit (s : SessionManager) (d : ConnectDialog) : SessionManager :=
  match s.selected d with
  | some (sel, p) =>
    ({ s with g_SelectedProfileIndex := some sel }.loadProfileToFields p).onDialog fun d =>
      { d with activePage := 0 }
  | none => s

/-- A profile is given another content, and the list is filled. -/
def setProfile (s : SessionManager) (d : ConnectDialog) (i : ℕ) (p : ProfileInFolder) :
    SessionManager :=
  { s with SftpProfiles := s.SftpProfiles.set i p }.fillSessionList d

/-- With the answer of the input dialog. -/
def sessRename (s : SessionManager) (d : ConnectDialog) (answer : Option (CharBuf 128)) :
    SessionManager :=
  match s.selected d, answer with
  | some (sel, p), some name =>
    -- again the row of the profile's index
    if name.text ≠ [] then (s.setProfile d sel { p with Name := name }).onDialog fun d =>
      d.setCurSel sel else s
  | _, _ => s

def sessFolder (s : SessionManager) (d : ConnectDialog) (answer : Option (CharBuf 128)) :
    SessionManager :=
  match answer with
  | none => s
  | some name =>
    if name.text = [] then s
    else
      let s := { s with SftpFolders := addFolder s.SftpFolders name }
      match s.selected d with
      | some (sel, p) => s.setProfile d sel { p with Folder := name }
      | none => s.fillSessionList d

def sessDefault (s : SessionManager) (d : ConnectDialog) : SessionManager :=
  match s.selected d with
  | some (_, p) => { s with SftpDefaultSession := .copy 128 p.Name.text }
  | none => s

/-- What Save does after it has written a profile. -/
def showSaved (s : SessionManager) (d : ConnectDialog) (targetIndex : ℕ) : SessionManager :=
  ({ s with g_SelectedProfileIndex := some targetIndex }.fillSessionList d).onDialog fun d =>
    { d.selectProfileInList targetIndex with activePage := 1 }

def saveSession (s : SessionManager) (d : ConnectDialog) : SessionManager :=
  let folder := s.getSelFolder d
  if (CharBuf.copy 256 d.fields.Host).text = [] then s
  else match s.edited with
    | some (i, old) =>
      let folder :=
        if folder.text = [] ∧ old.Folder.text ≠ [] then .copy 128 old.Folder.text else folder
      let p := d.fields.profile (.copy 128 old.Name.text) folder
      { s with SftpProfiles := s.SftpProfiles.set i p }.showSaved d i
    | none =>
      let p := d.fields.profile d.fields.generatedName folder
      match s.SftpProfiles.findIdx? (·.Name.text = p.Name.text) with
      | some i => { s with SftpProfiles := s.SftpProfiles.set i p }.showSaved d i
      | none =>
        if s.SftpProfiles.length < SFTP_MAX_PROFILES then
          { s with SftpProfiles := s.SftpProfiles ++ [p] }.showSaved d s.SftpProfiles.length
        else s

def delSession (s : SessionManager) (d : ConnectDialog) : SessionManager :=
  match s.getSelProfile d with
  | some sel =>
    { s with
      SftpProfiles := s.SftpProfiles.eraseIdx sel
      g_SelectedProfileIndex := none }.fillSessionList d
  | none => s

/-- The name of the connection that the dialog is left with. -/
def dlgName (s : SessionManager) (f : DialogFields) : CharBuf 128 :=
  let host := CharBuf.copy 256 f.Host
  match s.edited with
  | some (_, old) =>
    if stricmpEq host.text old.Host.text then .copy 128 old.Name.text
    else savedName (s.SftpProfiles.map (·.toCSftpSavedProfile)) host (.copy 128 f.User)
  | none => savedName (s.SftpProfiles.map (·.toCSftpSavedProfile)) host (.copy 128 f.User)

def ok (s : SessionManager) (d : ConnectDialog) : SessionManager :=
  if d.activePage = 1 ∧ s.getSelProfile d = none then s
  else
    let p := (d.fields.profile (s.dlgName d.fields) (.copy 128 [])).toCSftpSavedProfile
    let s := { s with
      g_DlgProfile := { p with Valid := s.g_DlgProfile.Valid }
      ConnectPath := .copy 260 d.fields.Path }
    if p.Host.text = [] then s
    else if p.Password.text = [] ∧
      p.KeyFile.text = [] then { s with dialog := some { d with activePage := 0 } }
    else { s with g_DlgProfile := { p with Valid := true } }.closed

inductive Command
  | initDialog
  | typeFields (fields : DialogFields)
  | switchPage (page : ℕ)
  | sessions (row : Option ℕ)
  | sessionsNotify
  | sessNew
  | sessEdit
  | sessRename (answer : Option (CharBuf 128))
  | sessFolder (answer : Option (CharBuf 128))
  | sessDefault
  | saveSession
  | delSession
  | ok
  | cancel

/-- What a command does to an open dialog. -/
def command (s : SessionManager) (d : ConnectDialog) : Command → SessionManager
  | .initDialog => s
  | .typeFields fields => { s with dialog := some { d with fields := fields } }
  | .switchPage page => { s with dialog := some { d with activePage := page } }
  | .sessions row => s.sessions d row
  | .sessionsNotify => s.sessionsNotify d
  | .sessNew => s.sessNew d
  | .sessEdit => s.sessEdit d
  | .sessRename answer => s.sessRename d answer
  | .sessFolder answer => s.sessFolder d answer
  | .sessDefault => s.sessDefault d
  | .saveSession => s.saveSession d
  | .delSession => s.delSession d
  | .ok => s.ok d
  | .cancel => s.closed

/-- The dialog is opened when it is not open, and gets commands when it is. -/
def step (s : SessionManager) (c : Command) : SessionManager :=
  match s.dialog with
  | some d => s.command d c
  | none => match c with
    | .initDialog => s.initDialog
    | _ => s

/-! ## What the user sees -/

def Highlighted (s : SessionManager) (i : ℕ) : Prop :=
  ∃ d ∈ s.dialog, ∃ r ∈ d.curRow, ∃ p ∈ s.SftpProfiles[i]?, r.Shows i p

def NoneHighlighted (s : SessionManager) : Prop := ∀ i, ¬ s.Highlighted i

/-- What a command may modify or remove. -/
def MayChange (s : SessionManager) (c : Command) (i : ℕ) : Prop :=
  s.Highlighted i ∨ (c = .saveSession ∧ s.NoneHighlighted ∧
    ∃ d ∈ s.dialog, ∃ p ∈ s.SftpProfiles[i]?, p.Name = d.fields.generatedName)

/-- At most one profile changes, and it is one that may; or Save adds one, with no profile
highlighted. -/
def Kept (s : SessionManager) (c : Command) : Prop :=
  ChangesOnly (s.MayChange c) s.SftpProfiles (s.step c).SftpProfiles ∨
    (c = .saveSession ∧ s.NoneHighlighted ∧ ∃ p, (s.step c).SftpProfiles = s.SftpProfiles ++ [p])

/-- A Save does nothing without a host. It is in line for the profile at `g_SelectedProfileIndex` if
the profile's row is highlighted, or none is and the profile has the name that would be generated,
or nothing changes; without such a profile, if none is highlighted, or the first with the generated
name is, or nothing changes. -/
def SaveInLine (s : SessionManager) (d : ConnectDialog) : Prop :=
  (CharBuf.copy 256 d.fields.Host).text = [] ∨
    match s.edited with
    | some (i, old) =>
      let folder := if (s.getSelFolder d).text = [] then old.Folder else s.getSelFolder d
      s.Highlighted i ∨ (s.NoneHighlighted ∧ old.Name = d.fields.generatedName) ∨
        d.fields.profile old.Name folder = old
    | none =>
      s.NoneHighlighted ∨
        match s.SftpProfiles.findIdx? (·.Name.text = d.fields.generatedName.text) with
        | some i => s.Highlighted i ∨
            s.SftpProfiles[i]? = some (d.fields.profile d.fields.generatedName (s.getSelFolder d))
        | none => SFTP_MAX_PROFILES ≤ s.SftpProfiles.length

def InLine (s : SessionManager) (c : Command) :
    Prop := c = .saveSession → ∀ d ∈ s.dialog, s.SaveInLine d

def Synced (s : SessionManager) :
    Prop := ∀ d ∈ s.dialog, d.rows = sessionRows s.SftpProfiles s.SftpFolders

/-! ## The list and the profiles -/

section Commands

variable {s : SessionManager} {d : ConnectDialog} {c : Command}

@[simp] theorem fillSessionList_profiles :
    (s.fillSessionList d).SftpProfiles = s.SftpProfiles := rfl

@[simp] theorem onDialog_profiles (f : ConnectDialog → ConnectDialog) :
    (s.onDialog f).SftpProfiles = s.SftpProfiles := rfl

@[simp] theorem closed_profiles : s.closed.SftpProfiles = s.SftpProfiles := rfl

@[simp] theorem loadProfileToFields_profiles (p : ProfileInFolder) :
    (s.loadProfileToFields p).SftpProfiles = s.SftpProfiles := rfl

@[simp] theorem setProfile_profiles (i : ℕ) (p : ProfileInFolder) :
    (s.setProfile d i p).SftpProfiles = s.SftpProfiles.set i p := rfl

@[simp] theorem showSaved_profiles (i : ℕ) : (s.showSaved d i).SftpProfiles = s.SftpProfiles := rfl

theorem synced_fillSessionList (s : SessionManager) (d : ConnectDialog) :
    (s.fillSessionList d).Synced := by
  intro e he
  obtain rfl := Option.some.inj he
  rfl

theorem synced_closed (s : SessionManager) : s.closed.Synced := fun _ h => nomatch h

theorem Synced.onDialog (h : s.Synced) {f : ConnectDialog → ConnectDialog}
    (hf : ∀ d, (f d).rows = d.rows) :
    (s.onDialog f).Synced := by
  intro e he
  obtain ⟨d, hd, rfl⟩ := Option.map_eq_some_iff.mp he
  rw [hf]
  exact h d hd

theorem Synced.dialog (h : s.Synced) (hd : s.dialog = some d)
    {t : SessionManager} {e : ConnectDialog}
    (ht : t.dialog = some e) (he : e.rows = d.rows) (hprofiles : t.SftpProfiles = s.SftpProfiles)
    (hfolders : t.SftpFolders = s.SftpFolders) : t.Synced := by
  intro e' he'
  obtain rfl := Option.some.inj (ht.symm.trans he')
  rw [he, hprofiles, hfolders]
  exact h d hd

theorem setCurSel_rows (d : ConnectDialog) (row : ℕ) : (d.setCurSel row).rows = d.rows := by
  unfold ConnectDialog.setCurSel
  split_ifs <;> rfl

theorem selectProfileInList_rows (d : ConnectDialog) (i : ℕ) :
    (d.selectProfileInList i).rows = d.rows := by
  unfold ConnectDialog.selectProfileInList
  split
  · exact setCurSel_rows d _
  · rfl

theorem profileAt_eq_some {index : Option ℕ} {i : ℕ} {p : ProfileInFolder}
    (h : s.profileAt index = some (i, p)) :
    index = some i ∧ s.SftpProfiles[i]? = some p := by
  obtain ⟨j, hindex, hj⟩ := Option.bind_eq_some_iff.mp h
  obtain ⟨q, hq, hpair⟩ := Option.map_eq_some_iff.mp hj
  obtain ⟨rfl, rfl⟩ := Prod.mk.inj hpair
  exact ⟨hindex, hq⟩

/-- The profile that `GetSelProfile` returns is the one that the user sees highlighted. -/
theorem getSelProfile_eq_some_iff (h : s.Synced) (hd : s.dialog = some d) {i : ℕ} :
    s.getSelProfile d = some i ↔ s.Highlighted i := by
  constructor
  · intro hi
    obtain ⟨hdata, -⟩ := Option.filter_eq_some_iff.mp hi
    obtain ⟨r, hr, hri⟩ := Option.bind_eq_some_iff.mp hdata
    obtain ⟨row, -, hrow⟩ := Option.bind_eq_some_iff.mp hr
    have hmem : r ∈ sessionRows s.SftpProfiles s.SftpFolders := h d hd ▸ List.mem_of_getElem? hrow
    obtain ⟨p, hp, hshows⟩ := shows_of_mem hmem hri
    exact ⟨d, hd, r, hr, p, hp, hshows⟩
  · rintro ⟨e, he, r, hr, p, hp, hdata, -⟩
    obtain rfl := Option.some.inj (hd.symm.trans he)
    obtain ⟨hi, -⟩ := List.getElem?_eq_some_iff.mp hp
    exact Option.filter_eq_some_iff.mpr
      ⟨Option.bind_eq_some_iff.mpr ⟨r, hr, hdata⟩, decide_eq_true hi⟩

theorem Synced.loadProfileToFields (h : s.Synced) (p : ProfileInFolder) :
    (s.loadProfileToFields p).Synced :=
  Synced.onDialog (s := { s with g_DlgProfile := _ }) h fun _ => rfl

theorem synced_showSaved (s : SessionManager) (d : ConnectDialog) (i : ℕ) :
    (s.showSaved d i).Synced :=
  (synced_fillSessionList _ d).onDialog fun e => selectProfileInList_rows e i

theorem synced_initDialog (s : SessionManager) : s.initDialog.Synced := by
  unfold initDialog
  dsimp only
  generalize hfill : s.fillSessionList _ = t
  have ht : t.Synced := hfill ▸ synced_fillSessionList s _
  split_ifs
  · split
    · next i p _ =>
      have hloaded :=
        Synced.loadProfileToFields (s := { t with g_SelectedProfileIndex := some i }) ht p
      exact hloaded.onDialog fun e => setCurSel_rows e i
    · exact ht
  · exact ht

theorem Synced.sessions (h : s.Synced) (hd : s.dialog = some d) (row : Option ℕ) :
    (s.sessions d row).Synced := by
  have hselected : ({ s with dialog := some { d with curSel := row } } : SessionManager).Synced :=
    h.dialog hd rfl rfl rfl rfl
  unfold SessionManager.sessions
  dsimp only
  split
  · next sel p _ =>
    exact Synced.loadProfileToFields
      (s := { s with g_SelectedProfileIndex := some sel, dialog := some _ }) hselected p
  · exact hselected

theorem Synced.sessEdit (h : s.Synced) : (s.sessEdit d).Synced := by
  unfold SessionManager.sessEdit
  split
  · next sel p _ =>
    exact (Synced.loadProfileToFields
      (s := { s with g_SelectedProfileIndex := some sel }) h p).onDialog fun _ => rfl
  · exact h

theorem Synced.sessRename (h : s.Synced) (answer : Option (CharBuf 128)) :
    (s.sessRename d answer).Synced := by
  unfold SessionManager.sessRename
  split
  · next sel p name _ =>
    split_ifs
    · exact (synced_fillSessionList _ d).onDialog fun e => setCurSel_rows e sel
    · exact h
  · exact h

theorem Synced.sessFolder (h : s.Synced) (answer : Option (CharBuf 128)) :
    (s.sessFolder d answer).Synced := by
  unfold SessionManager.sessFolder
  split
  · exact h
  · split_ifs
    · exact h
    · dsimp only
      split <;> exact synced_fillSessionList _ d

theorem Synced.saveSession (h : s.Synced) : (s.saveSession d).Synced := by
  unfold SessionManager.saveSession
  dsimp only
  split
  · exact h
  · split
    · exact synced_showSaved _ d _
    · split
      · exact synced_showSaved _ d _
      · split
        · exact synced_showSaved _ d _
        · exact h

theorem Synced.ok (h : s.Synced) (hd : s.dialog = some d) : (s.ok d).Synced := by
  unfold SessionManager.ok
  dsimp only
  split_ifs
  · exact h
  · exact h
  · exact h.dialog hd rfl rfl rfl rfl
  · exact synced_closed _

/-- Whatever is done, the rows are those of the profiles. -/
theorem Synced.step (h : s.Synced) (c : Command) : (s.step c).Synced := by
  unfold SessionManager.step
  split
  · next d hd =>
    cases c with
    | initDialog => exact h
    | typeFields fields => exact h.dialog hd rfl rfl rfl rfl
    | switchPage page => exact h.dialog hd rfl rfl rfl rfl
    | sessions row => exact h.sessions hd row
    | sessionsNotify =>
      unfold command SessionManager.sessionsNotify
      dsimp only
      split <;> exact h
    | sessNew => exact h.dialog hd rfl rfl rfl rfl
    | sessEdit => exact h.sessEdit
    | sessRename answer => exact h.sessRename answer
    | sessFolder answer => exact h.sessFolder answer
    | sessDefault =>
      unfold command SessionManager.sessDefault
      dsimp only
      split <;> exact h
    | saveSession => exact h.saveSession
    | delSession =>
      unfold command SessionManager.delSession
      dsimp only
      split
      · exact synced_fillSessionList _ d
      · exact h
    | ok => exact h.ok hd
    | cancel => exact synced_closed s
  · split
    · exact synced_initDialog s
    · exact h

/-! ## One command -/

theorem initDialog_profiles (s : SessionManager) : s.initDialog.SftpProfiles = s.SftpProfiles := by
  unfold initDialog
  dsimp only
  split_ifs
  · split <;> simp
  · simp

theorem sessions_profiles (row : Option ℕ) : (s.sessions d row).SftpProfiles = s.SftpProfiles := by
  unfold sessions
  dsimp only
  split <;> simp

theorem sessionsNotify_profiles : (s.sessionsNotify d).SftpProfiles = s.SftpProfiles := by
  unfold sessionsNotify
  split <;> rfl

theorem sessEdit_profiles : (s.sessEdit d).SftpProfiles = s.SftpProfiles := by
  unfold sessEdit
  split <;> simp

theorem sessDefault_profiles : (s.sessDefault d).SftpProfiles = s.SftpProfiles := by
  unfold sessDefault
  split <;> rfl

theorem ok_profiles : (s.ok d).SftpProfiles = s.SftpProfiles := by
  unfold ok
  dsimp only
  split_ifs <;> simp

/-- Rename, New folder and Delete change what `GetSelProfile` returns. -/
theorem sessRename_changes {may : ℕ → Prop} (hmay : ∀ i, s.getSelProfile d = some i → may i)
    (answer : Option (CharBuf 128)) :
    ChangesOnly may s.SftpProfiles (s.sessRename d answer).SftpProfiles := by
  unfold sessRename
  split
  · next sel p name hsel =>
    split_ifs
    · rw [onDialog_profiles, setProfile_profiles]
      exact .set (hmay sel (profileAt_eq_some hsel).1) _ _
    · exact .refl may _
  · exact .refl may _

theorem sessFolder_changes {may : ℕ → Prop} (hmay : ∀ i, s.getSelProfile d = some i → may i)
    (answer : Option (CharBuf 128)) :
    ChangesOnly may s.SftpProfiles (s.sessFolder d answer).SftpProfiles := by
  unfold sessFolder
  split
  · exact .refl may _
  · split_ifs
    · exact .refl may _
    · dsimp only
      split
      · next sel p hsel =>
        rw [setProfile_profiles]
        exact .set (hmay sel (profileAt_eq_some hsel).1) _ _
      · rw [fillSessionList_profiles]
        exact .refl may _

theorem delSession_changes {may : ℕ → Prop} (hmay : ∀ i, s.getSelProfile d = some i → may i) :
    ChangesOnly may s.SftpProfiles (s.delSession d).SftpProfiles := by
  unfold delSession
  split
  · next sel hsel =>
    rw [fillSessionList_profiles]
    exact .eraseIdx (hmay sel hsel) _
  · exact .refl may _

theorem kept_of_profiles_eq (h : (s.step c).SftpProfiles = s.SftpProfiles) : s.Kept c :=
  .inl (h ▸ .refl _ _)

theorem step_of_dialog (hd : s.dialog = some d) (c : Command) : s.step c = s.command d c := by
  unfold step
  rw [hd]

theorem step_of_closed (hd : s.dialog = none) (hc : c ≠ .initDialog) : s.step c = s := by
  unfold step
  rw [hd]
  cases c <;> first | rfl | exact absurd rfl hc

/-- All commands but Save go by the row that is highlighted. -/
theorem kept_of_ne_save (h : s.Synced) (hc : c ≠ .saveSession) : s.Kept c := by
  rcases hdialog : s.dialog with _ | d
  · by_cases hinit : c = .initDialog
    · refine kept_of_profiles_eq ?_
      subst hinit
      unfold step
      rw [hdialog]
      exact initDialog_profiles s
    · exact kept_of_profiles_eq (by rw [step_of_closed hdialog hinit])
  · have hstep := step_of_dialog hdialog c
    have hmay : ∀ i, s.getSelProfile d = some i → s.MayChange c i :=
      fun i hi => .inl ((getSelProfile_eq_some_iff h hdialog).mp hi)
    unfold Kept
    rw [hstep]
    refine .inl ?_
    cases c with
    | initDialog => exact .refl _ _
    | typeFields fields => exact .refl _ _
    | switchPage page => exact .refl _ _
    | sessions row => exact sessions_profiles (s := s) (d := d) row ▸ .refl _ _
    | sessionsNotify => exact sessionsNotify_profiles (s := s) (d := d) ▸ .refl _ _
    | sessNew => exact .refl _ _
    | sessEdit => exact sessEdit_profiles (s := s) (d := d) ▸ .refl _ _
    | sessRename answer => exact sessRename_changes hmay answer
    | sessFolder answer => exact sessFolder_changes hmay answer
    | sessDefault => exact sessDefault_profiles (s := s) (d := d) ▸ .refl _ _
    | saveSession => exact absurd rfl hc
    | delSession => exact delSession_changes hmay
    | ok => exact ok_profiles (s := s) (d := d) ▸ .refl _ _
    | cancel => exact .refl _ _

/-! ## Save -/

theorem mayChange_save_iff (hd : s.dialog = some d) {i : ℕ} {old : ProfileInFolder}
    (hold : s.SftpProfiles[i]? = some old) :
    s.MayChange .saveSession i ↔ s.Highlighted i ∨
    (s.NoneHighlighted ∧ old.Name = d.fields.generatedName) := by
  refine or_congr_right ⟨?_, ?_⟩
  · rintro ⟨-, hnone, e, he, p, hp, hname⟩
    obtain rfl := Option.some.inj (hd.symm.trans he)
    obtain rfl := Option.some.inj (hold.symm.trans hp)
    exact ⟨hnone, hname⟩
  · rintro ⟨hnone, hname⟩
    exact ⟨rfl, hnone, d, hd, old, hold, hname⟩

theorem keptFolder_eq (selected own : CharBuf 128) :
    (if selected.text = [] ∧ own.text ≠ [] then own else selected) = if selected.text =
      [] then own else selected := by
  by_cases hselected : selected.text = []
  · rw [if_pos hselected]
    by_cases hown : own.text = []
    · rw [if_neg fun h => h.2 hown]
      exact CharBuf.ext (hselected.trans hown.symm)
    · rw [if_pos ⟨hselected, hown⟩]
  · rw [if_neg fun h => hselected h.1, if_neg hselected]

theorem kept_save_set_iff (hd : s.dialog = some d) {i : ℕ} {old p : ProfileInFolder}
    (hold : s.SftpProfiles[i]? = some old)
    (hwritten : (s.saveSession d).SftpProfiles = s.SftpProfiles.set i p) : s.Kept .saveSession ↔
      s.Highlighted i ∨ (s.NoneHighlighted ∧ old.Name = d.fields.generatedName) ∨ p = old := by
  have hlen : (s.SftpProfiles.set i p).length = s.SftpProfiles.length := List.length_set
  have hadded : ¬ ∃ q, s.SftpProfiles.set i p = s.SftpProfiles ++ [q] := by
    rintro ⟨q, hq⟩
    rw [hq, List.length_append, List.length_singleton] at hlen
    omega
  have hstep : (s.step .saveSession).SftpProfiles = s.SftpProfiles.set i p := by
    rw [step_of_dialog hd]
    exact hwritten
  calc s.Kept .saveSession ↔
    ChangesOnly (s.MayChange .saveSession) s.SftpProfiles (s.SftpProfiles.set i p) := by
        unfold Kept
        rw [hstep]
        exact or_iff_left fun h => hadded h.2.2
    _ ↔ s.MayChange .saveSession i ∨ old = p := ChangesOnly.set_iff hold
    _ ↔ _ := by rw [mayChange_save_iff hd hold, or_assoc, eq_comm (a := old) (b := p)]

theorem kept_save_append_iff (hd : s.dialog = some d) {p : ProfileInFolder}
    (hwritten : (s.saveSession d).SftpProfiles = s.SftpProfiles ++ [p]) :
    s.Kept .saveSession ↔ s.NoneHighlighted := by
  have hstep : (s.step .saveSession).SftpProfiles = s.SftpProfiles ++ [p] := by
    rw [step_of_dialog hd]
    exact hwritten
  unfold Kept
  rw [hstep]
  constructor
  · rintro (h | ⟨-, hnone, -⟩)
    · exact absurd h (ChangesOnly.not_append _ _ _)
    · exact hnone
  · exact fun hnone => .inr ⟨rfl, hnone, p, rfl⟩

theorem kept_save_iff (hd : s.dialog = some d) : s.Kept .saveSession ↔ s.SaveInLine d := by
  have hsame : (s.saveSession d).SftpProfiles = s.SftpProfiles → s.Kept .saveSession := fun h =>
    kept_of_profiles_eq (by rwa [step_of_dialog hd])
  unfold SaveInLine
  by_cases hhost : (CharBuf.copy 256 d.fields.Host).text = []
  · exact iff_of_true (hsame (by rw [saveSession, if_pos hhost])) (.inl hhost)
  rw [or_iff_right hhost]
  rcases hedited : s.edited with _ | ⟨i, old⟩
  · dsimp only
    rcases hfind : s.SftpProfiles.findIdx? (·.Name.text = d.fields.generatedName.text) with _ | i
    · by_cases hroom : s.SftpProfiles.length < SFTP_MAX_PROFILES
      · have hadd : (s.saveSession d).SftpProfiles =
            s.SftpProfiles ++ [d.fields.profile d.fields.generatedName (s.getSelFolder d)] := by
          rw [saveSession, if_neg hhost, hedited]
          dsimp only [DialogFields.profile]
          rw [hfind]
          dsimp only
          rw [if_pos hroom, showSaved_profiles]
        rw [kept_save_append_iff hd hadd, hfind]
        exact (or_iff_left (Nat.not_le_of_lt hroom)).symm
      · rw [hfind]
        refine iff_of_true (hsame ?_) (.inr (Nat.le_of_not_lt hroom))
        rw [saveSession, if_neg hhost, hedited]
        dsimp only [DialogFields.profile]
        rw [hfind]
        dsimp only
        rw [if_neg hroom]
    · obtain ⟨hi, hname, -⟩ := List.findIdx?_eq_some_iff_getElem.mp hfind
      have hold : s.SftpProfiles[i]? = some s.SftpProfiles[i] := List.getElem?_eq_getElem hi
      have hnamed : s.SftpProfiles[i].Name = d.fields.generatedName :=
        CharBuf.ext (of_decide_eq_true hname)
      have hwritten : (s.saveSession d).SftpProfiles =
          s.SftpProfiles.set i (d.fields.profile d.fields.generatedName (s.getSelFolder d)) := by
        rw [saveSession, if_neg hhost, hedited]
        dsimp only [DialogFields.profile]
        rw [hfind]
        rfl
      rw [kept_save_set_iff hd hold hwritten, hfind, and_iff_left hnamed, or_left_comm]
      dsimp only
      rw [hold, Option.some.injEq, eq_comm]
  · refine kept_save_set_iff hd (profileAt_eq_some hedited).2 ?_
    rw [saveSession, if_neg hhost, hedited]
    dsimp only
    rw [showSaved_profiles, CharBuf.copy_text_self, CharBuf.copy_text_self, keptFolder_eq]

/-- The profiles are kept by a command exactly if it is in line. -/
theorem kept_iff_inLine (h : s.Synced) (c : Command) : s.Kept c ↔ s.InLine c := by
  by_cases hc : c = .saveSession
  · subst hc
    rcases hdialog : s.dialog with _ | d
    · refine iff_of_true (kept_of_profiles_eq ?_) fun _ e he => ?_
      · rw [step_of_closed hdialog (by rintro ⟨⟩)]
      · rw [hdialog] at he
        cases he
    · rw [kept_save_iff hdialog]
      constructor
      · intro hsave _ e he
        obtain rfl := Option.some.inj (hdialog.symm.trans he)
        exact hsave
      · exact fun hline => hline rfl d hdialog
  · exact iff_of_true (kept_of_ne_save h hc) fun hsave => absurd hsave hc

end Commands

/-! ## Runs -/

/-- Every command of the run keeps the profiles that the user does not see selected. -/
def AllKept : SessionManager → List Command → Prop := Machine.Along step Kept

def AllInLine : SessionManager → List Command → Prop := Machine.Along step InLine

end SessionManager

/-- From a closed dialog on, whatever is saved and remembered, the commands change only the session
that is seen selected, exactly if every Save is in line. -/
theorem selected_only_iff (s : SessionManager) (commands : List SessionManager.Command) :
    s.closed.AllKept commands ↔ s.closed.AllInLine commands :=
  Machine.along_congr (fun _ c h => SessionManager.Synced.step h c)
    (fun _ c h => SessionManager.kept_iff_inLine h c) commands (SessionManager.synced_closed s)

/-- A server whose host is its name. -/
def namedSession (name folder : String) : ProfileInFolder :=
  { blankProfile with
    Name := .copy 128 (ascii name)
    Host := .copy 256 (ascii name)
    Folder := .copy 128 (ascii folder) }

/-- One in a folder and two that are not, the first of them the default. -/
def threeSessions : SessionManager where
  SftpProfiles := [namedSession "a" "f", namedSession "b" "", namedSession "c" ""]
  SftpFolders := []
  SftpDefaultSession := .copy 128 (ascii "b")
  g_SelectedProfileIndex := none
  g_DlgProfile := { blankProfile.toCSftpSavedProfile with Valid := false }
  ConnectPath := .copy 260 []
  dialog := none

/-- The fields of the second server with another port. -/
def otherPort : DialogFields :=
  { fieldsOf (namedSession "b" "").toCSftpSavedProfile [] with Port := ascii "23" }

/-- The dialog after a port was typed. -/
def portTyped : ConnectDialog where
  fields := otherPort
  rows :=
    [⟨ascii "b", some 1⟩, ⟨ascii "c", some 2⟩, ⟨ascii "[ f ]", none⟩, ⟨ascii "      a", some 0⟩]
  curSel := some 1
  activePage := 0

/-- The dialog opens with the second server in its fields and the row of the third highlighted. -/
theorem not_selected_only : ¬ ∀ (s : SessionManager) (commands : List SessionManager.Command),
    s.closed.AllKept commands := by
  intro h
  have hkept := (h threeSessions [.initDialog, .typeFields otherPort, .saveSession]).2.2.1
  generalize hs : SessionManager.step (SessionManager.step threeSessions.closed _) _ = s at hkept
  have hsynced : s.Synced := hs ▸ ((SessionManager.synced_closed _).step _).step _
  have hdialog : s.dialog = some portTyped := by
    rw [← hs]
    rfl
  have hthird : s.Highlighted 2 :=
    (SessionManager.getSelProfile_eq_some_iff hsynced hdialog).mp (by rw [← hs]; rfl)
  have hedited : s.edited = some (1, namedSession "b" "") := by
    rw [← hs]
    rfl
  have hline := (SessionManager.kept_save_iff hdialog).mp hkept
  unfold SessionManager.SaveInLine at hline
  rw [hedited] at hline
  rcases hline with hhost | hsecond | ⟨hnone, -⟩ | hsame
  · exact absurd hhost (by decide +kernel)
  · have hboth := (SessionManager.getSelProfile_eq_some_iff hsynced hdialog).mpr hsecond
    rw [(SessionManager.getSelProfile_eq_some_iff hsynced hdialog).mpr hthird] at hboth
    cases hboth
  · exact hnone 2 hthird
  · have hport : portTyped.fields.port = 22 := congrArg (fun p : ProfileInFolder => p.Port) hsame
    exact absurd hport (by decide +kernel)

end SalamanderSftp
