import SalamanderSftp.Fs.ChangePath
import SalamanderSftp.Worker.Recursion

/-!
# Paths that name another server

`IsCurrentPath` and `CopyOrMoveFromDiskToFS` strip the server from the path they get and go on with
the connection they have. The text of the server makes no difference to either of them
(`other_server_refused_iff`), although `ChangePath` and `CopyOrMoveFromFS` do read it.
-/

namespace SalamanderSftp

open Components

/-! ## The entry points -/

def isCurrentPath (currentFSNameIndex fsNameIndex : ℤ) (fs : FsInstance) (userPart : CStr) : Bool :=
  currentFSNameIndex == fsNameIndex && sftpIsSamePath fs.Path.text (sftpStripHost userPart)

def star : Byte := 42
def question : Byte := 63

/-- The path without its last component when that is a mask. -/
def trimMask (separator : Byte) (path : CStr) : CStr :=
  let (before, comp) := (splitLast (· == separator) path).getD ([], path)
  if star ∈ comp ∨ question ∈ comp then before else path

structure EnumItem where
  name : CStr
  isDir : Bool

/-- The arguments of `CopyOrMoveFromDiskToFS`, with the items that `next` goes through. -/
structure DiskToFsCall where
  copy : Bool
  mode : ℤ
  sourcePath : CStr
  items : List EnumItem
  targetPath : CStr

/-- What the call needs of Salamander: `SalPathAppend` to a buffer of `2 * MAX_PATH` bytes, and
whether the thread of the progress dialog starts. -/
structure Salamander where
  salPathAppend : CStr → CStr → CStr
  dialogStarts : Bool

structure DiskToFsResult where
  ok : Bool
  invalidPathOrCancel : Bool
  targetPath : CStr
  fs : FsInstance
  /-- The worker that was started: its profile and its queue. -/
  worker : Option (CSftpProfile × List TransferTask)

/-- The text behind the first ':', or all of it. -/
def behindColon (targetPath : CStr) : CStr := (cutAt colon targetPath).2.getD targetPath

/-- The remote directory that the target path is read as. -/
def targetDir (targetPath : CStr) : CStr :=
  let remoteDir := lstrcpyn (sftpStripHost (behindColon targetPath)) MAX_PATH
  let remoteDir := remoteDir.map fun c => if c = backslash then slash else c
  sftpNormalize (trimMask slash remoteDir)

def uploadTask (salamander : Salamander) (call : DiskToFsCall) (remoteDir : CStr)
    (item : EnumItem) : TransferTask where
  TaskType := .upload
  RemotePath := sftpJoin remoteDir
    (((splitLast (· == backslash) item.name).map Prod.snd).getD item.name) MAX_PATH
  LocalPath := salamander.salPathAppend (lstrcpyn call.sourcePath (2 * MAX_PATH)) item.name
  IsDirectory := item.isDir
  DeleteSourceOnSuccess := !call.copy

def copyOrMoveFromDiskToFS (world : SshWorld) (salamander : Salamander)
    (call : DiskToFsCall) (fs : FsInstance) :
    DiskToFsResult :=
  if call.mode =
    1 then ⟨true, false, salamander.salPathAppend call.targetPath (ascii "*.*"), fs, none⟩
  else
    let (ok, connected, _) := sftpEnsureConnected world fs.connected fs.Profile
    let fs := { fs with connected := connected }
    if !ok || !salamander.dialogStarts then ⟨false, true, call.targetPath, fs, none⟩
    else
      let tasks := call.items.map (uploadTask salamander call (targetDir call.targetPath))
      ⟨true, false, call.targetPath, fs, some (fs.Profile, tasks)⟩

/-! ## Another server -/

/-- The user part is the address between slashes and this path, which starts with a slash or is
missing. -/
def Address.TypedBefore (a : Address) (path userPart : CStr) : Prop :=
  ∃ c d, isSlash c = true ∧ isSlash d = true ∧ userPart = c :: d :: (a.text ++ path) ∧
    ∀ e ∈ path.head?, isSlash e = true

theorem sftpStripHost_typedBefore {a : Address} {path userPart : CStr}
    (h : a.TypedBefore path userPart) :
    sftpStripHost userPart = if path = [] then [slash] else path := by
  obtain ⟨c, d, hc, hd, rfl, hpath⟩ := h
  unfold sftpStripHost
  rw [splitHost_append hc hd (fun _ => Address.not_slash_of_mem_text) hpath]

/-- The path is not taken for the current one, and nothing is queued for upload to the server of the
profile. -/
structure Refused (world : SshWorld) (salamander : Salamander) (currentFSNameIndex fsNameIndex : ℤ)
    (call : DiskToFsCall) (fs : FsInstance) (userPart : CStr) : Prop where
  notCurrent : isCurrentPath currentFSNameIndex fsNameIndex fs userPart = false
  noUpload : ∀ worker ∈ (copyOrMoveFromDiskToFS world salamander call fs).worker,
    worker.1.server = fs.Profile.server → worker.2 = []

/-- The path lies elsewhere anyway, and the copy does not come to its items. -/
structure Harmless (world : SshWorld) (salamander : Salamander) (currentFSNameIndex fsNameIndex : ℤ)
    (call : DiskToFsCall) (fs : FsInstance) (path : CStr) : Prop where
  elsewhere : currentFSNameIndex = fsNameIndex →
    comps (lstrcpyn fs.Path.text MAX_PATH) ≠ comps (lstrcpyn path MAX_PATH)
  noItems : call.mode = 1 ∨ salamander.dialogStarts = false ∨ call.items = [] ∨
    (fs.connected = false ∧
      (fs.Profile.Valid = true → fs.Profile.Host.text ≠ [] →
        world.connects fs.Profile.connectArgs = false))

theorem isCurrentPath_typed {a : Address} {path userPart : CStr} {i j : ℤ} {fs : FsInstance}
    (ht : a.TypedBefore path userPart) : isCurrentPath i j fs userPart = false ↔
      (i = j → comps (lstrcpyn fs.Path.text MAX_PATH) ≠ comps (lstrcpyn path MAX_PATH)) := by
  have hroot : comps (lstrcpyn (if path = [] then [slash] else path) MAX_PATH) =
      comps (lstrcpyn path MAX_PATH) := by
    split_ifs with hnil
    · rw [hnil]
      rfl
    · rfl
  unfold isCurrentPath
  rw [sftpStripHost_typedBefore ht, Bool.and_eq_false_iff, beq_eq_false_iff_ne,
    ← Bool.not_eq_true (sftpIsSamePath _ _),
    sftpIsSamePath_iff, hroot]
  exact imp_iff_not_or.symm

theorem copyOrMoveFromDiskToFS_noUpload {world : SshWorld}
    {salamander : Salamander} {call : DiskToFsCall}
    {fs : FsInstance} :
    (∀ worker ∈ (copyOrMoveFromDiskToFS world salamander call fs).worker,
      worker.1.server = fs.Profile.server → worker.2 = []) ↔
      call.mode = 1 ∨ salamander.dialogStarts = false ∨ call.items = [] ∨
        (sftpEnsureConnected world fs.connected fs.Profile).1 = false := by
  unfold copyOrMoveFromDiskToFS
  by_cases hmode : call.mode = 1
  · simp [hmode]
  rw [if_neg hmode]
  dsimp only
  by_cases hgo : (!(sftpEnsureConnected world fs.connected fs.Profile).1 ||
    !salamander.dialogStarts) = true
  · rw [if_pos hgo]
    rw [Bool.or_eq_true, Bool.not_eq_true', Bool.not_eq_true'] at hgo
    refine iff_of_true (fun _ h => by simp at h) ?_
    tauto
  · rw [if_neg hgo]
    simp only [Bool.or_eq_true, Bool.not_eq_true', not_or, Bool.not_eq_false] at hgo
    simp [hmode, hgo.1, hgo.2]

/-- A path that names another server is refused only where it would have been refused without its
server. -/
theorem other_server_refused_iff (world : SshWorld) (salamander : Salamander)
    (currentFSNameIndex fsNameIndex : ℤ)
    (call : DiskToFsCall) (fs : FsInstance) (a : Address) (path userPart : CStr)
    (ht : a.TypedBefore path userPart) :
    (¬ a.Denotes fs.Profile →
      Refused world salamander currentFSNameIndex fsNameIndex call fs userPart) ↔
      (¬ a.Denotes fs.Profile →
        Harmless world salamander currentFSNameIndex fsNameIndex call fs path) := by
  have hconnect : (sftpEnsureConnected world fs.connected fs.Profile).1 = false ↔
      fs.connected = false ∧
      (fs.Profile.Valid = true → fs.Profile.Host.text ≠ [] →
        world.connects fs.Profile.connectArgs = false) := by
    rw [← Bool.not_eq_true, sftpEnsureConnected_ok, not_or, not_and, not_and,
      Bool.not_eq_true, Bool.not_eq_true]
  apply imp_congr_right
  intro _
  constructor
  · intro h
    refine ⟨(isCurrentPath_typed ht).mp h.notCurrent, ?_⟩
    rw [← hconnect]
    exact copyOrMoveFromDiskToFS_noUpload.mp h.noUpload
  · intro h
    refine ⟨(isCurrentPath_typed ht).mpr h.elsewhere, copyOrMoveFromDiskToFS_noUpload.mpr ?_⟩
    rw [hconnect]
    exact h.noItems

/-- Salamander with a path helper that joins, and a dialog that starts. -/
def Salamander.plain : Salamander := ⟨fun path name => path ++ backslash :: name, true⟩

theorem typedBefore_shortAddress : shortAddress.TypedBefore [slash] (ascii "//h/") :=
  ⟨slash, slash, by decide, by decide, by decide +kernel, by decide +kernel⟩

/-- A panel in another directory of another server, whose connection is lost and cannot be made. -/
def lostPanel : FsInstance :=
  { FsInstance.connectedTo (.copy 256 (ascii "g")) (.copy 260 (ascii "/data")) with
    connected := false }

/-- A file and a directory that are copied to `//h/` without a connection. -/
theorem other_server_refused_elsewhere :
    Refused .refusing .plain 0 0
      ⟨true, 0, ascii "C:", [⟨ascii "f", false⟩, ⟨ascii "d", true⟩], ascii "sftp://h/"⟩
      lostPanel (ascii "//h/") :=
  (other_server_refused_iff _ _ _ _ _ _ shortAddress _ _ typedBefore_shortAddress).mpr
    (fun _ => ⟨fun _ => by decide +kernel, Or.inr (Or.inr (Or.inr ⟨rfl, fun _ _ => rfl⟩))⟩)
    (fun hd => absurd hd.host (by decide +kernel))

/-- A file that is copied to `//h/` goes to `g`, which the panel is connected to. -/
theorem not_other_server_refused :
    ¬ ∀ (world : SshWorld) (salamander : Salamander)
      (currentFSNameIndex fsNameIndex : ℤ) (call : DiskToFsCall)
      (fs : FsInstance) (a : Address) (path userPart : CStr), a.TypedBefore path userPart →
        behindColon call.targetPath = userPart → ¬ a.Denotes fs.Profile →
          Refused world salamander currentFSNameIndex fsNameIndex call fs userPart := by
  intro h
  have hrefused :=
    h .refusing .plain 0 0 ⟨true, 0, ascii "C:", [⟨ascii "f", false⟩], ascii "sftp://h/"⟩
    (.connectedTo (.copy 256 (ascii "g")) (.copy 260 (ascii "/"))) shortAddress _ _
      typedBefore_shortAddress
    (by decide +kernel) (fun hd => absurd hd.host (by decide +kernel))
  exact absurd (hrefused.noUpload _ rfl rfl) (List.cons_ne_nil _ _)

end SalamanderSftp
