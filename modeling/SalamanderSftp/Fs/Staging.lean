import SalamanderSftp.Fs.Runs
import SalamanderSftp.Fs.CopyTarget

/-!
# Copying between servers

The loop of `CopyOrMoveFromFS` for a target on a server: every item is downloaded to its own name in
the directory of `GetTempPath`, uploaded from there by `SftpUploadRecursive`, and what then lies
under that name is removed by `LocalDeleteRecursive`. The local disk is seen through a `LocalDrive`;
a turn of the loop and each of its phases have their own answers of the world (`Turn`), and count
the looks at it from zero.
-/

namespace SalamanderSftp

open Procedure FileTree

/-! ## The local disk -/

/-- How the paths of the local disk name its objects. -/
structure LocalDrive where
  /-- Paths with one key are the same. -/
  key : CStr → CStr
  /-- `SalPathAppend` to a path in a buffer of `2 * MAX_PATH` bytes. -/
  append : CStr → CStr → CStr
  append_fits : ∀ path name, (append path name).length < 2 * MAX_PATH
  /-- The key of the directory that the object with this key lies in. -/
  parent : CStr → CStr
  /-- `GetTempPath`. -/
  tmpDir : CStr

/-- A drive whose paths are told apart by their text. -/
def plainDrive : LocalDrive where
  key := id
  append path name := lstrcpyn (path ++ backslash :: name) (2 * MAX_PATH)
  append_fits path name :=
    (length_lstrcpyn_le (path ++ backslash :: name) (2 * MAX_PATH)).trans_lt (by decide)
  parent path :=
    match path.reverse.dropWhile (· ≠ backslash) with
    | [] => path
    | _ :: rest => rest.reverse
  tmpDir := ascii "C:\\T"

/-- An entry lies directly in the directory at this path. -/
def LocalDrive.IsChild (drive : LocalDrive) (dir path : CStr) : Prop :=
  drive.parent (drive.key path) = drive.key dir ∧ drive.key path ≠ drive.key dir

instance (drive : LocalDrive) (dir path : CStr) : Decidable (drive.IsChild dir path) := by
  unfold LocalDrive.IsChild
  infer_instance

/-- `FindFirstFile` and `FindNextFile` can show this entry: it is there, and a directory as it
says. -/
def LocalDrive.Holds (drive : LocalDrive) (disk : Disk) (dir : CStr) (fd : FindData) : Prop :=
  disk.node drive.key dir = some .dir ∧ drive.IsChild dir (drive.append dir fd.cFileName) ∧
    ∃ node, disk.node drive.key (drive.append dir fd.cFileName) = some node ∧
      (node = .dir ↔ fd.isDirectory = true)

def LocalDrive.Childless (drive : LocalDrive) (disk : Disk) (dir : CStr) : Prop :=
  ∀ e ∈ disk, ¬ drive.IsChild dir e.1

instance (drive : LocalDrive) (disk : Disk) (dir : CStr) :
    Decidable (drive.Childless disk dir) := by
  unfold LocalDrive.Childless
  infer_instance

instance (drive : LocalDrive) (disk : Disk) (dir : CStr) (fd : FindData) :
    Decidable (drive.Holds disk dir fd) := by
  unfold LocalDrive.Holds
  cases h : disk.node drive.key (drive.append dir fd.cFileName) with
  | none => exact .isFalse fun ⟨_, _, _, hnode, _⟩ => by cases hnode
  | some node =>
    refine decidable_of_iff (disk.node drive.key dir = some .dir ∧
      drive.IsChild dir (drive.append dir fd.cFileName) ∧
      (node = .dir ↔ fd.isDirectory = true)) ?_
    simp

/-- What the world answers, with the answers for the local disk and for uploads. -/
structure Staging extends Panel where
  findFiles : ℕ → CStr → Option (List FindData)
  deleteFile : ℕ → Bool
  removeDirectory : ℕ → Bool
  uploadIo : ℕ → UploadIo
  /-- `rmtime >= LocalMTime(local)`. -/
  remoteNotOlder : ℕ → Bool
  /-- What a server's tree has become after `MakeDir`. -/
  serverMade : ℕ → RemoteTree → RemoteTree
  /-- What it has become after `Upload`. -/
  serverOut : ℕ → RemoteTree → RemoteTree

/-- `FindFirstFile` with the mask for all: entries that are there, in any order. -/
def findFirst (drive : LocalDrive) (st : Staging) (path : CStr) (w : FsState) :
    Option (List FindData) × FsState :=
  let dir := lstrcpyn path (2 * MAX_PATH)
  (if w.disk.node drive.key dir = some .dir then
      (st.findFiles w.tick dir).map (List.filter fun fd => IsDots fd.cFileName ∨
        drive.Holds w.disk dir fd)
    else none, w.next)

/-! ## Upload -/

/-- The servers, the disk and the questions, with the local files that an upload has read. -/
structure CopyState where
  fs : FsState
  uploaded : List CStr

/-- `PathType(remote) == 1`. -/
def isRemoteFile (panel : Panel) (conn : Conn) (remote : CStr) (w : FsState) : Bool × FsState :=
  let found : Bool :=
    match (conn.target (w.tree conn) remote).bind (w.tree conn).lookup with
    | none => false
    | some .dir => false
    | some _ => true
  (found && !panel.statFails w.tick, w.next)

/-- `LocalFileSize`: zero when there is no file. -/
def localFileSize (drive : LocalDrive) (path : CStr) (w : FsState) : ℕ :=
  ((w.disk.node drive.key path).map FsNode.size).getD 0

def syncSkipUpload (drive : LocalDrive) (st : Staging) (conn : Conn)
    (local_ remote : CStr) (w : FsState) :
    Bool × FsState :=
  let (found, w) := isRemoteFile st.toPanel conn remote w
  if !found then (false, w)
  else
    let (rsize, w) := statSize st.toPanel conn remote w
    if rsize ≠ some (localFileSize drive local_ w) then (false, w)
      else (st.remoteNotOlder w.tick, w.next)

/-- `conn.Upload(local, remote, resumeOffset)`. -/
def fsUpload (drive : LocalDrive) (st : Staging) (conn : Conn) (local_ remote : CStr)
    (resumeOffset : ℕ) (w : CopyState) :
    Option Bool × CopyState :=
  let content := (w.fs.disk.node drive.key local_).bind FsNode.content?
  let target :=
    ((conn.target (w.fs.tree conn) remote).bind (w.fs.tree conn).lookup).bind fun node =>
    match node with
    | .file content => some content
    | _ => none
  let io := st.uploadIo w.fs.tick
  let io := { io with fopen := io.fopen && content.isSome }
  let r := upload conn.scpMode io remote (content.getD []) target resumeOffset
  let uploaded := if io.fopen then w.uploaded ++ [local_] else w.uploaded
  let tree := if r.opened then st.serverOut w.fs.tick (w.fs.tree conn) else w.fs.tree conn
  (some r.ok, ⟨w.fs.next.setTree conn tree, uploaded⟩)

/-- `conn.Upload` once more after a look at the cancel button. -/
def uploadUnlessCancelled (drive : LocalDrive) (st : Staging) (conn : Conn)
    (local_ remote : CStr) (resumeOffset : ℕ)
    (w : CopyState) : Option Bool × CopyState :=
  let (stop, fs) := sftpIsCancelled st.toPanel w.fs
  if stop then (some false, { w with fs := fs })
  else fsUpload drive st conn local_ remote resumeOffset { w with fs := fs }

/-- The remote size, where a resume could be offered: not in SCP mode, nor for an empty file. -/
def uploadedSize (st : Staging) (conn : Conn) (remote : CStr) (w : FsState) : Option ℕ × FsState :=
  if conn.scpMode then (none, w)
  else
    let (size, w) := statSize st.toPanel conn remote w
    (size.filter (0 < ·), w)

/-- The question about an existing remote file; the parts of the local and of the remote size are
the other way round than for a download. -/
def askUpload (st : Staging) (localSize : ℕ) (remoteSize : Option ℕ) (w : FsState) :
    Verdict × FsState :=
  match remoteSize with
  | some size => askDownload st.toPanel size (some localSize) w
  | none => askDownload st.toPanel 0 none w

/-- The file branch of `SftpUploadRecursive`. -/
def sftpUploadFile (drive : LocalDrive) (st : Staging) (conn : Conn)
    (local_ remote : CStr) (w : CopyState) :
    Option Bool × CopyState :=
  if st.syncMode then
    let (skip, fs) := syncSkipUpload drive st conn local_ remote w.fs
    if skip then (some true, { w with fs := fs })
    else uploadUnlessCancelled drive st conn local_ remote 0 { w with fs := fs }
  else
    let (found, fs) := isRemoteFile st.toPanel conn remote w.fs
    if !found then uploadUnlessCancelled drive st conn local_ remote 0 { w with fs := fs }
    else
      let (remoteSize, fs) := uploadedSize st conn remote fs
      match askUpload st (localFileSize drive local_ fs) remoteSize fs with
      | (.skip, fs) => (some true, { w with fs := fs })
      | (.stop, fs) => (some false, { w with fs := fs })
      | (.transferFrom offset, fs) =>
        uploadUnlessCancelled drive st conn local_ remote offset { w with fs := fs }

/-- `conn.MakeDir`, whose result is not looked at. -/
def fsMakeDir (st : Staging) (conn : Conn) (w : FsState) : FsState :=
  w.next.setTree conn (st.serverMade w.tick (w.tree conn))

def uploadChild (drive : LocalDrive) (c : WalkCall) (fd : FindData) : WalkCall :=
  ⟨sftpJoin c.remote fd.cFileName MAX_PATH,
    drive.append (lstrcpyn c.local_ (2 * MAX_PATH)) fd.cFileName, fd.isDirectory⟩

/-- The body of `SftpUploadRecursive`; `rec` is the recursive call. -/
def sftpUploadBody (drive : LocalDrive) (st : Staging) (conn : Conn)
    (rec : Proc WalkCall CopyState) :
    Proc WalkCall CopyState :=
  fun c w =>
    let (stop, fs) := sftpIsCancelled st.toPanel w.fs
    if stop then (some false, { w with fs := fs })
    else if !c.isDir then sftpUploadFile drive st conn c.local_ c.remote { w with fs := fs }
    else
      let (stop, fs) := sftpIsCancelled st.toPanel fs
      if stop then (some false, { w with fs := fs })
      else
        match findFirst drive st c.local_ (fsMakeDir st conn fs) with
        | (none, fs) => (some true, { w with fs := fs })
        | (some entries, fs) =>
          forEach (fun fd w =>
            let (stop, fs) := sftpIsCancelled st.toPanel w.fs
            if stop then (some false, { w with fs := fs })
            else if IsDots fd.cFileName then (some true, { w with fs := fs })
            else rec (uploadChild drive c fd) { w with fs := fs }) entries { w with fs := fs }

/-- `SftpUploadRecursive`, at most `depth` activations deep. -/
def sftpUploadRecursive (drive : LocalDrive) (st : Staging) (conn : Conn) (depth : ℕ) :
    Proc WalkCall CopyState :=
  recurse (sftpUploadBody drive st conn) depth

/-! ## Removing from the disk -/

/-- The arguments of `LocalDeleteRecursive`. -/
structure LocalItem where
  path : CStr
  isDir : Bool

/-- `DeleteFile`: a file only. -/
def deleteFile (drive : LocalDrive) (st : Staging) (path : CStr) (w : FsState) : FsState :=
  if st.deleteFile w.tick = true ∧
    ((w.disk.node drive.key path).bind FsNode.content?).isSome = true then
    { w.next with disk := w.disk.erase drive.key path }
  else w.next

/-- `RemoveDirectory`: an empty directory only. -/
def removeDirectory (drive : LocalDrive) (st : Staging) (path : CStr) (w : FsState) : FsState :=
  if st.removeDirectory w.tick = true ∧ w.disk.node drive.key path = some .dir ∧
    drive.Childless w.disk path then
    { w.next with disk := w.disk.erase drive.key path }
  else w.next

def localChild (drive : LocalDrive) (c : LocalItem) (fd : FindData) : LocalItem :=
  ⟨drive.append (lstrcpyn c.path (2 * MAX_PATH)) fd.cFileName, fd.isDirectory⟩

/-- The body of `LocalDeleteRecursive`, which does not report anything. -/
def localDeleteBody (drive : LocalDrive) (st : Staging) (rec : Proc LocalItem FsState) :
    Proc LocalItem FsState :=
  fun c w =>
    if !c.isDir then (some true, deleteFile drive st c.path w)
    else
      match findFirst drive st c.path w with
      | (none, w) => (some true, removeDirectory drive st c.path w)
      | (some entries, w) =>
        match forEach (fun fd w =>
            if IsDots fd.cFileName then (some true, w.next)
              else rec (localChild drive c fd) w.next) entries w with
        | (some true, w) => (some true, removeDirectory drive st c.path w)
        | r => r

/-- `LocalDeleteRecursive`, at most `depth` activations deep. -/
def localDeleteRecursive (drive : LocalDrive) (st : Staging) (depth : ℕ) : Proc LocalItem FsState :=
  recurse (localDeleteBody drive st) depth

/-! ## The loop -/

/-- What stays the same in one run of the loop. -/
structure ServerCopy where
  conn : Conn
  targetConn : Conn
  Path : CStr
  remoteTargetDir : CStr
  copy : Bool

/-- What the world answers in one turn: when it starts, in its phases, and at its end. -/
structure Turn where
  start : Staging
  download : Staging
  upload : Staging
  cleanup : Staging
  finish : Staging
  /-- The answer to "Continue?". -/
  goOn : Bool

/-- A phase counts its looks at the world anew. -/
def FsState.restart (w : FsState) : FsState := { w with tick := 0 }

def LocalDrive.tmpItem (drive : LocalDrive) (name : CStr) : CStr :=
  drive.append (lstrcpyn drive.tmpDir (2 * MAX_PATH)) name

def ServerCopy.downloadCall (op : ServerCopy) (drive : LocalDrive) (item : RemoteEntry) :
    WalkCall :=
  ⟨sftpJoin op.Path item.Name MAX_PATH, drive.tmpItem item.Name, item.IsDir⟩

def ServerCopy.uploadCall (op : ServerCopy) (drive : LocalDrive) (item : RemoteEntry) : WalkCall :=
  ⟨sftpJoin op.remoteTargetDir item.Name MAX_PATH, drive.tmpItem item.Name, item.IsDir⟩

/-- Download and upload of an item: `step`. -/
def copyStep (drive : LocalDrive) (op : ServerCopy) (depth : ℕ) (turn : Turn)
    (item : RemoteEntry) (w : CopyState) :
    Option Bool × CopyState :=
  match sftpDownloadRecursive turn.download.toPanel op.conn depth
    (op.downloadCall drive item) w.fs.restart with
  | (some true, fs) =>
    sftpUploadRecursive drive turn.upload op.targetConn depth
      (op.uploadCall drive item) { w with fs := fs.restart }
  | (r, fs) => (r, { w with fs := fs })

/-- The end of a turn: the question after a failure, or the removal of what was moved. -/
def endTurn (op : ServerCopy) (depth : ℕ) (turn : Turn) (item : RemoteEntry)
    (step : Bool) (w : CopyState) :
    Option Bool × CopyState :=
  if !step then
    let (stop, fs) := sftpIsCancelled turn.finish.toPanel w.fs
    (some (!stop && turn.goOn), { w with fs := fs })
  else if op.copy then (some true, w)
  else
    let r := sftpDeleteRecursive turn.finish.toPanel op.conn depth
        ⟨sftpJoin op.Path item.Name MAX_PATH, item.IsDir⟩ w.fs
    (r.1.map fun _ => true, { w with fs := r.2 })

/-- One turn of the loop; `some false` ends it. -/
def copyTurn (drive : LocalDrive) (op : ServerCopy) (depth : ℕ) :
    Proc (Turn × RemoteEntry) CopyState :=
  fun t w =>
    let (stop, fs) := sftpIsCancelled t.1.start.toPanel w.fs.restart
    if stop then (some false, { w with fs := fs })
    else
      match copyStep drive op depth t.1 t.2 { w with fs := fs } with
      | (none, w) => (none, w)
      | (some step, w) =>
        match localDeleteRecursive drive t.1.cleanup depth
            ⟨drive.tmpItem t.2.Name, t.2.IsDir⟩ w.fs.restart with
        | (none, fs) => (none, { w with fs := fs })
        | (some _, fs) => endTurn op depth t.1 t.2 step { w with fs := fs.restart }

def copyItems (drive : LocalDrive) (op : ServerCopy) (depth : ℕ)
    (turns : List (Turn × RemoteEntry)) (w : CopyState) :
    Option Bool × CopyState :=
  forEach (copyTurn drive op depth) turns w

end SalamanderSftp
