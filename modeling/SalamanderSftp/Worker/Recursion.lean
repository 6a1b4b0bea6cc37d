import SalamanderSftp.Lib.Journal
import SalamanderSftp.Lib.Procedure
import SalamanderSftp.Path
import SalamanderSftp.Connection.Listing
import SalamanderSftp.Connection.TransferComplete
import SalamanderSftp.Worker.Conflict

/-!
# The transfer worker

`ExecuteTask` of `CSftpTransferWorker` with the two recursive walks `DoDownloadRecursive` and
`DoUploadRecursive`. The state holds both file systems, the remembered conflict decision and a log
of what the worker asked for and touched. Everything else that a run depends on is the `Host`: it
answers each activation by its number, so that every interleaving of answers, failures and user
actions is some host.

A recursive walk is the body under `Procedure.recurse`, so it is described at every depth.
-/

namespace SalamanderSftp

open Procedure

/-! ## State and environment -/

inductive FsNode
  | file (content : Bytes)
  | dir
  deriving DecidableEq

/-- The content of a regular file. -/
def FsNode.content? : FsNode → Option Bytes
  | .file content => some content
  | .dir => none

/-- The size in the attributes; a directory has none. -/
def FsNode.size : FsNode → ℕ
  | .file content => content.length
  | .dir => 0

/-- A file system seen through keys: two paths with the same key name the same object. -/
abbrev Store := CStr → Option FsNode

/-- The content of the regular file at a key. -/
def Store.content? (s : Store) (key : CStr) : Option Bytes := (s key).bind FsNode.content?

inductive Side
  | disk
  | server
  deriving DecidableEq

/-- What a file branch found out about an existing target before it asks. -/
structure Conflict where
  tgtName : CStr
  existingSize : ℕ
  newSize : ℕ

/-- The state in which a file branch starts: the number of the activation, the content of the source
file, the target, what was found there, the file system the target is on, and the remembered
decision. -/
structure Branch where
  side : Side
  tick : ℕ
  source : Option Bytes
  path : CStr
  conflict : Option Conflict
  store : Store
  remembered : OverwriteAll

/-- The arguments of the recursive walks. -/
structure WalkCall where
  remote : CStr
  local_ : CStr
  isDir : Bool
  deriving DecidableEq

/-- What the worker did, in order. -/
inductive Event
  | branch (b : Branch)
  /-- The user answered the conflict dialog for this target. -/
  | answered (side : Side) (path : CStr)
  /-- The answer was for all later conflicts too. -/
  | decidedAll
  | makeDir (side : Side) (path : CStr)
  /-- A call of `Download` or `Upload`, with the target found there. -/
  | transfer (side : Side) (path : CStr) (resumeOffset : ℕ) (found : Option FsNode)
  /-- The call opened that target for writing. -/
  | openWrite (side : Side) (path : CStr) (found : Option FsNode)
  | removeSource (path : CStr)
  /-- A recursive call of a walk. -/
  | descend (caller callee : WalkCall)

structure WorkerState where
  disk : Store
  server : Store
  /-- `State.Cancelled`, as far as the worker itself sets it. -/
  cancelled : Bool
  OverwriteAllDecision : OverwriteAll
  /-- The number of activations and loop turns so far. -/
  tick : ℕ
  log : List Event

/-- A directory entry of `FindFirstFileA` and `FindNextFileA`. -/
structure FindData where
  cFileName : CStr
  isDirectory : Bool
  deriving DecidableEq

structure Host where
  scpMode : Bool
  /-- The object a path names on the local disk, and on the server. -/
  diskKey : CStr → CStr
  serverKey : CStr → CStr
  /-- `PathAppendA`. -/
  pathAppend : CStr → CStr → CStr
  /-- The user has cancelled when an activation starts, resp. just before its transfer. -/
  cancelAtStart : ℕ → Bool
  cancelBeforeTransfer : ℕ → Bool
  /-- The user has cancelled when a loop turn starts. -/
  cancelInLoop : ℕ → Bool
  window : ℕ → Bool
  dlgInput : ℕ → DlgInput
  /-- `PathType` and `RemoteFileSize` cannot reach the server. -/
  pathTypeFails : ℕ → Bool
  fileSizeFails : ℕ → Bool
  listDir : ℕ → CStr → Option (List CSftpEntry)
  findFiles : ℕ → CStr → Option (List FindData)
  downloadIo : ℕ → DownloadIo
  uploadIo : ℕ → UploadIo
  makeDir : ℕ → Bool
  createDirectory : ℕ → Bool
  removeSource : ℕ → Bool

/-- Nothing fails, nobody interferes, and the directories are empty. -/
def Host.plain : Host where
  scpMode := false
  diskKey := id
  serverKey := id
  pathAppend dir name := dir ++ backslash :: name
  cancelAtStart _ := false
  cancelBeforeTransfer _ := false
  cancelInLoop _ := false
  window _ := true
  dlgInput _ := ⟨.overwrite, false, []⟩
  pathTypeFails _ := false
  fileSizeFails _ := false
  listDir _ _ := some []
  findFiles _ _ := some []
  downloadIo _ := ⟨true, some 0, true, true, [⟨some [], 0, true⟩], 0, true⟩
  uploadIo _ := ⟨true, [bufSize], true, .handle, true, [some bufSize], [], 0, true, true, none⟩
  makeDir _ := true
  createDirectory _ := true
  removeSource _ := true

/-- The object a path names. -/
def Host.key (host : Host) : Side → CStr → CStr
  | .disk => host.diskKey
  | .server => host.serverKey

/-- A file system that holds these files and nothing else. -/
def Store.ofFiles (files : List (CStr × Bytes)) : Store := fun key =>
  (files.find? (·.1 = key)).map fun f => .file f.2

namespace WorkerState

/-- A worker that has not asked or done anything yet. -/
def start (disk server : Store) : WorkerState := ⟨disk, server, false, .ask, 0, []⟩

def store (w : WorkerState) : Side → Store
  | .disk => w.disk
  | .server => w.server

def setStore (w : WorkerState) (side : Side) (s : Store) : WorkerState :=
  match side with
  | .disk => { w with disk := s }
  | .server => { w with server := s }

/-- Put a node at a key, or take it away. -/
def put (w : WorkerState) (side : Side) (key : CStr) (node : Option FsNode) : WorkerState :=
  w.setStore side (Function.update (w.store side) key node)

def next (w : WorkerState) : WorkerState := { w with tick := w.tick + 1 }

def record (w : WorkerState) (e : Event) : WorkerState := { w with log := w.log ++ [e] }

/-- The effects of `AskOverwriteWorker`. -/
def remember (w : WorkerState) (r : AskResult) (side : Side) (path : CStr) : WorkerState :=
  let w' := { w with OverwriteAllDecision := r.remembered }
  let w' := if r.answered then w'.record (.answered side path) else w'
  if r.remembered ≠ w.OverwriteAllDecision then w'.record .decidedAll else w'

end WorkerState

/-! ## Paths -/

/-- `SftpSplitPathAndName`: for the separator `'\\'` a slash counts as well. -/
def sftpSplitPathAndName (fullPath : CStr) (separator : Byte) : CStr × CStr :=
  match splitLast (fun c => c == separator || (separator == backslash && c == slash)) fullPath with
  | some r => r
  | none => ([], fullPath)

/-- The local target after an alternate name was chosen. -/
def renamedLocal (path newName : CStr) : CStr :=
  let (tgtDir, tgtName) := sftpSplitPathAndName path backslash
  if newName ≠ [] ∧ newName ≠ tgtName then
    if tgtDir ≠ [] then tgtDir ++ backslash :: newName else newName
  else path

/-- The remote target after an alternate name was chosen. -/
def renamedRemote (path newName : CStr) : CStr :=
  let (tgtDir, tgtName) := sftpSplitPathAndName path slash
  if newName ≠ [] ∧ newName ≠ tgtName then
    if tgtDir ≠ [] then
      if tgtDir.getLast? = some slash then tgtDir ++ newName else tgtDir ++ slash :: newName
    else newName
  else path

def renamed : Side → CStr → CStr → CStr
  | .disk => renamedLocal
  | .server => renamedRemote

/-! ## One file

The file branches of the two walks differ in how they look at the target and in the transfer they
end with (`doDownloadFile`, `doUploadFile`).
-/

/-- A missing source is not opened, nor is a directory as the target. -/
def DownloadIo.guarded (io : DownloadIo) (source : Option Bytes) (found : Option FsNode) :
    DownloadIo :=
  { io with opened := io.opened && source.isSome, fopen := io.fopen && decide (found ≠ some .dir) }

def UploadIo.guarded (io : UploadIo) (source : Option Bytes) (found : Option FsNode) : UploadIo :=
  { io with
    fopen := io.fopen && source.isSome
    openFirst := if found = some .dir then .failed else io.openFirst }

/-- `WorkerConn.Download` to a target on the disk, or `WorkerConn.Upload` to one on the server. -/
def transfer (host : Host) (side : Side) (t : ℕ) (source : Option Bytes) (target : CStr)
    (found : Option FsNode) (resumeOffset : ℕ) : TransferResult :=
  match side with
  | .disk =>
    download host.scpMode ((host.downloadIo t).guarded source found)
      (found.bind FsNode.content?) resumeOffset
  | .server =>
    upload host.scpMode ((host.uploadIo t).guarded source found) target (source.getD [])
      (found.bind FsNode.content?) resumeOffset

/-- The end of a file branch: the second look at `State.Cancelled`, and the transfer. -/
def transferTo (host : Host) (b : Branch) (target : CStr) (resumeOffset : ℕ) (w : WorkerState) :
    Option Bool × WorkerState :=
  if w.cancelled || host.cancelBeforeTransfer b.tick then (some false, w)
  else
    let found := w.store b.side (host.key b.side target)
    let r := transfer host b.side b.tick b.source target found resumeOffset
    let w := w.record (.transfer b.side target resumeOffset found)
    if r.opened then
      (some r.ok, (w.record (.openWrite b.side target found)).put b.side (host.key b.side target)
        (r.target.map .file))
    else (some r.ok, w)

def fileBranch (host : Host) (b : Branch) (w : WorkerState) : Option Bool × WorkerState :=
  let w := w.record (.branch b)
  match b.conflict with
  | none => transferTo host b b.path 0 w
  | some c =>
    let r := askOverwriteWorker b.remembered (host.window b.tick) (host.dlgInput b.tick) c.tgtName
      c.existingSize c.newSize
    let w := w.remember r b.side b.path
    match r.decision with
    | .skip => (some true, w)
    | .cancel => (some false, { w with cancelled := true })
    | .go => transferTo host b (renamed b.side b.path r.newName) r.resumeOffset w

/-- `RemoteFileSize`: 0 when it fails. -/
def remoteFileSize (host : Host) (t : ℕ) (w : WorkerState) (path : CStr) : ℕ :=
  if host.fileSizeFails t then 0 else ((w.server (host.serverKey path)).map FsNode.size).getD 0

/-! ## Download -/

/-- The state the file branch of `DoDownloadRecursive` starts in. -/
def downloadBranch (host : Host) (t : ℕ) (remote local_ : CStr) (w : WorkerState) : Branch where
  side := .disk
  tick := t
  source := w.server.content? (host.serverKey remote)
  path := local_
  conflict := (w.disk (host.diskKey local_)).map fun node =>
    ⟨(sftpSplitPathAndName local_ backslash).2, node.size, remoteFileSize host t w remote⟩
  store := w.disk
  remembered := w.OverwriteAllDecision

/-- The file branch of `DoDownloadRecursive`. -/
def doDownloadFile (host : Host) (t : ℕ) (remote local_ : CStr) (w : WorkerState) :
    Option Bool × WorkerState :=
  fileBranch host (downloadBranch host t remote local_ w) w

/-- `CreateDirectoryA`, whose result is not looked at. -/
def createDirectory (host : Host) (t : ℕ) (path : CStr) (w : WorkerState) : WorkerState :=
  let w := w.record (.makeDir .disk path)
  if host.createDirectory t && (w.disk (host.diskKey path)).isNone then
    w.put .disk (host.diskKey path) (some .dir)
  else w

/-- The recursive call for an entry of the directory that `c` is about. -/
def childCall (host : Host) (c : WalkCall) (name : CStr) (isDir : Bool) : WalkCall :=
  ⟨sftpJoin c.remote name MAX_PATH, host.pathAppend (lstrcpyn c.local_ MAX_PATH) name, isDir⟩

/-- The body of `DoDownloadRecursive`; `rec` is the recursive call. -/
def doDownloadBody (host : Host) (rec : Proc WalkCall WorkerState) : Proc WalkCall WorkerState :=
  fun c w =>
    let t := w.tick
    let w := w.next
    if w.cancelled || host.cancelAtStart t then (some false, w)
    else if !c.isDir then doDownloadFile host t c.remote c.local_ w
    else
      let w := createDirectory host t c.local_ w
      match host.listDir t c.remote with
      | none => (some false, w)
      | some entries =>
        forEach (fun e w =>
          if w.cancelled || host.cancelInLoop w.tick then (some false, w.next)
          else
            let child := childCall host c e.Name e.IsDir
            rec child (w.next.record (.descend c child))) entries w

/-- `DoDownloadRecursive`, at most `depth` activations deep. -/
def doDownloadRecursive (host : Host) (depth : ℕ) : Proc WalkCall WorkerState :=
  recurse (doDownloadBody host) depth

/-! ## Upload -/

/-- `PathType`: 0 = does not exist (or unavailable), 1 = file, 2 = directory. -/
def pathType (host : Host) (t : ℕ) (w : WorkerState) (path : CStr) : ℕ :=
  if path = [slash] then 2
  else if host.pathTypeFails t then 0
  else
    match w.server (host.serverKey path) with
    | none => 0
    | some (.file _) => 1
    | some .dir => 2

/-- The state the file branch of `DoUploadRecursive` starts in. -/
def uploadBranch (host : Host) (t : ℕ) (local_ remote : CStr) (w : WorkerState) : Branch where
  side := .server
  tick := t
  source := w.disk.content? (host.diskKey local_)
  path := remote
  conflict :=
    if pathType host t w remote = 1 then
      some ⟨(sftpSplitPathAndName remote slash).2, remoteFileSize host t w remote,
        ((w.disk (host.diskKey local_)).map FsNode.size).getD 0⟩
    else none
  store := w.server
  remembered := w.OverwriteAllDecision

/-- The file branch of `DoUploadRecursive`. -/
def doUploadFile (host : Host) (t : ℕ) (local_ remote : CStr) (w : WorkerState) :
    Option Bool × WorkerState :=
  fileBranch host (uploadBranch host t local_ remote w) w

/-- `WorkerConn.MakeDir`, whose result is not looked at. -/
def makeDir (host : Host) (t : ℕ) (path : CStr) (w : WorkerState) : WorkerState :=
  let w := w.record (.makeDir .server path)
  if host.makeDir t && (w.server (host.serverKey path)).isNone then
    w.put .server (host.serverKey path) (some .dir)
  else w

/-- The body of `DoUploadRecursive`; `rec` is the recursive call. -/
def doUploadBody (host : Host) (rec : Proc WalkCall WorkerState) : Proc WalkCall WorkerState :=
  fun c w =>
    let t := w.tick
    let w := w.next
    if w.cancelled || host.cancelAtStart t then (some false, w)
    else if !c.isDir then doUploadFile host t c.local_ c.remote w
    else
      let w := makeDir host t c.remote w
      match host.findFiles t (host.pathAppend (lstrcpyn c.local_ MAX_PATH) [42]) with
      | none => (some true, w)
      | some found =>
        forEach (fun fd w =>
          if IsDots fd.cFileName then (some true, w)
          else if w.cancelled || host.cancelInLoop w.tick then (some false, w.next)
          else
            let child := childCall host c fd.cFileName fd.isDirectory
            rec child (w.next.record (.descend c child))) found w

/-- `DoUploadRecursive`, at most `depth` activations deep. -/
def doUploadRecursive (host : Host) (depth : ℕ) : Proc WalkCall WorkerState :=
  recurse (doUploadBody host) depth

/-! ## Tasks -/

inductive TaskType
  | download
  | upload
  deriving DecidableEq

/-- The fields of `CSftpTransferTask` that `ExecuteTask` reads. -/
structure TransferTask where
  TaskType : TaskType
  RemotePath : CStr
  LocalPath : CStr
  IsDirectory : Bool
  DeleteSourceOnSuccess : Bool

/-- `RemoveDir` and `RemoveFile`. -/
def removeRemote (host : Host) (path : CStr) (w : WorkerState) : WorkerState :=
  let w' := (w.record (.removeSource path)).next
  if host.removeSource w.tick then w'.put .server (host.serverKey path) none else w'

/-- `RemoveDirectoryA` and `DeleteFileA`. -/
def removeLocal (host : Host) (path : CStr) (w : WorkerState) : WorkerState :=
  let w' := (w.record (.removeSource path)).next
  if host.removeSource w.tick then w'.put .disk (host.diskKey path) none else w'

def executeTask (host : Host) (depth : ℕ) (task : TransferTask) (w : WorkerState) :
    Option Bool × WorkerState :=
  let call : WalkCall := ⟨task.RemotePath, task.LocalPath, task.IsDirectory⟩
  match task.TaskType with
  | .download =>
    let r := doDownloadRecursive host depth call w
    if r.1 = some true ∧
      task.DeleteSourceOnSuccess then (r.1, removeRemote host task.RemotePath r.2) else r
  | .upload =>
    let r := doUploadRecursive host depth call w
    if r.1 = some true ∧
      task.DeleteSourceOnSuccess then (r.1, removeLocal host task.LocalPath r.2) else r

end SalamanderSftp
