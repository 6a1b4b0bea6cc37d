import SalamanderSftp.Fs.Remote
import SalamanderSftp.Worker.Recursion

/-!
# Recursive operations of the panel

`SftpDownloadRecursive` and `SftpDeleteRecursive` of `fs2.cpp` with the questions they ask. The
state holds the servers, the local disk and the global variables of an operation; the rest of the
world is a `Panel`, which answers every look at it by its number. A server lists any of the entries
of a directory, in any order, or fails.
-/

namespace SalamanderSftp

open Procedure FileTree

/-! ## State and environment -/

/-- The local disk: the objects with the paths they were created under. -/
abbrev Disk := List (CStr × FsNode)

/-- The object at a path; paths with one key are the same. -/
def Disk.node (key : CStr → CStr) (disk : Disk) (path : CStr) : Option FsNode :=
  (disk.find? fun e => key e.1 = key path).map Prod.snd

/-- Create an object, or replace it where it is. -/
def Disk.put (key : CStr → CStr) (disk : Disk) (path : CStr) (node : FsNode) : Disk :=
  if (disk.node key path).isSome then disk.map fun e => if key e.1 =
    key path then (e.1, node) else e
  else disk ++ [(path, node)]

def Disk.erase (key : CStr → CStr) (disk : Disk) (path : CStr) : Disk :=
  disk.filter fun e => key e.1 ≠ key path

/-- The answers to "overwrite?". -/
inductive OverwriteAnswer
  | yes
  | all
  | skip
  | skipAll
  | cancel
  deriving DecidableEq

/-- The answers to "resume interrupted transfer?". -/
inductive ResumeAnswer
  | yes
  | no
  | cancel
  deriving DecidableEq

inductive OvrMode
  | ask
  | overwriteAll
  | skipAll
  deriving DecidableEq

/-- The arguments `remote` and `isDir` of the recursive operations. -/
structure RemoteItem where
  remote : CStr
  isDir : Bool

inductive FsEvent
  /-- A recursive call on the second path, made by the call on the first. -/
  | descend (caller callee : CStr)
  | removeFile (path : CStr)
  | removeDir (path : CStr)

structure FsState where
  servers : ℕ → RemoteTree
  disk : Disk
  ovrMode : OvrMode
  /-- `g_OvrCancel || g_ProgCancel`. -/
  cancelled : Bool
  /-- The number of looks at the world so far. -/
  tick : ℕ
  log : List FsEvent

structure Panel where
  diskKey : CStr → CStr
  /-- `SalPathAppend` to a path in a buffer of `2 * MAX_PATH` bytes. -/
  salPathAppend : CStr → CStr → CStr
  /-- `g_SyncMode`. -/
  syncMode : Bool
  /-- `g_ProgDlg->GetWantCancel()`. -/
  wantCancel : ℕ → Bool
  overwrite : ℕ → OverwriteAnswer
  resume : ℕ → ResumeAnswer
  /-- `LocalMTime(local) >= rmtime`. -/
  localNotOlder : ℕ → Bool
  statFails : ℕ → Bool
  /-- The size in the attributes of anything but a file. -/
  otherSize : ℕ → ℕ
  readdir : ℕ → CStr → Option (List RemoteEntry)
  downloadIo : ℕ → DownloadIo
  createDirectory : ℕ → Bool
  /-- The server removes what it is asked to, if it can. -/
  removes : ℕ → Bool

/-- Nothing fails, nobody interferes, and the directories are empty. -/
def Panel.plain : Panel where
  diskKey := id
  salPathAppend path name := path ++ backslash :: name
  syncMode := false
  wantCancel _ := false
  overwrite _ := .yes
  resume _ := .yes
  localNotOlder _ := true
  statFails _ := false
  otherSize _ := 0
  readdir _ _ := some []
  downloadIo _ := ⟨true, some 0, true, true, [⟨some [], 0, true⟩], 0, true⟩
  createDirectory _ := true
  removes _ := true

namespace FsState

def next (w : FsState) : FsState := { w with tick := w.tick + 1 }

def record (w : FsState) (e : FsEvent) : FsState := { w with log := w.log ++ [e] }

def cancel (w : FsState) : FsState := { w with cancelled := true }

def tree (w : FsState) (conn : Conn) : RemoteTree := w.servers conn.server

def setTree (w : FsState) (conn : Conn) (t : RemoteTree) : FsState :=
  { w with servers := Function.update w.servers conn.server t }

end FsState

/-! ## Looking at the world -/

def sftpIsCancelled (panel : Panel) (w : FsState) : Bool × FsState :=
  if w.cancelled then (true, w)
  else if panel.wantCancel w.tick then (true, w.next.cancel)
  else (false, w.next)

/-- 1 = overwrite, 0 = skip, -1 = cancel. -/
def sftpAskOverwrite (panel : Panel) (w : FsState) : ℤ × FsState :=
  match w.ovrMode with
  | .overwriteAll => (1, w)
  | .skipAll => (0, w)
  | .ask =>
    match panel.overwrite w.tick with
    | .yes => (1, w.next)
    | .all => (1, { w.next with ovrMode := .overwriteAll })
    | .skip => (0, w.next)
    | .skipAll => (0, { w.next with ovrMode := .skipAll })
    | .cancel => (-1, w.next)

/-- `RemoteFileSize`, and the size of `StatFull`; in SCP mode `stat` does not follow a symbolic
link. -/
def statSize (panel : Panel) (conn : Conn) (remote : CStr) (w : FsState) : Option ℕ × FsState :=
  let q :=
    if conn.scpMode then conn.denotes (w.tree conn) remote else conn.target (w.tree conn) remote
  let size : Option ℕ :=
    match q.bind (w.tree conn).lookup with
    | some (.file content) => some content.length
    | some _ => some (panel.otherSize w.tick)
    | none => none
  (if panel.statFails w.tick then none else size, w.next)

def syncSkipDownload (panel : Panel) (conn : Conn) (remote local_ : CStr) (w : FsState) :
    Bool × FsState :=
  match w.disk.node panel.diskKey local_ with
  | none => (false, w)
  | some node =>
    let (rsize, w) := statSize panel conn remote w
    if rsize ≠ some node.size then (false, w) else (panel.localNotOlder w.tick, w.next)

/-- `ListDir`: some of the entries that are there. -/
def listDir (panel : Panel) (conn : Conn) (remote : CStr) (w : FsState) :
    Option (List RemoteEntry) × FsState :=
  let entries := (conn.listing (w.tree conn) remote).bind fun there =>
    (panel.readdir w.tick remote).map (List.filter (· ∈ there))
  (entries, w.next)

/-! ## Download -/

/-- `conn.Download(remote, local, resumeOffset)`. -/
def fsDownload (panel : Panel) (conn : Conn) (remote local_ : CStr)
    (resumeOffset : ℕ) (w : FsState) :
    Option Bool × FsState :=
  let source := (conn.target (w.tree conn) remote).bind (w.tree conn).lookup
  let found := w.disk.node panel.diskKey local_
  let io := panel.downloadIo w.tick
  let io := { io with
    opened := io.opened && source.isSome
    fopen := io.fopen && decide (found ≠ some .dir) }
  let r := download conn.scpMode io (found.bind FsNode.content?) resumeOffset
  let w := w.next
  if r.opened then
    match r.target with
    | some content =>
      (some r.ok, { w with disk := w.disk.put panel.diskKey local_ (.file content) })
    | none => (some r.ok, { w with disk := w.disk.erase panel.diskKey local_ })
  else (some r.ok, w)

/-- `conn.Download` once more after a look at the cancel button. -/
def downloadUnlessCancelled (panel : Panel) (conn : Conn) (remote local_ : CStr)
    (resumeOffset : ℕ) (w : FsState) :
    Option Bool × FsState :=
  let (stop, w) := sftpIsCancelled panel w
  if stop then (some false, w) else fsDownload panel conn remote local_ resumeOffset w

/-- The question about an existing local file: skip it (`none`), give up, or transfer from an
offset. -/
inductive Verdict
  | skip
  | stop
  | transferFrom (offset : ℕ)
  deriving DecidableEq

/-- `remoteSize` is known when a resume can be offered. -/
def askDownload (panel : Panel) (localSize : ℕ) (remoteSize : Option ℕ) (w : FsState) :
    Verdict × FsState :=
  if remoteSize.any (localSize < ·) then
    match panel.resume w.tick with
    | .yes => (.transferFrom localSize, w.next)
    | .no =>
      -- the button is looked at here, and once more before the transfer
      let (stop, w) := sftpIsCancelled panel w.next
      (if stop then .stop else .transferFrom 0, w)
    | .cancel => (.stop, w.next.cancel)
  else
    let (a, w) := sftpAskOverwrite panel w
    if a = 0 then (.skip, w) else if a < 0 then (.stop, w.cancel) else (.transferFrom 0, w)

/-- The remote size, where a resume could be offered: not in SCP mode, nor for an empty file. -/
def resumableSize (panel : Panel) (conn : Conn) (remote : CStr) (localSize : ℕ) (w : FsState) :
    Option ℕ × FsState :=
  if !conn.scpMode && decide (0 < localSize) then statSize panel conn remote w else (none, w)

/-- The file branch of `SftpDownloadRecursive`. -/
def sftpDownloadFile (panel : Panel) (conn : Conn) (remote local_ : CStr) (w : FsState) :
    Option Bool × FsState :=
  if panel.syncMode then
    let (skip, w) := syncSkipDownload panel conn remote local_ w
    if skip then (some true, w) else downloadUnlessCancelled panel conn remote local_ 0 w
  else
    match w.disk.node panel.diskKey local_ with
    | none => downloadUnlessCancelled panel conn remote local_ 0 w
    | some node =>
      let (remoteSize, w) := resumableSize panel conn remote node.size w
      match askDownload panel node.size remoteSize w with
      | (.skip, w) => (some true, w)
      | (.stop, w) => (some false, w)
      | (.transferFrom offset, w) => downloadUnlessCancelled panel conn remote local_ offset w

/-- `CreateDirectory`, whose result is not looked at. -/
def fsCreateDirectory (panel : Panel) (path : CStr) (w : FsState) : FsState :=
  if panel.createDirectory w.tick && (w.disk.node panel.diskKey path).isNone then
    { w.next with disk := w.disk.put panel.diskKey path .dir }
  else w.next

def downloadChild (panel : Panel) (c : WalkCall) (e : RemoteEntry) : WalkCall :=
  ⟨sftpJoin c.remote e.Name MAX_PATH, panel.salPathAppend (lstrcpyn c.local_ (2 * MAX_PATH)) e.Name,
    e.IsDir⟩

/-- The body of `SftpDownloadRecursive`; `rec` is the recursive call. -/
def sftpDownloadBody (panel : Panel) (conn : Conn) (rec : Proc WalkCall FsState) :
    Proc WalkCall FsState :=
  fun c w =>
    let (stop, w) := sftpIsCancelled panel w
    if stop then (some false, w)
    else if !c.isDir then sftpDownloadFile panel conn c.remote c.local_ w
    else
      let (stop, w) := sftpIsCancelled panel w
      if stop then (some false, w)
      else
        let w := fsCreateDirectory panel c.local_ w
        match listDir panel conn c.remote w with
        | (none, w) => (some false, w)
        | (some entries, w) =>
          forEach (fun e w =>
            let (stop, w) := sftpIsCancelled panel w
            if stop then (some false, w)
            else
              let child := downloadChild panel c e
              rec child (w.record (.descend c.remote child.remote))) entries w

/-- `SftpDownloadRecursive`, at most `depth` activations deep. -/
def sftpDownloadRecursive (panel : Panel) (conn : Conn) (depth : ℕ) : Proc WalkCall FsState :=
  recurse (sftpDownloadBody panel conn) depth

/-! ## Delete -/

/-- `conn.RemoveFile`: a symbolic link is removed itself. `rm -f` does not mind a missing file. -/
def removeFile (panel : Panel) (conn : Conn) (path : CStr) (w : FsState) : Option Bool × FsState :=
  let t := w.tree conn
  let w' := (w.record (.removeFile path)).next
  match conn.denotes t path with
  | none => (some (conn.scpMode && panel.removes w.tick), w')
  | some q =>
    if t.lookup q ≠ some .dir ∧ panel.removes w.tick then (some true, w'.setTree conn (t.remove q))
    else (some false, w')

/-- `conn.RemoveDir`: only an empty directory other than the root is removed. -/
def removeDir (panel : Panel) (conn : Conn) (path : CStr) (w : FsState) : Option Bool × FsState :=
  let t := w.tree conn
  let w' := (w.record (.removeDir path)).next
  match conn.denotes t path with
  | none => (some false, w')
  | some q =>
    if t.lookup q = some .dir ∧ q ≠ [] ∧ t.names q = [] ∧ panel.removes w.tick then
      (some true, w'.setTree conn (t.remove q))
    else (some false, w')

/-- The body of `SftpDeleteRecursive`; a failed listing does not stop it. -/
def sftpDeleteBody (panel : Panel) (conn : Conn) (rec : Proc RemoteItem FsState) :
    Proc RemoteItem FsState :=
  fun c w =>
    if !c.isDir then removeFile panel conn c.remote w
    else
      match listDir panel conn c.remote w with
      | (none, w) => removeDir panel conn c.remote w
      | (some entries, w) =>
        match forEach (fun e w =>
            let child := sftpJoin c.remote e.Name MAX_PATH
            rec ⟨child, e.IsDir⟩ (w.record (.descend c.remote child)).next) entries w with
        | (some true, w) => removeDir panel conn c.remote w
        | r => r

/-- `SftpDeleteRecursive`, at most `depth` activations deep. -/
def sftpDeleteRecursive (panel : Panel) (conn : Conn) (depth : ℕ) : Proc RemoteItem FsState :=
  recurse (sftpDeleteBody panel conn) depth

end SalamanderSftp
