import SalamanderSftp.Fs.TempDir
import SalamanderSftp.Fs.Deletion

/-!
# When a copy between servers touches the temporary directory

The temporary directory is left alone by every run exactly when nothing lies where the items are
staged: `temp_untouched_iff`. For the direction that is left:

1. In a turn in which nothing happens the loop goes on with the same state (`copyTurn_idle`), so
   that a run may have its only trouble in any of its turns (`TempUntouched.turn`).
2. The answers lead the cleanup to whatever a walk can find (`localDelete_steerable`), and it is
   removed.
3. They lead the download to whatever the listings can name (`sftpDownload_steerable`), and a
   transfer that breaks off removes the file there.
-/

namespace SalamanderSftp

open Procedure FileTree Relation

/-! ## Turns in which nothing happens -/

/-- Nothing can be opened, listed, made or removed, and nobody interferes. -/
def Staging.idle (drive : LocalDrive) : Staging where
  diskKey := drive.key
  salPathAppend := drive.append
  syncMode := false
  wantCancel _ := false
  overwrite _ := .yes
  resume _ := .no
  localNotOlder _ := false
  statFails _ := true
  otherSize _ := 0
  readdir _ _ := none
  downloadIo _ := ⟨false, none, true, false, [], 0, true⟩
  createDirectory _ := false
  removes _ := false
  findFiles _ _ := none
  deleteFile _ := false
  removeDirectory _ := false
  uploadIo _ := ⟨false, [], true, .failed, false, [], [], 0, true, true, none⟩
  remoteNotOlder _ := false
  serverMade _ t := t
  serverOut _ t := t

def Turn.idle (drive : LocalDrive) : Turn where
  start := .idle drive
  download := .idle drive
  upload := .idle drive
  cleanup := .idle drive
  finish := .idle drive
  goOn := true

/-- The same state at another look at the world. -/
def FsState.at (w : FsState) (tick : ℕ) : FsState := { w with tick := tick }

/-- Nothing is cancelled, and questions are asked. -/
structure FsState.Asking (w : FsState) : Prop where
  running : w.cancelled = false
  mode : w.ovrMode = .ask

/-- Nobody interferes, no size is known, and every file is to be overwritten. -/
structure Panel.Quiet (panel : Panel) : Prop where
  noSync : panel.syncMode = false
  running : ∀ tick, panel.wantCancel tick = false
  overwrite : ∀ tick, panel.overwrite tick = .yes
  statFails : ∀ tick, panel.statFails tick = true

section Idle

variable {drive : LocalDrive} {S : ServerContents} {op : ServerCopy} {conn : Conn} {w : FsState}

theorem Staging.idle_on : (Staging.idle drive).On drive S :=
  ⟨rfl, rfl, rfl, fun _ _ ht => ht, fun _ _ ht => ht⟩

theorem Turn.idle_on : (Turn.idle drive).On drive S :=
  ⟨Staging.idle_on, Staging.idle_on, Staging.idle_on, Staging.idle_on, Staging.idle_on⟩

theorem FsState.Asking.at (h : w.Asking) (tick : ℕ) : (w.at tick).Asking := ⟨h.running, h.mode⟩

theorem FsState.Asking.goesOn (h : w.Asking) {panel : Panel}
    (hcancel : ∀ tick, panel.wantCancel tick = false) :
    sftpIsCancelled panel w = (false, w.at (w.tick + 1)) := by
  unfold sftpIsCancelled
  rw [if_neg (by simp [h.running]), if_neg (by simp [hcancel])]
  rfl

variable (conn w) in
theorem resumableSize_quiet {panel : Panel} (hq : panel.Quiet) (remote : CStr) (localSize : ℕ) :
    ∃ tick, resumableSize panel conn remote localSize w = (none, w.at tick) := by
  unfold resumableSize
  split_ifs
  · unfold statSize
    dsimp only
    rw [if_pos (hq.statFails _)]
    exact ⟨w.tick + 1, rfl⟩
  · exact ⟨w.tick, rfl⟩

theorem askDownload_quiet {panel : Panel} (hq : panel.Quiet) (hw : w.Asking) (localSize : ℕ) :
    askDownload panel localSize none w = (.transferFrom 0, w.at (w.tick + 1)) := by
  unfold askDownload sftpAskOverwrite
  rw [if_neg (by simp), hw.mode]
  dsimp only
  rw [hq.overwrite]
  rfl

variable (conn) in
theorem sftpDownloadFile_quiet {panel : Panel} (hq : panel.Quiet)
    (hw : w.Asking) (remote local_ : CStr) :
    ∃ tick, sftpDownloadFile panel conn remote local_ w =
      fsDownload panel conn remote local_ 0 (w.at tick) := by
  have hgo : ∀ tick, downloadUnlessCancelled panel conn remote local_ 0 (w.at tick) =
      fsDownload panel conn remote local_ 0 (w.at (tick + 1)) := by
    intro tick
    unfold downloadUnlessCancelled
    rw [(hw.at tick).goesOn hq.running]
    rfl
  unfold sftpDownloadFile
  rw [if_neg (by simp [hq.noSync])]
  rcases w.disk.node panel.diskKey local_ with _ | node
  · exact ⟨w.tick + 1, hgo w.tick⟩
  · obtain ⟨tick, hsize⟩ := resumableSize_quiet conn w hq remote node.size
    dsimp only
    rw [hsize]
    dsimp only
    rw [askDownload_quiet hq (hw.at tick)]
    exact ⟨tick + 1 + 1, hgo (tick + 1)⟩

theorem Staging.idle_quiet :
    (Staging.idle drive).toPanel.Quiet := ⟨rfl, fun _ => rfl, fun _ => rfl, fun _ => rfl⟩

theorem fsDownload_idle (remote local_ : CStr) (resumeOffset : ℕ) :
    fsDownload (Staging.idle drive).toPanel conn remote local_ resumeOffset w =
      (some false, w.at (w.tick + 1)) := by
  unfold fsDownload download scpDownload
  cases conn.scpMode <;> rfl

variable (drive conn) in
theorem sftpDownload_idle (hw : w.Asking) (depth : ℕ) (c : WalkCall) :
    ∃ tick, sftpDownloadRecursive (Staging.idle drive).toPanel conn (depth + 1) c w =
      (some false, w.at tick) := by
  unfold sftpDownloadRecursive
  rw [recurse_succ]
  unfold sftpDownloadBody
  rw [hw.goesOn fun _ => rfl]
  dsimp only
  rw [if_neg (by simp)]
  by_cases hd : c.isDir = true
  · have hlist :
        ∀ v : FsState, listDir (Staging.idle drive).toPanel conn c.remote v = (none, v.next) := by
      intro v
      unfold listDir
      rcases conn.listing (v.tree conn) c.remote <;> rfl
    rw [if_neg (by simp [hd]), (hw.at _).goesOn fun _ => rfl]
    dsimp only
    rw [if_neg (by simp), hlist]
    exact ⟨_, rfl⟩
  · rw [if_pos (by simpa using hd)]
    obtain ⟨tick, hfile⟩ :=
      sftpDownloadFile_quiet conn Staging.idle_quiet (hw.at (w.tick + 1)) c.remote c.local_
    rw [hfile, fsDownload_idle]
    exact ⟨_, rfl⟩

variable (drive w) in
theorem localDelete_idle (depth : ℕ) (c : LocalItem) :
    ∃ tick, localDeleteRecursive drive (Staging.idle drive) (depth + 1) c w =
      (some true, w.at tick) := by
  unfold localDeleteRecursive
  rw [recurse_succ]
  unfold localDeleteBody
  split_ifs with hd
  · exact ⟨_, rfl⟩
  · have hfind : findFirst drive (Staging.idle drive) c.path w = (none, w.next) := by
      unfold findFirst
      dsimp only
      split_ifs <;> rfl
    rw [hfind]
    exact ⟨_, rfl⟩

theorem endTurn_idle {v : CopyState} (hv : v.fs.Asking) (depth : ℕ) (item : RemoteEntry) :
    endTurn op depth (Turn.idle drive) item false v =
      (some true, { v with fs := v.fs.at (v.fs.tick + 1) }) := by
  unfold endTurn
  rw [if_pos (by simp)]
  unfold Turn.idle
  dsimp only
  rw [hv.goesOn fun _ => rfl]
  rfl

variable (op) in
theorem copyStep_idle {v : CopyState} (hv : v.fs.Asking) {turn : Turn}
    (hdownload : turn.download = .idle drive)
    (depth : ℕ) (item : RemoteEntry) :
    ∃ tick, copyStep drive op (depth + 1) turn item v =
      (some false, { v with fs := v.fs.at tick }) := by
  obtain ⟨tick, hrun⟩ :=
    sftpDownload_idle drive op.conn (hv.at 0) depth (op.downloadCall drive item)
  have hrestart : v.fs.restart = v.fs.at 0 := rfl
  unfold copyStep
  rw [hdownload, hrestart, hrun]
  exact ⟨tick, rfl⟩

variable (drive op) in
/-- A turn in which nothing happens changes nothing, and the loop goes on. -/
theorem copyTurn_idle {v : CopyState} (hv : v.fs.Asking) (depth : ℕ) (item : RemoteEntry) :
    ∃ tick, copyTurn drive op (depth + 1) (Turn.idle drive, item) v =
      (some true, { v with fs := v.fs.at tick }) := by
  have hrestart : v.fs.restart.Asking := hv.at 0
  obtain ⟨tick, hstep⟩ := copyStep_idle op (v := { v with fs := v.fs.restart.at 1 }) (hrestart.at 1)
    (show (Turn.idle drive).download = _ from rfl) depth item
  obtain ⟨tick', hclean⟩ := localDelete_idle drive ((v.fs.restart.at 1).at tick).restart depth
    ⟨drive.tmpItem item.Name, item.IsDir⟩
  have hcleanup : (Turn.idle drive).cleanup = Staging.idle drive := rfl
  have hone : v.fs.restart.at (v.fs.restart.tick + 1) = v.fs.restart.at 1 := rfl
  unfold copyTurn
  rw [hrestart.goesOn fun _ => rfl]
  dsimp only
  rw [if_neg (by simp), hone, hstep]
  dsimp only
  rw [hcleanup, hclean]
  dsimp only
  rw [endTurn_idle (hv.at 0)]
  exact ⟨1, rfl⟩

/-! ### The disk in a turn -/

variable (drive) in
theorem disk_localDelete_idle (depth : ℕ) (c : LocalItem) (w : FsState) :
    (localDeleteRecursive drive (Staging.idle drive) depth c w).2.disk = w.disk := by
  cases depth with
  | zero => rfl
  | succ depth =>
    obtain ⟨tick, hclean⟩ := localDelete_idle drive w depth c
    rw [hclean]
    rfl

theorem disk_sftpDownload_idle (depth : ℕ) (c : WalkCall) (w : FsState) :
    (sftpDownloadRecursive (Staging.idle drive).toPanel conn depth c w).2.disk = w.disk := by
  have hmake :
      ∀ path (v : FsState), (fsCreateDirectory (Staging.idle drive).toPanel path v).disk = v.disk :=
    fun _ _ => rfl
  refine sftpDownload_rule (I := fun v => v.disk = w.disk) (P := fun _ => True)
    (fun _ _ hdisk _ hv => hdisk.trans hv)
    (fun path v hv => (hmake path v).trans hv) (fun c v v' _ _ hfetched _ hv => ?_)
    (fun _ _ _ _ _ _ _ => trivial) depth trivial rfl
  rcases hfetched with hsame | ⟨⟨_, hopened⟩, -⟩
  · exact hsame.trans hv
  · cases hopened

theorem disk_endTurn (depth : ℕ) (turn : Turn) (item : RemoteEntry) (step : Bool) (w : CopyState) :
    (endTurn op depth turn item step w).2.fs.disk = w.fs.disk := by
  unfold endTurn
  split_ifs
  · exact disk_sftpIsCancelled _ _
  · rfl
  · exact disk_sftpDelete _ _ _

variable (drive op) in
theorem disk_copyStep (depth : ℕ) (turn : Turn) (item : RemoteEntry) (w : CopyState) :
    (copyStep drive op depth turn item w).2.fs.disk =
      (sftpDownloadRecursive turn.download.toPanel op.conn depth
      (op.downloadCall drive item) w.fs.restart).2.disk := by
  unfold copyStep
  rcases sftpDownloadRecursive turn.download.toPanel op.conn depth
      (op.downloadCall drive item) w.fs.restart with
    ⟨_ | _ | _, fs⟩
  · rfl
  · rfl
  · exact disk_sftpUpload depth _ _

/-- Where nothing happens in the cleanup, a turn leaves the disk as the download does. -/
theorem disk_copyTurn {depth : ℕ} {turn : Turn} {item : RemoteEntry}
    (hclean : turn.cleanup = .idle drive) {w : CopyState}
    {fs : FsState} (hgo : sftpIsCancelled turn.start.toPanel w.fs.restart = (false, fs)) :
    (copyTurn drive op depth (turn, item) w).2.fs.disk =
      (sftpDownloadRecursive turn.download.toPanel op.conn depth
        (op.downloadCall drive item) fs.restart).2.disk := by
  have hstep := disk_copyStep drive op depth turn item { w with fs := fs }
  unfold copyTurn
  dsimp only
  rw [hgo]
  dsimp only
  rw [if_neg (by simp)]
  generalize copyStep drive op depth turn item { w with fs := fs } = r at hstep
  rcases r with ⟨_ | step, v⟩
  · exact hstep
  · have hsame :=
      disk_localDelete_idle drive depth ⟨drive.tmpItem item.Name, item.IsDir⟩ v.fs.restart
    rw [hclean]
    dsimp only
    generalize localDeleteRecursive drive (.idle drive) depth
      ⟨drive.tmpItem item.Name, item.IsDir⟩ v.fs.restart = r'
      at hsame
    rcases r' with ⟨_ | _, fs'⟩
    · exact hsame.trans hstep
    · exact (disk_endTurn ..).trans (hsame.trans hstep)

/-- Where nothing happens before the cleanup, a turn leaves the disk as the cleanup does. -/
theorem disk_copyTurn_cleanup {turn : Turn} (hstart : turn.start = .idle drive)
    (hdownload : turn.download = .idle drive)
    (depth : ℕ) (item : RemoteEntry) {v : CopyState} (hv : v.fs.Asking) :
    (copyTurn drive op (depth + 1) (turn, item) v).2.fs.disk =
      (localDeleteRecursive drive turn.cleanup (depth + 1)
        ⟨drive.tmpItem item.Name, item.IsDir⟩ v.fs.restart).2.disk := by
  have hrestart : v.fs.restart.Asking := hv.at 0
  obtain ⟨tick, hstep⟩ :=
    copyStep_idle op (v := { v with fs := v.fs.restart.at 1 }) (hrestart.at 1) hdownload
    depth item
  have hone : v.fs.restart.at (v.fs.restart.tick + 1) = v.fs.restart.at 1 := rfl
  have hsame : ((v.fs.restart.at 1).at tick).restart = v.fs.restart := rfl
  unfold copyTurn
  rw [hstart, hrestart.goesOn fun _ => rfl]
  dsimp only
  rw [if_neg (by simp), hone, hstep]
  dsimp only
  rw [hsame]
  rcases localDeleteRecursive drive turn.cleanup (depth + 1)
      ⟨drive.tmpItem item.Name, item.IsDir⟩ v.fs.restart with
    ⟨_ | _, fs⟩
  · rfl
  · exact disk_endTurn ..

theorem disk_copyTurn_idle (depth : ℕ) (item : RemoteEntry) (w : CopyState) :
    (copyTurn drive op depth (Turn.idle drive, item) w).2.fs.disk = w.fs.disk := by
  have hlook : (sftpIsCancelled (Turn.idle drive).start.toPanel w.fs.restart).2.disk = w.fs.disk :=
    disk_sftpIsCancelled _ _
  rcases hgo : sftpIsCancelled (Turn.idle drive).start.toPanel w.fs.restart with ⟨_ | _, fs⟩
    <;> rw [hgo] at hlook
  · exact (disk_copyTurn rfl hgo).trans ((disk_sftpDownload_idle _ _ _).trans hlook)
  · unfold copyTurn
    rw [hgo]
    exact hlook

end Idle

/-! ## One turn of a run -/

section OneTurn

variable {drive : LocalDrive} {D : DiskContent drive} {S : ServerContents}
  {op : ServerCopy} {items : List RemoteEntry}

/-- The state before the operation, with this tree on every server. -/
def DiskContent.start (D : DiskContent drive) (t : RemoteTree) :
    CopyState := ⟨⟨fun _ => t, D.disk, .ask, false, 0, []⟩, []⟩

theorem DiskContent.asking_start (t : RemoteTree) : (D.start t).fs.Asking := ⟨rfl, rfl⟩

variable (drive op) in
/-- Turns in which nothing happens can come before a run. -/
theorem copyItems_idle_append (depth : ℕ) (before : List RemoteEntry)
    (rest : List (Turn × RemoteEntry)) {w : CopyState}
    (hw : w.fs.Asking) :
    ∃ tick, copyItems drive op (depth + 1) (before.map (Turn.idle drive, ·) ++ rest) w =
      copyItems drive op (depth + 1) rest { w with fs := w.fs.at tick } := by
  induction before generalizing w with
  | nil => exact ⟨w.fs.tick, rfl⟩
  | cons item before ih =>
    obtain ⟨tick, hturn⟩ := copyTurn_idle drive op hw depth item
    obtain ⟨tick', hrest⟩ := ih (w := { w with fs := w.fs.at tick }) (hw.at tick)
    refine ⟨tick', ?_⟩
    unfold copyItems at hrest ⊢
    rw [List.map_cons, List.cons_append, forEach_cons_true (by rw [hturn]), hturn]
    exact hrest

/-- Turns in which nothing happens after a turn leave the disk as it does. -/
theorem disk_copyItems_idle (depth : ℕ) (t : Turn × RemoteEntry)
    (after : List RemoteEntry) (w : CopyState) :
    (copyItems drive op depth (t :: after.map (Turn.idle drive, ·)) w).2.fs.disk =
      (copyTurn drive op depth t w).2.fs.disk := by
  unfold copyItems
  by_cases hgo : (copyTurn drive op depth t w).1 = some true
  · rw [forEach_cons_true hgo]
    refine forEach_invariant
      (I := fun v : CopyState => v.fs.disk = (copyTurn drive op depth t w).2.fs.disk)
      (fun i hi v hv => ?_) _ rfl
    obtain ⟨item, -, rfl⟩ := List.mem_map.mp hi
    exact (disk_copyTurn_idle depth item v).trans hv
  · rw [forEach_cons_stop hgo]

/-- What the temporary directory keeps in every run it keeps in one turn. -/
theorem TempUntouched.turn (h : TempUntouched D S op items) {item : RemoteEntry}
    (hitem : item ∈ items) {turn : Turn}
    (hon : turn.On drive S) {t : RemoteTree} (ht : S.Holds t) (depth : ℕ) {path : CStr} {x : FsNode}
    (hin : drive.InTemp path) (hx : D.node path = some x) :
    (copyTurn drive op (depth + 1) (turn, item) (D.start t)).2.fs.disk.node drive.key path =
      some x := by
  obtain ⟨before, after, rfl⟩ := List.append_of_mem hitem
  have hkept := h (depth + 1)
      (before.map (Turn.idle drive, ·) ++ (turn, item) :: after.map (Turn.idle drive, ·))
    (D.start t) (by simp [Function.comp_def]) (fun u hu => ?_) rfl rfl (fun _ => ht)
  · obtain ⟨tick, hrun⟩ := copyItems_idle_append drive op depth before
      ((turn, item) :: after.map (Turn.idle drive, ·)) (DiskContent.asking_start (D := D) t)
    have hkeep := hkept.kept path x hin hx
    rw [hrun, disk_copyItems_idle] at hkeep
    exact hkeep
  · rcases List.mem_append.mp hu with hu | hu
    · obtain ⟨_, -, rfl⟩ := List.mem_map.mp hu
      exact Turn.idle_on
    · rcases List.mem_cons.mp hu with rfl | hu
      · exact hon
      · obtain ⟨_, -, rfl⟩ := List.mem_map.mp hu
        exact Turn.idle_on

end OneTurn

/-! ## The cleanup led to it -/

section Cleanup

variable {drive : LocalDrive} (D : DiskContent drive)

/-- What the disk shows is removed. -/
def Staging.removing (drive : LocalDrive) (findFiles : ℕ → CStr → Option (List FindData)) :
    Staging :=
  { Staging.idle drive with
    findFiles := findFiles
    deleteFile := fun _ => true
    removeDirectory := fun _ => true }

/-- What is gone stays gone. -/
def Disk.Shrinks (key : CStr → CStr) (disk disk' : Disk) : Prop :=
  ∀ p, disk.node key p = none → disk'.node key p = none

theorem Disk.shrinks_erase (key : CStr → CStr) (disk : Disk) (path : CStr) :
    disk.Shrinks key (disk.erase key path) := by
  intro p hp
  rw [Disk.node_erase, hp, ite_self]

theorem shrinks_removeDirectory (st : Staging) (path : CStr) (w : FsState) :
    w.disk.Shrinks drive.key (removeDirectory drive st path w).disk := by
  unfold removeDirectory
  split_ifs
  · exact Disk.shrinks_erase _ _ _
  · exact fun _ hp => hp

theorem findFirst_single {st : Staging} {w : FsState} {path : CStr} {fd : FindData}
    (hlist : st.findFiles w.tick (lstrcpyn path (2 * MAX_PATH)) = some [fd])
    (hholds : drive.Holds w.disk (lstrcpyn path (2 * MAX_PATH)) fd) :
    findFirst drive st path w = (some [fd], w.next) := by
  unfold findFirst
  dsimp only
  rw [if_pos hholds.1, hlist, Option.map_some,
    List.filter_cons_of_pos (by simp [hholds]), List.filter_nil]

/-- `LocalDeleteRecursive` can be steered while nothing is removed. -/
theorem localDelete_steerable :
    Steerable (fun findFiles => localDeleteBody drive (.removing drive findFiles))
      (fun c : LocalItem => lstrcpyn c.path (2 * MAX_PATH))
      (fun dir fd => drive.Holds D.disk dir fd ∧ ¬ IsDots fd.cFileName)
      (fun c fd c' => c.isDir = true ∧ c' = localChild drive c fd)
        (fun findFiles => findFiles) FsState.tick
      (fun _ => True) (fun w => w.disk = D.disk)
        (fun w w' => w.disk.Shrinks drive.key w'.disk) (fun _ _ _ => True)
      (fun _ findFiles => findFiles) where
  sub_refl _ := fun _ hp => hp
  sub_trans h h' := fun p hp => h' p (h p hp)
  single := by
    rintro findFiles c fd _ w - hok hlist ⟨hholds, hdots⟩ ⟨hd, rfl⟩
    refine ⟨w.next.next, hok, rfl, trivial, fun rec => ?_⟩
    rw [← hok] at hholds
    unfold localDeleteBody
    rw [if_neg (by simp [hd]), findFirst_single hlist hholds]
    dsimp only
    rw [forEach_singleton, if_neg hdots]
    split
    · next hres =>
      have hrec : _ = (rec (localChild drive c fd) w.next.next).2 := (congrArg Prod.snd hres).symm
      rw [← hrec]
      exact shrinks_removeDirectory _ _ _
    · exact fun _ hp => hp
  quiet_withList _ := trivial
  list_some hf _ := hf
  list_none hf := hf

theorem gone_of_call {D : DiskContent drive} {findFiles : ℕ → CStr → Option (List FindData)}
    {c : LocalItem} {w : FsState}
    (hrem : D.Removable c) (hdisk : w.disk = D.disk)
    (hnone : ∀ dir, findFiles w.tick dir = none) (depth : ℕ) :
    (localDeleteRecursive drive (.removing drive findFiles) (depth + 1) c w).2.disk.node
      drive.key c.path = none := by
  unfold DiskContent.Removable DiskContent.node at hrem
  rw [← hdisk] at hrem
  unfold localDeleteRecursive
  rw [recurse_succ]
  unfold localDeleteBody
  by_cases hd : c.isDir = true
  · rw [if_pos hd] at hrem
    have hfind : findFirst drive (.removing drive findFiles) c.path w = (none, w.next) := by
      unfold findFirst Staging.removing
      dsimp only
      split_ifs
      · rw [hnone]
        rfl
      · rfl
    rw [if_neg (by simp [hd]), hfind]
    dsimp only
    unfold removeDirectory
    rw [if_pos ⟨rfl, hrem⟩]
    exact (Disk.node_erase ..).trans (if_pos rfl)
  · rw [if_neg hd] at hrem
    rw [if_pos (by simpa using hd)]
    unfold deleteFile
    rw [if_pos ⟨rfl, hrem⟩]
    exact (Disk.node_erase ..).trans (if_pos rfl)

/-- Some cleanup removes what a walk can find and remove. -/
theorem exists_removal {D : DiskContent drive} {start c : LocalItem}
    (hwalks : D.Walks start c) (hrem : D.Removable c) :
    ∃ (findFiles : ℕ → CStr → Option (List FindData)) (depth : ℕ), ∀ w : FsState, w.disk = D.disk →
    w.tick = 0 →
      (localDeleteRecursive drive (.removing drive findFiles) (depth + 1) start w).2.disk.node
        drive.key c.path = none := by
  rcases ReflTransGen.cases_tail hwalks with rfl | ⟨c', hwalks', fd, hfd, hd, rfl⟩
  · exact ⟨fun _ _ => none, 0, fun w hdisk _ => gone_of_call hrem hdisk (fun _ => rfl) 0⟩
  · obtain ⟨f, k, -, hnone, hrun⟩ := (localDelete_steerable D).exists_run_to hwalks' hfd ⟨hd, rfl⟩
      (fun _ _ => none) trivial
    refine ⟨f, 1 + k, fun w hdisk htick => ?_⟩
    obtain ⟨w', hdisk', htick', -, hsub⟩ := hrun w htick hdisk
    have hgone := gone_of_call hrem hdisk' (fun dir => hnone _ htick'.ge dir) 0
    rw [show 1 + k + 1 = 1 + 1 + k by omega]
    exact hsub 1 _ hgone

/-- So nothing old of the temporary directory is found there. -/
theorem TempUntouched.walked {S : ServerContents} {op : ServerCopy}
    {items : List RemoteEntry} {D : DiskContent drive}
    (h : TempUntouched D S op items) :
    ∀ item ∈ items, ∀ c, D.Walks ⟨drive.tmpItem item.Name, item.IsDir⟩ c →
      D.Removable c → ¬ drive.InTemp c.path := by
  intro item hitem c hwalks hrem hin
  obtain ⟨x, hx⟩ : ∃ x, D.node c.path = some x := by
    unfold DiskContent.Removable at hrem
    split_ifs at hrem
    · exact ⟨_, hrem.1⟩
    · obtain ⟨_, hcontent⟩ := Option.isSome_iff_exists.mp hrem
      obtain ⟨x, hx, -⟩ := Option.bind_eq_some_iff.mp hcontent
      exact ⟨x, hx⟩
  obtain ⟨f, depth, hgone⟩ := exists_removal hwalks hrem
  have hon : Turn.On drive S { Turn.idle drive with cleanup := .removing drive f } :=
    ⟨Staging.idle_on, Staging.idle_on, Staging.idle_on,
      ⟨rfl, rfl, rfl, fun _ _ ht => ht, fun _ _ ht => ht⟩, Staging.idle_on⟩
  have hkept := h.turn hitem hon S.empty depth hin hx
  rw [disk_copyTurn_cleanup rfl rfl depth item (DiskContent.asking_start _),
    hgone _ rfl rfl] at hkept
  cases hkept

end Cleanup

/-! ## The download led to it -/

section Download

variable {drive : LocalDrive} {D : DiskContent drive} {conn : Conn} {t : RemoteTree}

/-- Every transfer breaks off at its first read. -/
def Staging.breaking (drive : LocalDrive) (readdir : ℕ → CStr → Option (List RemoteEntry)) :
    Staging :=
  { Staging.idle drive with
    readdir := readdir
    downloadIo := fun _ => ⟨true, some 1, true, true, [], 0, true⟩ }

/-- A call of `SftpDownloadRecursive` looks at the world five times before the call for its first
entry, and lists at the fourth of them. -/
theorem sftpDownloadBody_single {readdir : ℕ → CStr → Option (List RemoteEntry)}
    {rec : Proc WalkCall FsState} {c : WalkCall}
    {w : FsState} {e : RemoteEntry} (hd : c.isDir = true) (hw : w.Asking)
    (hlist : readdir (w.tick + 3) c.remote = some [e])
    (he : e ∈ conn.shown (w.tree conn) c.remote) :
    sftpDownloadBody (Staging.breaking drive readdir).toPanel conn rec c w =
      rec (drive.fetchChild c e)
      ((w.at (w.tick + 5)).record (.descend c.remote (drive.fetchChild c e).remote)) := by
  have hmake :
      fsCreateDirectory (Staging.breaking drive readdir).toPanel c.local_ (w.at (w.tick + 1 + 1)) =
      w.at (w.tick + 3) := rfl
  have hshow : listDir (Staging.breaking drive readdir).toPanel conn c.remote (w.at (w.tick + 3)) =
      (some [e], (w.at (w.tick + 3)).next) := listDir_single hlist he
  have hnext : (w.at (w.tick + 3)).next = w.at (w.tick + 4) := rfl
  unfold sftpDownloadBody
  rw [hw.goesOn fun _ => rfl]
  dsimp only
  rw [if_neg (by simp), if_neg (by simp [hd]), (hw.at _).goesOn fun _ => rfl]
  dsimp only
  rw [if_neg (by simp)]
  have hat : (w.at (w.tick + 1)).at ((w.at (w.tick + 1)).tick + 1) = w.at (w.tick + 1 + 1) := rfl
  rw [hat, hmake, hshow]
  dsimp only
  rw [forEach_singleton, hnext, (hw.at _).goesOn fun _ => rfl]
  rfl

variable (drive D conn t) in
/-- `SftpDownloadRecursive` can be steered while nothing is fetched; five looks count for two. -/
theorem sftpDownload_steerable :
    Steerable (fun readdir =>
      sftpDownloadBody (Staging.breaking drive readdir).toPanel conn) WalkCall.remote
      (fun r e => e ∈ conn.shown t r) (fun c e c' => c.isDir = true ∧ c' = drive.fetchChild c e)
      (fun readdir n => readdir (5 * (n / 2) + 3 + n % 2))
        (fun w => 2 * (w.tick / 5)) (fun _ => True)
      (fun w => (w.disk = D.disk ∧ w.tree conn = t) ∧ w.Asking ∧ 5 ∣ w.tick)
        (fun w w' => w' = w) (fun _ _ _ => True)
      (fun _ f tick => f (2 * (tick / 5) + (tick % 5 - 3))) where
  sub_refl _ := rfl
  sub_trans h h' := h'.trans h
  single := by
    rintro readdir c e _ w - ⟨⟨hdisk, htree⟩, hw, htick⟩ hlist he ⟨hd, rfl⟩
    obtain ⟨n, hn⟩ := htick
    have hlooks : 5 * (2 * (w.tick / 5) / 2) + 3 + 2 * (w.tick / 5) % 2 = w.tick + 3 := by omega
    rw [hlooks] at hlist
    refine ⟨(w.at (w.tick + 5)).record (.descend c.remote (drive.fetchChild c e).remote),
      ⟨⟨hdisk, htree⟩,
      ⟨hw.running, hw.mode⟩, ⟨n + 1, ?_⟩⟩, ?_, trivial, fun rec => ?_⟩
    · show w.tick + 5 = _
      omega
    · show 2 * ((w.tick + 5) / 5) = _
      omega
    · rw [← htree] at he
      exact congrArg Prod.snd (sftpDownloadBody_single hd hw hlist he)
  quiet_withList _ := trivial
  list_some := by
    intro readdir f n r e hf _
    have hn : 2 * ((5 * (n / 2) + 3 + n % 2) / 5) + ((5 * (n / 2) + 3 + n % 2) % 5 - 3) = n := by
      omega
    dsimp only
    rw [hn]
    exact hf
  list_none := by
    intro readdir f n r hf
    have hn : 2 * ((5 * (n / 2) + 3 + n % 2) / 5) + ((5 * (n / 2) + 3 + n % 2) % 5 - 3) = n := by
      omega
    dsimp only
    rw [hn]
    exact hf

/-- A transfer that breaks off before the first byte removes the file. -/
theorem gone_of_fsDownload {readdir : ℕ → CStr → Option (List RemoteEntry)}
    {remote local_ : CStr} {w : FsState}
    (hopens : conn.Opens (w.tree conn) remote) (hfile : w.disk.node drive.key local_ ≠ some .dir) :
    (fsDownload (Staging.breaking drive readdir).toPanel conn remote local_ 0 w).2.disk.node
      drive.key local_ = none := by
  have hio : ∀ target, download conn.scpMode ⟨true, some 1, true, true, [], 0, true⟩ target 0 =
      ⟨false, none, true, [], [], true⟩ := by
    intro target
    cases conn.scpMode <;> rfl
  have hkey : (Staging.breaking drive readdir).diskKey = drive.key := rfl
  have hopen : (Staging.breaking drive readdir).downloadIo w.tick =
      ⟨true, some 1, true, true, [], 0, true⟩ := rfl
  unfold Conn.Opens at hopens
  unfold fsDownload
  rw [hkey, hopen]
  dsimp only
  rw [hopens, decide_eq_true hfile, Bool.and_self, hio]
  exact (Disk.node_erase ..).trans (if_pos rfl)

theorem gone_of_downloadCall {readdir : ℕ → CStr → Option (List RemoteEntry)}
    {c : WalkCall} {w : FsState}
    (hw : w.Asking) (hd : c.isDir = false) (hopens : conn.Opens (w.tree conn) c.remote)
    (hfile : ((w.disk.node drive.key c.local_).bind FsNode.content?).isSome = true) (depth : ℕ) :
    (sftpDownloadRecursive (Staging.breaking drive readdir).toPanel conn
      (depth + 1) c w).2.disk.node drive.key c.local_ =
      none := by
  have hnotDir : w.disk.node drive.key c.local_ ≠ some .dir := by
    intro hdir
    rw [hdir] at hfile
    cases hfile
  have hquiet : (Staging.breaking drive readdir).toPanel.Quiet :=
    ⟨rfl, fun _ => rfl, fun _ => rfl, fun _ => rfl⟩
  obtain ⟨tick, hrun⟩ := sftpDownloadFile_quiet conn hquiet (hw.at (w.tick + 1)) c.remote c.local_
  unfold sftpDownloadRecursive
  rw [recurse_succ]
  unfold sftpDownloadBody
  rw [hw.goesOn fun _ => rfl]
  dsimp only
  rw [if_neg (by simp), if_pos (by simp [hd]), hrun]
  exact gone_of_fsDownload hopens hnotDir

/-- Some download removes a file that the listings can name. -/
theorem exists_erasure {start c : WalkCall}
    (hfetches : drive.Fetches conn t start c) (hd : c.isDir = false)
    (hopens : conn.Opens t c.remote)
    (hfile : ((D.node c.local_).bind FsNode.content?).isSome = true) :
    ∃ (readdir : ℕ → CStr → Option (List RemoteEntry)) (depth : ℕ), ∀ w : FsState, w.disk = D.disk →
    w.tree conn = t →
      w.Asking → w.tick = 0 →
      (sftpDownloadRecursive (Staging.breaking drive readdir).toPanel conn (depth + 1) start
        w).2.disk.node drive.key c.local_ = none := by
  unfold DiskContent.node at hfile
  rcases ReflTransGen.cases_tail hfetches with rfl | ⟨c', hfetches', e, he, hd', rfl⟩
  · refine ⟨fun _ _ => none, 0, fun w hdisk htree hw _ => gone_of_downloadCall hw hd ?_ ?_ 0⟩
    · rw [htree]
      exact hopens
    · rw [hdisk]
      exact hfile
  · have hpath : ReflTransGen (fun c c' => ∃ e, e ∈ conn.shown t c.remote ∧ c.isDir = true ∧
        c' = drive.fetchChild c e)
        start c' := hfetches'
    obtain ⟨f, k, -, -, hrun⟩ := (sftpDownload_steerable drive D conn t).exists_run_to
      hpath he ⟨hd', rfl⟩ (fun _ _ => none) trivial
    refine ⟨fun tick => f (2 * (tick / 5) + (tick % 5 - 3)), 1 + k,
      fun w hdisk htree hw htick => ?_⟩
    have hzero : 5 ∣ w.tick := by
      rw [htick]
      exact dvd_zero 5
    obtain ⟨w', ⟨⟨hdisk', htree'⟩, hw', -⟩, -, -, hsub⟩ :=
      hrun w (by rw [htick]) ⟨⟨hdisk, htree⟩, hw, hzero⟩
    rw [show 1 + k + 1 = 1 + 1 + k by omega]
    refine (congrArg (fun v : FsState => v.disk.node drive.key _) (hsub 1)).trans
      (gone_of_downloadCall hw' hd ?_ ?_ 0)
    · rw [htree']
      exact hopens
    · rw [hdisk']
      exact hfile

end Download

/-! ## The condition -/

section Condition

variable {drive : LocalDrive} {D : DiskContent drive} {S : ServerContents}
  {op : ServerCopy} {items : List RemoteEntry}

/-- Nor is an old file fetched over. -/
theorem TempUntouched.fetched (h : TempUntouched D S op items) :
    ∀ item ∈ items, ∀ t, S.Holds t → ∀ c,
    drive.Fetches op.conn t (op.downloadCall drive item) c → c.isDir = false →
    op.conn.Opens t c.remote →
      ((D.node c.local_).bind FsNode.content?).isSome = true → ¬ drive.InTemp c.local_ := by
  intro item hitem t ht c hfetches hd hopens hfile hin
  obtain ⟨content, hcontent⟩ := Option.isSome_iff_exists.mp hfile
  obtain ⟨x, hx, -⟩ := Option.bind_eq_some_iff.mp hcontent
  obtain ⟨readdir, depth, hgone⟩ := exists_erasure hfetches hd hopens hfile
  have hon : Turn.On drive S { Turn.idle drive with download := .breaking drive readdir } :=
    ⟨Staging.idle_on, ⟨rfl, rfl, rfl, fun _ _ ht => ht, fun _ _ ht => ht⟩, Staging.idle_on,
      Staging.idle_on, Staging.idle_on⟩
  have hkept := h.turn hitem hon ht depth hin hx
  have hstart : (D.start t).fs.restart.Asking := ⟨rfl, rfl⟩
  have hgo : sftpIsCancelled (Staging.idle drive).toPanel (D.start t).fs.restart = (false, _) :=
    hstart.goesOn fun _ => rfl
  rw [disk_copyTurn rfl hgo, hgone _ rfl rfl ⟨rfl, rfl⟩ rfl] at hkept
  cases hkept

/-- A copy between servers leaves the temporary directory alone if and only if nothing in it lies
where a walk over the staged items or a listing can lead. -/
theorem temp_untouched_iff (D : DiskContent drive) (S : ServerContents) (op : ServerCopy)
    (items : List RemoteEntry) :
    TempUntouched D S op items ↔ StagedApart D S op items :=
  ⟨fun h => ⟨h.walked, h.fetched⟩, StagedApart.tempUntouched⟩

end Condition

/-! ## A file under the name of an item -/

/-- A temporary directory with one file. -/
def oldFile : DiskContent plainDrive where
  disk := [(ascii "C:", .dir), (ascii "C:\\T", .dir), (ascii "C:\\T\\a", .file (ascii "old"))]
  closed := by
    intro dir path x hx hchild
    obtain ⟨e, he, hpath⟩ := Disk.mem_of_node hx
    obtain rfl : e.1 = path := hpath
    obtain ⟨hdir, hne⟩ := hchild
    obtain rfl : plainDrive.parent e.1 = dir := hdir
    simp only [List.mem_cons, List.not_mem_nil, or_false] at he
    rcases he with rfl | rfl | rfl
    · exact absurd rfl hne
    · decide
    · decide

/-- A remote file of that name leads to its loss. -/
theorem not_temp_untouched :
    ¬ ∀ (drive : LocalDrive) (D : DiskContent drive) (S : ServerContents) (op : ServerCopy)
    (items : List RemoteEntry), TempUntouched D S op items := by
  intro h
  have hrun := h plainDrive oldFile ⟨fun _ => True, trivial, fun _ _ => trivial⟩
    ⟨rawConn, rawConn, ascii "/", ascii "/", true⟩ [⟨ascii "a", false⟩]
  have hfile : oldFile.Removable ⟨plainDrive.tmpItem (ascii "a"), false⟩ := by
    unfold DiskContent.Removable
    decide
  exact hrun.walked ⟨ascii "a", false⟩ List.mem_cons_self _ ReflTransGen.refl hfile ⟨1, by decide⟩

end SalamanderSftp
