import SalamanderSftp.Fs.Staging

/-!
# What a copy between servers leaves of the temporary directory

Nothing that was in the temporary directory is changed, removed or uploaded, whatever is answered on
the way, if none of it lies where the items are staged: `StagedApart.tempUntouched`.

1. The download changes files only, at the paths of its calls; upload and cleanup walk the local
   disk from the name of the item on (`DiskContent.Walks`).
2. What the walk finds of the old content of the disk it could have found there before (`Visited`).
-/

namespace SalamanderSftp

open Procedure FileTree Relation

/-! ## One object of the disk -/

theorem Disk.node_erase (key : CStr → CStr) (disk : Disk) (path p : CStr) :
    (disk.erase key path).node key p = if key p = key path then none else disk.node key p := by
  unfold Disk.erase Disk.node
  rw [List.find?_filter]
  split_ifs with h
  · rw [List.find?_eq_none.mpr fun e _ => by simp [h]]
    rfl
  · congr 1
    refine List.find?_congr fun e _ => ?_
    by_cases he : key e.1 = key p
    · simp [he, h]
    · simp [he]

theorem Disk.node_put_of_ne {key : CStr → CStr} (disk : Disk) {path p : CStr}
    (x : FsNode) (h : key p ≠ key path) :
    (disk.put key path x).node key p = disk.node key p := by
  unfold Disk.put
  split_ifs
  · unfold Disk.node
    have hsame : ((fun e : CStr × FsNode => decide (key e.1 = key p)) ∘ fun e => if key e.1 =
        key path then (e.1, x) else e) =
        fun e => decide (key e.1 = key p) := by
      funext e
      by_cases he : key e.1 = key path <;> simp [he]
    rw [List.find?_map, hsame]
    rcases hfind : disk.find? (fun e => decide (key e.1 = key p)) with _ | e
    · rw [hfind]
      rfl
    · have he : key e.1 = key p := by simpa using List.find?_some hfind
      rw [hfind]
      simp [he, h]
  · unfold Disk.node
    rw [List.find?_append]
    simp [Ne.symm h]

theorem Disk.node_put_self {key : CStr → CStr} (disk : Disk) (path : CStr) (x : FsNode) :
    (disk.put key path x).node key path = some x := by
  unfold Disk.put
  split_ifs with h
  · unfold Disk.node at h ⊢
    have hsame : ((fun e : CStr × FsNode => decide (key e.1 = key path)) ∘ fun e =>
        if key e.1 = key path then (e.1, x) else e) = fun e => decide (key e.1 = key path) := by
      funext e
      by_cases he : key e.1 = key path <;> simp [he]
    rw [List.find?_map, hsame]
    rcases hfind : disk.find? (fun e => decide (key e.1 = key path)) with _ | e
    · rw [hfind] at h
      cases h
    · have he : key e.1 = key path := by simpa using List.find?_some hfind
      rw [hfind]
      simp [he]
  · have hnone : disk.find? (fun e => decide (key e.1 = key path)) = none := by
      unfold Disk.node at h
      simpa using h
    unfold Disk.node
    rw [List.find?_append, hnone]
    simp

theorem Disk.mem_of_node {key : CStr → CStr} {disk : Disk} {p : CStr} {x : FsNode}
    (h : disk.node key p = some x) :
    ∃ e ∈ disk, key e.1 = key p := by
  obtain ⟨e, hfind, -⟩ := Option.map_eq_some_iff.mp h
  exact ⟨e, List.mem_of_find?_eq_some hfind, by simpa using List.find?_some hfind⟩

theorem Disk.isSome_node_of_mem (disk : Disk) (key : CStr → CStr)
    {e : CStr × FsNode} (h : e ∈ disk) :
    (disk.node key e.1).isSome = true := by
  unfold Disk.node
  rw [Option.isSome_map, List.find?_isSome]
  exact ⟨e, h, by simp⟩

theorem Disk.node_congr {key : CStr → CStr} (disk : Disk) {p q : CStr} (h : key p = key q) :
    disk.node key p = disk.node key q := by
  unfold Disk.node
  rw [h]

/-! ## What the pieces do to the disk -/

section Pieces

variable (panel : Panel) (conn : Conn) (remote local_ : CStr) (w : FsState)

theorem disk_sftpIsCancelled : (sftpIsCancelled panel w).2.disk = w.disk := by
  unfold sftpIsCancelled
  split_ifs <;> rfl

theorem disk_sftpAskOverwrite : (sftpAskOverwrite panel w).2.disk = w.disk := by
  unfold sftpAskOverwrite
  cases w.ovrMode with
  | overwriteAll => rfl
  | skipAll => rfl
  | ask => cases panel.overwrite w.tick <;> rfl

theorem disk_askDownload (localSize : ℕ) (remoteSize : Option ℕ) :
    (askDownload panel localSize remoteSize w).2.disk = w.disk := by
  unfold askDownload
  split_ifs
  · cases panel.resume w.tick with
    | yes => rfl
    | no => exact disk_sftpIsCancelled panel w.next
    | cancel => rfl
  · have hask := disk_sftpAskOverwrite panel w
    dsimp only
    split_ifs <;> exact hask

theorem disk_syncSkipDownload : (syncSkipDownload panel conn remote local_ w).2.disk = w.disk := by
  unfold syncSkipDownload
  cases w.disk.node panel.diskKey local_ with
  | none => rfl
  | some node =>
    dsimp only
    split_ifs <;> rfl

theorem disk_resumableSize (localSize : ℕ) :
    (resumableSize panel conn remote localSize w).2.disk = w.disk := by
  unfold resumableSize
  split_ifs <;> rfl

/-- A download that touches the local file has opened both files. -/
theorem download_touched {scpMode : Bool} {io : DownloadIo}
    {target : Option Bytes} {resumeOffset : ℕ}
    (h : (download scpMode io target resumeOffset).opened = true) :
    io.opened = true ∧ io.fopen = true := by
  have hinto : ∀ more want offset, (downloadInto io target more want offset).opened = true →
      io.fopen = true := by
    intro more want offset h
    unfold downloadInto at h
    split at h
    · cases h
    · split_ifs at h with hfopen
      · cases h
      · simpa using hfopen
  unfold download scpDownload at h
  split_ifs at h with hscp hopened hstart hopened hstart
  · cases h
  · cases h
  · exact ⟨by simpa using hopened, hinto _ _ _ h⟩
  · cases h
  · cases h
  · exact ⟨by simpa using hopened, hinto _ _ _ h⟩

/-- The path denotes something on the server. -/
def Conn.Opens (conn : Conn) (t : RemoteTree) (path : CStr) :
    Prop := ((conn.target t path).bind t.lookup).isSome = true

/-- The disk is the same, or the source was opened and something other than a directory has changed
at this path. -/
def FetchedAt (panel : Panel) (conn : Conn) (remote local_ : CStr) (w w' : FsState) : Prop :=
  w'.disk = w.disk ∨ (∃ tick, (panel.downloadIo tick).opened = true) ∧
    conn.Opens (w.tree conn) remote ∧
    w.disk.node panel.diskKey local_ ≠ some .dir ∧
      ∀ p, panel.diskKey p ≠ panel.diskKey local_ →
        w'.disk.node panel.diskKey p = w.disk.node panel.diskKey p

variable {panel conn remote local_ w}

theorem FetchedAt.after {v w' : FsState}
    (h : FetchedAt panel conn remote local_ v w') (hdisk : v.disk = w.disk)
    (haside : w.Aside v) : FetchedAt panel conn remote local_ w w' := by
  unfold FetchedAt at h ⊢
  rwa [hdisk, haside.tree conn] at h

theorem fetchedAt_fsDownload (resumeOffset : ℕ) :
    FetchedAt panel conn remote local_ w
      (fsDownload panel conn remote local_ resumeOffset w).2 := by
  unfold fsDownload
  dsimp only
  split_ifs with hopened
  · right
    obtain ⟨hopens, hfopen⟩ := download_touched hopened
    rw [Bool.and_eq_true] at hopens hfopen
    refine ⟨⟨_, hopens.1⟩, hopens.2, of_decide_eq_true hfopen.2, fun p hp => ?_⟩
    split
    · exact Disk.node_put_of_ne _ _ hp
    · dsimp only
      rw [Disk.node_erase, if_neg hp]
      rfl
  · exact .inl rfl

theorem fetchedAt_downloadUnlessCancelled (resumeOffset : ℕ) :
    FetchedAt panel conn remote local_ w
      (downloadUnlessCancelled panel conn remote local_ resumeOffset w).2 := by
  unfold downloadUnlessCancelled
  dsimp only
  split_ifs
  · exact .inl (disk_sftpIsCancelled panel w)
  · exact (fetchedAt_fsDownload resumeOffset).after (disk_sftpIsCancelled panel w)
      (aside_sftpIsCancelled panel w)

theorem fetchedAt_sftpDownloadFile :
    FetchedAt panel conn remote local_ w (sftpDownloadFile panel conn remote local_ w).2 := by
  unfold sftpDownloadFile
  split_ifs
  · have hdisk := disk_syncSkipDownload panel conn remote local_ w
    have haside := aside_syncSkipDownload panel conn remote local_ w
    dsimp only
    split_ifs
    · exact .inl hdisk
    · exact (fetchedAt_downloadUnlessCancelled 0).after hdisk haside
  · rcases w.disk.node panel.diskKey local_ with _ | node
    · exact fetchedAt_downloadUnlessCancelled 0
    · dsimp only
      have hdisk := disk_resumableSize panel conn remote w node.size
      have haside := aside_resumableSize panel conn remote w node.size
      generalize resumableSize panel conn remote node.size w = size at hdisk haside
      have hdisk' := (disk_askDownload panel size.2 node.size size.1).trans hdisk
      have haside' := haside.trans (aside_askDownload panel size.2 node.size size.1)
      rcases hv : askDownload panel node.size size.1 size.2 with ⟨_ | _ | offset, v⟩
        <;> rw [hv] at hdisk' haside'
      · exact .inl hdisk'
      · exact .inl hdisk'
      · exact (fetchedAt_downloadUnlessCancelled offset).after hdisk' haside'

end Pieces

/-! ## Staged where nothing is -/

namespace LocalDrive

variable (drive : LocalDrive)

/-- The temporary directory, or something in it. -/
def InTemp (path : CStr) : Prop := ∃ n, drive.parent^[n] (drive.key path) = drive.key drive.tmpDir

variable {drive}

theorem InTemp.child {dir path : CStr} (h : drive.InTemp dir) (hchild : drive.IsChild dir path) :
    drive.InTemp path := by
  obtain ⟨n, hn⟩ := h
  exact ⟨n + 1, by rw [Function.iterate_succ_apply, hchild.1, hn]⟩

theorem InTemp.congr {p q : CStr} (h : drive.InTemp p) (hkey : drive.key q = drive.key p) :
    drive.InTemp q := by
  obtain ⟨n, hn⟩ := h
  exact ⟨n, by rw [hkey, hn]⟩

end LocalDrive

/-- The local disk before the operation: what it holds lies in directories. -/
structure DiskContent (drive : LocalDrive) where
  disk : Disk
  closed : ∀ {dir path : CStr} {x : FsNode}, disk.node drive.key path = some x →
    drive.IsChild dir path →
    disk.node drive.key dir = some .dir

/-- What the servers may hold: nothing at all, and with a tree every part of it. -/
structure ServerContents where
  Holds : RemoteTree → Prop
  empty : Holds ⟨[], by simp⟩
  part : ∀ {t t'}, Holds t → Part t' t → Holds t'

namespace DiskContent

variable {drive : LocalDrive} (D : DiskContent drive)

def node (path : CStr) : Option FsNode := D.disk.node drive.key path

/-- The calls that a walk over this disk gets to. -/
def Walks : LocalItem → LocalItem → Prop :=
  ReflTransGen fun c c' => ∃ fd : FindData,
    (drive.Holds D.disk (lstrcpyn c.path (2 * MAX_PATH)) fd ∧ ¬ IsDots fd.cFileName) ∧
      c.isDir = true ∧ c' = localChild drive c fd

/-- A call of `LocalDeleteRecursive` that can remove its item without a recursive call: a file, or a
directory with nothing in it. -/
def Removable (c : LocalItem) : Prop :=
  if c.isDir then D.node c.path = some .dir ∧ drive.Childless D.disk c.path
  else ((D.node c.path).bind FsNode.content?).isSome = true

end DiskContent

def LocalDrive.fetchChild (drive : LocalDrive) (c : WalkCall) (e : RemoteEntry) : WalkCall :=
  ⟨sftpJoin c.remote e.Name MAX_PATH,
    drive.append (lstrcpyn c.local_ (2 * MAX_PATH)) e.Name, e.IsDir⟩

/-- The calls that a download gets to. -/
def LocalDrive.Fetches (drive : LocalDrive) (conn : Conn) (t : RemoteTree) :
    WalkCall → WalkCall → Prop :=
  ReflTransGen fun c c' => ∃ e : RemoteEntry, e ∈ conn.shown t c.remote ∧
    c.isDir = true ∧ c' = drive.fetchChild c e

/-- Where the items are staged nothing lies in the temporary directory that a walk from there could
remove, and no file that a download could write. -/
structure StagedApart {drive : LocalDrive} (D : DiskContent drive)
    (S : ServerContents) (op : ServerCopy)
    (items : List RemoteEntry) : Prop where
  walked : ∀ item ∈ items, ∀ c, D.Walks ⟨drive.tmpItem item.Name, item.IsDir⟩ c →
    D.Removable c → ¬ drive.InTemp c.path
  fetched : ∀ item ∈ items, ∀ t, S.Holds t →
    ∀ c, drive.Fetches op.conn t (op.downloadCall drive item) c →
    c.isDir = false → op.conn.Opens t c.remote →
      ((D.node c.local_).bind FsNode.content?).isSome = true →
      ¬ drive.InTemp c.local_

/-- The world sees the local disk as it is, the servers hold what they may, and no synchronisation
is running. -/
structure Staging.On (drive : LocalDrive) (S : ServerContents) (st : Staging) : Prop where
  key : st.diskKey = drive.key
  append : st.salPathAppend = drive.append
  noSync : st.syncMode = false
  made : ∀ tick t, S.Holds t → S.Holds (st.serverMade tick t)
  server : ∀ tick t, S.Holds t → S.Holds (st.serverOut tick t)

/-- The same for all of a turn. -/
structure Turn.On (drive : LocalDrive) (S : ServerContents) (turn : Turn) : Prop where
  start : turn.start.On drive S
  download : turn.download.On drive S
  upload : turn.upload.On drive S
  cleanup : turn.cleanup.On drive S
  finish : turn.finish.On drive S

/-- What was in the temporary directory is there with its content, and none of it was uploaded. -/
structure TempKept {drive : LocalDrive} (D : DiskContent drive) (w : CopyState) : Prop where
  kept : ∀ path x, drive.InTemp path → D.node path = some x → w.fs.disk.node drive.key path = some x
  notUploaded : ∀ path ∈ w.uploaded, drive.InTemp path → D.node path = none

/-- The temporary directory is left alone, whatever the world answers and whatever the servers
hold. -/
def TempUntouched {drive : LocalDrive} (D : DiskContent drive)
    (S : ServerContents) (op : ServerCopy)
    (items : List RemoteEntry) : Prop :=
  ∀ (depth : ℕ) (turns : List (Turn × RemoteEntry)) (w : CopyState), turns.map Prod.snd = items →
    (∀ t ∈ turns, t.1.On drive S) → w.fs.disk = D.disk → w.uploaded = [] →
      (∀ n, S.Holds (w.fs.servers n)) →
      TempKept D (copyItems drive op depth turns w).2

/-! ## Nothing old is touched -/

section Kept

variable {drive : LocalDrive} {D : DiskContent drive} {S : ServerContents} {op : ServerCopy}
  {st : Staging} {conn : Conn}

/-- The part of `TempKept` about the disk, and what the servers hold. -/
structure FsState.Kept (D : DiskContent drive) (S : ServerContents) (w : FsState) : Prop where
  kept : ∀ path x, drive.InTemp path → D.node path = some x → w.disk.node drive.key path = some x
  servers : ∀ n, S.Holds (w.servers n)

theorem FsState.Kept.of_same {w w' : FsState} (h : w.Kept D S) (hdisk : w'.disk = w.disk)
    (hservers : w'.servers = w.servers) : w'.Kept D S := by
  refine ⟨fun path x hin hx => ?_, fun n => ?_⟩
  · rw [hdisk]
    exact h.kept path x hin hx
  · rw [hservers]
    exact h.servers n

theorem FsState.Kept.setTree {w : FsState} (h : w.Kept D S) {t : RemoteTree} (ht : S.Holds t) :
    (w.setTree conn t).Kept D S := by
  refine ⟨h.kept, fun n => ?_⟩
  unfold FsState.setTree
  dsimp only
  by_cases hn : n = conn.server
  · rw [hn, Function.update_self]
    exact ht
  · rw [Function.update_of_ne hn]
    exact h.servers n

/-- A change at one path, where nothing old lies in the temporary directory. -/
theorem FsState.Kept.change {w w' : FsState} (h : w.Kept D S) {changed : CStr}
    (hservers : w'.servers = w.servers)
    (hsame : ∀ p, drive.key p ≠ drive.key changed →
      w'.disk.node drive.key p = w.disk.node drive.key p)
    (hold : drive.InTemp changed → D.node changed = none) : w'.Kept D S := by
  refine ⟨fun path x hin hx => ?_, fun n => ?_⟩
  · have hne : drive.key path ≠ drive.key changed := by
      intro hkey
      have hnone := hold (hin.congr hkey.symm)
      unfold DiskContent.node at hnone hx
      rw [D.disk.node_congr hkey, hnone] at hx
      cases hx
    rw [hsame path hne]
    exact h.kept path x hin hx
  · rw [hservers]
    exact h.servers n

/-! ### The download -/

theorem kept_fsCreateDirectory {w : FsState} (h : w.Kept D S) (hon : st.On drive S) (path : CStr) :
    (fsCreateDirectory st.toPanel path w).Kept D S := by
  unfold fsCreateDirectory
  rw [hon.key]
  split_ifs with hnew
  · rw [Bool.and_eq_true, Option.isNone_iff_eq_none] at hnew
    refine h.change rfl (fun p hp => Disk.node_put_of_ne _ _ hp) fun hin => ?_
    by_contra hold
    obtain ⟨x, hx⟩ := Option.ne_none_iff_exists'.mp hold
    rw [h.kept path x hin hx] at hnew
    cases hnew.2
  · exact h.of_same rfl rfl

/-- A file that the download could write holds nothing old, or is a directory. -/
theorem kept_fetchedAt {w w' : FsState} (h : w.Kept D S)
    (hon : st.On drive S) {remote local_ : CStr}
    (hfetched : FetchedAt st.toPanel conn remote local_ w w') (haside : w.Aside w')
    (hold : conn.Opens (w.tree conn) remote → ((D.node local_).bind FsNode.content?).isSome = true →
      ¬ drive.InTemp local_) : w'.Kept D S := by
  unfold FetchedAt at hfetched
  rw [hon.key] at hfetched
  rcases hfetched with hsame | ⟨-, hopens, hdir, hchange⟩
  · exact h.of_same hsame haside.servers
  · refine h.change haside.servers hchange fun hin => ?_
    rcases hx : D.node local_ with _ | _ | _
    · rfl
    · exact absurd hin (hold hopens (by rw [hx]; rfl))
    · exact absurd (h.kept local_ _ hin hx) hdir

theorem downloadChild_eq (hon : st.On drive S) (c : WalkCall) (e : RemoteEntry) :
    downloadChild st.toPanel c e = drive.fetchChild c e := by
  unfold downloadChild LocalDrive.fetchChild
  rw [hon.append]

/-- What a download keeps: it looks at the world, makes directories, and fetches the files it
visits. -/
theorem sftpDownload_rule {panel : Panel} {P : WalkCall → Prop} {I : FsState → Prop}
    (hlook : ∀ w w', w'.disk = w.disk → w'.servers = w.servers → I w → I w')
    (hmake : ∀ path w, I w → I (fsCreateDirectory panel path w))
    (hfetch : ∀ c w w', P c → c.isDir = false → FetchedAt panel conn c.remote c.local_ w w' →
      w.Aside w' → I w → I w')
    (hchild : ∀ c e w, P c → c.isDir = true → I w → e ∈ conn.shown (w.tree conn) c.remote →
      P (downloadChild panel c e))
    (depth : ℕ) {c : WalkCall} {w : FsState} (hc : P c) (hw : I w) :
    I (sftpDownloadRecursive panel conn depth c w).2 := by
  have hcancel : ∀ w, I w → I (sftpIsCancelled panel w).2 := fun w hw =>
    hlook w _ (disk_sftpIsCancelled panel w) (aside_sftpIsCancelled panel w).servers hw
  refine recurse_invariant (P := P) (I := I) (fun rec hrec c w hc hw => ?_) depth hc hw
  unfold sftpDownloadBody
  dsimp only
  split_ifs with hcan hd hcan'
  · exact hcancel w hw
  · exact hfetch c _ _ hc (by simpa using hd) fetchedAt_sftpDownloadFile
      (aside_sftpDownloadFile ..) (hcancel w hw)
  · exact hcancel _ (hcancel w hw)
  · have hmade := hmake c.local_ _ (hcancel _ (hcancel w hw))
    generalize fsCreateDirectory panel c.local_ _ = v at hmade
    rcases hl : listDir panel conn c.remote v with ⟨_ | entries, v'⟩
    · have hv' : v' = v.next := (congrArg Prod.snd hl).symm
      rw [hv']
      exact hlook v _ rfl rfl hmade
    · have hv' : v' = v.next := (congrArg Prod.snd hl).symm
      have hshown : ∀ e ∈ entries, P (downloadChild panel c e) := fun e he =>
        hchild c e v hc (by simpa using hd) hmade (mem_shown_of_listDir (by rw [hl]) he)
      refine forEach_invariant (I := I) (fun e he s hs => ?_) v' ?_
      · split_ifs
        · exact hcancel s hs
        · exact hrec _ _ (hshown e he) (hlook (sftpIsCancelled panel s).2 _ rfl rfl (hcancel s hs))
      · rw [hv']
        exact hlook v _ rfl rfl hmade

/-- The download of an item, on servers that do not change meanwhile. -/
theorem kept_sftpDownload (hon : st.On drive S) {t : RemoteTree} {start : WalkCall}
    (hold : ∀ c, drive.Fetches conn t start c → c.isDir = false → conn.Opens t c.remote →
      ((D.node c.local_).bind FsNode.content?).isSome = true → ¬ drive.InTemp c.local_)
    (depth : ℕ) {w : FsState} (hw : w.Kept D S) (ht : w.tree conn = t) :
    (sftpDownloadRecursive st.toPanel conn depth start w).2.Kept D S := by
  suffices hinv : (sftpDownloadRecursive st.toPanel conn depth start w).2.Kept D S ∧
      (sftpDownloadRecursive st.toPanel conn depth start w).2.tree conn = t from hinv.1
  refine sftpDownload_rule (P := drive.Fetches conn t start)
    (I := fun w : FsState => w.Kept D S ∧ w.tree conn = t)
    (fun w w' hdisk hservers hw => ⟨hw.1.of_same hdisk hservers, ?_⟩) (fun path w hw => ⟨?_, ?_⟩)
    (fun c w w' hc hd hfetched haside hw => ⟨?_, ?_⟩)
      (fun c e w hc hd hw he => ?_) depth ReflTransGen.refl ⟨hw, ht⟩
  · rw [FsState.tree, hservers]
    exact hw.2
  · exact kept_fsCreateDirectory hw.1 hon path
  · rw [(aside_fsCreateDirectory ..).tree]
    exact hw.2
  · refine kept_fetchedAt hw.1 hon hfetched haside ?_
    rw [hw.2]
    exact hold c hc hd
  · rw [haside.tree]
    exact hw.2
  · rw [hw.2] at he
    exact hc.tail ⟨e, he, hd, downloadChild_eq hon c e⟩

/-! ### Walks over the disk -/

/-- What is old at a call of a walk could have been found there before. -/
structure Visited (D : DiskContent drive) (start c : LocalItem) : Prop where
  fits : c.path.length < 2 * MAX_PATH
  walks : ∀ x, D.node c.path = some x → (x = .dir ↔ c.isDir = true) → D.Walks start c

theorem Visited.start {name : CStr} {isDir : Bool} :
    Visited D ⟨drive.tmpItem name, isDir⟩ ⟨drive.tmpItem name, isDir⟩ :=
  ⟨drive.append_fits _ _, fun _ _ _ => ReflTransGen.refl⟩

theorem Visited.child {start c : LocalItem} (h : Visited D start c) (hd : c.isDir = true)
    {disk : Disk} {fd : FindData}
    (hfd : drive.Holds disk (lstrcpyn c.path (2 * MAX_PATH)) fd) (hdots : ¬ IsDots fd.cFileName) :
    Visited D start (localChild drive c fd) := by
  refine ⟨drive.append_fits _ _, fun x hx hkind => ?_⟩
  have hdir : D.disk.node drive.key (lstrcpyn c.path (2 * MAX_PATH)) = some .dir :=
    D.closed hx hfd.2.1
  have hpath : lstrcpyn c.path (2 * MAX_PATH) = c.path := lstrcpyn_eq_self h.fits
  refine (h.walks .dir (by rw [← hpath]; exact hdir) (by simp [hd])).tail
    ⟨fd, ⟨⟨hdir, hfd.2.1, x, hx, hkind⟩, hdots⟩, hd, rfl⟩

theorem mem_findFirst {path : CStr} {w : FsState} {entries : List FindData} {fd : FindData}
    (h : (findFirst drive st path w).1 = some entries) (hfd : fd ∈ entries) :
    IsDots fd.cFileName ∨ drive.Holds w.disk (lstrcpyn path (2 * MAX_PATH)) fd := by
  unfold findFirst at h
  dsimp only at h
  split_ifs at h
  obtain ⟨found, -, rfl⟩ := Option.map_eq_some_iff.mp h
  exact of_decide_eq_true (List.mem_filter.mp hfd).2

/-- Nothing old that the walk finds in the temporary directory can be removed. -/
def Spares (D : DiskContent drive) (start : LocalItem) : Prop :=
  ∀ c, D.Walks start c → D.Removable c → ¬ drive.InTemp c.path

/-- So a file that the walk finds is not an old one of the temporary directory. -/
theorem Spares.file {start c : LocalItem} (h : Spares D start) (hc : Visited D start c)
    (hd : c.isDir = false) {w : FsState}
    (hw : w.Kept D S) (hfile : ((w.disk.node drive.key c.path).bind FsNode.content?).isSome = true)
    (hin : drive.InTemp c.path) : D.node c.path = none := by
  by_contra hold
  obtain ⟨x, hx⟩ := Option.ne_none_iff_exists'.mp hold
  rw [hw.kept c.path x hin hx] at hfile
  have hkind : x = .dir ↔ c.isDir = true := by
    cases x with
    | file content => simp [hd]
    | dir => cases hfile
  refine h c (hc.walks x hx hkind) ?_ hin
  unfold DiskContent.Removable
  rw [if_neg (by simp [hd]), hx]
  exact hfile

/-- Nor is a directory without anything in it. -/
theorem Spares.dir {start c : LocalItem} (h : Spares D start) (hc : Visited D start c)
    (hd : c.isDir = true) {w : FsState}
    (hw : w.Kept D S) (hdir : w.disk.node drive.key c.path = some .dir)
    (hnone : drive.Childless w.disk c.path)
    (hin : drive.InTemp c.path) : D.node c.path = none := by
  by_contra hold
  obtain ⟨x, hx⟩ := Option.ne_none_iff_exists'.mp hold
  have hxdir : x = .dir := by
    have hkept := hw.kept c.path x hin hx
    rw [hdir] at hkept
    exact (Option.some.inj hkept).symm
  subst hxdir
  refine h c (hc.walks .dir hx (by simp [hd])) ?_ hin
  unfold DiskContent.Removable
  rw [if_pos hd]
  refine ⟨hx, fun e he hchild => ?_⟩
  -- something old in the directory is still there
  obtain ⟨y, hy⟩ := Option.isSome_iff_exists.mp (D.disk.isSome_node_of_mem drive.key he)
  obtain ⟨e', he', hkey⟩ := Disk.mem_of_node (hw.kept e.1 y (hin.child hchild) hy)
  refine hnone e' he' ⟨?_, ?_⟩
  · rw [hkey]
    exact hchild.1
  · rw [hkey]
    exact hchild.2

/-! ### The upload -/

variable (drive st conn) in
theorem disk_syncSkipUpload (local_ remote : CStr) (w : FsState) :
    (syncSkipUpload drive st conn local_ remote w).2.disk = w.disk ∧
      (syncSkipUpload drive st conn local_ remote w).2.servers = w.servers := by
  unfold syncSkipUpload
  dsimp only
  split_ifs <;> exact ⟨rfl, rfl⟩

variable (st) in
theorem disk_askUpload (localSize : ℕ) (remoteSize : Option ℕ) (w : FsState) :
    (askUpload st localSize remoteSize w).2.disk = w.disk ∧
    (askUpload st localSize remoteSize w).2.servers = w.servers := by
  unfold askUpload
  cases remoteSize <;> exact ⟨disk_askDownload .., (aside_askDownload ..).servers⟩

variable (st conn) in
theorem disk_uploadedSize (remote : CStr) (w : FsState) :
    (uploadedSize st conn remote w).2.disk = w.disk ∧
    (uploadedSize st conn remote w).2.servers = w.servers := by
  unfold uploadedSize
  split_ifs <;> exact ⟨rfl, rfl⟩

section Rule

variable {I : CopyState → Prop}
  (hlook : ∀ w fs, fs.disk = w.fs.disk → fs.servers = w.fs.servers → I w → I { w with fs := fs })

include hlook

theorem uploadUnlessCancelled_rule {local_ remote : CStr}
    (hupload : ∀ w offset, I w → I (fsUpload drive st conn local_ remote offset w).2)
    (offset : ℕ) {w : CopyState}
    (hw : I w) : I (uploadUnlessCancelled drive st conn local_ remote offset w).2 := by
  have hlooked := hlook w _ (disk_sftpIsCancelled st.toPanel w.fs)
      (aside_sftpIsCancelled st.toPanel w.fs).servers hw
  unfold uploadUnlessCancelled
  dsimp only
  split_ifs
  · exact hlooked
  · exact hupload _ offset hlooked

theorem sftpUploadFile_rule {local_ remote : CStr}
    (hupload : ∀ w offset, I w → I (fsUpload drive st conn local_ remote offset w).2)
    {w : CopyState} (hw : I w) :
    I (sftpUploadFile drive st conn local_ remote w).2 := by
  have hgo := uploadUnlessCancelled_rule hlook hupload
  unfold sftpUploadFile
  split_ifs
  · have hskip := disk_syncSkipUpload drive st conn local_ remote w.fs
    have hlooked := hlook w _ hskip.1 hskip.2 hw
    dsimp only
    split_ifs
    · exact hlooked
    · exact hgo 0 hlooked
  · have hstat : (isRemoteFile st.toPanel conn remote w.fs).2.disk = w.fs.disk ∧
        (isRemoteFile st.toPanel conn remote w.fs).2.servers = w.fs.servers := ⟨rfl, rfl⟩
    dsimp only
    split_ifs
    · exact hgo 0 (hlook w _ hstat.1 hstat.2 hw)
    · have hsize := disk_uploadedSize st conn remote (isRemoteFile st.toPanel conn remote w.fs).2
      generalize uploadedSize st conn remote (isRemoteFile st.toPanel conn remote w.fs).2 = size
        at hsize
      have hask := disk_askUpload st (localFileSize drive local_ size.2) size.1 size.2
      have hlooked :=
        hlook w _ (hask.1.trans (hsize.1.trans hstat.1)) (hask.2.trans (hsize.2.trans hstat.2)) hw
      rcases hv : askUpload st
          (localFileSize drive local_ size.2) size.1 size.2 with ⟨_ | _ | offset, v⟩ <;>
        rw [hv] at hlooked
      · exact hlooked
      · exact hlooked
      · exact hgo offset hlooked

/-- What an upload keeps: it looks at the world, makes directories, and uploads the files it
visits. -/
theorem sftpUpload_rule {P : WalkCall → Prop}
    (hmake : ∀ w, I w → I { w with fs := fsMakeDir st conn w.fs })
    (hupload : ∀ c w offset, P c → c.isDir = false → I w →
      I (fsUpload drive st conn c.local_ c.remote offset w).2)
    (hchild : ∀ c disk fd, P c → c.isDir = true →
      drive.Holds disk (lstrcpyn c.local_ (2 * MAX_PATH)) fd →
      ¬ IsDots fd.cFileName → P (uploadChild drive c fd)) (depth : ℕ) {c : WalkCall}
    {w : CopyState} (hc : P c)
    (hw : I w) : I (sftpUploadRecursive drive st conn depth c w).2 := by
  have hcancel : ∀ w, I w → I { w with fs := (sftpIsCancelled st.toPanel w.fs).2 } := fun w hw =>
    hlook w _ (disk_sftpIsCancelled st.toPanel w.fs)
      (aside_sftpIsCancelled st.toPanel w.fs).servers hw
  refine recurse_invariant (P := P) (I := I) (fun rec hrec c w hc hw => ?_) depth hc hw
  unfold sftpUploadBody
  dsimp only
  split_ifs with hcan hd hcan'
  · exact hcancel w hw
  · exact sftpUploadFile_rule hlook
      (fun w offset hw => hupload c w offset hc (by simpa using hd) hw) (hcancel w hw)
  · exact hcancel _ (hcancel w hw)
  · have hmade := hmake _ (hcancel _ (hcancel w hw))
    dsimp only at hmade
    generalize fsMakeDir st conn _ = v at hmade
    rcases hl : findFirst drive st c.local_ v with ⟨_ | entries, v'⟩
    · have hv' : v' = v.next := (congrArg Prod.snd hl).symm
      rw [hv']
      exact hlook ⟨v, w.uploaded⟩ v.next rfl rfl hmade
    · have hv' : v' = v.next := (congrArg Prod.snd hl).symm
      refine forEach_invariant (I := I) (fun fd hfd s hs => ?_) _ ?_
      · split_ifs with _ hdots
        · exact hcancel s hs
        · exact hcancel s hs
        · have hentries : (findFirst drive st c.local_ v).1 = some entries := by rw [hl]
          have hholds := (mem_findFirst hentries hfd).resolve_left hdots
          exact hrec _ _ (hchild c v.disk fd hc (by simpa using hd) hholds hdots) (hcancel s hs)
      · rw [hv']
        exact hlook ⟨v, w.uploaded⟩ v.next rfl rfl hmade

end Rule

/-- The state in the course of an upload. -/
structure CopyState.Kept (D : DiskContent drive) (S : ServerContents) (w : CopyState) : Prop where
  fs : w.fs.Kept D S
  notUploaded : ∀ path ∈ w.uploaded, drive.InTemp path → D.node path = none

theorem CopyState.Kept.of_same {w : CopyState} (h : w.Kept D S) {fs : FsState}
    (hdisk : fs.disk = w.fs.disk)
    (hservers : fs.servers = w.fs.servers) : CopyState.Kept D S { w with fs := fs } :=
  ⟨h.fs.of_same hdisk hservers, h.notUploaded⟩

theorem kept_fsUpload {w : CopyState} (h : w.Kept D S) (hon : st.On drive S)
    {local_ remote : CStr} (resumeOffset : ℕ)
    (hfile : ((w.fs.disk.node drive.key local_).bind FsNode.content?).isSome = true →
      drive.InTemp local_ →
      D.node local_ = none) : (fsUpload drive st conn local_ remote resumeOffset w).2.Kept D S := by
  unfold fsUpload
  dsimp only
  refine ⟨(h.fs.of_same rfl rfl : w.fs.next.Kept D S).setTree ?_, ?_⟩
  · split_ifs
    · exact hon.server _ _ (h.fs.servers _)
    · exact h.fs.servers _
  · intro path hpath hin
    dsimp only at hpath
    split_ifs at hpath with hopen
    · rcases List.mem_append.mp hpath with hpath | hpath
      · exact h.notUploaded path hpath hin
      · rw [List.mem_singleton] at hpath
        subst hpath
        rw [Bool.and_eq_true] at hopen
        exact hfile hopen.2 hin
    · exact h.notUploaded path hpath hin

theorem kept_sftpUpload (hon : st.On drive S) {start : WalkCall}
    (hstart : Visited D ⟨start.local_, start.isDir⟩ ⟨start.local_, start.isDir⟩)
    (hspares : Spares D ⟨start.local_, start.isDir⟩) (depth : ℕ) {w : CopyState} (hw : w.Kept D S) :
    (sftpUploadRecursive drive st conn depth start w).2.Kept D S := by
  refine sftpUpload_rule (I := CopyState.Kept D S)
    (P := fun c : WalkCall => Visited D ⟨start.local_, start.isDir⟩ ⟨c.local_, c.isDir⟩)
    (fun w fs hdisk hservers hw => hw.of_same hdisk hservers) (fun w hw => ?_)
      (fun c w offset hc hd hw => ?_)
    (fun c disk fd hc hd hholds hdots => hc.child hd hholds hdots) depth hstart hw
  · exact ⟨(hw.fs.of_same rfl rfl : w.fs.next.Kept D S).setTree (hon.made _ _ (hw.fs.servers _)),
      hw.notUploaded⟩
  · exact kept_fsUpload hw hon offset fun hfile hin => hspares.file hc hd hw.fs hfile hin

theorem disk_sftpUpload (depth : ℕ) (c : WalkCall) (w : CopyState) :
    (sftpUploadRecursive drive st conn depth c w).2.fs.disk = w.fs.disk :=
  sftpUpload_rule (I := fun v => v.fs.disk = w.fs.disk) (P := fun _ => True)
    (fun _ _ hdisk _ hv => hdisk.trans hv) (fun _ hv => hv) (fun _ _ _ _ _ hv => hv)
    (fun _ _ _ _ _ _ _ => trivial)
    depth trivial rfl

/-! ### The cleanup -/

/-- What a cleanup keeps: it looks at the disk, and removes the files and directories that it
visits. -/
theorem localDelete_rule {P : LocalItem → Prop} {I : FsState → Prop} (hnext : ∀ w, I w → I w.next)
    (hfile : ∀ c w, P c → c.isDir = false → I w → I (deleteFile drive st c.path w))
    (hdir : ∀ c w, P c → c.isDir = true → I w → I (removeDirectory drive st c.path w))
    (hchild : ∀ c disk fd, P c → c.isDir = true →
      drive.Holds disk (lstrcpyn c.path (2 * MAX_PATH)) fd →
      ¬ IsDots fd.cFileName → P (localChild drive c fd)) (depth : ℕ) {c : LocalItem}
    {w : FsState} (hc : P c) (hw : I w) :
    I (localDeleteRecursive drive st depth c w).2 := by
  refine recurse_invariant (P := P) (I := I) (fun rec hrec c w hc hw => ?_) depth hc hw
  unfold localDeleteBody
  split_ifs with hd
  · exact hfile c w hc (by simpa using hd) hw
  · have hisDir : c.isDir = true := by simpa using hd
    rcases hl : findFirst drive st c.path w with ⟨_ | entries, v⟩
    · have hv : v = w.next := (congrArg Prod.snd hl).symm
      rw [hv]
      exact hdir c _ hc hisDir (hnext w hw)
    · have hv : v = w.next := (congrArg Prod.snd hl).symm
      have hloop : I (forEach (fun fd w => if IsDots fd.cFileName then (some true, w.next)
          else rec (localChild drive c fd) w.next) entries v).2 := by
        refine forEach_invariant (fun fd hfd s hs => ?_) v ?_
        · split_ifs with hdots
          · exact hnext s hs
          · have hentries : (findFirst drive st c.path w).1 = some entries := by rw [hl]
            have hholds := (mem_findFirst hentries hfd).resolve_left hdots
            exact hrec _ _ (hchild c w.disk fd hc hisDir hholds hdots) (hnext s hs)
        · rw [hv]
          exact hnext w hw
      dsimp only
      split
      · next hres =>
        rw [hres] at hloop
        exact hdir c _ hc hisDir hloop
      · exact hloop

theorem kept_localDelete {start : LocalItem} (hstart : Visited D start start)
    (hspares : Spares D start) (depth : ℕ)
    {w : FsState} (hw : w.Kept D S) : (localDeleteRecursive drive st depth start w).2.Kept D S := by
  refine localDelete_rule (I := FsState.Kept D S) (P := Visited D start)
    (fun w hw => hw.of_same rfl rfl)
    (fun c w hc hd hw => ?_) (fun c w hc hd hw => ?_)
    (fun c disk fd hc hd hholds hdots => hc.child hd hholds hdots)
    depth hstart hw
  · unfold deleteFile
    split_ifs with hcan
    · refine hw.change rfl (fun p hp => ?_) fun hin => hspares.file hc hd hw hcan.2 hin
      dsimp only
      rw [Disk.node_erase, if_neg hp]
    · exact hw.of_same rfl rfl
  · unfold removeDirectory
    split_ifs with hcan
    · refine hw.change rfl (fun p hp => ?_) fun hin => hspares.dir hc hd hw hcan.2.1 hcan.2.2 hin
      dsimp only
      rw [Disk.node_erase, if_neg hp]
    · exact hw.of_same rfl rfl

/-! ### The end of a turn -/

/-- What a delete on a server keeps: the disk is not touched, and the tree shrinks. -/
theorem sftpDelete_rule {panel : Panel} {I : FsState → Prop}
    (hsame : ∀ w w', w'.disk = w.disk → w'.servers = w.servers → I w → I w')
    (hset : ∀ w t, I w → Part t (w.tree conn) → I (w.setTree conn t)) (depth : ℕ)
    {c : RemoteItem} {w : FsState}
    (hw : I w) : I (sftpDeleteRecursive panel conn depth c w).2 := by
  have hfile : ∀ path w, I w → I (removeFile panel conn path w).2 := by
    intro path w hw
    have hasked : I (w.record (.removeFile path)).next := hsame w _ rfl rfl hw
    unfold removeFile
    dsimp only
    rcases conn.denotes (w.tree conn) path with _ | q
    · exact hasked
    · dsimp only
      split_ifs with hcan
      · have hne : q ≠ [] := fun hnil => hcan.1 (by rw [hnil]; exact Tree.lookup_nil _)
        exact hset _ _ hasked (part_remove _ hne)
      · exact hasked
  have hdir : ∀ path w, I w → I (removeDir panel conn path w).2 := by
    intro path w hw
    have hasked : I (w.record (.removeDir path)).next := hsame w _ rfl rfl hw
    unfold removeDir
    dsimp only
    rcases conn.denotes (w.tree conn) path with _ | q
    · exact hasked
    · dsimp only
      split_ifs with hcan
      · exact hset _ _ hasked (part_remove _ hcan.2.1)
      · exact hasked
  refine recurse_invariant (P := fun _ => True) (I := I)
    (fun rec hrec c w _ hw => ?_) depth trivial hw
  by_cases hd : c.isDir = true
  · obtain ⟨v, hv, hend | ⟨-, hend⟩⟩ : ∃ v, I v ∧
        (sftpDeleteBody panel conn rec c w = removeDir panel conn c.remote v ∨
        (sftpDeleteBody panel conn rec c w).1 ≠ some true ∧
          (sftpDeleteBody panel conn rec c w).2 = v) :=
      sftpDeleteBody_dir hd (hsame w _ rfl rfl hw) fun entries _ e _ s hs =>
        hrec _ _ trivial (hsame s _ rfl rfl hs)
    · rw [hend]
      exact hdir _ _ hv
    · rw [hend]
      exact hv
  · unfold sftpDeleteBody
    rw [if_pos (by simpa using hd)]
    exact hfile _ _ hw

theorem kept_sftpDelete {panel : Panel} (depth : ℕ) {c : RemoteItem}
    {w : FsState} (hw : w.Kept D S) :
    (sftpDeleteRecursive panel conn depth c w).2.Kept D S :=
  sftpDelete_rule (I := FsState.Kept D S) (fun _ _ hdisk hservers hw => hw.of_same hdisk hservers)
    (fun _ _ hw hpart => hw.setTree (S.part (hw.servers conn.server) hpart)) depth hw

theorem disk_sftpDelete {panel : Panel} (depth : ℕ) (c : RemoteItem) (w : FsState) :
    (sftpDeleteRecursive panel conn depth c w).2.disk = w.disk :=
  sftpDelete_rule (I := fun v => v.disk = w.disk) (fun _ _ hdisk _ hv => hdisk.trans hv)
    (fun _ _ hv _ => hv) depth rfl

theorem kept_endTurn {depth : ℕ} {turn : Turn} {item : RemoteEntry} {step : Bool}
    {w : CopyState} (hw : w.Kept D S) :
    (endTurn op depth turn item step w).2.Kept D S := by
  unfold endTurn
  split_ifs
  · exact hw.of_same (disk_sftpIsCancelled _ _) (aside_sftpIsCancelled _ _).servers
  · exact hw
  · exact ⟨kept_sftpDelete depth hw.fs, hw.notUploaded⟩

theorem kept_copyStep {items : List RemoteEntry}
    (h : StagedApart D S op items) {depth : ℕ} {turn : Turn}
    {item : RemoteEntry} (hitem : item ∈ items) (hon : turn.On drive S)
    {w : CopyState} (hw : w.Kept D S) :
    (copyStep drive op depth turn item w).2.Kept D S := by
  have hrestart : w.fs.restart.Kept D S := hw.fs.of_same rfl rfl
  have hdownload :=
    kept_sftpDownload hon.download (h.fetched item hitem _ (hrestart.servers op.conn.server)) depth
    hrestart rfl
  unfold copyStep
  rcases hr : sftpDownloadRecursive turn.download.toPanel op.conn depth
      (op.downloadCall drive item) w.fs.restart with
    ⟨_ | _ | _, fs⟩ <;> rw [hr] at hdownload
  · exact ⟨hdownload, hw.notUploaded⟩
  · exact ⟨hdownload, hw.notUploaded⟩
  · have hspares : Spares D ⟨(op.uploadCall drive item).local_, (op.uploadCall drive item).isDir⟩ :=
      h.walked item hitem
    exact kept_sftpUpload hon.upload .start hspares depth
      ⟨hdownload.of_same rfl rfl, hw.notUploaded⟩

theorem kept_copyTurn {items : List RemoteEntry} (h : StagedApart D S op items)
    {depth : ℕ} {t : Turn × RemoteEntry}
    (hitem : t.2 ∈ items) (hon : t.1.On drive S) {w : CopyState} (hw : w.Kept D S) :
    (copyTurn drive op depth t w).2.Kept D S := by
  have hlook :
      CopyState.Kept D S { w with fs := (sftpIsCancelled t.1.start.toPanel w.fs.restart).2 } :=
    hw.of_same (disk_sftpIsCancelled _ _) (aside_sftpIsCancelled _ _).servers
  unfold copyTurn
  dsimp only
  split_ifs
  · exact hlook
  · have hstep : CopyState.Kept D S (copyStep drive op depth t.1 t.2 _).2 :=
      kept_copyStep h hitem hon hlook
    rcases hr : copyStep drive op depth t.1 t.2
        { w with fs := (sftpIsCancelled t.1.start.toPanel w.fs.restart).2 } with
      ⟨_ | step, v⟩ <;> rw [hr] at hstep
    · exact hstep
    · have hclean : FsState.Kept D S
          (localDeleteRecursive drive t.1.cleanup depth ⟨drive.tmpItem t.2.Name, t.2.IsDir⟩
          v.fs.restart).2 := kept_localDelete .start (h.walked t.2 hitem) depth
            (hstep.fs.of_same rfl rfl)
      dsimp only
      rcases hc : localDeleteRecursive drive t.1.cleanup depth
          ⟨drive.tmpItem t.2.Name, t.2.IsDir⟩ v.fs.restart with
        ⟨_ | _, fs⟩ <;> rw [hc] at hclean
      · exact ⟨hclean, hstep.notUploaded⟩
      · exact kept_endTurn ⟨hclean.of_same rfl rfl, hstep.notUploaded⟩

/-- Every run leaves the temporary directory alone when nothing lies where the items are staged. -/
theorem StagedApart.tempUntouched {items : List RemoteEntry} (h : StagedApart D S op items) :
    TempUntouched D S op items := by
  intro depth turns w hitems hon hdisk huploaded hservers
  have hstart : w.Kept D S := by
    refine ⟨⟨fun path x _ hx => ?_, hservers⟩, fun path hpath => ?_⟩
    · rw [hdisk]
      exact hx
    · rw [huploaded] at hpath
      exact absurd hpath List.not_mem_nil
  have hrun : (copyItems drive op depth turns w).2.Kept D S := by
    refine forEach_invariant (I := CopyState.Kept D S) (fun t ht v hv => ?_) w hstart
    refine kept_copyTurn h ?_ (hon t ht) hv
    rw [← hitems]
    exact List.mem_map_of_mem ht
  exact ⟨hrun.fs.kept, hrun.notUploaded⟩

end Kept

end SalamanderSftp
