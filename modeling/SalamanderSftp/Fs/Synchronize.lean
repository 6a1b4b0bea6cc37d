import SalamanderSftp.Connection.TransferComplete
import SalamanderSftp.Fs.Staging
import SalamanderSftp.Lib.TreeSync

/-!
# Synchronizing directories

`SyncSkipDownload` and `SyncSkipUpload` compare a last-write time, in units of 100 ns since 1601,
with the Unix time of a server. `LocalMTime` subtracts without a sign and counts whole seconds, so a
time before 1970 becomes a huge one, and an upload is skipped up to a second too long
(`download_skips_rightly_iff`, `upload_skips_rightly_iff`).

`SftpDownloadRecursive` and `SftpUploadRecursive` in the mode of `SftpSyncDir` are the same walk,
over the tree that is the source, with the other side as their state. What a synchronization that
returned true has transferred, the next one skips, if its size is the one that was told and no other
file has its place (`idle_download`, `idle_upload`).
-/

namespace SalamanderSftp

open Procedure Relation TreeSync

namespace Synchronize

/-! ## Times -/

/-- `WIN32_FILE_ATTRIBUTE_DATA`. -/
structure FileAttributes where
  isDir : Bool
  size : ℕ
  ftLastWriteTime : UInt64

/-- What `StatFull` tells. -/
structure RemoteStat where
  size : ℕ
  rmtime : UInt32

/-- The instants, in units of 100 ns since 1601. -/
def FileAttributes.instant (f : FileAttributes) : ℕ := f.ftLastWriteTime.toNat

def RemoteStat.instant (r : RemoteStat) : ℕ := 116444736000000000 + r.rmtime.toNat * 10000000

/-- `LocalFileSize`: 0 if not found. -/
def localFileSize (file : Option FileAttributes) : ℕ := file.elim 0 FileAttributes.size

/-- `LocalMTime`: 0 if not found. -/
def localMTime (file : Option FileAttributes) : UInt64 :=
  file.elim 0 fun f => (f.ftLastWriteTime - 116444736000000000) / 10000000

def syncSkipDownload (local_ : Option FileAttributes) (statFull : Option RemoteStat) : Bool :=
  if local_.isNone then false
  else
    match statFull with
    | none => false
    | some r => if localFileSize local_ ≠ r.size then false
        else decide (r.rmtime.toUInt64 ≤ localMTime local_)

def syncSkipUpload (pathType : ℕ) (statFull : Option RemoteStat) (local_ : Option FileAttributes) :
    Bool :=
  if pathType ≠ 1 then false
  else
    match statFull with
    | none => false
    | some r => if localFileSize local_ ≠ r.size then false
        else decide (localMTime local_ ≤ r.rmtime.toUInt64)

theorem toNat_rmtime (r : RemoteStat) :
    r.rmtime.toUInt64.toNat = r.rmtime.toNat := UInt32.toNat_toUInt64 _

theorem toNat_localMTime {f : FileAttributes} (h : 116444736000000000 ≤ f.instant) :
    (localMTime (some f)).toNat = (f.instant - 116444736000000000) / 10000000 := by
  have hle : (116444736000000000 : UInt64) ≤ f.ftLastWriteTime := UInt64.le_iff_toNat_le.mpr h
  show ((f.ftLastWriteTime - 116444736000000000) / 10000000).toNat = _
  rw [UInt64.toNat_div, UInt64.toNat_sub_of_le _ _ hle]
  rfl

/-- Before 1970 the difference is a huge number. -/
theorem lt_localMTime {f : FileAttributes} (h : f.instant < 116444736000000000) (r : RemoteStat) :
    r.rmtime.toUInt64 < localMTime (some f) := by
  rw [UInt64.lt_iff_toNat_lt, toNat_rmtime]
  show _ < ((f.ftLastWriteTime - 116444736000000000) / 10000000).toNat
  have hfile : f.ftLastWriteTime.toNat < 116444736000000000 := h
  have hsub : (f.ftLastWriteTime - 116444736000000000).toNat =
      (2 ^ 64 - 116444736000000000 + f.ftLastWriteTime.toNat) % 2 ^ 64 := UInt64.toNat_sub _ _
  have hsmall : r.rmtime.toNat < 2 ^ 32 := r.rmtime.toNat_lt
  rw [UInt64.toNat_div, hsub]
  show _ < _ / 10000000
  omega

/-- Not older, for a file of the time since 1970. -/
theorem le_localMTime_iff {f : FileAttributes}
    (h : 116444736000000000 ≤ f.instant) (r : RemoteStat) :
    r.rmtime.toUInt64 ≤ localMTime (some f) ↔ r.instant ≤ f.instant := by
  rw [UInt64.le_iff_toNat_le, toNat_rmtime, toNat_localMTime h]
  unfold RemoteStat.instant
  omega

theorem localMTime_le_iff {f : FileAttributes}
    (h : 116444736000000000 ≤ f.instant) (r : RemoteStat) :
    localMTime (some f) ≤ r.rmtime.toUInt64 ↔ f.instant < r.instant + 10000000 := by
  rw [UInt64.le_iff_toNat_le, toNat_rmtime, toNat_localMTime h]
  unfold RemoteStat.instant
  omega

/-! ## When a file is skipped -/

theorem syncSkipDownload_iff {local_ : Option FileAttributes} {statFull : Option RemoteStat} :
    syncSkipDownload local_ statFull = true ↔ ∃ f r, local_ = some f ∧
    statFull = some r ∧ f.size = r.size ∧
      r.rmtime.toUInt64 ≤ localMTime (some f) := by
  unfold syncSkipDownload
  rcases local_ with _ | f
  · simp
  · rcases statFull with _ | r
    · simp
    · by_cases hsize : f.size = r.size
      · simp [localFileSize, hsize]
      · simp [localFileSize, hsize]

theorem syncSkipUpload_iff {pathType : ℕ} {statFull : Option RemoteStat}
    {local_ : Option FileAttributes} :
    syncSkipUpload pathType statFull local_ = true ↔ pathType = 1 ∧ ∃ r, statFull = some r ∧
      localFileSize local_ = r.size ∧ localMTime local_ ≤ r.rmtime.toUInt64 := by
  unfold syncSkipUpload
  rcases statFull with _ | r
  · simp
  · simp

/-- A download is skipped only if the local file is there, with the same size and not older. -/
def DownloadSkipsRightly (local_ : Option FileAttributes) (statFull : Option RemoteStat) : Prop :=
  syncSkipDownload local_ statFull = true → ∃ f r, local_ = some f ∧
    f.isDir = false ∧ statFull = some r ∧
    f.size = r.size ∧ r.instant ≤ f.instant

/-- An upload is skipped only if the remote file is there, with the same size and not older. -/
def UploadSkipsRightly (pathType : ℕ) (statFull : Option RemoteStat) (f : FileAttributes) : Prop :=
  syncSkipUpload pathType statFull (some f) = true → pathType = 1 ∧
    ∃ r, statFull = some r ∧ f.size = r.size ∧
    f.instant ≤ r.instant

/-- The file is from 1970 or later, and a directory in its place is older. -/
def DownloadComparable (local_ : Option FileAttributes) (statFull : Option RemoteStat) : Prop :=
  ∀ f r, local_ = some f → statFull = some r → f.size = r.size →
    116444736000000000 ≤ f.instant ∧ (f.isDir = true → f.instant < r.instant)

/-- The file is not newer by a fraction of a second. -/
def UploadComparable (pathType : ℕ) (statFull : Option RemoteStat) (f : FileAttributes) : Prop :=
  ∀ r, pathType = 1 → statFull = some r → f.size = r.size →
    f.instant ≤ r.instant ∨ r.instant + 10000000 ≤ f.instant

theorem download_skips_rightly_iff (local_ : Option FileAttributes) (statFull : Option RemoteStat) :
    DownloadSkipsRightly local_ statFull ↔ DownloadComparable local_ statFull := by
  unfold DownloadSkipsRightly DownloadComparable
  rw [syncSkipDownload_iff]
  constructor
  · intro h f r hf hr hsize
    by_cases hearly : f.instant < 116444736000000000
    · obtain ⟨f', r', hf', -, hr', -, hle⟩ :=
        h ⟨f, r, hf, hr, hsize, UInt64.le_of_lt (lt_localMTime hearly r)⟩
      obtain rfl := Option.some.inj (hf.symm.trans hf')
      obtain rfl := Option.some.inj (hr.symm.trans hr')
      unfold RemoteStat.instant at hle
      omega
    · have hsince : 116444736000000000 ≤ f.instant := Nat.le_of_not_lt hearly
      refine ⟨hsince, fun hdir => Nat.lt_of_not_le fun hle => ?_⟩
      obtain ⟨f', r', hf', hfile, -⟩ :=
        h ⟨f, r, hf, hr, hsize, (le_localMTime_iff hsince r).mpr hle⟩
      obtain rfl := Option.some.inj (hf.symm.trans hf')
      rw [hdir] at hfile
      cases hfile
  · rintro h ⟨f, r, hf, hr, hsize, hle⟩
    obtain ⟨hsince, hdir⟩ := h f r hf hr hsize
    have hnotOlder : r.instant ≤ f.instant := (le_localMTime_iff hsince r).mp hle
    have hfile : f.isDir = false := by
      by_contra hnot
      have hlt := hdir (by simpa using hnot)
      omega
    exact ⟨f, r, hf, hfile, hr, hsize, hnotOlder⟩

theorem upload_skips_rightly_iff (pathType : ℕ)
    (statFull : Option RemoteStat) (f : FileAttributes) :
    UploadSkipsRightly pathType statFull f ↔ UploadComparable pathType statFull f := by
  unfold UploadSkipsRightly UploadComparable
  rw [syncSkipUpload_iff]
  constructor
  · intro h r htype hr hsize
    by_cases hearly : f.instant ≤ r.instant
    · exact .inl hearly
    · have hsince : 116444736000000000 ≤ f.instant := by
        unfold RemoteStat.instant at hearly
        omega
      refine .inr (Nat.le_of_not_lt fun hlt => ?_)
      obtain ⟨-, r', hr', -, hle⟩ := h ⟨htype, r, hr, hsize, (localMTime_le_iff hsince r).mpr hlt⟩
      obtain rfl := Option.some.inj (hr.symm.trans hr')
      exact hearly hle
  · rintro h ⟨htype, r, hr, hsize, hle⟩
    refine ⟨htype, r, hr, hsize, ?_⟩
    rcases h r htype hr hsize with hnotOlder | hnewer
    · exact hnotOlder
    · have hsince : 116444736000000000 ≤ f.instant := by
        unfold RemoteStat.instant at hnewer
        omega
      have hlt := (localMTime_le_iff hsince r).mp hle
      omega

/-! ## The other side -/

/-- What lies on the side that is synchronized, and the calls of `Download` or `Upload`. -/
structure SyncState (ο : Type) where
  objects : CStr → Option ο
  transfers : List WalkCall
  /-- `g_OvrCancel || g_ProgCancel`. -/
  cancelled : Bool
  /-- The number of looks at the world so far. -/
  tick : ℕ

namespace SyncState

variable {ο : Type}

def next (s : SyncState ο) : SyncState ο := { s with tick := s.tick + 1 }

def record (s : SyncState ο) (c : WalkCall) :
    SyncState ο := { s with transfers := s.transfers ++ [c] }

/-- A file is written or deleted; everything else stays as it is. -/
def put (s : SyncState ο) (place : CStr) (o : Option ο) : SyncState ο :=
  { s with objects := Function.update s.objects place o }

/-- A directory is made where nothing is; `none` if it is not made. -/
def make (s : SyncState ο) (place : CStr) (dir : Option ο) : SyncState ο :=
  if (s.objects place).isSome then s else s.put place dir

def isCancelled (wantCancel : ℕ → Bool) (s : SyncState ο) : Bool × SyncState ο :=
  if s.cancelled then (true, s)
  else if wantCancel s.tick then (true, { s.next with cancelled := true })
  else (false, s.next)

@[simp] theorem next_objects (s : SyncState ο) : s.next.objects = s.objects := rfl

@[simp] theorem next_transfers (s : SyncState ο) : s.next.transfers = s.transfers := rfl

@[simp] theorem record_objects (s : SyncState ο) (c : WalkCall) :
    (s.record c).objects = s.objects := rfl

@[simp] theorem record_transfers (s : SyncState ο) (c : WalkCall) :
    (s.record c).transfers = s.transfers ++ [c] := rfl

@[simp] theorem put_transfers (s : SyncState ο) (place : CStr) (o : Option ο) :
    (s.put place o).transfers = s.transfers := rfl

theorem put_self (s : SyncState ο) (place : CStr) (o : Option ο) :
    (s.put place o).objects place = o := by
  unfold put
  exact Function.update_self ..

theorem put_of_ne (s : SyncState ο) {place p : CStr} (o : Option ο) (h : p ≠ place) :
    (s.put place o).objects p = s.objects p := by
  unfold put
  exact Function.update_of_ne h ..

@[simp] theorem make_transfers (s : SyncState ο) (place : CStr) (dir : Option ο) :
    (s.make place dir).transfers = s.transfers := by
  unfold make
  split_ifs
  · rfl
  · rfl

theorem make_objects {s : SyncState ο} {place p : CStr} {dir : Option ο} {o : ο}
    (h : s.objects p = some o) :
    (s.make place dir).objects p = some o := by
  unfold make
  split_ifs with hthere
  · exact h
  · rw [put_of_ne, h]
    rintro rfl
    simp [h] at hthere

theorem make_of_ne (s : SyncState ο) {place p : CStr} (dir : Option ο) (h : p ≠ place) :
    (s.make place dir).objects p = s.objects p := by
  unfold make
  split_ifs
  · rfl
  · exact s.put_of_ne dir h

theorem isCancelled_objects (wantCancel : ℕ → Bool) (s : SyncState ο) :
    (s.isCancelled wantCancel).2.objects = s.objects := by
  unfold isCancelled
  split_ifs
  · rfl
  · rfl
  · rfl

theorem isCancelled_transfers (wantCancel : ℕ → Bool) (s : SyncState ο) :
    (s.isCancelled wantCancel).2.transfers = s.transfers := by
  unfold isCancelled
  split_ifs
  · rfl
  · rfl
  · rfl

end SyncState

/-! ## From the server -/

structure ServerTree where
  scpMode : Bool
  listDir : CStr → Option (List RemoteEntry)
  statFull : CStr → Option RemoteStat

/-- What the world answers during a download. -/
structure DownloadAnswers where
  /-- `g_ProgDlg->GetWantCancel()`. -/
  wantCancel : ℕ → Bool
  /-- The attributes of a directory that was made. -/
  createDirectory : ℕ → Option FileAttributes
  downloadIo : ℕ → CStr → DownloadIo
  writeTime : ℕ → UInt64

section Download

variable (drive : LocalDrive) (T : ServerTree) (A : DownloadAnswers)

/-- Where `SftpDownloadRecursive` goes. -/
def downloadWalk : Walk WalkCall RemoteEntry where
  isDir := WalkCall.isDir
  entries c := T.listDir c.remote
  ignored _ := false
  child c e := ⟨sftpJoin c.remote e.Name MAX_PATH,
    drive.append (lstrcpyn c.local_ (2 * MAX_PATH)) e.Name, e.IsDir⟩
  unlisted := false

/-- `conn.Download(remote, local)`. -/
def syncDownload (c : WalkCall) (s : SyncState FileAttributes) :
    Option Bool × SyncState FileAttributes :=
  let place := drive.key c.local_
  let io := A.downloadIo s.tick c.remote
  -- a directory cannot be opened for writing
  let io := { io with fopen := io.fopen && !(s.objects place).any FileAttributes.isDir }
  -- what was there matters to a resume only
  let r := download T.scpMode io none 0
  let file := r.target.map fun content => ⟨false, content.length, A.writeTime s.tick⟩
  let s := (s.record c).next
  (some r.ok, if r.opened then s.put place file else s)

def downloadActions : Actions WalkCall (SyncState FileAttributes) where
  stop := SyncState.isCancelled A.wantCancel
  enter c s := (s.make (drive.key c.local_) (A.createDirectory s.tick)).next
  skip c s := syncSkipDownload (s.objects (drive.key c.local_)) (T.statFull c.remote)
  transfer := syncDownload drive T A

/-- `SftpDownloadRecursive` with `g_SyncMode`, at most `depth` activations deep. -/
def syncDownloadRecursive (depth : ℕ) : Proc WalkCall (SyncState FileAttributes) :=
  sync (downloadWalk drive T) (downloadActions drive T A) depth

/-- The local disk, seen from the server's files. -/
def localMirror : Mirror WalkCall CStr FileAttributes (SyncState FileAttributes) where
  target c := drive.key c.local_
  objects := SyncState.objects
  transfers := SyncState.transfers
  fits c f := ∃ r, T.statFull c.remote = some r ∧ f.size = r.size
  current c f := ∃ r, T.statFull c.remote = some r ∧ r.rmtime.toUInt64 ≤ localMTime (some f)

/-- The times of written files may have changed since, but not to before the time of a source. -/
structure DownloadUnchanged (root : WalkCall) (s s' : SyncState FileAttributes) : Prop where
  same : ∀ k, ¬ (localMirror drive T).WrittenTo s k → s'.objects k = s.objects k
  written : ∀ k f, (localMirror drive T).WrittenTo s k → s.objects k = some f →
    ∃ time, s'.objects k = some { f with ftLastWriteTime := time }
  notEarlier : ∀ c f r, (downloadWalk drive T).Holds root c →
    (localMirror drive T).WrittenTo s (drive.key c.local_) →
    s'.objects (drive.key c.local_) = some f → T.statFull c.remote = some r → r.instant ≤ f.instant

/-- What gets into the local file has the size that `StatFull` tells, and files with one target have
one size. -/
structure Downloadable (root : WalkCall) : Prop where
  stat : ∀ c, (downloadWalk drive T).Holds root c → (T.statFull c.remote).isSome
  served : ∀ c r, (downloadWalk drive T).Holds root c → T.statFull c.remote = some r →
    ∀ n bs, served T.scpMode (A.downloadIo n c.remote) 0 = some bs →
      (stored (A.downloadIo n c.remote).lost bs).length = r.size
  agree : ∀ c d r r', (downloadWalk drive T).Holds root c → (downloadWalk drive T).Holds root d →
    drive.key c.local_ = drive.key d.local_ → T.statFull c.remote = some r →
      T.statFull d.remote = some r' →
    r.size = r'.size

end Download

section Download

variable {drive : LocalDrive} {T : ServerTree} {A : DownloadAnswers} {root : WalkCall}

theorem syncDownload_of_ok {c : WalkCall} {s : SyncState FileAttributes}
    (h : (syncDownload drive T A c s).1 = some true) :
    ∃ bs, served T.scpMode (A.downloadIo s.tick c.remote) 0 = some bs ∧
      (syncDownload drive T A c s).2 = (s.record c).next.put (drive.key c.local_)
        (some ⟨false, (stored (A.downloadIo s.tick c.remote).lost bs).length,
          A.writeTime s.tick⟩) := by
  unfold syncDownload at h ⊢
  dsimp only at h ⊢
  obtain ⟨-, content, bs, hc, hbs, heq⟩ := download_of_ok (Option.some.inj h)
  rw [startOffset_zero] at hc hbs heq
  obtain rfl : [] = content := by simpa [keptContent] using hc
  rw [writeAt_nil_zero] at heq
  rw [heq]
  exact ⟨bs, hbs, rfl⟩

theorem stores_download (hplain : Downloadable drive T A root) {c : WalkCall}
    {s : SyncState FileAttributes}
    (hc : (downloadWalk drive T).Holds root c) (h : (syncDownload drive T A c s).1 = some true) :
    (localMirror drive T).Stores c s (syncDownload drive T A c s).2 := by
  obtain ⟨bs, hbs, heq⟩ := syncDownload_of_ok h
  obtain ⟨r, hr⟩ := Option.isSome_iff_exists.mp (hplain.stat c hc)
  rw [heq]
  exact
    { copy := ⟨_, SyncState.put_self .., r, hr, hplain.served c r hc hr _ bs hbs⟩
      others := fun k o hne ho => (SyncState.put_of_ne _ _ hne).trans ho
      transfers := rfl }

theorem looks_download (root : WalkCall) :
    (localMirror drive T).Looks (downloadWalk drive T) (downloadActions drive T A) root where
  stop_objects s := s.isCancelled_objects A.wantCancel
  stop_transfers s := s.isCancelled_transfers A.wantCancel
  enter_objects _ _ _ _ ho := SyncState.make_objects ho
  enter_transfers s c := SyncState.make_transfers ..
  skip_iff c s _ := by
    refine syncSkipDownload_iff.trans ⟨?_, ?_⟩
    · rintro ⟨f, r, hf, hr, hsize, hle⟩
      exact ⟨f, hf, ⟨r, hr, hsize⟩, r, hr, hle⟩
    · rintro ⟨f, hf, ⟨r, hr, hsize⟩, r', hr', hle⟩
      obtain rfl := Option.some.inj (hr.symm.trans hr')
      exact ⟨f, r, hf, hr, hsize, hle⟩

theorem agree_download (hplain : Downloadable drive T A root) :
    (localMirror drive T).Agree (downloadWalk drive T) root := by
  rintro c d hc hd hplace f ⟨r, hr, hsize⟩
  obtain ⟨r', hr'⟩ := Option.isSome_iff_exists.mp (hplain.stat d hd)
  exact ⟨r', hr', hsize.trans (hplain.agree c d r r' hc hd hplace hr hr')⟩

theorem unchanged_download (hplain : Downloadable drive T A root) {s s' : SyncState FileAttributes}
    (h : DownloadUnchanged drive T root s s') :
    (localMirror drive T).Unchanged (downloadWalk drive T) root s s' where
  same := h.same
  fits k f hwritten hf := by
    obtain ⟨time, htime⟩ := h.written k f hwritten hf
    exact ⟨_, htime, fun c hfits => hfits⟩
  current c hc hwritten f hf := by
    obtain ⟨r, hr⟩ := Option.isSome_iff_exists.mp (hplain.stat c hc)
    have hle := h.notEarlier c f r hc hwritten hf hr
    have hsince : 116444736000000000 ≤ f.instant := by
      unfold RemoteStat.instant at hle
      omega
    exact ⟨r, hr, (le_localMTime_iff hsince r).mpr hle⟩

/-- The second of two downloads calls `Download` for no file. -/
theorem idle_download (hplain : Downloadable drive T A root)
    {B : DownloadAnswers} {depth depth' : ℕ}
    {s s' : SyncState FileAttributes}
    (hok : (syncDownloadRecursive drive T A depth root s).1 = some true)
    (hunchanged : DownloadUnchanged drive T root
      (syncDownloadRecursive drive T A depth root s).2 s') :
    (syncDownloadRecursive drive T B depth' root s').2.transfers = s'.transfers :=
  Mirror.idle_again (I := fun _ => True) (looks_download root)
    ⟨fun _ _ => trivial, fun _ _ _ _ _ => trivial,
    fun _ _ _ _ _ => trivial⟩ (agree_download hplain)
      (fun _ _ hc h _ => stores_download hplain hc h)
    (looks_download root) trivial hok (unchanged_download hplain hunchanged)

end Download

/-! ## To the server -/

/-- A local directory that stays as it is. -/
structure LocalTree where
  /-- `FindFirstFile` and `FindNextFile`. -/
  findFiles : CStr → Option (List FindData)
  attributes : CStr → Option FileAttributes
  content : CStr → Bytes

/-- An object of the server. -/
structure RemoteFile where
  isDir : Bool
  size : ℕ
  mtime : UInt32

def RemoteFile.stat (o : RemoteFile) : RemoteStat := ⟨o.size, o.mtime⟩

/-- How a server shows its objects. -/
structure RemoteSide where
  scpMode : Bool
  /-- The object that a path leads to. -/
  place : CStr → CStr
  /-- Where a file goes that is sent by SCP to the path of a directory. -/
  inside : CStr → CStr
  /-- The command `stat` on a symbolic link. -/
  linkStat : CStr → Option RemoteStat
  /-- Size and time in the answer; a missing one is 0. -/
  told : RemoteFile → RemoteStat

/-- What the world answers during an upload. -/
structure UploadAnswers where
  /-- `g_ProgDlg->GetWantCancel()`. -/
  wantCancel : ℕ → Bool
  makeDir : ℕ → Option RemoteFile
  /-- The directories that `MakeDirRecursive` makes. -/
  makeDirRecursive : ℕ → List (CStr × RemoteFile)
  uploadIo : ℕ → CStr → UploadIo
  writeTime : ℕ → UInt32

section Upload

variable (drive : LocalDrive) (L : LocalTree) (R : RemoteSide) (A : UploadAnswers)

def pathType (remote : CStr) (s : SyncState RemoteFile) : ℕ :=
  match s.objects (R.place remote) with
  | none => 0
  | some o => if o.isDir then 2 else 1

def statFull (remote : CStr) (s : SyncState RemoteFile) : Option RemoteStat :=
  let link := if R.scpMode then R.linkStat remote else none
  link.orElse fun _ => (s.objects (R.place remote)).map R.told

/-- Where `SftpUploadRecursive` goes. -/
def uploadWalk : Walk WalkCall FindData where
  isDir := WalkCall.isDir
  entries c := L.findFiles (lstrcpyn c.local_ (2 * MAX_PATH))
  ignored fd := decide (IsDots fd.cFileName)
  child c fd :=
    ⟨sftpJoin c.remote fd.cFileName MAX_PATH,
      drive.append (lstrcpyn c.local_ (2 * MAX_PATH)) fd.cFileName, fd.isDirectory⟩
  unlisted := true

/-- `conn.Upload(local, remote)`. -/
def syncUpload (c : WalkCall) (s : SyncState RemoteFile) : Option Bool × SyncState RemoteFile :=
  let onDir := (s.objects (R.place c.remote)).any RemoteFile.isDir
  let io := A.uploadIo s.tick c.remote
  -- a directory cannot be opened for writing, but SCP sends the file into it
  let io := if onDir && !R.scpMode then { io with openFirst := .failed } else io
  let place := if onDir then R.inside c.remote else R.place c.remote
  -- what was there matters to a resume only
  let r := upload R.scpMode io c.remote (L.content c.local_) none 0
  let file := r.target.map fun content => ⟨false, content.length, A.writeTime s.tick⟩
  let parents := if R.scpMode then [] else A.makeDirRecursive s.tick
  let s := (parents.foldl (fun s dir => s.make dir.1 (some dir.2)) (s.record c)).next
  (some r.ok, if r.opened then s.put place file else s)

def uploadActions : Actions WalkCall (SyncState RemoteFile) where
  stop := SyncState.isCancelled A.wantCancel
  enter c s := (s.make (R.place c.remote) (A.makeDir s.tick)).next
  skip c s := syncSkipUpload (pathType R c.remote s) (statFull R c.remote s) (L.attributes c.local_)
  transfer := syncUpload L R A

/-- `SftpUploadRecursive` with `g_SyncMode`, at most `depth` activations deep. -/
def syncUploadRecursive (depth : ℕ) : Proc WalkCall (SyncState RemoteFile) :=
  sync (uploadWalk drive L) (uploadActions L R A) depth

/-- The server, seen from the local files. -/
def remoteMirror : Mirror WalkCall CStr RemoteFile (SyncState RemoteFile) where
  target c := R.place c.remote
  objects := SyncState.objects
  transfers := SyncState.transfers
  fits c o := o.isDir = false ∧ localFileSize (L.attributes c.local_) = (R.told o).size
  current c o := localMTime (L.attributes c.local_) ≤ (R.told o).rmtime.toUInt64

/-- The times of written files may have changed since, but not to before the time of a source. -/
structure UploadUnchanged (root : WalkCall) (s s' : SyncState RemoteFile) : Prop where
  same : ∀ k, ¬ (remoteMirror L R).WrittenTo s k → s'.objects k = s.objects k
  written : ∀ k o, (remoteMirror L R).WrittenTo s k → s.objects k = some o →
    ∃ time, s'.objects k = some { o with mtime := time }
  notEarlier : ∀ c o f, (uploadWalk drive L).Holds root c →
    (remoteMirror L R).WrittenTo s (R.place c.remote) →
    s'.objects (R.place c.remote) = some o → L.attributes c.local_ = some f →
      f.instant ≤ o.stat.instant

/-- In SCP mode no directory lies where a file is to go. -/
def Clear (root : WalkCall) (s : SyncState RemoteFile) : Prop :=
  R.scpMode = true → ∀ c o, (uploadWalk drive L).Holds root c →
    s.objects (R.place c.remote) = some o → o.isDir = false

/-- The files are from 1970 or later and have the size that their attributes tell, and files with
one target have one size; the server tells sizes and times. In SCP mode no symbolic link and no
directory of the tree is at the target of a file. -/
structure Uploadable (root : WalkCall) : Prop where
  told : ∀ o, R.told o = o.stat
  size : ∀ c, (uploadWalk drive L).Holds root c →
    localFileSize (L.attributes c.local_) = (L.content c.local_).length
  since : ∀ c f, (uploadWalk drive L).Holds root c → L.attributes c.local_ = some f →
    116444736000000000 ≤ f.instant
  agree : ∀ c d, (uploadWalk drive L).Holds root c → (uploadWalk drive L).Holds root d →
    R.place c.remote = R.place d.remote →
      localFileSize (L.attributes c.local_) = localFileSize (L.attributes d.local_)
  noLink : R.scpMode = true → ∀ c, (uploadWalk drive L).Holds root c → R.linkStat c.remote = none
  apart : R.scpMode = true → ∀ c d, (uploadWalk drive L).Holds root c →
    ReflTransGen (uploadWalk drive L).Enters root d → d.isDir = true →
      R.place c.remote ≠ R.place d.remote

/-- Every file that is uploaded is read to its end, and kept whole when it is closed; in SCP mode
the remote `scp` stores it. -/
structure UploadsWhole (root : WalkCall) : Prop where
  reads : ∀ c n, (uploadWalk drive L).Holds root c →
    (A.uploadIo n c.remote).ReadsAll (L.content c.local_)
  keeps : ∀ c n, (uploadWalk drive L).Holds root c →
    if R.scpMode then (A.uploadIo n c.remote).scpStores = true
    else (A.uploadIo n c.remote).lost = 0 ∨ L.content c.local_ = []

end Upload

section Upload

variable {drive : LocalDrive} {L : LocalTree} {R : RemoteSide} {A : UploadAnswers} {root : WalkCall}

theorem makeAll_transfers (dirs : List (CStr × RemoteFile)) (s : SyncState RemoteFile) :
    (dirs.foldl (fun s dir => s.make dir.1 (some dir.2)) s).transfers = s.transfers := by
  induction dirs generalizing s with
  | nil => rfl
  | cons dir dirs ih => rw [List.foldl_cons, ih, SyncState.make_transfers]

theorem makeAll_objects (dirs : List (CStr × RemoteFile)) {s : SyncState RemoteFile}
    {k : CStr} {o : RemoteFile}
    (h : s.objects k = some o) :
    (dirs.foldl (fun s dir => s.make dir.1 (some dir.2)) s).objects k = some o := by
  induction dirs generalizing s with
  | nil => exact h
  | cons dir dirs ih =>
    rw [List.foldl_cons]
    exact ih (SyncState.make_objects h)

theorem UploadsWhole.leaves (h : UploadsWhole drive L R A root) {c : WalkCall}
    (hc : (uploadWalk drive L).Holds root c) (n : ℕ) (target : Option Bytes) :
    (A.uploadIo n c.remote).leaves R.scpMode (L.content c.local_) target 0
      ((A.uploadIo n c.remote).given (L.content c.local_)) = some (L.content c.local_) := by
  have hreads : (A.uploadIo n c.remote).given (L.content c.local_) = L.content c.local_ :=
    h.reads c n hc
  have hkeeps := h.keeps c n hc
  rw [hreads]
  unfold UploadIo.leaves
  split_ifs at hkeeps ⊢ with hscp hall
  · rfl
  · exact absurd ⟨rfl, hkeeps⟩ hall
  · rw [stored_eq_self_iff.mpr hkeeps]
    simp [keptRemote]

/-- What an upload that returns true has done: without SCP there was no directory at the target. -/
theorem syncUpload_of_ok (hwhole : UploadsWhole drive L R A root) {c : WalkCall}
    (hc : (uploadWalk drive L).Holds root c) {s : SyncState RemoteFile}
    (h : (syncUpload L R A c s).1 = some true)
    (hclear : R.scpMode = true → (s.objects (R.place c.remote)).any RemoteFile.isDir = false) :
    (syncUpload L R A c s).2 =
      ((if R.scpMode then [] else A.makeDirRecursive s.tick).foldl
        (fun s dir => s.make dir.1 (some dir.2)) (s.record c)).next.put (R.place c.remote)
          (some ⟨false, (L.content c.local_).length, A.writeTime s.tick⟩) := by
  unfold syncUpload at h ⊢
  dsimp only at h ⊢
  have hfile : (s.objects (R.place c.remote)).any RemoteFile.isDir = false := by
    by_contra hnot
    have hdir : (s.objects (R.place c.remote)).any RemoteFile.isDir = true := by simpa using hnot
    have hsftp : R.scpMode = false := by
      by_contra hscp
      rw [hclear (by simpa using hscp)] at hdir
      cases hdir
    have hopened := (accepts_of_upload_ok (Option.some.inj h)).opened
    simp [hdir, hsftp, openRemote] at hopened
  rw [hfile] at h ⊢
  have hio : (if false && !R.scpMode then { A.uploadIo s.tick c.remote with openFirst := .failed }
      else A.uploadIo s.tick c.remote) = A.uploadIo s.tick c.remote := by simp
  rw [hio] at h ⊢
  have heq := upload_of_ok (Option.some.inj h)
  rw [uploadOffset_zero] at heq
  dsimp only at heq
  rw [List.drop_zero, hwhole.leaves hc] at heq
  rw [heq]
  simp

theorem Clear.not_dir {s : SyncState RemoteFile} (h : Clear drive L R root s) {c : WalkCall}
    (hc : (uploadWalk drive L).Holds root c) :
    R.scpMode = true → (s.objects (R.place c.remote)).any RemoteFile.isDir = false := by
  intro hscp
  rcases hobject : s.objects (R.place c.remote) with _ | o
  · rfl
  · exact h hscp c o hc hobject

theorem stores_upload (hplain : Uploadable drive L R root) (hwhole : UploadsWhole drive L R A root)
    {c : WalkCall} {s : SyncState RemoteFile} (hc : (uploadWalk drive L).Holds root c)
    (hclear : Clear drive L R root s) (h : (syncUpload L R A c s).1 = some true) :
    (remoteMirror L R).Stores c s (syncUpload L R A c s).2 := by
  rw [syncUpload_of_ok hwhole hc h (hclear.not_dir hc)]
  refine ⟨⟨_, SyncState.put_self .., rfl, ?_⟩, fun k o hne ho => ?_, ?_⟩
  · rw [hplain.told]
    exact hplain.size c hc
  · exact (SyncState.put_of_ne _ _ hne).trans (makeAll_objects _ (s := s.record c) ho)
  · exact makeAll_transfers _ (s.record c)

theorem pathType_eq_one {remote : CStr} {s : SyncState RemoteFile} :
    pathType R remote s = 1 ↔ ∃ o, s.objects (R.place remote) = some o ∧ o.isDir = false := by
  unfold pathType
  rcases s.objects (R.place remote) with _ | o
  · simp
  · by_cases hdir : o.isDir = true
    · simp [hdir]
    · simp [hdir]

theorem statFull_eq {remote : CStr} {s : SyncState RemoteFile}
    (h : R.scpMode = true → R.linkStat remote = none) :
    statFull R remote s = (s.objects (R.place remote)).map R.told := by
  unfold statFull
  by_cases hscp : R.scpMode = true
  · rw [if_pos hscp, h hscp]
    rfl
  · rw [if_neg hscp]
    rfl

theorem looks_upload (hplain : Uploadable drive L R root) :
    (remoteMirror L R).Looks (uploadWalk drive L) (uploadActions L R A) root where
  stop_objects s := s.isCancelled_objects A.wantCancel
  stop_transfers s := s.isCancelled_transfers A.wantCancel
  enter_objects _ _ _ _ ho := SyncState.make_objects ho
  enter_transfers s c := SyncState.make_transfers ..
  skip_iff c s hc := by
    refine syncSkipUpload_iff.trans ?_
    rw [pathType_eq_one, statFull_eq fun hscp => hplain.noLink hscp c hc]
    constructor
    · rintro ⟨⟨o, ho, hfile⟩, r, hr, hsize, hle⟩
      rw [ho] at hr
      obtain rfl : R.told o = r := Option.some.inj hr
      exact ⟨o, ho, ⟨hfile, hsize⟩, hle⟩
    · rintro ⟨o, ho, ⟨hfile, hsize⟩, hle⟩
      have hstat : (s.objects (R.place c.remote)).map R.told = some (R.told o) :=
        congrArg (Option.map R.told) ho
      exact ⟨⟨o, ho, hfile⟩, R.told o, hstat, hsize, hle⟩

theorem agree_upload (hplain : Uploadable drive L R root) :
    (remoteMirror L R).Agree (uploadWalk drive L) root := by
  rintro c d hc hd hplace o ⟨hfile, hsize⟩
  exact ⟨hfile, (hplain.agree c d hc hd hplace).symm.trans hsize⟩

theorem unchanged_upload (hplain : Uploadable drive L R root) {s s' : SyncState RemoteFile}
    (h : UploadUnchanged drive L R root s s') :
    (remoteMirror L R).Unchanged (uploadWalk drive L) root s s' where
  same := h.same
  fits k o hwritten ho := by
    obtain ⟨time, htime⟩ := h.written k o hwritten ho
    refine ⟨_, htime, fun c hfits => ⟨hfits.1, ?_⟩⟩
    have hsize := hfits.2
    rw [hplain.told] at hsize ⊢
    exact hsize
  current c hc hwritten o ho := by
    show localMTime (L.attributes c.local_) ≤ (R.told o).rmtime.toUInt64
    rw [hplain.told]
    rcases hattributes : L.attributes c.local_ with _ | f
    · exact UInt64.zero_le
    · have hle := h.notEarlier c o f hc hwritten ho hattributes
      rw [localMTime_le_iff (hplain.since c f hc hattributes)]
      omega

theorem keeps_clear (hplain : Uploadable drive L R root)
    (hwhole : UploadsWhole drive L R A root) :
    Keeps (uploadWalk drive L) (uploadActions L R A) root (Clear drive L R root) where
  stop s hs hscp c o hc ho := by
    refine hs hscp c o hc ?_
    rw [← s.isCancelled_objects A.wantCancel]
    exact ho
  enter d s hd hdir hs hscp c o hc ho := by
    refine hs hscp c o hc ?_
    rw [← s.make_of_ne (A.makeDir s.tick) (hplain.apart hscp c d hc hd hdir)]
    exact ho
  transfer g s hg hok hs hscp c o hc ho := by
    change (syncUpload L R A g s).1 = some true at hok
    change (syncUpload L R A g s).2.objects (R.place c.remote) = some o at ho
    rw [syncUpload_of_ok hwhole hg hok (hs.not_dir hg)] at ho
    by_cases heq : R.place c.remote = R.place g.remote
    · rw [heq, SyncState.put_self] at ho
      obtain rfl := Option.some.inj ho
      rfl
    · rw [SyncState.put_of_ne _ _ heq, if_pos hscp] at ho
      exact hs hscp c o hc ho

/-- The second of two uploads calls `Upload` for no file. -/
theorem idle_upload (hplain : Uploadable drive L R root) (hwhole : UploadsWhole drive L R A root)
    {B : UploadAnswers} {depth depth' : ℕ} {s s' : SyncState RemoteFile}
    (hclear : Clear drive L R root s)
    (hok : (syncUploadRecursive drive L R A depth root s).1 = some true)
    (hunchanged : UploadUnchanged drive L R root
      (syncUploadRecursive drive L R A depth root s).2 s') :
    (syncUploadRecursive drive L R B depth' root s').2.transfers = s'.transfers :=
  Mirror.idle_again (looks_upload hplain) (keeps_clear hplain hwhole) (agree_upload hplain)
    (fun _ _ hc h hs => stores_upload hplain hwhole hc hs h) (looks_upload hplain) hclear hok
    (unchanged_upload hplain hunchanged)

end Upload

/-! ## Skipping and synchronizing again -/

/-- A download that returned true leaves nothing to a second one, if nothing changed but times. -/
def DownloadsOnce (drive : LocalDrive) (T : ServerTree) (A : DownloadAnswers) (root : WalkCall)
    (s : SyncState FileAttributes) : Prop :=
  ∀ depth, (syncDownloadRecursive drive T A depth root s).1 = some true →
    ∀ s', DownloadUnchanged drive T root (syncDownloadRecursive drive T A depth root s).2 s' →
      ∀ B depth', (syncDownloadRecursive drive T B depth' root s').2.transfers = s'.transfers

/-- An upload that returned true leaves nothing to a second one, if nothing changed but times. -/
def UploadsOnce (drive : LocalDrive) (L : LocalTree) (R : RemoteSide)
    (A : UploadAnswers) (root : WalkCall)
    (s : SyncState RemoteFile) : Prop :=
  ∀ depth, (syncUploadRecursive drive L R A depth root s).1 = some true →
    ∀ s', UploadUnchanged drive L R root (syncUploadRecursive drive L R A depth root s).2 s' →
      ∀ B depth', (syncUploadRecursive drive L R B depth' root s').2.transfers = s'.transfers

/-- When a file is skipped rightly, and when the second synchronization transfers nothing. -/
theorem synchronized_iff (local_ : Option FileAttributes) (stat : Option RemoteStat)
    (pathType : ℕ) (f : FileAttributes)
    (drive : LocalDrive) (T : ServerTree) (A : DownloadAnswers) (L : LocalTree)
    (R : RemoteSide) (U : UploadAnswers)
    (root : WalkCall) (disk : SyncState FileAttributes) (server : SyncState RemoteFile) :
    (DownloadSkipsRightly local_ stat ↔ DownloadComparable local_ stat) ∧
    (UploadSkipsRightly pathType stat f ↔ UploadComparable pathType stat f) ∧
    (Downloadable drive T A root → DownloadsOnce drive T A root disk) ∧
    (Uploadable drive L R root → UploadsWhole drive L R U root → Clear drive L R root server →
      UploadsOnce drive L R U root server) := by
  refine ⟨download_skips_rightly_iff local_ stat, upload_skips_rightly_iff pathType stat f,
    fun hplain => ?_, fun hplain hwhole hclear => ?_⟩
  · exact fun depth hok s' hunchanged B depth' => idle_download hplain hok hunchanged
  · exact fun depth hok s' hunchanged B depth' => idle_upload hplain hwhole hclear hok hunchanged

/-- A file of 2025 on the server. -/
def newServer : ServerTree where
  scpMode := false
  listDir path := if path = ascii "/r" then some [⟨ascii "a", false⟩] else none
  statFull _ := some ⟨2, 1750000000⟩

def newAnswers : DownloadAnswers where
  wantCancel _ := false
  createDirectory _ := some ⟨true, 0, 133900000000000000⟩
  downloadIo _ _ :=
    ⟨true, some 2, true, true, [⟨some (ascii "ab"), 2, true⟩, ⟨some [], 0, true⟩], 0, true⟩
  writeTime _ := 133970000000000000

/-- The same on the local disk. -/
def newLocal : LocalTree where
  findFiles path :=
    if path = ascii "C:\\l" then some [⟨ascii ".", true⟩, ⟨ascii "a", false⟩] else none
  attributes _ := some ⟨false, 2, 133944736000000000⟩
  content _ := ascii "ab"

def newRemote : RemoteSide := ⟨false, id, id, fun _ => none, RemoteFile.stat⟩

def newUpload : UploadAnswers where
  wantCancel _ := false
  makeDir _ := none
  makeDirRecursive _ := [(ascii "/r", ⟨true, 4096, 1750000000⟩)]
  uploadIo _ _ := ⟨true, [2], true, .noSuchFile, true, [some 2], [true], 0, true, true, none⟩
  writeTime _ := 1760000000

def syncRoot : WalkCall := ⟨ascii "/r", ascii "C:\\l", true⟩

def nothing {ο : Type} : SyncState ο := ⟨fun _ => none, [], false, 0⟩

/-- One file is brought down and one up; then neither again. -/
theorem synchronized_one :
    (∀ B depth', (syncDownloadRecursive plainDrive newServer B depth' syncRoot
      (syncDownloadRecursive plainDrive newServer newAnswers 2 syncRoot nothing).2).2.transfers =
        [⟨ascii "/r/a", ascii "C:\\l\\a", false⟩]) ∧
    (∀ B depth', (syncUploadRecursive plainDrive newLocal newRemote B depth' syncRoot
      (syncUploadRecursive plainDrive newLocal newRemote newUpload 2 syncRoot
        nothing).2).2.transfers =
        [⟨ascii "/r/a", ascii "C:\\l\\a", false⟩]) := by
  obtain ⟨-, -, hdownload, hupload⟩ :=
    synchronized_iff none none 0 ⟨false, 0, 0⟩ plainDrive newServer newAnswers newLocal
    newRemote newUpload syncRoot nothing nothing
  have hdown : ∀ c, (downloadWalk plainDrive newServer).Holds syncRoot c →
      c = ⟨ascii "/r/a", ascii "C:\\l\\a", false⟩ := by
    intro c hc
    have hlisting : newServer.listDir syncRoot.remote = some [⟨ascii "a", false⟩] := by
      decide +kernel
    obtain ⟨e, he, -, rfl⟩ := hc.of_files rfl hlisting (by decide)
    obtain rfl := List.mem_singleton.mp he
    decide +kernel
  have hup : ∀ c, (uploadWalk plainDrive newLocal).Holds syncRoot c →
      c = ⟨ascii "/r/a", ascii "C:\\l\\a", false⟩ := by
    intro c hc
    have hfound : newLocal.findFiles (lstrcpyn syncRoot.local_ (2 * MAX_PATH)) =
        some [⟨ascii ".", true⟩, ⟨ascii "a", false⟩] := by decide +kernel
    obtain ⟨e, he, hshown, rfl⟩ := hc.of_files rfl hfound (by decide +kernel)
    rcases List.mem_pair.mp he with rfl | rfl
    · exact absurd hshown (by decide +kernel)
    · decide +kernel
  have hreads : ∀ n (c : WalkCall),
      (newUpload.uploadIo n c.remote).ReadsAll (newLocal.content c.local_) := by
    intro n c
    show (freads [2] (ascii "ab")).flatten = ascii "ab"
    decide
  constructor
  · intro B depth'
    refine (hdownload ⟨fun c hc => rfl, fun c r hc hr n bs hbs => ?_,
      fun c d r r' hc hd hplace hr hr' => ?_⟩ 2 (by decide +kernel) _
        ⟨fun k _ => rfl, fun k f _ hf => ⟨_, hf⟩,
      fun c f r hc _ hf hr => ?_⟩ B depth').trans (by decide +kernel)
    · obtain rfl := Option.some.inj hr
      have htwo : served false (newAnswers.downloadIo 0 []) 0 = some (ascii "ab") := by
        decide +kernel
      obtain rfl : ascii "ab" = bs := Option.some.inj (htwo.symm.trans hbs)
      rfl
    · obtain rfl := Option.some.inj hr
      obtain rfl := Option.some.inj hr'
      rfl
    · obtain rfl := hdown c hc
      obtain rfl := Option.some.inj hr
      obtain rfl : ⟨false, 2, 133970000000000000⟩ = f := Option.some.inj (Eq.trans (by rfl) hf)
      decide
  · intro B depth'
    refine (hupload ⟨fun o => rfl, fun c hc => rfl,
      fun c f hc hf => ?_, fun c d hc hd hplace => rfl, nofun, nofun⟩
      ⟨fun c n hc => hreads n c, fun c n hc => .inl rfl⟩ nofun 2 (by decide +kernel) _
      ⟨fun k _ => rfl, fun k o _ ho => ⟨_, ho⟩, fun c o f hc _ ho hf => ?_⟩ B depth').trans
        (by decide +kernel)
    · obtain rfl := Option.some.inj hf
      decide
    · obtain rfl := hup c hc
      obtain rfl := Option.some.inj hf
      obtain rfl : ⟨false, 2, 1760000000⟩ = o := Option.some.inj (Eq.trans (by rfl) ho)
      decide

/-- A local file of the year 1601 counts as new, and one that is newer by half a second as not
newer. -/
theorem not_synchronized :
    (¬ ∀ local_ statFull, DownloadSkipsRightly local_ statFull) ∧
    (¬ ∀ pathType statFull f, UploadSkipsRightly pathType statFull f) := by
  constructor
  · intro h
    obtain ⟨f, r, hf, -, hr, -, hle⟩ := h (some ⟨false, 3, 0⟩) (some ⟨3, 1750000000⟩) (by decide)
    obtain rfl := Option.some.inj hf
    obtain rfl := Option.some.inj hr
    exact absurd hle (by decide)
  · intro h
    obtain ⟨-, r, hr, -, hle⟩ :=
      h 1 (some ⟨3, 1750000000⟩) ⟨false, 3, 133944736005000000⟩ (by decide)
    obtain rfl := Option.some.inj hr
    exact absurd hle (by decide)

end Synchronize

end SalamanderSftp
