import SalamanderSftp.Fs.TempDirTouched
import SalamanderSftp.Lib.Visits

/-!
# Answers for all files

A copy between servers asks about a target file that exists in one of two ways. `SftpAskOverwrite`
remembers "All" and "Skip all" in `g_OvrMode`, which never goes back (`linked_copyVisits`);
`SftpAskResume`, the question about a target that is smaller than its source, does not look at it.

`all_binds_iff` says for which files that come later an answer for all of them is kept to.
-/

namespace SalamanderSftp

open Procedure FileTree

/-! ## A file of the operation -/

/-- What is asked about a target file, with the answer. -/
inductive Question
  | overwrite (answer : OverwriteAnswer)
  | resume (answer : ResumeAnswer)
  deriving DecidableEq

/-- A target file that was found, as the two questions see it. -/
structure FoundTarget where
  /-- The size of the target. -/
  size : ℕ
  /-- The size of the source, if a resume can be offered. -/
  total : Option ℕ
  w : FsState

/-- The question of `SftpAskResume`, or that of `SftpAskOverwrite` if there is nothing to go by. -/
def FoundTarget.question (panel : Panel) (k : FoundTarget) : Option Question :=
  if k.total.any (k.size < ·) then some (.resume (panel.resume k.w.tick))
  else
    match k.w.ovrMode with
    | .ask => some (.overwrite (panel.overwrite k.w.tick))
    | _ => none

/-- The file branch of a recursive call: the call, and the state in which it comes to its file. -/
inductive FileStep
  | download (panel : Panel) (c : WalkCall) (w : FsState)
  | upload (st : Staging) (c : WalkCall) (w : CopyState)

namespace FileStep

def panel : FileStep → Panel
  | download panel _ _ => panel
  | upload st _ _ => st.toPanel

def state : FileStep → FsState
  | download _ _ w => w
  | upload _ _ w => w.fs

section Step

variable (drive : LocalDrive) (op : ServerCopy)

def found : FileStep → Option FoundTarget
  | download panel c w =>
    if panel.syncMode then none
    else
      (w.disk.node panel.diskKey c.local_).map fun node =>
        let (remoteSize, w) := resumableSize panel op.conn c.remote node.size w
        ⟨node.size, remoteSize, w⟩
  | upload st c w =>
    if st.syncMode then none
    else
      let (found, fs) := isRemoteFile st.toPanel op.targetConn c.remote w.fs
      if !found then none
      else
        let (remoteSize, fs) := uploadedSize st op.targetConn c.remote fs
        match remoteSize with
        | some size => some ⟨size, some (localFileSize drive c.local_ fs), fs⟩
        | none => some ⟨0, none, fs⟩

def question (s : FileStep) :
    Option Question := (s.found drive op).bind (FoundTarget.question s.panel)

/-- What is to be done without a target. -/
def unasked : FileStep → Verdict × FsState
  | download panel c w =>
    if panel.syncMode then
      let (skip, w) := syncSkipDownload panel op.conn c.remote c.local_ w
      (if skip then .skip else .transferFrom 0, w)
    else (.transferFrom 0, w)
  | upload st c w =>
    if st.syncMode then
      let (skip, fs) := syncSkipUpload drive st op.targetConn c.local_ c.remote w.fs
      (if skip then .skip else .transferFrom 0, fs)
    else (.transferFrom 0, (isRemoteFile st.toPanel op.targetConn c.remote w.fs).2)

def verdict (s : FileStep) : Verdict × FsState :=
  match s.found drive op with
  | some k => askDownload s.panel k.size k.total k.w
  | none => s.unasked drive op

/-- The call of `Download` or `Upload` that is made, with its offset. -/
def transfer (s : FileStep) : Option ℕ :=
  match s.verdict drive op with
  | (.transferFrom offset, w) => if (sftpIsCancelled s.panel w).1 then none else some offset
  | _ => none

def Exists : FileStep → Prop
  | download panel c w => (w.disk.node panel.diskKey c.local_).isSome
  | upload _ c w => ∃ node, (op.targetConn.target (w.fs.tree op.targetConn) c.remote).bind
      (w.fs.tree op.targetConn).lookup = some node ∧ node ≠ .dir

/-- A target file that exists is written. -/
def Modifies (s : FileStep) : Prop := s.Exists op ∧ s.transfer drive op ≠ none

/-- The mode that is found, and the one that is left. -/
def before (s : FileStep) : OvrMode := s.state.ovrMode

def after (s : FileStep) : OvrMode := (s.verdict drive op).2.ovrMode

end Step

end FileStep

/-- The file branches do what is decided. -/
theorem sftpDownloadFile_eq (drive : LocalDrive) (op : ServerCopy) (panel : Panel)
    (c : WalkCall) (w : FsState) :
    sftpDownloadFile panel op.conn c.remote c.local_ w =
      match (FileStep.download panel c w).verdict drive op with
      | (.skip, w) => (some true, w)
      | (.stop, w) => (some false, w)
      | (.transferFrom offset, w) =>
        downloadUnlessCancelled panel op.conn c.remote c.local_ offset w := by
  unfold sftpDownloadFile FileStep.verdict FileStep.found FileStep.unasked
  dsimp only
  by_cases hsync : panel.syncMode = true
  · rw [if_pos hsync, if_pos hsync, if_pos hsync]
    split_ifs <;> rfl
  · rw [if_neg hsync, if_neg hsync, if_neg hsync]
    cases w.disk.node panel.diskKey c.local_ <;> rfl

theorem sftpUploadFile_eq (drive : LocalDrive) (op : ServerCopy) (st : Staging)
    (c : WalkCall) (w : CopyState) :
    sftpUploadFile drive st op.targetConn c.local_ c.remote w =
      match (FileStep.upload st c w).verdict drive op with
      | (.skip, fs) => (some true, { w with fs := fs })
      | (.stop, fs) => (some false, { w with fs := fs })
      | (.transferFrom offset, fs) =>
        uploadUnlessCancelled drive st op.targetConn c.local_ c.remote offset
          { w with fs := fs } := by
  unfold sftpUploadFile FileStep.verdict FileStep.found FileStep.unasked
  dsimp only
  by_cases hsync : st.syncMode = true
  · rw [if_pos hsync, if_pos hsync, if_pos hsync]
    split_ifs <;> rfl
  · rw [if_neg hsync, if_neg hsync, if_neg hsync]
    split_ifs
    · rfl
    · unfold askUpload
      cases (uploadedSize st op.targetConn c.remote
        (isRemoteFile st.toPanel op.targetConn c.remote w.fs).2).1 <;> rfl

/-! ## The mode -/

/-- The mode that is asked in can become any other. -/
instance : Preorder OvrMode where
  le a b := a = .ask ∨ a = b
  le_refl _ := .inr rfl
  le_trans a b c hab hbc := by
    rcases hab with rfl | rfl
    · exact .inl rfl
    · exact hbc

theorem OvrMode.ask_le (m : OvrMode) : .ask ≤ m := .inl rfl

theorem OvrMode.eq_of_le {a b : OvrMode} (h : a ≤ b) (ha : a ≠ .ask) :
    b = a := (h.resolve_left ha).symm

def Question.mode : Option Question → OvrMode → OvrMode
  | some (.overwrite .all), _ => .overwriteAll
  | some (.overwrite .skipAll), _ => .skipAll
  | _, m => m

section Mode

variable {panel : Panel} {conn : Conn} {w : FsState}

theorem ovrMode_sftpIsCancelled : (sftpIsCancelled panel w).2.ovrMode = w.ovrMode := by
  unfold sftpIsCancelled
  split_ifs <;> rfl

theorem ovrMode_resumableSize (remote : CStr) (size : ℕ) :
    (resumableSize panel conn remote size w).2.ovrMode = w.ovrMode := by
  unfold resumableSize
  split_ifs <;> rfl

theorem ovrMode_uploadedSize (st : Staging) (remote : CStr) :
    (uploadedSize st conn remote w).2.ovrMode = w.ovrMode := by
  unfold uploadedSize
  split_ifs <;> rfl

theorem ovrMode_syncSkipDownload (remote local_ : CStr) :
    (syncSkipDownload panel conn remote local_ w).2.ovrMode = w.ovrMode := by
  unfold syncSkipDownload
  cases w.disk.node panel.diskKey local_ with
  | none => rfl
  | some node =>
    dsimp only
    split_ifs <;> rfl

theorem ovrMode_syncSkipUpload (drive : LocalDrive) (st : Staging) (local_ remote : CStr) :
    (syncSkipUpload drive st conn local_ remote w).2.ovrMode = w.ovrMode := by
  unfold syncSkipUpload
  dsimp only
  split_ifs <;> rfl

/-- Without a question the mode decides. -/
theorem askDownload_of_none {k : FoundTarget} (h : k.question panel = none) :
    askDownload panel k.size k.total k.w =
      (if k.w.ovrMode = .skipAll then .skip else .transferFrom 0, k.w) := by
  unfold FoundTarget.question at h
  split_ifs at h with hresume
  unfold askDownload sftpAskOverwrite
  rw [if_neg hresume]
  cases hmode : k.w.ovrMode with
  | ask => rw [hmode] at h; cases h
  | overwriteAll => rfl
  | skipAll => rfl

theorem ovrMode_askDownload (k : FoundTarget) :
    (askDownload panel k.size k.total k.w).2.ovrMode =
      Question.mode (k.question panel) k.w.ovrMode := by
  unfold askDownload FoundTarget.question
  split_ifs
  · cases panel.resume k.w.tick with
    | yes => rfl
    | no => exact ovrMode_sftpIsCancelled
    | cancel => rfl
  · unfold sftpAskOverwrite
    cases hmode : k.w.ovrMode with
    | ask =>
      cases panel.overwrite k.w.tick with
      | yes => exact hmode
      | all => rfl
      | skip => exact hmode
      | skipAll => rfl
      | cancel => exact hmode
    | overwriteAll => exact hmode
    | skipAll => exact hmode

end Mode

namespace FileStep

variable {drive : LocalDrive} {op : ServerCopy} {s : FileStep} {k : FoundTarget}

theorem ovrMode_found (h : s.found drive op = some k) : k.w.ovrMode = s.before := by
  cases s with
  | download panel c w =>
    unfold found at h
    dsimp only at h
    split_ifs at h
    obtain ⟨node, -, rfl⟩ := Option.map_eq_some_iff.mp h
    exact ovrMode_resumableSize c.remote node.size
  | upload st c w =>
    unfold found at h
    dsimp only at h
    split_ifs at h
    split at h
    · obtain rfl := Option.some.inj h
      exact ovrMode_uploadedSize st c.remote
    · obtain rfl := Option.some.inj h
      exact ovrMode_uploadedSize st c.remote

theorem ovrMode_unasked : (s.unasked drive op).2.ovrMode = s.before := by
  cases s with
  | download panel c w =>
    unfold unasked
    dsimp only
    by_cases hsync : panel.syncMode = true
    · rw [if_pos hsync]
      exact ovrMode_syncSkipDownload c.remote c.local_
    · rw [if_neg hsync]
      rfl
  | upload st c w =>
    unfold unasked
    dsimp only
    by_cases hsync : st.syncMode = true
    · rw [if_pos hsync]
      exact ovrMode_syncSkipUpload drive st c.local_ c.remote
    · rw [if_neg hsync]
      rfl

/-- The mode changes with an answer for all files only. -/
theorem after_eq : s.after drive op = Question.mode (s.question drive op) s.before := by
  unfold after verdict question
  rcases hfound : s.found drive op with _ | k
  · exact ovrMode_unasked
  · rw [Option.bind_some, ← ovrMode_found hfound]
    exact ovrMode_askDownload k

/-- `SftpAskOverwrite` asks in one mode only. -/
theorem before_eq_ask {a : OverwriteAnswer} (h : s.question drive op = some (.overwrite a)) :
    s.before = .ask := by
  obtain ⟨k, hfound, hk⟩ := Option.bind_eq_some_iff.mp h
  rw [← ovrMode_found hfound]
  unfold FoundTarget.question at hk
  split_ifs at hk
  · cases hk
  · split at hk
    · assumption
    · cases hk

theorem before_le_after : s.before ≤ s.after drive op := by
  rw [after_eq]
  rcases hquestion : s.question drive op with _ | _ | _
  · exact le_refl _
  · rw [before_eq_ask hquestion]
    exact OvrMode.ask_le _
  · exact le_refl _

end FileStep

/-! ## The files of a run -/

section Visits

variable (drive : LocalDrive) (op : ServerCopy)

/-- The loop of `SftpDownloadRecursive`. -/
def downloadTurn (panel : Panel) (c : WalkCall) (rec : Proc WalkCall FsState) :
    Proc RemoteEntry FsState :=
  fun e w =>
    let (stop, w) := sftpIsCancelled panel w
    if stop then (some false, w)
    else
      let child := downloadChild panel c e
      rec child (w.record (.descend c.remote child.remote))

def downloadTurnVisits (panel : Panel) (c : WalkCall)
    (visits : WalkCall → FsState → List FileStep) (e : RemoteEntry)
    (w : FsState) : List FileStep :=
  let (stop, w) := sftpIsCancelled panel w
  if stop then []
  else
    let child := downloadChild panel c e
    visits child (w.record (.descend c.remote child.remote))

/-- The files that `SftpDownloadRecursive` comes to. -/
def downloadVisits (panel : Panel) (rec : Proc WalkCall FsState)
    (visits : WalkCall → FsState → List FileStep)
    (c : WalkCall) (w : FsState) : List FileStep :=
  let (stop, w) := sftpIsCancelled panel w
  if stop then []
  else if !c.isDir then [.download panel c w]
  else
    let (stop, w) := sftpIsCancelled panel w
    if stop then []
    else
      match listDir panel op.conn c.remote (fsCreateDirectory panel c.local_ w) with
      | (none, _) => []
      | (some entries, w) =>
        forEachVisits (downloadTurn panel c rec) (downloadTurnVisits panel c visits) entries w

/-- The loop of `SftpUploadRecursive`. -/
def uploadTurn (st : Staging) (c : WalkCall) (rec : Proc WalkCall CopyState) :
    Proc FindData CopyState :=
  fun fd w =>
    let (stop, fs) := sftpIsCancelled st.toPanel w.fs
    if stop then (some false, { w with fs := fs })
    else if IsDots fd.cFileName then (some true, { w with fs := fs })
    else rec (uploadChild drive c fd) { w with fs := fs }

def uploadTurnVisits (st : Staging) (c : WalkCall)
    (visits : WalkCall → CopyState → List FileStep) (fd : FindData)
    (w : CopyState) : List FileStep :=
  let (stop, fs) := sftpIsCancelled st.toPanel w.fs
  if stop then []
  else if IsDots fd.cFileName then []
  else visits (uploadChild drive c fd) { w with fs := fs }

/-- The files that `SftpUploadRecursive` comes to. -/
def uploadVisits (st : Staging) (rec : Proc WalkCall CopyState)
    (visits : WalkCall → CopyState → List FileStep)
    (c : WalkCall) (w : CopyState) : List FileStep :=
  let (stop, fs) := sftpIsCancelled st.toPanel w.fs
  if stop then []
  else if !c.isDir then [.upload st c { w with fs := fs }]
  else
    let (stop, fs) := sftpIsCancelled st.toPanel fs
    if stop then []
    else
      match findFirst drive st c.local_ (fsMakeDir st op.targetConn fs) with
      | (none, _) => []
      | (some entries, fs) =>
        forEachVisits (uploadTurn drive st c rec)
          (uploadTurnVisits drive st c visits) entries { w with fs := fs }

/-- The files of an item, downloaded and then uploaded. -/
def copyStepVisits (depth : ℕ) (turn : Turn) (item : RemoteEntry) (w : CopyState) : List FileStep :=
  let panel := turn.download.toPanel
  recurseVisits (sftpDownloadBody panel op.conn) (downloadVisits op panel) depth
    (op.downloadCall drive item) w.fs.restart ++
    match sftpDownloadRecursive panel op.conn depth (op.downloadCall drive item) w.fs.restart with
    | (some true, fs) =>
      recurseVisits (sftpUploadBody drive turn.upload op.targetConn)
        (uploadVisits drive op turn.upload) depth
        (op.uploadCall drive item) { w with fs := fs.restart }
    | _ => []

def copyTurnVisits (depth : ℕ) (t : Turn × RemoteEntry) (w : CopyState) : List FileStep :=
  let (stop, fs) := sftpIsCancelled t.1.start.toPanel w.fs.restart
  if stop then [] else copyStepVisits drive op depth t.1 t.2 { w with fs := fs }

/-- The files of the whole operation. -/
def copyVisits (depth : ℕ) (turns : List (Turn × RemoteEntry)) (w : CopyState) : List FileStep :=
  forEachVisits (copyTurn drive op depth) (copyTurnVisits drive op depth) turns w

end Visits

/-! ## The mode along a run -/

section Keep

variable {panel : Panel} {conn : Conn} {drive : LocalDrive} {st : Staging}

theorem ovrMode_downloadUnlessCancelled (remote local_ : CStr) (offset : ℕ) (w : FsState) :
    (downloadUnlessCancelled panel conn remote local_ offset w).2.ovrMode = w.ovrMode := by
  have hdownload :
      ∀ w : FsState, (fsDownload panel conn remote local_ offset w).2.ovrMode = w.ovrMode := by
    intro w
    unfold fsDownload
    dsimp only
    split_ifs
    · split <;> rfl
    · rfl
  unfold downloadUnlessCancelled
  dsimp only
  split_ifs
  · exact ovrMode_sftpIsCancelled
  · exact (hdownload _).trans ovrMode_sftpIsCancelled

theorem ovrMode_uploadUnlessCancelled (local_ remote : CStr) (offset : ℕ) (w : CopyState) :
    (uploadUnlessCancelled drive st conn local_ remote offset w).2.fs.ovrMode = w.fs.ovrMode := by
  unfold uploadUnlessCancelled
  dsimp only
  split_ifs
  · exact ovrMode_sftpIsCancelled
  · exact @ovrMode_sftpIsCancelled st.toPanel _

theorem ovrMode_fsCreateDirectory (path : CStr) (w : FsState) :
    (fsCreateDirectory panel path w).ovrMode = w.ovrMode := by
  unfold fsCreateDirectory
  split_ifs <;> rfl

theorem ovrMode_sftpDeleteRecursive (m : OvrMode) (depth : ℕ) {c : RemoteItem}
    {w : FsState} (h : w.ovrMode = m) :
    (sftpDeleteRecursive panel conn depth c w).2.ovrMode = m := by
  have hfile : ∀ path (w : FsState), w.ovrMode = m →
      (removeFile panel conn path w).2.ovrMode = m := by
    intro path w hw
    unfold removeFile
    dsimp only
    split
    · exact hw
    · split_ifs <;> exact hw
  have hdir : ∀ path (w : FsState), w.ovrMode = m →
      (removeDir panel conn path w).2.ovrMode = m := by
    intro path w hw
    unfold removeDir
    dsimp only
    split
    · exact hw
    · split_ifs <;> exact hw
  refine recurse_invariant (P := fun _ => True) (I := fun w : FsState => w.ovrMode = m)
    (fun rec hrec c w _ hw => ?_)
    depth trivial h
  unfold sftpDeleteBody
  split_ifs
  · exact hfile _ _ hw
  · unfold listDir
    dsimp only
    rcases (conn.listing (w.tree conn) c.remote).bind _ with _ | entries
    · exact hdir _ _ hw
    · have hloop :
          (forEach (fun (e : RemoteEntry) w => rec ⟨sftpJoin c.remote e.Name MAX_PATH, e.IsDir⟩
          (w.record (.descend c.remote (sftpJoin c.remote e.Name MAX_PATH))).next) entries
            w.next).2.ovrMode = m := by
        refine forEach_invariant (I := fun w : FsState => w.ovrMode = m)
          (fun e _ w hw => ?_) w.next hw
        exact hrec _ _ trivial hw
      dsimp only
      split
      · next heq =>
        rw [heq] at hloop
        exact hdir _ _ hloop
      · exact hloop

theorem ovrMode_localDeleteRecursive (m : OvrMode) (depth : ℕ) {c : LocalItem}
    {w : FsState} (h : w.ovrMode = m) :
    (localDeleteRecursive drive st depth c w).2.ovrMode = m := by
  have hdir : ∀ path (w : FsState), w.ovrMode = m →
      (removeDirectory drive st path w).ovrMode = m := by
    intro path w hw
    unfold removeDirectory
    split_ifs <;> exact hw
  refine recurse_invariant (P := fun _ => True) (I := fun w : FsState => w.ovrMode = m)
    (fun rec hrec c w _ hw => ?_)
    depth trivial h
  unfold localDeleteBody
  split_ifs
  · unfold deleteFile
    dsimp only
    split_ifs <;> exact hw
  · rcases hfind : findFirst drive st c.path w with ⟨found, fs⟩
    have hfs : fs.ovrMode = m := (congrArg (fun r => r.2.ovrMode) hfind).symm.trans hw
    rcases found with _ | entries
    · exact hdir _ _ hfs
    · have hloop : (forEach (fun (fd : FindData) w =>
          if IsDots fd.cFileName then (some true, w.next) else rec (localChild drive c fd) w.next)
            entries fs).2.ovrMode = m := by
        refine forEach_invariant (I := fun w : FsState => w.ovrMode = m)
          (fun fd _ w hw => ?_) fs hfs
        split_ifs
        · exact hw
        · exact hrec _ _ trivial hw
      dsimp only
      split
      · next heq =>
        rw [heq] at hloop
        exact hdir _ _ hloop
      · exact hloop

end Keep

theorem ovrMode_sftpDownloadFile (drive : LocalDrive) (op : ServerCopy) (panel : Panel)
    (c : WalkCall) (w : FsState) :
    (sftpDownloadFile panel op.conn c.remote c.local_ w).2.ovrMode =
      (FileStep.download panel c w).after drive op := by
  rw [sftpDownloadFile_eq drive]
  unfold FileStep.after
  rcases (FileStep.download panel c w).verdict drive op with ⟨_ | _ | offset, fs⟩
  · rfl
  · rfl
  · exact ovrMode_downloadUnlessCancelled ..

theorem ovrMode_sftpUploadFile (drive : LocalDrive) (op : ServerCopy) (st : Staging)
    (c : WalkCall) (w : CopyState) :
    (sftpUploadFile drive st op.targetConn c.local_ c.remote w).2.fs.ovrMode =
      (FileStep.upload st c w).after drive op := by
  rw [sftpUploadFile_eq]
  unfold FileStep.after
  rcases (FileStep.upload st c w).verdict drive op with ⟨_ | _ | offset, fs⟩
  · rfl
  · rfl
  · exact ovrMode_uploadUnlessCancelled ..

/-! ## From file to file -/

section Chained

variable (drive : LocalDrive) (op : ServerCopy) {β : Type*} [Preorder β] {ok : FileStep → Prop}
  {before after : FileStep → β} {G : Option Bool → Prop} (hG : G (some true))

include hG

/-- A download goes from file to file, if nothing is lost of what is read off the state in between
and each file branch goes on from where it comes to its file. -/
theorem chained_download (read : FsState → β) {panel : Panel}
    (hcancel : ∀ w, read w ≤ read (sftpIsCancelled panel w).2)
    (hrecord : ∀ w e, read w ≤ read (w.record e))
    (hmake : ∀ path w, read w ≤ read (fsCreateDirectory panel path w))
    (hlist : ∀ path w, read w ≤ read (listDir panel op.conn path w).2)
    (hfile : ∀ c w, G (sftpDownloadFile panel op.conn c.remote c.local_ w).1 →
      Chained ok before after (read w) [.download panel c w]
        (read (sftpDownloadFile panel op.conn c.remote c.local_ w).2))
    (depth : ℕ) (c : WalkCall) (w : FsState)
    (hresult : G (sftpDownloadRecursive panel op.conn depth c w).1) :
    Chained ok before after (read w)
      (recurseVisits (sftpDownloadBody panel op.conn) (downloadVisits op panel) depth c w)
      (read (sftpDownloadRecursive panel op.conn depth c w).2) := by
  refine chained_recurse read (fun rec visits hrec c w hresult => ?_) depth c w hresult
  have hturn : ∀ e w, G (downloadTurn panel c rec e w).1 →
      Chained ok before after (read w) (downloadTurnVisits panel c visits e w)
        (read (downloadTurn panel c rec e w).2) := by
    intro e w hturn
    unfold downloadTurn downloadTurnVisits at *
    dsimp only at hturn ⊢
    split_ifs at hturn ⊢
    · exact hcancel w
    · exact (hrec _ _ hturn).of_le ((hcancel w).trans (hrecord _ _))
  unfold sftpDownloadBody downloadVisits at *
  dsimp only at hresult ⊢
  split_ifs at hresult ⊢
  · exact hcancel w
  · exact (hfile c _ hresult).of_le (hcancel w)
  · exact (hcancel w).trans (hcancel _)
  · have hlisted := ((hcancel w).trans (hcancel _)).trans
      ((hmake c.local_ _).trans (hlist c.remote _))
    rcases hl : listDir panel op.conn c.remote
        (fsCreateDirectory panel c.local_ (sftpIsCancelled panel (sftpIsCancelled panel w).2).2)
      with ⟨_ | entries, v⟩
    · rw [hl] at hlisted
      exact hlisted
    · rw [hl] at hlisted hresult
      exact (chained_forEach read hG hturn entries v hresult).of_le hlisted

theorem chained_upload (read : CopyState → β) {st : Staging}
    (hcancel : ∀ w, read w ≤ read { w with fs := (sftpIsCancelled st.toPanel w.fs).2 })
    (hmake : ∀ w, read w ≤ read { w with fs := fsMakeDir st op.targetConn w.fs })
    (hfind : ∀ path w, read w ≤ read { w with fs := (findFirst drive st path w.fs).2 })
    (hfile : ∀ c w, G (sftpUploadFile drive st op.targetConn c.local_ c.remote w).1 →
      Chained ok before after (read w) [.upload st c w]
        (read (sftpUploadFile drive st op.targetConn c.local_ c.remote w).2))
    (depth : ℕ) (c : WalkCall) (w : CopyState)
    (hresult : G (sftpUploadRecursive drive st op.targetConn depth c w).1) :
    Chained ok before after (read w)
      (recurseVisits (sftpUploadBody drive st op.targetConn) (uploadVisits drive op st) depth c w)
      (read (sftpUploadRecursive drive st op.targetConn depth c w).2) := by
  refine chained_recurse read (fun rec visits hrec c w hresult => ?_) depth c w hresult
  have hturn : ∀ fd w, G (uploadTurn drive st c rec fd w).1 →
      Chained ok before after (read w) (uploadTurnVisits drive st c visits fd w)
        (read (uploadTurn drive st c rec fd w).2) := by
    intro fd w hturn
    unfold uploadTurn uploadTurnVisits at *
    dsimp only at hturn ⊢
    split_ifs at hturn ⊢
    · exact hcancel w
    · exact hcancel w
    · exact (hrec _ _ hturn).of_le (hcancel w)
  unfold sftpUploadBody uploadVisits at *
  dsimp only at hresult ⊢
  have htwice := (hcancel w).trans (hcancel _)
  split_ifs at hresult ⊢
  · exact hcancel w
  · exact (hfile c _ hresult).of_le (hcancel w)
  · exact htwice
  · have hfound := htwice.trans ((hmake _).trans (hfind c.local_ _))
    rcases hl : findFirst drive st c.local_ (fsMakeDir st op.targetConn
        (sftpIsCancelled st.toPanel (sftpIsCancelled st.toPanel w.fs).2).2)
      with ⟨_ | entries, v⟩
    · rw [hl] at hfound
      exact hfound
    · rw [hl] at hfound hresult
      exact (chained_forEach read hG hturn entries _ hresult).of_le hfound

end Chained

section Linked

variable (drive : LocalDrive) (op : ServerCopy)

theorem linked_download (panel : Panel) (depth : ℕ) (c : WalkCall) (w : FsState) :
    Linked FileStep.before (FileStep.after drive op) w.ovrMode
      (recurseVisits (sftpDownloadBody panel op.conn) (downloadVisits op panel) depth c w)
      (sftpDownloadRecursive panel op.conn depth c w).2.ovrMode := by
  refine chained_download op (G := fun _ => True) trivial FsState.ovrMode
    (fun w => ovrMode_sftpIsCancelled.ge) (fun w e => le_refl _)
    (fun path w => (ovrMode_fsCreateDirectory path w).ge) (fun path w => le_refl _)
    (fun c w _ => ?_) depth c w trivial
  exact ⟨le_refl _, FileStep.before_le_after, (ovrMode_sftpDownloadFile drive op panel c w).ge⟩

theorem linked_upload (st : Staging) (depth : ℕ) (c : WalkCall) (w : CopyState) :
    Linked FileStep.before (FileStep.after drive op) w.fs.ovrMode
      (recurseVisits (sftpUploadBody drive st op.targetConn) (uploadVisits drive op st) depth c w)
      (sftpUploadRecursive drive st op.targetConn depth c w).2.fs.ovrMode := by
  refine chained_upload drive op (G := fun _ => True) trivial
    (fun w : CopyState => w.fs.ovrMode) (fun w => ovrMode_sftpIsCancelled.ge)
    (fun w => le_refl _) (fun path w => le_refl _) (fun c w _ => ?_) depth c w trivial
  exact ⟨le_refl _, FileStep.before_le_after, (ovrMode_sftpUploadFile drive op st c w).ge⟩

theorem ovrMode_endTurn (depth : ℕ) (turn : Turn) (item : RemoteEntry)
    (step : Bool) (w : CopyState) :
    (endTurn op depth turn item step w).2.fs.ovrMode = w.fs.ovrMode := by
  unfold endTurn
  dsimp only
  split_ifs
  · exact ovrMode_sftpIsCancelled
  · rfl
  · exact ovrMode_sftpDeleteRecursive _ depth rfl

theorem linked_copyStep (depth : ℕ) (turn : Turn) (item : RemoteEntry) (w : CopyState) :
    Linked FileStep.before (FileStep.after drive op) w.fs.ovrMode
      (copyStepVisits drive op depth turn item w)
      (copyStep drive op depth turn item w).2.fs.ovrMode := by
  refine (linked_download drive op turn.download.toPanel depth
    (op.downloadCall drive item) w.fs.restart).append ?_
  unfold copyStep
  rcases sftpDownloadRecursive turn.download.toPanel op.conn depth
      (op.downloadCall drive item) w.fs.restart with
    ⟨_ | _ | _, fs⟩
  · exact le_refl fs.ovrMode
  · exact le_refl fs.ovrMode
  · exact linked_upload drive op turn.upload depth
      (op.uploadCall drive item) { w with fs := fs.restart }

theorem linked_copyTurn (depth : ℕ) (t : Turn × RemoteEntry) (w : CopyState) :
    Linked FileStep.before (FileStep.after drive op) w.fs.ovrMode
      (copyTurnVisits drive op depth t w)
      (copyTurn drive op depth t w).2.fs.ovrMode := by
  unfold copyTurn copyTurnVisits
  rcases hstop : sftpIsCancelled t.1.start.toPanel w.fs.restart with ⟨stop, w₁⟩
  have hw₁ : w₁.ovrMode = w.fs.ovrMode :=
    (congrArg (fun r => r.2.ovrMode) hstop).symm.trans ovrMode_sftpIsCancelled
  dsimp only
  split_ifs
  · exact hw₁.ge
  · have hstep := linked_copyStep drive op depth t.1 t.2 { w with fs := w₁ }
    rcases hcopy : copyStep drive op depth t.1 t.2 { w with fs := w₁ } with ⟨step, w₂⟩
    rw [hcopy] at hstep
    refine Chained.of_le hw₁.ge ?_
    rcases step with _ | step
    · exact hstep
    · rcases hclean : localDeleteRecursive drive t.1.cleanup depth
          ⟨drive.tmpItem t.2.Name, t.2.IsDir⟩ w₂.fs.restart with
        ⟨cleaned, fs⟩
      have hfs : fs.ovrMode = w₂.fs.ovrMode :=
        (congrArg (fun r => r.2.ovrMode) hclean).symm.trans
          (ovrMode_localDeleteRecursive _ depth rfl)
      rw [← hfs] at hstep
      dsimp only
      rw [hclean]
      rcases cleaned with _ | _
      · exact hstep
      · dsimp only
        rw [ovrMode_endTurn]
        exact hstep

/-- No file of the operation finds less than was answered before. -/
theorem linked_copyVisits (depth : ℕ) (turns : List (Turn × RemoteEntry)) (w : CopyState) :
    (copyVisits drive op depth turns w).Pairwise fun a b => a.after drive op ≤ b.before :=
  Linked.pairwise (chained_forEach (G := fun _ => True) (fun w : CopyState => w.fs.ovrMode)
    trivial (fun t w _ => linked_copyTurn drive op depth t w) turns w trivial)

end Linked

/-! ## An answer for all files -/

namespace FileStep

section Binds

variable (drive : LocalDrive) (op : ServerCopy)

/-- The user has answered for all files. -/
def AnsweredForAll (s : FileStep) : Prop :=
  s.question drive op = some (.overwrite .all) ∨ s.question drive op = some (.overwrite .skipAll)

/-- A later file is bound by the answer. -/
structure Binds (a b : FileStep) : Prop where
  quiet : a.AnsweredForAll drive op → b.question drive op = none
  untouched : a.question drive op = some (.overwrite .skipAll) → ¬ b.Modifies drive op

/-- The target is not empty and smaller than the source, and both sizes are known; not in SCP
mode. -/
def Partial : FileStep → Prop
  | download panel c w =>
    op.conn.scpMode = false ∧ ∃ node total, w.disk.node panel.diskKey c.local_ = some node ∧
      0 < node.size ∧
      (statSize panel op.conn c.remote w).1 = some total ∧ node.size < total
  | upload st c w =>
    let seen := isRemoteFile st.toPanel op.targetConn c.remote w.fs
    op.targetConn.scpMode = false ∧ seen.1 = true ∧ ∃ size,
      (statSize st.toPanel op.targetConn c.remote seen.2).1 = some size ∧ 0 < size ∧
        size < localFileSize drive c.local_ w.fs

/-- The server does not tell of the target file, and the upload goes on. -/
def Unseen : FileStep → Prop
  | download _ _ _ => False
  | upload st c w =>
    (upload st c w).Exists op ∧ st.statFails w.fs.tick = true ∧
      (sftpIsCancelled st.toPanel w.fs.next).1 = false

/-- What a later file must be like. -/
structure InOrder (a b : FileStep) : Prop where
  whole : a.AnsweredForAll drive op → ¬ b.Partial drive op
  seen : a.question drive op = some (.overwrite .skipAll) → ¬ b.Unseen op

end Binds

variable {drive : LocalDrive} {op : ServerCopy} {a b s : FileStep}

theorem resumes_iff (hsync : s.panel.syncMode = false) :
    (∃ k, s.found drive op = some k ∧ k.total.any (k.size < ·) = true) ↔ s.Partial drive op := by
  cases s with
  | download panel c w =>
    have hasks : ¬ panel.syncMode = true := by rw [show panel.syncMode = false from hsync]; decide
    unfold found Partial resumableSize
    dsimp only
    rw [if_neg hasks]
    rcases w.disk.node panel.diskKey c.local_ with _ | node
    · simp
    · by_cases hscp : op.conn.scpMode = true
      · simp [hscp]
      · by_cases hsize : 0 < node.size
        · simp [hscp, hsize, Option.any_eq_true]
        · simp [hscp, hsize]
  | upload st c w =>
    have hasks : ¬ st.syncMode = true := by rw [show st.syncMode = false from hsync]; decide
    unfold found Partial uploadedSize
    dsimp only
    rw [if_neg hasks]
    by_cases hseen : (isRemoteFile st.toPanel op.targetConn c.remote w.fs).1 = true
    · by_cases hscp : op.targetConn.scpMode = true
      · simp [hscp]
      · rcases (statSize st.toPanel op.targetConn c.remote
          (isRemoteFile st.toPanel op.targetConn c.remote w.fs).2).1 with _ | size
        · simp [hscp]
        · by_cases hpos : 0 < size
          · simp [hscp, hseen, hpos, Option.filter]
            rfl
          · simp [hscp, hpos, Option.filter]
    · simp [hseen]

theorem question_eq_none_iff {k : FoundTarget} {panel : Panel} :
    k.question panel = none ↔ ¬ k.total.any (k.size < ·) = true ∧ k.w.ovrMode ≠ .ask := by
  unfold FoundTarget.question
  split_ifs with hresume
  · simp [hresume]
  · cases k.w.ovrMode <;> simp [hresume]

theorem quiet_iff (hsync : s.panel.syncMode = false) (hmode : s.before ≠ .ask) :
    s.question drive op = none ↔ ¬ s.Partial drive op := by
  rw [← resumes_iff hsync]
  unfold question
  rcases hfound : s.found drive op with _ | k
  · simp
  · rw [Option.bind_some, question_eq_none_iff, ovrMode_found hfound, and_iff_left hmode]
    simp

/-- `PathType` says of a file that is there what it is, or fails. -/
theorem isRemoteFile_of_exists {st : Staging} {c : WalkCall} {w : CopyState}
    (h : (upload st c w).Exists op) :
    isRemoteFile st.toPanel op.targetConn c.remote w.fs = (!st.statFails w.fs.tick, w.fs.next) := by
  obtain ⟨node, hnode, hfile⟩ := h
  unfold isRemoteFile
  rw [hnode]
  cases node with
  | dir => exact absurd rfl hfile
  | file content => rfl
  | link rooted target => rfl

theorem found_upload_eq_none_iff {st : Staging} {c : WalkCall} {w : CopyState}
    (hsync : st.syncMode = false) :
    (upload st c w).found drive op = none ↔
    (isRemoteFile st.toPanel op.targetConn c.remote w.fs).1 = false := by
  unfold found
  dsimp only
  rw [if_neg (by rw [hsync]; decide)]
  split_ifs with hseen
  · simpa using hseen
  · rcases (uploadedSize st op.targetConn c.remote
        (isRemoteFile st.toPanel op.targetConn c.remote w.fs).2).1 with _ | size
    · simpa using hseen
    · simpa using hseen

/-- A file that is not found is written without a question. -/
theorem unseen_iff (hsync : s.panel.syncMode = false) :
    s.found drive op = none ∧ s.Modifies drive op ↔ s.Unseen op := by
  cases s with
  | download panel c w =>
    have hasks : ¬ panel.syncMode = true := by rw [show panel.syncMode = false from hsync]; decide
    refine iff_of_false ?_ id
    rintro ⟨hfound, hexists, -⟩
    unfold found at hfound
    dsimp only at hfound
    rw [if_neg hasks, Option.map_eq_none_iff] at hfound
    have hsome : (w.disk.node panel.diskKey c.local_).isSome = true := hexists
    rw [hfound] at hsome
    cases hsome
  | upload st c w =>
    have hasks : st.syncMode = false := hsync
    have htransfer : (upload st c w).Exists op → (upload st c w).found drive op = none →
        ((upload st c w).transfer drive op ≠ none ↔
          (sftpIsCancelled st.toPanel w.fs.next).1 = false) := by
      intro hexists hfound
      unfold transfer verdict
      rw [hfound]
      unfold unasked
      dsimp only
      rw [if_neg (by rw [hasks]; decide), isRemoteFile_of_exists hexists]
      dsimp only
      unfold panel
      cases (sftpIsCancelled st.toPanel w.fs.next).1 <;> simp
    unfold Modifies Unseen
    constructor
    · rintro ⟨hfound, hexists, hwritten⟩
      refine ⟨hexists, ?_, (htransfer hexists hfound).mp hwritten⟩
      rw [found_upload_eq_none_iff hasks, isRemoteFile_of_exists hexists] at hfound
      simpa using hfound
    · rintro ⟨hexists, hfails, hgoes⟩
      have hfound : (upload st c w).found drive op = none := by
        rw [found_upload_eq_none_iff hasks, isRemoteFile_of_exists hexists, hfails]
        rfl
      exact ⟨hfound, hexists, (htransfer hexists hfound).mpr hgoes⟩

/-- In the mode that skips, what is found is not written. -/
theorem not_transfer_of_skipAll {k : FoundTarget} (hmode : s.before = .skipAll)
    (hfound : s.found drive op = some k)
    (hquiet : s.question drive op = none) : s.transfer drive op = none := by
  have hnone : k.question s.panel = none := by
    unfold question at hquiet
    rwa [hfound] at hquiet
  unfold transfer verdict
  rw [hfound]
  dsimp only
  rw [askDownload_of_none hnone, if_pos ((ovrMode_found hfound).trans hmode)]

theorem before_of_link {m : OvrMode} (hlink : a.after drive op ≤ b.before) (hm : m ≠ .ask)
    (hmode : Question.mode (a.question drive op) a.before = m) : b.before = m := by
  rw [after_eq, hmode] at hlink
  exact OvrMode.eq_of_le hlink hm

/-- A file is bound by an answer before it, exactly if it is in order. -/
theorem binds_iff (hsync : b.panel.syncMode = false) (hlink : a.after drive op ≤ b.before) :
    a.Binds drive op b ↔ a.InOrder drive op b := by
  have hskip : a.question drive op = some (.overwrite .skipAll) → b.before = .skipAll := by
    intro hanswer
    exact before_of_link hlink (by decide) (by rw [hanswer]; rfl)
  have hmode : a.AnsweredForAll drive op → b.before ≠ .ask := by
    rintro (hanswer | hanswer)
    · have hbefore : b.before = .overwriteAll :=
        before_of_link hlink (by decide) (by rw [hanswer]; rfl)
      rw [hbefore]
      decide
    · rw [hskip hanswer]
      decide
  constructor
  · rintro ⟨hquiet, huntouched⟩
    refine ⟨fun hall => (quiet_iff hsync (hmode hall)).mp (hquiet hall), fun hanswer hunseen => ?_⟩
    exact huntouched hanswer ((unseen_iff hsync).mpr hunseen).2
  · rintro ⟨hwhole, hseen⟩
    have hquiet : a.AnsweredForAll drive op → b.question drive op = none :=
      fun hall => (quiet_iff hsync (hmode hall)).mpr (hwhole hall)
    refine ⟨hquiet, fun hanswer hmodifies => ?_⟩
    rcases hfound : b.found drive op with _ | k
    · exact hseen hanswer ((unseen_iff hsync).mp ⟨hfound, hmodifies⟩)
    · exact hmodifies.2 (not_transfer_of_skipAll (hskip hanswer) hfound (hquiet (.inr hanswer)))

end FileStep

/-! ## The operation -/

section Operation

variable (drive : LocalDrive) (op : ServerCopy)

/-- The files are those of the turns, with the answers in these. -/
theorem mem_copyVisits {depth : ℕ} {turns : List (Turn × RemoteEntry)} {w : CopyState} :
    ∀ s ∈ copyVisits drive op depth turns w, ∃ t ∈ turns,
      (∃ c w, s = .download t.1.download.toPanel c w) ∨ ∃ c w, s = .upload t.1.upload c w := by
  have hdownload : ∀ (panel : Panel) depth c w,
      ∀ s ∈ recurseVisits (sftpDownloadBody panel op.conn) (downloadVisits op panel) depth c w,
        ∃ c w, s = .download panel c w := by
    intro panel
    refine forall_recurseVisits fun rec visits hrec c w s hs => ?_
    unfold downloadVisits at hs
    dsimp only at hs
    split_ifs at hs
    · cases hs
    · exact ⟨_, _, List.mem_singleton.mp hs⟩
    · cases hs
    · split at hs
      · cases hs
      · refine forall_forEachVisits (P := fun s : FileStep => ∃ c w, s = .download panel c w)
          (fun e _ w s hs => ?_) _ s hs
        unfold downloadTurnVisits at hs
        dsimp only at hs
        split_ifs at hs
        · cases hs
        · exact hrec _ _ s hs
  have hupload : ∀ (st : Staging) depth c w,
      ∀ s ∈ recurseVisits (sftpUploadBody drive st op.targetConn)
        (uploadVisits drive op st) depth c w, ∃ c w, s = .upload st c w := by
    intro st
    refine forall_recurseVisits fun rec visits hrec c w s hs => ?_
    unfold uploadVisits at hs
    dsimp only at hs
    split_ifs at hs
    · cases hs
    · exact ⟨_, _, List.mem_singleton.mp hs⟩
    · cases hs
    · split at hs
      · cases hs
      · refine forall_forEachVisits (P := fun s : FileStep => ∃ c w, s = .upload st c w)
          (fun fd _ w s hs => ?_) _ s hs
        unfold uploadTurnVisits at hs
        dsimp only at hs
        split_ifs at hs
        · cases hs
        · cases hs
        · exact hrec _ _ s hs
  refine forall_forEachVisits (fun t ht w s hs => ⟨t, ht, ?_⟩) w
  unfold copyTurnVisits at hs
  dsimp only at hs
  split_ifs at hs
  · cases hs
  · rcases List.mem_append.mp hs with hs | hs
    · exact .inl (hdownload _ _ _ _ s hs)
    · split at hs
      · exact .inr (hupload _ _ _ _ s hs)
      · cases hs

theorem noSync_copyVisits (depth : ℕ) {turns : List (Turn × RemoteEntry)}
    (hsync : ∀ t ∈ turns, t.1.download.syncMode = false ∧ t.1.upload.syncMode = false)
    (w : CopyState) :
    ∀ s ∈ copyVisits drive op depth turns w, s.panel.syncMode = false := by
  intro s hs
  obtain ⟨t, ht, ⟨c, w, rfl⟩ | ⟨c, w, rfl⟩⟩ := mem_copyVisits drive op s hs
  · exact (hsync t ht).1
  · exact (hsync t ht).2

end Operation

/-- An answer for all files binds the rest of the operation, exactly if every later file is in
order. -/
theorem all_binds_iff (drive : LocalDrive) (op : ServerCopy) (depth : ℕ)
    (turns : List (Turn × RemoteEntry))
    (hsync : ∀ t ∈ turns, t.1.download.syncMode = false ∧ t.1.upload.syncMode = false)
    (w : CopyState) :
    (copyVisits drive op depth turns w).Pairwise (FileStep.Binds drive op) ↔
      (copyVisits drive op depth turns w).Pairwise (FileStep.InOrder drive op) := by
  have hlinked := linked_copyVisits drive op depth turns w
  have hall := noSync_copyVisits drive op depth hsync w
  constructor
  · intro h
    exact (hlinked.and h).imp_of_mem fun _ hb hab => (FileStep.binds_iff (hall _ hb) hab.1).mp hab.2
  · intro h
    exact (hlinked.and h).imp_of_mem fun _ hb hab =>
      (FileStep.binds_iff (hall _ hb) hab.1).mpr hab.2

/-! ## A resume after "Skip all" -/

/-- Every file is fetched with two bytes; all targets are to be skipped, and a resume is agreed
to. -/
def skippingAll : Staging :=
  { Staging.idle plainDrive with
    overwrite := fun _ => .skipAll
    resume := fun _ => .yes
    statFails := fun _ => false
    downloadIo := fun _ =>
      ⟨true, some 2, true, true, [⟨some [1, 2], 2, true⟩, ⟨some [], 0, true⟩], 0, true⟩ }

def skippingTurn :
    Turn := { Turn.idle plainDrive with download := skippingAll, upload := skippingAll }

/-- The files of two bytes on the first server, with what there is on the second. -/
def wholeFiles :
    RemoteTree := ⟨[([ascii "a"], .file [1, 2]), ([ascii "b"], .file [1, 2])], by decide⟩

def partFiles : RemoteTree := ⟨[([ascii "a"], .file [1, 2]), ([ascii "b"], .file [1])], by decide⟩

def copyOfTwo : ServerCopy := ⟨rawConn, { rawConn with server := 1 }, ascii "/", ascii "/", true⟩

def beforeCopy : CopyState where
  fs :=
    { servers := fun i => if i = 0 then wholeFiles else partFiles
      disk := [(ascii "C:", .dir), (ascii "C:\\T", .dir)]
      ovrMode := .ask
      cancelled := false
      tick := 0
      log := [] }
  uploaded := []

def twoTurns : List (Turn × RemoteEntry) :=
  [(skippingTurn, ⟨ascii "a", false⟩), (skippingTurn, ⟨ascii "b", false⟩)]

theorem all_binds_twoTurns :
    (copyVisits plainDrive copyOfTwo 1 twoTurns beforeCopy).Pairwise
      (FileStep.Binds plainDrive copyOfTwo) ↔
      (copyVisits plainDrive copyOfTwo 1 twoTurns beforeCopy).Pairwise
        (FileStep.InOrder plainDrive copyOfTwo) :=
  all_binds_iff plainDrive copyOfTwo 1 twoTurns (by decide) beforeCopy

/-- The second file is asked about although all were to be skipped. -/
theorem not_all_binds :
    ¬ ∀ (drive : LocalDrive) (op : ServerCopy) (depth : ℕ) (turns : List (Turn × RemoteEntry)),
    (∀ t ∈ turns, t.1.download.syncMode = false ∧ t.1.upload.syncMode = false) → ∀ w : CopyState,
      (copyVisits drive op depth turns w).Pairwise (FileStep.Binds drive op) := by
  intro h
  have hbinds := h plainDrive copyOfTwo 1 twoTurns (by decide) beforeCopy
  have hquestions : (copyVisits plainDrive copyOfTwo 1 twoTurns beforeCopy).map
      (FileStep.question plainDrive copyOfTwo) =
      [none, some (.overwrite .skipAll), none, some (.resume .yes)] := by
    decide +kernel
  have hquiet : ([none, some (.overwrite .skipAll), none,
      some (.resume .yes)] : List (Option Question)).Pairwise
      fun q q' => q = some (.overwrite .all) ∨ q = some (.overwrite .skipAll) → q' = none := by
    rw [← hquestions, List.pairwise_map]
    exact hbinds.imp FileStep.Binds.quiet
  revert hquiet
  decide

end SalamanderSftp
