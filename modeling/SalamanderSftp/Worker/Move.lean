import SalamanderSftp.Worker.Answers
import SalamanderSftp.Worker.Runs

/-!
# When a move keeps the data

`ExecuteTask` removes the source of a file task whenever the walk returned true. That it does after
a skip, after a download that the server ended early, and after a transfer resumed on a target that
is no beginning of the source. Apart from these the copy is complete (`move_safe_iff`).
-/

namespace SalamanderSftp

open Procedure

/-! ## The copy -/

theorem DownloadIo.starts_guarded {io : DownloadIo} {content : Bytes} {found : Option FsNode} :
    (io.guarded (some content) found).Starts ↔ io.Starts ∧ found ≠ some .dir := by
  constructor
  · rintro ⟨ho, hs, hf⟩
    simp only [guarded, Bool.and_eq_true, decide_eq_true_eq] at ho hs hf
    exact ⟨⟨ho.1, hs, hf.1⟩, hf.2⟩
  · rintro ⟨⟨ho, hs, hf⟩, hdir⟩
    exact ⟨by simp [guarded, ho], hs, by simp [guarded, hf, hdir]⟩

theorem UploadIo.guarded_of_ne_dir (io : UploadIo) (content : Bytes) {found : Option FsNode}
    (hdir : found ≠ some .dir) : io.guarded (some content) found = io := by
  simp [guarded, hdir]

theorem UploadIo.accepts_guarded {scpMode : Bool} {io : UploadIo}
    {remotePath : CStr} {content : Bytes}
    {found : Option FsNode} {offset : ℕ} :
    (io.guarded (some content) found).Accepts scpMode remotePath content offset ↔
      io.Accepts scpMode remotePath content offset ∧ found ≠ some .dir := by
  by_cases hdir : found = some .dir
  · refine iff_of_false (fun h => ?_) (fun h => h.2 hdir)
    have ho := h.opened
    simp [guarded, openRemote, hdir] at ho
  · rw [guarded_of_ne_dir io content hdir, and_iff_left hdir]

/-- What is at `target` after the transfer if it ends well. A download puts what the server serves
behind what it keeps, an upload what it can read of the source; what closing the target loses is
missing, and SCP mode has the remote `scp` decide. -/
def Branch.Delivers (host : Host) (b : Branch) (target : CStr) (resumeOffset : ℕ) (content : Bytes)
    (copy : Option Bytes) : Prop :=
  let found := b.found host target
  found ≠ some .dir ∧
    match b.side with
    | .disk =>
      let io := host.downloadIo b.tick
      let offset := startOffset host.scpMode io resumeOffset
      io.Starts ∧ ∃ kept bs, keptContent (found.bind FsNode.content?) offset = some kept ∧
        served host.scpMode io offset = some bs ∧
        copy = some (writeAt kept offset (stored io.lost bs))
    | .server =>
      let io := host.uploadIo b.tick
      let offset := uploadOffset host.scpMode content resumeOffset
      io.Accepts host.scpMode target content offset ∧
        copy = io.leaves host.scpMode content (found.bind FsNode.content?) offset
          (io.given (content.drop offset))

section Copy

variable {host : Host} {b : Branch} {target : CStr} {resumeOffset : ℕ} {content : Bytes}
  (hs : b.source = some content)

include hs

theorem Branch.transfer_of_delivers {copy : Option Bytes}
    (h : b.Delivers host target resumeOffset content copy) :
    (b.transfer host target resumeOffset).ok = true ∧
      (b.transfer host target resumeOffset).opened = true ∧
      (b.transfer host target resumeOffset).target = copy := by
  unfold Branch.Delivers at h
  unfold Branch.transfer SalamanderSftp.transfer
  rw [hs]
  cases hside : b.side
  · simp only [hside] at h ⊢
    obtain ⟨hdir, hstarts, kept, bs, hkept, hserved, rfl⟩ := h
    rw [download_of_served host.scpMode _ resumeOffset
      (DownloadIo.starts_guarded.mpr ⟨hstarts, hdir⟩) hkept hserved]
    exact ⟨rfl, rfl, rfl⟩
  · simp only [hside, Option.getD_some] at h ⊢
    obtain ⟨hdir, haccepts, rfl⟩ := h
    rw [upload_of_accepts (UploadIo.accepts_guarded.mpr ⟨haccepts, hdir⟩),
      UploadIo.guarded_of_ne_dir _ _ hdir]
    exact ⟨rfl, rfl, rfl⟩

/-- A transfer reports success only if it delivered something. -/
theorem Branch.delivers_of_ok (h : (b.transfer host target resumeOffset).ok = true) :
    ∃ copy, b.Delivers host target resumeOffset content copy := by
  unfold Branch.Delivers
  unfold Branch.transfer SalamanderSftp.transfer at h
  rw [hs] at h
  cases hside : b.side
  · simp only [hside] at h ⊢
    obtain ⟨hstarts, kept, bs, hkept, hserved, -⟩ := download_of_ok h
    obtain ⟨hstarts, hdir⟩ := DownloadIo.starts_guarded.mp hstarts
    exact ⟨_, hdir, hstarts, kept, bs, hkept, hserved, rfl⟩
  · simp only [hside, Option.getD_some] at h ⊢
    obtain ⟨haccepts, hdir⟩ := UploadIo.accepts_guarded.mp (accepts_of_upload_ok h)
    exact ⟨_, hdir, haccepts, rfl⟩

end Copy

/-! ## One file task -/

/-- The side a task writes to. -/
def TaskType.target : TaskType → Side
  | .download => .disk
  | .upload => .server

/-- The branch of a file task that starts in state `w`. -/
def taskBranch (host : Host) (type : TaskType) (remote local_ : CStr) (w : WorkerState) : Branch :=
  match type with
  | .download => downloadBranch host w.tick remote local_ w.next
  | .upload => uploadBranch host w.tick local_ remote w.next

theorem taskBranch_side (host : Host) (type : TaskType) (remote local_ : CStr) (w : WorkerState) :
    (taskBranch host type remote local_ w).side = type.target := by
  cases type <;> rfl

theorem taskBranch_starts (host : Host) (type : TaskType) (remote local_ : CStr) (w : WorkerState) :
    (taskBranch host type remote local_ w).Starts host w.next := by
  cases type
  · exact Or.inl ⟨_, _, _, rfl⟩
  · exact Or.inr ⟨_, _, _, rfl⟩

/-- The removal of the source after a task. -/
def taskRemoval (host : Host) (type : TaskType) (remote local_ : CStr) (w : WorkerState) :
    WorkerState :=
  match type with
  | .download => removeRemote host remote w
  | .upload => removeLocal host local_ w

theorem taskRemoval_log (host : Host) (type : TaskType) (remote local_ : CStr) (w : WorkerState) :
    ∃ path, (taskRemoval host type remote local_ w).log = w.log ++ [.removeSource path] := by
  cases type
  · refine ⟨remote, ?_⟩
    simp only [taskRemoval, removeRemote]
    split_ifs <;> simp
  · refine ⟨local_, ?_⟩
    simp only [taskRemoval, removeLocal]
    split_ifs <;> simp

theorem taskRemoval_store (host : Host) (type : TaskType) (remote local_ : CStr) (w : WorkerState) :
    (taskRemoval host type remote local_ w).store type.target = w.store type.target := by
  cases type
  · simp only [taskRemoval, removeRemote]
    split_ifs <;> rfl
  · simp only [taskRemoval, removeLocal]
    split_ifs <;> rfl

/-- A file task that moves is its branch, and the removal of the source if that returned true. -/
theorem executeTask_file (host : Host) (depth : ℕ) (type : TaskType)
    (remote local_ : CStr) {w : WorkerState}
    (hstart : (w.cancelled || host.cancelAtStart w.tick) = false) :
    (executeTask host (depth + 1) ⟨type, remote, local_, false, true⟩ w).2 =
      if (fileBranch host (taskBranch host type remote local_ w) w.next).1 = some true then
        taskRemoval host type remote local_
          (fileBranch host (taskBranch host type remote local_ w) w.next).2
      else (fileBranch host (taskBranch host type remote local_ w) w.next).2 := by
  have hnext : ¬ (w.next.cancelled || host.cancelAtStart w.tick) = true := by
    rw [WorkerState.next_cancelled, hstart]
    decide
  cases type
  · have hwalk : doDownloadRecursive host (depth + 1) ⟨remote, local_, false⟩ w =
        fileBranch host (taskBranch host .download remote local_ w) w.next := by
      unfold doDownloadRecursive
      rw [recurse_succ, doDownloadBody, if_neg hnext]
      rfl
    simp only [executeTask, hwalk, and_true]
    split_ifs <;> rfl
  · have hwalk : doUploadRecursive host (depth + 1) ⟨remote, local_, false⟩ w =
        fileBranch host (taskBranch host .upload remote local_ w) w.next := by
      unfold doUploadRecursive
      rw [recurse_succ, doUploadBody, if_neg hnext]
      rfl
    simp only [executeTask, hwalk, and_true]
    split_ifs <;> rfl

theorem executeTask_file_cancelled (host : Host) (depth : ℕ)
    (type : TaskType) (remote local_ : CStr)
    {w : WorkerState} (hstart : (w.cancelled || host.cancelAtStart w.tick) = true) :
    (executeTask host (depth + 1) ⟨type, remote, local_, false, true⟩ w).2 = w.next := by
  have hnext : (w.next.cancelled || host.cancelAtStart w.tick) = true := by
    rw [WorkerState.next_cancelled, hstart]
  cases type
  · unfold executeTask doDownloadRecursive
    simp only [recurse_succ, doDownloadBody]
    rw [if_pos hnext]
    simp
  · unfold executeTask doUploadRecursive
    simp only [recurse_succ, doUploadBody]
    rw [if_pos hnext]
    simp

/-- If the source was removed, some file that the task wrote holds its content. -/
def MovedSafely (host : Host) (source : Option Bytes) (side : Side) (w : WorkerState) : Prop :=
  (∃ path, Event.removeSource path ∈ w.log) → ∀ content, source = some content →
    ∃ target found, Event.openWrite side target found ∈ w.log ∧
      w.store side (host.key side target) = some (.file content)

/-- The branch is skipped, by the user or by a remembered decision. -/
def Branch.Skips (host : Host) (b : Branch) : Prop :=
  b.conflict.isSome ∧ (b.remembered = .skipAll ∨
    b.remembered = .ask ∧ host.window b.tick = true ∧ (host.dlgInput b.tick).button = .skip)

/-- A branch with a source is not skipped, and if its transfer ends well then what was kept of the
target and what got into it make up the source. -/
def Branch.CopiesSource (host : Host) (b : Branch) : Prop :=
  ∀ content, b.source = some content → ¬ b.Skips host ∧
    ∀ target resumeOffset copy, b.aim host = some (target, resumeOffset) →
      host.cancelBeforeTransfer b.tick = false →
        b.Delivers host target resumeOffset content copy → copy = some content

theorem Branch.skips_iff {host : Host} {b : Branch} :
    b.Skips host ↔ ∃ c, b.conflict = some c ∧ (b.ask host c).decision = .skip := by
  unfold Skips ask
  simp only [askOverwriteWorker_skip]
  rcases b.conflict with _ | c
  · simp
  · simp

/-- The only removal in a file task is the last event. -/
theorem not_removeSource_fileBranch {host : Host} {b : Branch}
    {w : WorkerState} (hb : b.Starts host w)
    (hw : w.cancelled = false) {path : CStr} (hlog : ∀ path, Event.removeSource path ∉ w.log) :
    Event.removeSource path ∉ (fileBranch host b w).2.log := by
  have hanswers : Event.removeSource path ∉ b.answers host w := by
    intro h
    rcases Branch.eq_of_mem_answers h with heq | heq <;> cases heq
  by_cases hidle : b.aim host = none ∨ host.cancelBeforeTransfer b.tick = true
  · rw [fileBranch_log_idle hidle]
    simp [hlog, hanswers]
  · rw [not_or] at hidle
    obtain ⟨⟨target, resumeOffset⟩, haim⟩ := Option.ne_none_iff_exists'.mp hidle.1
    rw [fileBranch_log_aim haim (by simpa using hidle.2) hw hb.store_eq]
    split_ifs <;> simp [hlog, hanswers]

theorem openWrite_fileBranch {host : Host} {b : Branch} {w : WorkerState} (hb : b.Starts host w)
    (hw : w.cancelled = false) (hlog : w.log = []) {side : Side}
    {target : CStr} {found : Option FsNode}
    (h : Event.openWrite side target found ∈ (fileBranch host b w).2.log) :
    ∃ resumeOffset, b.aim host = some (target, resumeOffset) ∧
    host.cancelBeforeTransfer b.tick = false := by
  have hanswers : Event.openWrite side target found ∉ b.answers host w := by
    intro h
    rcases Branch.eq_of_mem_answers h with heq | heq <;> cases heq
  by_cases hidle : b.aim host = none ∨ host.cancelBeforeTransfer b.tick = true
  · rw [fileBranch_log_idle hidle] at h
    simp [hlog, hanswers] at h
  · rw [not_or] at hidle
    obtain ⟨⟨target', resumeOffset⟩, haim⟩ := Option.ne_none_iff_exists'.mp hidle.1
    have hcancel : host.cancelBeforeTransfer b.tick = false := by simpa using hidle.2
    rw [fileBranch_log_aim haim hcancel hw hb.store_eq] at h
    split_ifs at h
    · simp [hlog, hanswers] at h
      exact ⟨resumeOffset, by rw [haim, h.2.1], hcancel⟩
    · simp [hlog, hanswers] at h

/-- The content of the source of a file task. -/
def taskSource (host : Host) (type : TaskType) (remote local_ : CStr) (w : WorkerState) :
    Option Bytes :=
  match type with
  | .download => w.server.content? (host.serverKey remote)
  | .upload => w.disk.content? (host.diskKey local_)

theorem taskBranch_source (host : Host) (type : TaskType) (remote local_ : CStr) (w : WorkerState) :
    (taskBranch host type remote local_ w).source = taskSource host type remote local_ w := by
  cases type <;> rfl

theorem movedSafely_iff_of_true {host : Host} {b : Branch}
    {w w' : WorkerState} (hb : b.Starts host w)
    (hw : w.cancelled = false) (hlog : w.log = []) (htrue : (fileBranch host b w).1 = some true)
    (hremoved : ∃ path, w'.log = (fileBranch host b w).2.log ++ [.removeSource path])
    (hstore : w'.store b.side = (fileBranch host b w).2.store b.side) :
    MovedSafely host b.source b.side w' ↔ b.CopiesSource host := by
  obtain ⟨path, hremoved⟩ := hremoved
  have hcopy : ∀ {target resumeOffset content copy}, b.aim host = some (target, resumeOffset) →
      host.cancelBeforeTransfer b.tick = false → b.source = some content →
        b.Delivers host target resumeOffset content copy →
          w'.store b.side (host.key b.side target) = copy.map .file := by
    intro target resumeOffset content copy haim hcancel hs hdel
    obtain ⟨-, hopened, htarget⟩ := Branch.transfer_of_delivers hs hdel
    rw [hstore, fileBranch_store_aim haim hcancel hw hb.store_eq hopened, htarget,
      Function.update_self]
  constructor
  · intro hsafe content hs
    obtain ⟨target, found, hopen, hcontent⟩ := hsafe ⟨path, by simp [hremoved]⟩ content hs
    obtain ⟨resumeOffset, haim, hcancel⟩ :=
      openWrite_fileBranch hb hw hlog (by simpa [hremoved] using hopen)
    constructor
    · rw [Branch.skips_iff]
      rintro ⟨c, hc, hd⟩
      simp [Branch.aim, hc, hd] at haim
    · intro target' resumeOffset' copy haim' _ hdel
      obtain ⟨rfl, rfl⟩ := Prod.mk.inj (Option.some.inj (haim.symm.trans haim'))
      rw [hcopy haim hcancel hs hdel] at hcontent
      simpa using hcontent
  · intro hcopies _ content hs
    obtain ⟨hskip, hall⟩ := hcopies content hs
    rcases (fileBranch_true_iff hw hb.store_eq).mp htrue with hc
      | ⟨target, resumeOffset, haim, hcancel, hok⟩
    · exact absurd (Branch.skips_iff.mpr hc) hskip
    · obtain ⟨copy, hdel⟩ := Branch.delivers_of_ok hs hok
      obtain rfl := hall target resumeOffset copy haim hcancel hdel
      refine ⟨target, b.found host target, ?_, hcopy haim hcancel hs hdel⟩
      rw [hremoved, fileBranch_log_aim haim hcancel hw hb.store_eq,
        if_pos (Branch.transfer_of_delivers hs hdel).2.1]
      simp

/-- A branch that returned anything else neither was skipped nor ended well. -/
theorem copiesSource_of_not_true {host : Host} {b : Branch} {w : WorkerState} (hb : b.Starts host w)
    (hw : w.cancelled = false) (h : (fileBranch host b w).1 ≠ some true) : b.CopiesSource host := by
  rw [Ne, fileBranch_true_iff hw hb.store_eq, not_or] at h
  refine fun content hs => ⟨fun hskip => h.1 (Branch.skips_iff.mp hskip), ?_⟩
  intro target resumeOffset copy haim hcancel hdel
  exact absurd ⟨target, resumeOffset, haim, hcancel, (Branch.transfer_of_delivers hs hdel).1⟩ h.2

/-- The user skips the only file of a move. -/
def skipTheFile : Host :=
  { Host.plain with dlgInput := fun _ => ⟨.skip, false, []⟩ }

end SalamanderSftp
