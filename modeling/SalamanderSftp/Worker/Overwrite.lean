import SalamanderSftp.Worker.Answers
import SalamanderSftp.Worker.Runs

/-!
# When the worker overwrites approved files only

The existence check and the question are about the original target; an alternate name is used
without another look, and an upload whose target `PathType` cannot see is not asked about at all.
Over a whole run, every existing file that was opened for writing had been approved exactly when
those two kinds of targets are free or approved before (`overwrite_approved_iff`).
-/

namespace SalamanderSftp

open Journal

/-! ## Opening -/

theorem download_opened (scpMode : Bool) (io : DownloadIo) (content : Bytes) (resumeOffset : ℕ) :
    (download scpMode io (some content) resumeOffset).opened =
      (io.opened && io.start && io.fopen) := by
  by_cases h : io.opened = true ∧ io.start = true
  · rw [download_eq h.1 h.2, h.1, h.2]
    unfold downloadInto
    rcases ho : (if 0 < startOffset scpMode io resumeOffset then some content else some [])
      with _ | kept
    · split_ifs at ho
    · cases io.fopen <;> rfl
  · rw [download_eq_refused h]
    cases ho : io.opened <;> cases hs : io.start <;> simp_all [TransferResult.refused]

theorem upload_opened (scpMode : Bool) (io : UploadIo) (remotePath : CStr) (content : Bytes)
    (target : Option Bytes) (resumeOffset : ℕ) :
    (upload scpMode io remotePath content target resumeOffset).opened =
      (io.fopen && io.start &&
        if scpMode then decide (io.openFirst = .handle) else openRemote io remotePath) := by
  cases scpMode with
  | true =>
    simp only [upload, scpUpload, if_true]
    cases io.fopen <;> cases io.start <;> cases io.openFirst <;> rfl
  | false =>
    simp only [upload, Bool.false_eq_true, if_false]
    cases io.fopen <;> cases io.start <;> cases openRemote io remotePath <;> rfl

/-- Whether an existing file gets opened does not depend on the offset. -/
theorem Branch.transfer_opened {host : Host} {b : Branch} {target : CStr} {content : Bytes}
    (h : b.found host target = some (.file content)) (resumeOffset : ℕ) :
    (b.transfer host target resumeOffset).opened = (b.transfer host target 0).opened := by
  unfold Branch.transfer
  rw [h]
  unfold SalamanderSftp.transfer
  cases b.side
  · simp only [Option.bind_some, FsNode.content?, download_opened]
  · simp only [upload_opened]

/-! ## Approval -/

/-- The user answered for this very path before, or for all. -/
def ApprovedBy (pre : List Event) (side : Side) (path : CStr) : Prop :=
  Event.decidedAll ∈ pre ∨ Event.answered side path ∈ pre

/-- An existing file that is opened for writing was approved before. -/
def OverwriteApproved (pre : List Event) : Event → Prop
  | .openWrite side path (some (.file _)) => ApprovedBy pre side path
  | _ => True

/-- The transfer of the branch comes to open an existing file at `target`. -/
def Branch.Overwrites (host : Host) (b : Branch) (target : CStr) : Prop :=
  host.cancelBeforeTransfer b.tick = false ∧ (b.transfer host target 0).opened = true ∧
    ∃ content, b.found host target = some (.file content)

/-- The answer lets the transfer go on to another target, and says nothing about later ones. -/
def DlgInput.Renames (input : DlgInput) (c : Conflict) : Prop :=
  input.button ≠ .skip ∧ input.button ≠ .cancel ∧ ¬ input.Decides ∧ typedName c.tgtName input ≠ []

/-- The target of the name typed in the dialog. -/
def Branch.alternate (host : Host) (b : Branch) (c : Conflict) : CStr :=
  renamed b.side b.path (typedName c.tgtName (host.dlgInput b.tick))

/-- The two ways around the question: a target that was not seen, and an alternate name. Neither
leads to an existing file, unless that was approved before. -/
structure Branch.TargetApproved (host : Host) (pre : List Event) (b : Branch) : Prop where
  unseen : b.conflict = none → b.Overwrites host b.path → ApprovedBy pre b.side b.path
  renamed : ∀ c, b.conflict = some c → b.remembered = .ask → (host.dlgInput b.tick).Renames c →
    b.Overwrites host (b.alternate host c) →
      b.alternate host c = b.path ∨ ApprovedBy pre b.side (b.alternate host c)

def BranchApproved (host : Host) (pre : List Event) : Event → Prop
  | .branch b => b.TargetApproved host pre
  | _ => True

/-! ## One file branch -/

/-- The invariant of a run: a remembered decision was recorded, and the events so far are approved
exactly when the branches so far meet the condition. -/
structure OverwritesFit (host : Host) (w : WorkerState) : Prop where
  remembered : w.OverwriteAllDecision ≠ .ask → Event.decidedAll ∈ w.log
  fit : AtEach OverwriteApproved w.log ↔ AtEach (BranchApproved host) w.log

/-- An event that neither property speaks about. -/
def Event.Silent (host : Host) (e : Event) :
    Prop := ∀ pre, OverwriteApproved pre e ∧ BranchApproved host pre e

theorem OverwritesFit.silent {host : Host} {w w' : WorkerState}
    (h : OverwritesFit host w) (new : List Event)
    (hdecision : w'.OverwriteAllDecision = w.OverwriteAllDecision) (hlog : w'.log = w.log ++ new)
    (hnew : ∀ e ∈ new, e.Silent host) : OverwritesFit host w' where
  remembered hr := by
    rw [hlog]
    exact List.mem_append_left _ (h.remembered (by rwa [hdecision] at hr))
  fit := by
    rw [hlog, atEach_append_of fun e he pre => (hnew e he pre).1,
      atEach_append_of fun e he pre => (hnew e he pre).2, h.fit]

/-- One branch: only its own condition and its own opening matter. -/
theorem OverwritesFit.branch {host : Host} {b : Branch} {w w' : WorkerState}
    (h : OverwritesFit host w)
    {silent : List Event} (opened : Bool) (target : CStr) (found : Option FsNode)
    (hlog : w'.log = w.log ++ .branch b :: silent ++ if opened then
      [.openWrite b.side target found] else [])
    (hsilent : ∀ e ∈ silent, e.Silent host)
    (hdecision : w'.OverwriteAllDecision ≠ .ask → Event.decidedAll ∈ w'.log)
    (hiff : (opened = true →
      OverwriteApproved (w.log ++ .branch b :: silent) (.openWrite b.side target found)) ↔
      b.TargetApproved host w.log) : OverwritesFit host w' where
  remembered := hdecision
  fit := by
    have happroved : AtEach OverwriteApproved (w.log ++ .branch b :: silent) ↔
        AtEach OverwriteApproved w.log := by
      refine atEach_append_of (fun e he pre => ?_) _
      rcases List.mem_cons.mp he with rfl | he
      · trivial
      · exact (hsilent e he pre).1
    have hbranch : AtEach (BranchApproved host) (w.log ++ .branch b :: silent) ↔
        AtEach (BranchApproved host) w.log ∧ b.TargetApproved host w.log := by
      rw [← List.singleton_append, ← List.append_assoc,
        atEach_append_of fun e he pre => (hsilent e he pre).2,
        atEach_concat]
      rfl
    rw [hlog]
    cases opened
    · rw [if_neg (by decide), List.append_nil, happroved, hbranch, h.fit,
        and_iff_left (hiff.mp (by simp))]
    · rw [if_pos rfl, atEach_concat, atEach_concat, happroved, hbranch, h.fit]
      simp only [forall_const] at hiff
      rw [hiff]
      simp [BranchApproved]

theorem Branch.opens_iff {host : Host} {b : Branch}
    (hcancel : host.cancelBeforeTransfer b.tick = false)
    (pre : List Event) (target : CStr) (resumeOffset : ℕ) :
    ((b.transfer host target resumeOffset).opened = true →
        OverwriteApproved pre (.openWrite b.side target (b.found host target))) ↔
      (b.Overwrites host target → ApprovedBy pre b.side target) := by
  constructor
  · rintro h ⟨_, hopened, content, hfound⟩
    have := h (by rw [Branch.transfer_opened hfound]; exact hopened)
    rwa [hfound] at this
  · intro h hopened
    rcases hfound : b.found host target with _ | content | _
    · trivial
    · exact h ⟨hcancel, by rwa [Branch.transfer_opened hfound] at hopened, content, hfound⟩
    · trivial

/-- The branch and its transfer approve nothing by themselves. -/
theorem approvedBy_append {log : List Event} {b : Branch} {answers : List Event} {side side' : Side}
    {path path' : CStr} {resumeOffset : ℕ} {found : Option FsNode} :
    ApprovedBy
      (log ++ .branch b :: (answers ++ [.transfer side' path' resumeOffset found])) side path ↔
      ApprovedBy log side path ∨ ApprovedBy answers side path := by
  simp only [ApprovedBy, List.mem_append, List.mem_cons, reduceCtorEq, false_or,
    List.not_mem_nil, or_false]
  tauto

theorem Branch.answers_of_dialog {host : Host} {b : Branch} {w : WorkerState} {c : Conflict}
    (hc : b.conflict = some c) (hr : b.remembered = .ask) (hw : w.OverwriteAllDecision = .ask)
    (hwin : host.window b.tick = true) (hcan : (host.dlgInput b.tick).button ≠ .cancel) :
    Event.answered b.side b.path ∈ b.answers host w ∧
      (Event.decidedAll ∈ b.answers host w ↔ (host.dlgInput b.tick).Decides) := by
  rw [← askDialog_remembered c.tgtName hcan c.existingSize c.newSize]
  unfold answers ask WorkerState.asked
  simp only [hc, hr, hw, askOverwriteWorker_ask hwin, askDialog_answered hcan]
  rw [if_pos trivial]
  split_ifs with hrem <;> simpa using hrem

/-- The opening of a branch is approved exactly when the branch meets the condition. -/
theorem Branch.targetApproved_iff {host : Host} {b : Branch} {w : WorkerState}
    (h : OverwritesFit host w)
    (hb : b.Starts host w) (hwin : host.window b.tick = true) {target : CStr} {resumeOffset : ℕ}
    (haim : b.aim host = some (target, resumeOffset)) :
    (b.Overwrites host target → ApprovedBy w.log b.side target ∨
      ApprovedBy (b.answers host w) b.side target) ↔
      b.TargetApproved host w.log := by
  unfold Branch.aim at haim
  rcases hc : b.conflict with _ | c
  · rw [hc] at haim
    obtain ⟨rfl, rfl⟩ := Prod.mk.inj (Option.some.inj haim)
    constructor
    · refine fun happ => ⟨fun _ hover => ?_, fun d hd => absurd (hc.symm.trans hd) (by simp)⟩
      simpa [Branch.answers, hc, ApprovedBy] using happ hover
    · exact fun happ hover => Or.inl (happ.unseen hc hover)
  rw [hc] at haim
  dsimp only at haim
  split_ifs at haim with hgo
  obtain ⟨rfl, rfl⟩ := Prod.mk.inj (Option.some.inj haim)
  by_cases hr : b.remembered = .ask
  · have hask :
        b.ask host c = askDialog c.tgtName c.existingSize c.newSize (host.dlgInput b.tick) := by
      unfold Branch.ask
      rw [hr, askOverwriteWorker_ask hwin]
    rw [hask] at hgo ⊢
    obtain ⟨hskip, hcan⟩ := (askDialog_go _ _ _ _).mp hgo
    obtain ⟨hanswered, hdecided⟩ := Branch.answers_of_dialog hc hr (hb.remembered_eq ▸ hr) hwin hcan
    rw [askDialog_newName hcan]
    constructor
    · refine fun happ =>
        ⟨fun hnone => absurd (hc.symm.trans hnone) (by simp), fun d hd _ hren hover => ?_⟩
      obtain rfl := Option.some.inj (hc.symm.trans hd)
      rcases happ hover with h' | h' | h'
      · exact Or.inr h'
      · exact absurd (hdecided.mp h') hren.2.2.1
      · rcases Branch.eq_of_mem_answers h' with heq | heq
        · exact Or.inl (Event.answered.inj heq).2
        · cases heq
    · intro happ hover
      by_cases hdec : (host.dlgInput b.tick).Decides
      · exact Or.inr (Or.inl (hdecided.mpr hdec))
      by_cases hname : typedName c.tgtName (host.dlgInput b.tick) = []
      · rw [hname, renamed_nil]
        exact Or.inr (Or.inr hanswered)
      · rcases happ.renamed c hc hr ⟨hskip, hcan, hdec, hname⟩ hover with heq | h'
        · rw [show renamed b.side b.path _ = b.path from heq]
          exact Or.inr (Or.inr hanswered)
        · exact Or.inl h'
  · have hdec : Event.decidedAll ∈ w.log := h.remembered (by rwa [← hb.remembered_eq])
    exact iff_of_true (fun _ => Or.inl (Or.inl hdec))
      ⟨fun hnone => absurd (hc.symm.trans hnone) (by simp), fun d _ hr' => absurd hr' hr⟩

theorem Branch.targetApproved_of_idle {host : Host} {b : Branch} (hwin : host.window b.tick = true)
    (h : b.aim host = none ∨ host.cancelBeforeTransfer b.tick = true) (pre : List Event) :
    b.TargetApproved host pre := by
  have hno : host.cancelBeforeTransfer b.tick = true → ∀ target, ¬ b.Overwrites host target := by
    intro hcancel target hover
    rw [Branch.Overwrites, hcancel] at hover
    exact absurd hover.1 (by decide)
  rcases h with h | h
  · unfold Branch.aim at h
    refine ⟨fun hc => by simp [hc] at h, fun c hc hr hren => ?_⟩
    have hgo : (b.ask host c).decision = .go := by
      unfold Branch.ask
      rw [hr, askOverwriteWorker_ask hwin, askDialog_go]
      exact ⟨hren.1, hren.2.1⟩
    simp [hc, hgo] at h
  · exact ⟨fun _ hover => absurd hover (hno h _), fun _ _ _ _ hover => absurd hover (hno h _)⟩

/-- A decision that is remembered after a branch was recorded. -/
theorem OverwritesFit.decided {host : Host} {b : Branch} {w : WorkerState}
    (h : OverwritesFit host w)
    (hr : (fileBranch host b w).2.OverwriteAllDecision ≠ .ask) :
    Event.decidedAll ∈ w.log ∨ Event.decidedAll ∈ b.answers host w := by
  rw [fileBranch_OverwriteAllDecision] at hr
  by_cases hw : w.OverwriteAllDecision = .ask
  · right
    unfold Branch.answers
    rcases hc : b.conflict with _ | c
    · rw [hc] at hr
      exact absurd hw hr
    · rw [hc] at hr
      unfold WorkerState.asked
      dsimp only
      rw [hw, if_pos (show (b.ask host c).remembered ≠ .ask from hr)]
      simp
  · exact Or.inl (h.remembered hw)

theorem overwritesFit_fileBranch {host : Host} (hwin : ∀ t, host.window t = true)
    {w : WorkerState} {b : Branch}
    (h : OverwritesFit host w) (hcan : w.cancelled = false) (hb : b.Starts host w) :
    OverwritesFit host (fileBranch host b w).2 := by
  have hsilent : ∀ e ∈ b.answers host w, e.Silent host := by
    intro e he pre
    rcases Branch.eq_of_mem_answers he with rfl | rfl <;> exact ⟨trivial, trivial⟩
  by_cases hidle : b.aim host = none ∨ host.cancelBeforeTransfer b.tick = true
  · have hlog := fileBranch_log_idle hidle w
    refine h.branch false [] none (by simpa using hlog) hsilent ?_
      (iff_of_true (by simp) (Branch.targetApproved_of_idle (hwin _) hidle _))
    intro hr
    rw [hlog]
    rcases h.decided hr with h' | h' <;> simp [h']
  · rw [not_or] at hidle
    obtain ⟨⟨target, resumeOffset⟩, haim⟩ := Option.ne_none_iff_exists'.mp hidle.1
    have hcancel : host.cancelBeforeTransfer b.tick = false := by simpa using hidle.2
    have hlog := fileBranch_log_aim haim hcancel hcan hb.store_eq
    refine h.branch _ _ _ hlog ?_ ?_ ?_
    · intro e he
      rcases List.mem_append.mp he with he | he
      · exact hsilent e he
      · obtain rfl := List.mem_singleton.mp he
        exact fun _ => ⟨trivial, trivial⟩
    · intro hr
      rw [hlog]
      rcases h.decided hr with h' | h' <;> simp [h']
    · rw [Branch.opens_iff hcancel, approvedBy_append]
      exact Branch.targetApproved_iff h hb (hwin _) haim

/-! ## Runs -/

theorem overwritesFit_invariant {host : Host} (hwin : ∀ t, host.window t = true) :
    RunInvariant host (OverwritesFit host) where
  next h := h.silent [] rfl (by simp) (by simp)
  put h := h.silent [] (by simp) (by simp) (by simp)
  makeDir h := h.silent _ rfl rfl fun e he pre => by
    obtain rfl := List.mem_singleton.mp he
    exact ⟨trivial, trivial⟩
  removeSource h := h.silent _ rfl rfl fun e he pre => by
    obtain rfl := List.mem_singleton.mp he
    exact ⟨trivial, trivial⟩
  descend h := h.silent _ rfl rfl fun e he pre => by
    obtain rfl := List.mem_singleton.mp he
    exact ⟨trivial, trivial⟩
  file h hcan hb := overwritesFit_fileBranch hwin h hcan hb

/-- The question about "/d/a" is answered with "overwrite" and the name "b". -/
def overwriteOther : Host :=
  { Host.plain with dlgInput := fun _ => ⟨.overwrite, false, ascii "b"⟩ }

end SalamanderSftp
