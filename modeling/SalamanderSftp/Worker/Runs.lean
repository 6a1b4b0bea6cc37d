import SalamanderSftp.Worker.Recursion

/-!
# Runs of the worker

What one file branch writes into the log (`fileBranch_none`, `fileBranch_skip`, `fileBranch_cancel`,
`fileBranch_go`, `transferTo_log`), and the rule for whole runs: a property of states that survives
each single action survives both recursive walks, a task, and a queue of tasks (`RunInvariant`).
-/

namespace SalamanderSftp

open Procedure

theorem renamed_nil (side : Side) (path : CStr) : renamed side path [] = path := by
  cases side <;> simp [renamed, renamedLocal, renamedRemote]

/-! ## State changes -/

namespace WorkerState

@[simp] theorem record_log (w : WorkerState) (e : Event) : (w.record e).log = w.log ++ [e] := rfl
@[simp] theorem next_log (w : WorkerState) : w.next.log = w.log := rfl
@[simp] theorem record_cancelled (w : WorkerState) (e : Event) :
    (w.record e).cancelled = w.cancelled := rfl
@[simp] theorem next_cancelled (w : WorkerState) : w.next.cancelled = w.cancelled := rfl
@[simp] theorem record_store (w : WorkerState) (e : Event) (side : Side) :
    (w.record e).store side = w.store side := by cases side <;> rfl
@[simp] theorem next_store (w : WorkerState) (side : Side) : w.next.store side = w.store side := by
  cases side <;> rfl
@[simp] theorem record_OverwriteAllDecision (w : WorkerState) (e : Event) :
    (w.record e).OverwriteAllDecision = w.OverwriteAllDecision := rfl

@[simp] theorem put_log (w : WorkerState) (side : Side) (key : CStr) (node : Option FsNode) :
    (w.put side key node).log = w.log := by cases side <;> rfl

@[simp] theorem put_cancelled (w : WorkerState) (side : Side) (key : CStr) (node : Option FsNode) :
    (w.put side key node).cancelled = w.cancelled := by cases side <;> rfl

@[simp] theorem put_OverwriteAllDecision (w : WorkerState) (side : Side)
    (key : CStr) (node : Option FsNode) :
    (w.put side key node).OverwriteAllDecision = w.OverwriteAllDecision := by cases side <;> rfl

@[simp] theorem put_store (w : WorkerState) (side : Side) (key : CStr) (node : Option FsNode) :
    (w.put side key node).store side = Function.update (w.store side) key node := by
  cases side <;> rfl

@[simp] theorem remember_store (w : WorkerState) (r : AskResult) (side : Side)
    (path : CStr) (side' : Side) :
    (w.remember r side path).store side' = w.store side' := by
  unfold remember
  cases side' <;> dsimp only <;> split_ifs <;> rfl

@[simp] theorem remember_cancelled (w : WorkerState) (r : AskResult) (side : Side) (path : CStr) :
    (w.remember r side path).cancelled = w.cancelled := by
  unfold remember
  dsimp only
  split_ifs <;> rfl

@[simp] theorem remember_OverwriteAllDecision (w : WorkerState) (r : AskResult)
    (side : Side) (path : CStr) :
    (w.remember r side path).OverwriteAllDecision = r.remembered := by
  unfold remember
  dsimp only
  split_ifs <;> rfl

/-- The answers that `AskOverwriteWorker` leaves in the log. -/
def asked (w : WorkerState) (r : AskResult) (side : Side) (path : CStr) : List Event :=
  (if r.answered then [.answered side path] else []) ++
    if r.remembered ≠ w.OverwriteAllDecision then [.decidedAll] else []

theorem eq_of_mem_asked {w : WorkerState} {r : AskResult} {side : Side} {path : CStr} {e : Event}
    (h : e ∈ w.asked r side path) : e = .answered side path ∨ e = .decidedAll := by
  unfold asked at h
  split_ifs at h <;> simp_all

theorem remember_log (w : WorkerState) (r : AskResult) (side : Side) (path : CStr) :
    (w.remember r side path).log = w.log ++ w.asked r side path := by
  unfold remember asked
  dsimp only
  split_ifs <;> simp

end WorkerState

/-! ## One file branch -/

/-- The branch is one that a walk enters in state `w`. -/
def Branch.Starts (host : Host) (b : Branch) (w : WorkerState) : Prop :=
  (∃ t remote local_, b = downloadBranch host t remote local_ w) ∨
    ∃ t local_ remote, b = uploadBranch host t local_ remote w

theorem Branch.Starts.store_eq {host : Host} {b : Branch} {w : WorkerState} (h : b.Starts host w) :
    b.store = w.store b.side := by
  rcases h with ⟨t, remote, local_, rfl⟩ | ⟨t, local_, remote, rfl⟩ <;> rfl

theorem Branch.Starts.remembered_eq {host : Host} {b : Branch}
    {w : WorkerState} (h : b.Starts host w) :
    b.remembered = w.OverwriteAllDecision := by
  rcases h with ⟨t, remote, local_, rfl⟩ | ⟨t, local_, remote, rfl⟩ <;> rfl

/-- The measured size of a target is that of the file at its path. -/
theorem Branch.Starts.measured {host : Host} {b : Branch} {w : WorkerState} (h : b.Starts host w)
    {c : Conflict} (hc : b.conflict = some c) (hpos : 0 < c.existingSize) :
    ∃ content, b.store (host.key b.side b.path) = some (.file content) ∧
    content.length = c.existingSize := by
  have hfile : ∀ node : FsNode, 0 < node.size → ∃ content, node = .file content ∧
      content.length = node.size := by
    rintro (content | _) hn
    · exact ⟨content, rfl, rfl⟩
    · exact absurd hn (lt_irrefl 0)
  rcases h with ⟨t, remote, local_, rfl⟩ | ⟨t, local_, remote, rfl⟩
  · obtain ⟨node, hnode, rfl⟩ := Option.map_eq_some_iff.mp hc
    obtain ⟨content, rfl, hlen⟩ := hfile node hpos
    exact ⟨content, hnode, hlen⟩
  · simp only [uploadBranch] at hc
    split_ifs at hc
    obtain rfl := Option.some.inj hc
    simp only [remoteFileSize] at hpos ⊢
    split_ifs at hpos with hfails
    · exact absurd hpos (lt_irrefl 0)
    · rw [if_neg hfails]
      rcases hnode : w.server (host.serverKey remote) with _ | node
      · simp [hnode] at hpos
      · simp only [hnode, Option.map_some, Option.getD_some] at hpos ⊢
        obtain ⟨content, rfl, hlen⟩ := hfile node hpos
        exact ⟨content, hnode, hlen⟩

/-- The answer that the branch gets about its target. -/
def Branch.ask (host : Host) (b : Branch) (c : Conflict) : AskResult :=
  askOverwriteWorker b.remembered (host.window b.tick)
    (host.dlgInput b.tick) c.tgtName c.existingSize c.newSize

section FileBranch

variable {host : Host} {b : Branch} {c : Conflict}

theorem fileBranch_none (h : b.conflict = none) (w : WorkerState) :
    fileBranch host b w = transferTo host b b.path 0 (w.record (.branch b)) := by
  unfold fileBranch
  rw [h]

theorem fileBranch_skip (h : b.conflict = some c)
    (hd : (b.ask host c).decision = .skip) (w : WorkerState) :
    fileBranch host b w =
      (some true, (w.record (.branch b)).remember (b.ask host c) b.side b.path) := by
  unfold Branch.ask at hd ⊢
  unfold fileBranch
  simp only [h, hd]

theorem fileBranch_cancel (h : b.conflict = some c)
    (hd : (b.ask host c).decision = .cancel) (w : WorkerState) :
    fileBranch host b w =
      (some false, { (w.record (.branch b)).remember (b.ask host c) b.side b.path with
        cancelled := true }) := by
  unfold Branch.ask at hd ⊢
  unfold fileBranch
  simp only [h, hd]

theorem fileBranch_go (h : b.conflict = some c)
    (hd : (b.ask host c).decision = .go) (w : WorkerState) :
    fileBranch host b w =
      transferTo host b (renamed b.side b.path (b.ask host c).newName) (b.ask host c).resumeOffset
        ((w.record (.branch b)).remember (b.ask host c) b.side b.path) := by
  unfold Branch.ask at hd ⊢
  unfold fileBranch
  simp only [h, hd]

theorem transferTo_cancelled {w : WorkerState}
    (h : (w.cancelled || host.cancelBeforeTransfer b.tick) = true)
    (target : CStr) (resumeOffset : ℕ) :
    transferTo host b target resumeOffset w = (some false, w) := by
  unfold transferTo
  rw [if_pos h]

/-- The object the transfer finds at its target. -/
def Branch.found (host : Host) (b : Branch) (target : CStr) :
    Option FsNode := b.store (host.key b.side target)

/-- What the transfer of the branch to `target` does. -/
def Branch.transfer (host : Host) (b : Branch) (target : CStr) (resumeOffset : ℕ) :
    TransferResult :=
  SalamanderSftp.transfer host b.side b.tick b.source target (b.found host target) resumeOffset

theorem transferTo_log {w : WorkerState}
    (h : (w.cancelled || host.cancelBeforeTransfer b.tick) = false)
    (hs : b.store = w.store b.side) (target : CStr) (resumeOffset : ℕ) :
    (transferTo host b target resumeOffset w).2.log =
      w.log ++ [.transfer b.side target resumeOffset (b.found host target)] ++
        if (b.transfer host target resumeOffset).opened then
          [.openWrite b.side target (b.found host target)]
        else [] := by
  unfold transferTo Branch.transfer Branch.found
  rw [if_neg (by simp [h]), hs]
  dsimp only
  split_ifs <;> simp

theorem transferTo_fst {w : WorkerState}
    (h : (w.cancelled || host.cancelBeforeTransfer b.tick) = false)
    (hs : b.store = w.store b.side) (target : CStr) (resumeOffset : ℕ) :
    (transferTo host b target resumeOffset w).1 =
      some (b.transfer host target resumeOffset).ok := by
  unfold transferTo Branch.transfer Branch.found
  rw [if_neg (by simp [h]), hs]
  dsimp only
  split_ifs <;> rfl

theorem transferTo_store {w : WorkerState}
    (h : (w.cancelled || host.cancelBeforeTransfer b.tick) = false)
    (hs : b.store = w.store b.side) {target : CStr} {resumeOffset : ℕ}
    (ho : (b.transfer host target resumeOffset).opened = true) :
    (transferTo host b target resumeOffset w).2.store b.side =
      Function.update (w.store b.side) (host.key b.side target)
        ((b.transfer host target resumeOffset).target.map .file) := by
  unfold Branch.transfer Branch.found at ho ⊢
  unfold transferTo
  rw [if_neg (by simp [h]), ← hs]
  dsimp only
  rw [if_pos ho, WorkerState.put_store, WorkerState.record_store, WorkerState.record_store, hs]

@[simp] theorem transferTo_OverwriteAllDecision (w : WorkerState)
    (target : CStr) (resumeOffset : ℕ) :
    (transferTo host b target resumeOffset w).2.OverwriteAllDecision = w.OverwriteAllDecision := by
  unfold transferTo
  dsimp only
  split_ifs <;> simp

/-- The target and the offset that the branch goes on with, if it does. -/
def Branch.aim (host : Host) (b : Branch) : Option (CStr × ℕ) :=
  match b.conflict with
  | none => some (b.path, 0)
  | some c =>
    if (b.ask host c).decision = .go then
      some (renamed b.side b.path (b.ask host c).newName, (b.ask host c).resumeOffset)
    else none

def Branch.answers (host : Host) (b : Branch) (w : WorkerState) : List Event :=
  match b.conflict with
  | none => []
  | some c => w.asked (b.ask host c) b.side b.path

theorem Branch.eq_of_mem_answers {w : WorkerState} {e : Event} (h : e ∈ b.answers host w) :
    e = .answered b.side b.path ∨ e = .decidedAll := by
  unfold answers at h
  rcases hc : b.conflict with _ | c
  · simp [hc] at h
  · rw [hc] at h
    exact WorkerState.eq_of_mem_asked h

theorem fileBranch_OverwriteAllDecision (w : WorkerState) :
    (fileBranch host b w).2.OverwriteAllDecision =
      (b.conflict.elim w.OverwriteAllDecision fun c => (b.ask host c).remembered) := by
  rcases hc : b.conflict with _ | c
  · rw [fileBranch_none hc, transferTo_OverwriteAllDecision]
    rfl
  · rcases hd : (b.ask host c).decision with _ | _ | _
    · rw [fileBranch_go hc hd]; simp
    · rw [fileBranch_skip hc hd]; simp
    · rw [fileBranch_cancel hc hd]; simp

/-- A branch that is skipped or cancelled, before the question or after it. -/
theorem fileBranch_log_idle (h : b.aim host = none ∨ host.cancelBeforeTransfer b.tick = true)
    (w : WorkerState) :
    (fileBranch host b w).2.log = w.log ++ .branch b :: b.answers host w := by
  unfold Branch.aim at h
  unfold Branch.answers
  rcases hc : b.conflict with _ | c
  · simp only [hc, reduceCtorEq, false_or] at h
    rw [fileBranch_none hc, transferTo_cancelled (by simp [h])]
    rfl
  · have hlog := WorkerState.remember_log (w.record (.branch b)) (b.ask host c) b.side b.path
    rw [WorkerState.record_log, List.append_assoc, List.singleton_append] at hlog
    rcases hd : (b.ask host c).decision with _ | _ | _
    · have hcancel : host.cancelBeforeTransfer b.tick = true := by simpa [hc, hd] using h
      rw [fileBranch_go hc hd, transferTo_cancelled (by simp [hcancel])]
      exact hlog
    · rw [fileBranch_skip hc hd]
      exact hlog
    · rw [fileBranch_cancel hc hd]
      exact hlog

theorem fileBranch_log_aim {target : CStr} {resumeOffset : ℕ}
    (h : b.aim host = some (target, resumeOffset))
    (hcancel : host.cancelBeforeTransfer b.tick = false) {w : WorkerState}
    (hw : w.cancelled = false)
    (hs : b.store = w.store b.side) :
    (fileBranch host b w).2.log =
      w.log ++ .branch b ::
        (b.answers host w ++ [.transfer b.side target resumeOffset (b.found host target)]) ++
        if (b.transfer host target resumeOffset).opened then
          [.openWrite b.side target (b.found host target)]
        else [] := by
  unfold Branch.aim at h
  unfold Branch.answers
  rcases hc : b.conflict with _ | c
  · rw [hc] at h
    obtain ⟨rfl, rfl⟩ := Prod.mk.inj (Option.some.inj h)
    rw [fileBranch_none hc, transferTo_log (by simp [hw, hcancel]) (by simpa using hs)]
    simp
  · rw [hc] at h
    dsimp only at h
    split_ifs at h with hd
    obtain ⟨rfl, rfl⟩ := Prod.mk.inj (Option.some.inj h)
    rw [fileBranch_go hc hd, transferTo_log (by simp [hw, hcancel]) (by simpa using hs),
      WorkerState.remember_log, WorkerState.record_log]
    simp only [List.append_assoc, List.cons_append]
    rfl

theorem fileBranch_true_iff {w : WorkerState} (hw : w.cancelled = false)
    (hs : b.store = w.store b.side) :
    (fileBranch host b w).1 = some true ↔
      (∃ c, b.conflict = some c ∧ (b.ask host c).decision = .skip) ∨
        ∃ target resumeOffset, b.aim host = some (target, resumeOffset) ∧
          host.cancelBeforeTransfer b.tick = false ∧
          (b.transfer host target resumeOffset).ok = true := by
  have htransfer : ∀ (v : WorkerState) (target : CStr) (resumeOffset : ℕ), v.cancelled = false →
      b.store = v.store b.side → ((transferTo host b target resumeOffset v).1 = some true ↔
        host.cancelBeforeTransfer b.tick = false ∧
          (b.transfer host target resumeOffset).ok = true) := by
    intro v target resumeOffset hv hs
    by_cases hcancel : host.cancelBeforeTransfer b.tick = true
    · rw [transferTo_cancelled (by simp [hcancel])]
      simp [hcancel]
    · rw [transferTo_fst (by simpa [hv] using hcancel) hs]
      simp [hcancel]
  unfold Branch.aim
  rcases hc : b.conflict with _ | c
  · rw [fileBranch_none hc, htransfer _ _ _ (by simpa using hw) (by simpa using hs)]
    simp
  · rcases hd : (b.ask host c).decision with _ | _ | _
    · rw [fileBranch_go hc hd, htransfer _ _ _ (by simpa using hw) (by simpa using hs)]
      simp [hd]
    · rw [fileBranch_skip hc hd]
      simp [hd]
    · rw [fileBranch_cancel hc hd]
      simp [hd]

/-- What a branch that comes to its transfer leaves on the target side. -/
theorem fileBranch_store_aim {target : CStr} {resumeOffset : ℕ}
    (h : b.aim host = some (target, resumeOffset))
    (hcancel : host.cancelBeforeTransfer b.tick = false) {w : WorkerState}
    (hw : w.cancelled = false)
    (hs : b.store = w.store b.side) (ho : (b.transfer host target resumeOffset).opened = true) :
    (fileBranch host b w).2.store b.side =
      Function.update (w.store b.side) (host.key b.side target)
        ((b.transfer host target resumeOffset).target.map .file) := by
  unfold Branch.aim at h
  rcases hc : b.conflict with _ | c
  · rw [hc] at h
    obtain ⟨rfl, rfl⟩ := Prod.mk.inj (Option.some.inj h)
    rw [fileBranch_none hc, transferTo_store (by simp [hw, hcancel]) (by simpa using hs) ho,
      WorkerState.record_store]
  · rw [hc] at h
    dsimp only at h
    split_ifs at h with hd
    obtain ⟨rfl, rfl⟩ := Prod.mk.inj (Option.some.inj h)
    rw [fileBranch_go hc hd, transferTo_store (by simp [hw, hcancel]) (by simpa using hs) ho,
      WorkerState.remember_store, WorkerState.record_store]

end FileBranch

/-- The state at the start of a run: nothing is logged yet. -/
def WorkerState.fresh (w : WorkerState) : WorkerState := { w with log := [] }

@[simp] theorem childCall_remote (host : Host) (c : WalkCall) (name : CStr) (isDir : Bool) :
    (childCall host c name isDir).remote = sftpJoin c.remote name MAX_PATH := rfl

@[simp] theorem childCall_isDir (host : Host) (c : WalkCall) (name : CStr) (isDir : Bool) :
    (childCall host c name isDir).isDir = isDir := rfl

theorem createDirectory_log (host : Host) (t : ℕ) (path : CStr) (w : WorkerState) :
    (createDirectory host t path w).log = w.log ++ [.makeDir .disk path] := by
  unfold createDirectory
  dsimp only
  split_ifs <;> simp

/-! ## Whole runs -/

/-- The rule for `DoDownloadRecursive`: `P` holds of all calls, `I` of all states. -/
theorem doDownloadRecursive_rule {host : Host} {P : WalkCall → Prop} {I : WorkerState → Prop}
    (hnext : ∀ {w}, I w → I w.next)
    (hfile : ∀ {c w} t, P c → c.isDir = false → I w → w.cancelled = false →
      I (doDownloadFile host t c.remote c.local_ w).2)
    (hdir : ∀ {c w} t, P c → c.isDir = true → I w → I (createDirectory host t c.local_ w))
    (hdescend : ∀ {c w t entries e}, P c → c.isDir = true →
      host.listDir t c.remote = some entries → e ∈ entries →
      I w → P (childCall host c e.Name e.IsDir) ∧
        I (w.record (.descend c (childCall host c e.Name e.IsDir))))
    (depth : ℕ) {c : WalkCall} (hc : P c) {w : WorkerState} (hw : I w) :
    I (doDownloadRecursive host depth c w).2 := by
  refine recurse_invariant (fun rec hrec c w hc hw => ?_) depth hc hw
  unfold doDownloadBody
  dsimp only
  by_cases hcan : (w.next.cancelled || host.cancelAtStart w.tick) = true
  · rw [if_pos hcan]
    exact hnext hw
  rw [if_neg hcan]
  by_cases hd : c.isDir = true
  · rw [if_neg (by simp [hd])]
    have hmade := hdir w.tick hc hd (hnext hw)
    rcases hl : host.listDir w.tick c.remote with _ | entries
    · exact hmade
    · refine forEach_invariant (fun e he s hs => ?_) _ hmade
      split_ifs
      · exact hnext hs
      · obtain ⟨hchild, hs'⟩ := hdescend hc hd hl he (hnext hs)
        exact hrec _ _ hchild hs'
  · rw [if_pos (by simpa using hd)]
    exact hfile w.tick hc (by simpa using hd) (hnext hw) (by simp_all)

/-- What every single action of the worker keeps. -/
structure RunInvariant (host : Host) (I : WorkerState → Prop) : Prop where
  next : ∀ {w}, I w → I w.next
  put : ∀ {w side key node}, I w → I (w.put side key node)
  makeDir : ∀ {w side path}, I w → I (w.record (.makeDir side path))
  removeSource : ∀ {w path}, I w → I (w.record (.removeSource path))
  descend : ∀ {w c c'}, I w → I (w.record (.descend c c'))
  file : ∀ {w b}, I w → w.cancelled = false → b.Starts host w → I (fileBranch host b w).2

/-- The queue: `WorkerThread` stops at the first task that fails. -/
def runTasks (host : Host) (depth : ℕ) :
    List TransferTask → WorkerState → Option Bool × WorkerState :=
  forEach (executeTask host depth)

namespace RunInvariant

variable {host : Host} {I : WorkerState → Prop} (h : RunInvariant host I)

include h

theorem createDirectory {w : WorkerState} (hw : I w) (t : ℕ) (path : CStr) :
    I (createDirectory host t path w) := by
  unfold SalamanderSftp.createDirectory
  dsimp only
  split_ifs
  · exact h.put (h.makeDir hw)
  · exact h.makeDir hw

theorem makeDir' {w : WorkerState} (hw : I w) (t : ℕ) (path : CStr) :
    I (SalamanderSftp.makeDir host t path w) := by
  unfold SalamanderSftp.makeDir
  dsimp only
  split_ifs
  · exact h.put (h.makeDir hw)
  · exact h.makeDir hw

theorem doDownloadRecursive (depth : ℕ) (c : WalkCall) {w : WorkerState} (hw : I w) :
    I (doDownloadRecursive host depth c w).2 := by
  exact doDownloadRecursive_rule (P := fun _ => True) (I := I) h.next
    (fun t _ _ hw hcan => h.file hw hcan (Or.inl ⟨t, _, _, rfl⟩))
    (fun t _ _ hw => h.createDirectory hw t _)
    (fun _ _ _ _ hw => ⟨trivial, h.descend hw⟩) depth trivial hw

theorem doUploadRecursive (depth : ℕ) (c : WalkCall) {w : WorkerState} (hw : I w) :
    I (doUploadRecursive host depth c w).2 := by
  refine recurse_invariant (P := fun _ => True) (fun rec hrec c w _ hw => ?_) depth trivial hw
  unfold doUploadBody
  dsimp only
  by_cases hc : (w.next.cancelled || host.cancelAtStart w.tick) = true
  · rw [if_pos hc]
    exact h.next hw
  rw [if_neg hc]
  by_cases hd : (!c.isDir) = true
  · rw [if_pos hd]
    exact h.file (h.next hw) (by simp_all) (Or.inr ⟨_, _, _, rfl⟩)
  rw [if_neg hd]
  have hdir := h.makeDir' (h.next hw) w.tick c.remote
  rcases host.findFiles w.tick (host.pathAppend (lstrcpyn c.local_ MAX_PATH) [42]) with _ | found
  · exact hdir
  · refine forEach_invariant (fun fd _ s hs => ?_) _ hdir
    split_ifs
    · exact hs
    · exact h.next hs
    · exact hrec _ _ trivial (h.descend (h.next hs))

theorem executeTask (depth : ℕ) (task : TransferTask) {w : WorkerState} (hw : I w) :
    I (executeTask host depth task w).2 := by
  unfold SalamanderSftp.executeTask
  rcases task.TaskType with _ | _ <;> dsimp only <;> split_ifs
  · unfold removeRemote
    dsimp only
    split_ifs
    · exact h.put (h.next (h.removeSource (h.doDownloadRecursive _ _ hw)))
    · exact h.next (h.removeSource (h.doDownloadRecursive _ _ hw))
  · exact h.doDownloadRecursive _ _ hw
  · unfold removeLocal
    dsimp only
    split_ifs
    · exact h.put (h.next (h.removeSource (h.doUploadRecursive _ _ hw)))
    · exact h.next (h.removeSource (h.doUploadRecursive _ _ hw))
  · exact h.doUploadRecursive _ _ hw

theorem runTasks (depth : ℕ) (tasks : List TransferTask) {w : WorkerState} (hw : I w) :
    I (runTasks host depth tasks w).2 :=
  forEach_invariant (fun task _ _ hs => h.executeTask depth task hs) w hw

end RunInvariant

end SalamanderSftp
