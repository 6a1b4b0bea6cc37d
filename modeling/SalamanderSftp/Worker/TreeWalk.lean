import SalamanderSftp.Worker.Move

/-!
# The two walks as one

`DoDownloadRecursive` and `DoUploadRecursive` differ in how they look at a directory and make its
copy; `walkBody` is both of them. A walk writes to its target side only (`walk_source`).
`activations` lists the calls that it makes, each with its state, as long as they all return true.
-/

namespace SalamanderSftp

open Procedure

/-! ## One body -/

/-- The side a task reads. -/
def TaskType.source : TaskType → Side
  | .download => .server
  | .upload => .disk

/-- The path of a call on the side the walk reads. -/
def WalkCall.sourcePath (c : WalkCall) : TaskType → CStr
  | .download => c.remote
  | .upload => c.local_

def WalkCall.targetPath (c : WalkCall) : TaskType → CStr
  | .download => c.local_
  | .upload => c.remote

/-- What the walk finds in a directory, with what is taken for a directory. An upload takes a
directory that it cannot look into for an empty one. -/
def Host.entries (host : Host) (type : TaskType) (t : ℕ) (c : WalkCall) :
    Option (List (CStr × Bool)) :=
  match type with
  | .download => (host.listDir t c.remote).map (·.map fun e => (e.Name, e.IsDir))
  | .upload =>
    let found := (host.findFiles t (host.pathAppend (lstrcpyn c.local_ MAX_PATH) [42])).getD []
    some
      ((found.filter fun fd => ¬ IsDots fd.cFileName).map fun fd => (fd.cFileName, fd.isDirectory))

/-- The copy of the directory. -/
def makeTarget (host : Host) (type : TaskType) (t : ℕ) (c : WalkCall) (w : WorkerState) :
    WorkerState :=
  match type with
  | .download => createDirectory host t c.local_ w
  | .upload => makeDir host t c.remote w

def callBranch (host : Host) (type : TaskType) (c : WalkCall) (w : WorkerState) : Branch :=
  taskBranch host type c.remote c.local_ w

def fileCall (host : Host) (type : TaskType) (c : WalkCall) (w : WorkerState) :
    Option Bool × WorkerState :=
  fileBranch host (callBranch host type c w) w.next

/-- One turn of the loop over the entries. -/
def turn (host : Host) (rec : Proc WalkCall WorkerState) (c : WalkCall) :
    Proc (CStr × Bool) WorkerState :=
  fun e w =>
    if w.cancelled || host.cancelInLoop w.tick then (some false, w.next)
    else rec (childCall host c e.1 e.2) (w.next.record (.descend c (childCall host c e.1 e.2)))

def walkBody (host : Host) (type : TaskType) (rec : Proc WalkCall WorkerState) :
    Proc WalkCall WorkerState :=
  fun c w =>
    if w.cancelled || host.cancelAtStart w.tick then (some false, w.next)
    else if !c.isDir then fileCall host type c w
    else
      match host.entries type w.tick c with
      | none => (some false, makeTarget host type w.tick c w.next)
      | some entries => forEach (turn host rec c) entries (makeTarget host type w.tick c w.next)

def walk (host : Host) (type : TaskType) (depth : ℕ) :
    Proc WalkCall WorkerState := recurse (walkBody host type) depth

theorem walk_succ (host : Host) (type : TaskType) (n : ℕ) (c : WalkCall) (w : WorkerState) :
    walk host type (n + 1) c w = walkBody host type (walk host type n) c w := rfl

theorem walkBody_cancelled {host : Host} {type : TaskType}
    {rec : Proc WalkCall WorkerState} {c : WalkCall}
    {w : WorkerState} (h : (w.cancelled || host.cancelAtStart w.tick) = true) :
    walkBody host type rec c w = (some false, w.next) := if_pos h

theorem walkBody_file {host : Host} {type : TaskType} {rec : Proc WalkCall WorkerState}
    {c : WalkCall} {w : WorkerState}
    (h : (w.cancelled || host.cancelAtStart w.tick) = false) (hfile : c.isDir = false) :
    walkBody host type rec c w = fileCall host type c w := by
  unfold walkBody
  rw [if_neg (by simp [h]), if_pos (by simp [hfile])]

theorem walkBody_dir {host : Host} {type : TaskType} {rec : Proc WalkCall WorkerState}
    {c : WalkCall} {w : WorkerState}
    (h : (w.cancelled || host.cancelAtStart w.tick) = false) (hdir : c.isDir = true) :
    walkBody host type rec c w =
      match host.entries type w.tick c with
      | none => (some false, makeTarget host type w.tick c w.next)
      | some entries =>
        forEach (turn host rec c) entries (makeTarget host type w.tick c w.next) := by
  unfold walkBody
  rw [if_neg (by simp [h]), if_neg (by simp [hdir])]

theorem doDownloadBody_eq (host : Host) (rec : Proc WalkCall WorkerState) :
    doDownloadBody host rec = walkBody host .download rec := by
  funext c w
  unfold doDownloadBody walkBody Host.entries
  rcases hl : host.listDir w.tick c.remote with _ | entries
  · simp only [hl]
    rfl
  · simp only [hl, Option.map_some, forEach_map]
    rfl

theorem doUploadBody_eq (host : Host) (rec : Proc WalkCall WorkerState) :
    doUploadBody host rec = walkBody host .upload rec := by
  funext c w
  unfold doUploadBody walkBody Host.entries
  rcases hl :
      host.findFiles w.tick (host.pathAppend (lstrcpyn c.local_ MAX_PATH) [42]) with _ | found
  · simp only [hl]
    rfl
  · simp only [hl, Option.getD_some, forEach_map, ← forEach_filter]
    rfl

theorem doDownloadRecursive_eq (host : Host) (depth : ℕ) :
    doDownloadRecursive host depth = walk host .download depth := by
  unfold doDownloadRecursive walk
  congr 1
  funext rec
  exact doDownloadBody_eq host rec

theorem doUploadRecursive_eq (host : Host) (depth : ℕ) :
    doUploadRecursive host depth = walk host .upload depth := by
  unfold doUploadRecursive walk
  congr 1
  funext rec
  exact doUploadBody_eq host rec

theorem executeTask_eq (host : Host) (depth : ℕ) (task : TransferTask) (w : WorkerState) :
    executeTask host depth task w =
      let r := walk host task.TaskType depth ⟨task.RemotePath, task.LocalPath, task.IsDirectory⟩ w
      if r.1 = some true ∧ task.DeleteSourceOnSuccess then
        (r.1, taskRemoval host task.TaskType task.RemotePath task.LocalPath r.2)
      else r := by
  unfold executeTask
  rcases task.TaskType with _ | _
  · simp only [doDownloadRecursive_eq]
    rfl
  · simp only [doUploadRecursive_eq]
    rfl

theorem callBranch_starts (host : Host) (type : TaskType) (c : WalkCall) (w : WorkerState) :
    (callBranch host type c w).Starts host w.next := taskBranch_starts host type c.remote c.local_ w

theorem makeDir_log (host : Host) (t : ℕ) (path : CStr) (w : WorkerState) :
    (makeDir host t path w).log = w.log ++ [.makeDir .server path] := by
  unfold makeDir
  dsimp only
  split_ifs <;> simp

/-! ## The source side -/

theorem makeTarget_source (host : Host) (type : TaskType) (t : ℕ) (c : WalkCall) (w : WorkerState) :
    (makeTarget host type t c w).store type.source = w.store type.source := by
  cases type
  · unfold makeTarget createDirectory
    dsimp only
    split_ifs <;> rfl
  · unfold makeTarget makeDir
    dsimp only
    split_ifs <;> rfl

theorem put_store_of_ne {w : WorkerState} {side side' : Side} (h : side ≠ side')
    (key : CStr) (node : Option FsNode) :
    (w.put side key node).store side' = w.store side' := by
  cases side <;> cases side' <;> first | exact absurd rfl h | rfl

theorem transferTo_source {host : Host} {b : Branch} {side : Side}
    (h : b.side ≠ side) (target : CStr)
    (resumeOffset : ℕ) (w : WorkerState) :
    (transferTo host b target resumeOffset w).2.store side = w.store side := by
  unfold transferTo
  dsimp only
  split_ifs
  · rfl
  · rw [put_store_of_ne h, WorkerState.record_store, WorkerState.record_store]
  · rw [WorkerState.record_store]

theorem fileBranch_source {host : Host} {b : Branch} {side : Side}
    (h : b.side ≠ side) (w : WorkerState) :
    (fileBranch host b w).2.store side = w.store side := by
  rcases hc : b.conflict with _ | c
  · rw [fileBranch_none hc, transferTo_source h, WorkerState.record_store]
  · rcases hd : (b.ask host c).decision with _ | _ | _
    · rw [fileBranch_go hc hd, transferTo_source h, WorkerState.remember_store,
      WorkerState.record_store]
    · rw [fileBranch_skip hc hd, WorkerState.remember_store, WorkerState.record_store]
    · rw [fileBranch_cancel hc hd]
      have hstore :=
        WorkerState.remember_store (w.record (.branch b)) (b.ask host c) b.side b.path side
      rw [WorkerState.record_store] at hstore
      cases side <;> exact hstore

theorem walk_source (host : Host) (type : TaskType) (depth : ℕ) (c : WalkCall) (w : WorkerState) :
    (walk host type depth c w).2.store type.source = w.store type.source := by
  have hside : ∀ c w, (callBranch host type c w).side ≠ type.source := by
    intro c w
    rw [callBranch, taskBranch_side]
    cases type <;> decide
  refine recurse_invariant (P := fun _ => True)
    (I := fun v : WorkerState => v.store type.source = w.store type.source)
    (fun rec hrec c v _ hv => ?_) depth trivial rfl
  have hmade := (makeTarget_source host type v.tick c v.next).trans hv
  unfold walkBody
  split_ifs
  · exact hv
  · exact (fileBranch_source (hside c v) v.next).trans hv
  · rcases host.entries type v.tick c with _ | entries
    · exact hmade
    · refine forEach_invariant (I := fun v : WorkerState => v.store type.source =
        w.store type.source) (fun e _ s hs => ?_) _ hmade
      unfold turn
      split_ifs
      · exact hs
      · exact hrec _ _ trivial ((WorkerState.record_store _ _ _).trans hs)

end SalamanderSftp
