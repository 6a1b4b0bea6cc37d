import Mathlib

/-!
# The dialog and its worker

The transfer dialog points to its worker and may own it; the worker points back to the dialog as its
observer. Each side lets go of the other when it ends: `DetachWorker` and `WM_DESTROY` stop and
delete an owned worker, and `Stop` and the destructor of a worker call `DetachWorker` of the
observer.

1. Workers are deleted once, by the dialog (`releaseWorker_attached`).
2. A worker that is stopped or deleted by anyone else is deleted under way by its observer
   (`stop_attached`, `deleteWorker_attached`), and one that is replaced by another is never deleted.
3. So ownership is kept in exactly the runs without either (`ownership_kept_iff`).
-/

namespace SalamanderSftp

/-- A method runs on an object that has been deleted, or the calls are nested too deep for the
model. -/
inductive Fault
  | deletedObject
  | tooDeep
  deriving DecidableEq

/-- A `CSftpTransferWorker`, with the number of times it was deleted, and whether the dialog has
come to own it. -/
structure WorkerObject where
  AttachedObserver : Bool
  DlgHwnd : Bool
  ThreadHandle : Bool
  Initialized : Bool
  owned : Bool
  deletions : ℕ

/-- The dialog, its window, its timer and whether it has an FS. -/
structure DialogObject (ω : Type*) where
  deleted : Bool
  HWindow : Bool
  timer : Bool
  Worker : Option ω
  OwnsWorker : Bool
  FS : Bool

/-- All workers, the dialog, and the FS with its `ActiveTransferDlgs`. -/
structure Ownership (ω : Type*) where
  workers : ω → WorkerObject
  dlg : DialogObject ω
  fsDeleted : Bool
  registered : Bool

namespace Ownership

variable {ω : Type*} [DecidableEq ω]

/-! ## The methods -/

def onWorker (s : Ownership ω) (w : ω) (f : WorkerObject → WorkerObject) :
    Except Fault (Ownership ω) :=
  if (s.workers w).deletions =
    0 then .ok { s with workers := Function.update s.workers w (f (s.workers w)) }
  else .error .deletedObject

def onDialog (s : Ownership ω) (f : DialogObject ω → DialogObject ω) : Except Fault (Ownership ω) :=
  if s.dlg.deleted then .error .deletedObject else .ok { s with dlg := f s.dlg }

mutual

/-- What `DetachWorker` and `WM_DESTROY` do with the worker, if there is one. -/
def releaseWorker : ℕ → Ownership ω → Except Fault (Ownership ω)
  | 0, _ => .error .tooDeep
  | n + 1, s =>
    match s.dlg.Worker with
    | none => .ok s
    | some w => do
      let owns := s.dlg.OwnsWorker
      let s ← s.onDialog fun d => { d with Worker := none, OwnsWorker := false }
      let s ← s.onWorker w fun o => { o with DlgHwnd := false }
      let s ← s.onWorker w fun o => { o with AttachedObserver := false }
      if owns then do
        let s ← stop n w s
        deleteWorker n w s
      else .ok s

def detachWorker : ℕ → Ownership ω → Except Fault (Ownership ω)
  | 0, _ => .error .tooDeep
  | n + 1, s => do
    let s ← s.onDialog fun d => { d with timer := d.timer && !d.HWindow }
    releaseWorker n s

/-- `AttachedObserver->DetachWorker(); AttachedObserver = NULL;` when there is one. -/
def callObserver : ℕ → ω → Ownership ω → Except Fault (Ownership ω)
  | 0, _, _ => .error .tooDeep
  | n + 1, w, s =>
    if (s.workers w).AttachedObserver then do
      let s ← detachWorker n s
      s.onWorker w fun o => { o with AttachedObserver := false }
    else .ok s

def stop : ℕ → ω → Ownership ω → Except Fault (Ownership ω)
  | 0, _, _ => .error .tooDeep
  | n + 1, w, s => do
    let s ← s.onWorker w id
    let s ← callObserver n w s
    s.onWorker w fun o => { o with DlgHwnd := false, ThreadHandle := false }

/-- The destructor of a worker. -/
def deleteWorker : ℕ → ω → Ownership ω → Except Fault (Ownership ω)
  | 0, _, _ => .error .tooDeep
  | n + 1, w, s => do
    let s ← stop n w s
    let s ← s.onWorker w fun o => { o with Initialized := false }
    let s ← callObserver n w s
    s.onWorker w fun o => { o with DlgHwnd := false, deletions := o.deletions + 1 }

end

/-- `AttachWorker(w, true)`. -/
def attachWorker (w : ω) (s : Ownership ω) : Except Fault (Ownership ω) := do
  let s ← s.onDialog fun d => { d with Worker := some w, OwnsWorker := true }
  let s ← s.onWorker w fun o => { o with AttachedObserver := true, owned := true }
  if s.dlg.HWindow then s.onWorker w fun o => { o with DlgHwnd := true } else .ok s

/-- `FS->UnregisterTransferDlg(this)` when there is an FS, which the dialog then forgets. -/
def leaveFs (s : Ownership ω) : Except Fault (Ownership ω) :=
  if s.dlg.FS then
    if s.fsDeleted then .error .deletedObject
    else { s with registered := false }.onDialog fun d => { d with FS := false }
  else .ok s

/-- `WM_DESTROY`, after which there is no window. -/
def wmDestroy (n : ℕ) (s : Ownership ω) : Except Fault (Ownership ω) := do
  let s ← s.onDialog fun d => { d with timer := false }
  let s ← releaseWorker n s
  let s ← s.leaveFs
  s.onDialog fun d => { d with HWindow := false }

def deleteDialog (n : ℕ) (s : Ownership ω) : Except Fault (Ownership ω) := do
  let s ← detachWorker n s
  let s ← s.leaveFs
  s.onDialog fun d => { d with deleted := true }

/-- What the destructor of the FS does with a dialog; `DestroyWindow` works in the thread of the
window only. -/
def closeDialog (n : ℕ) (destroyed : Bool) (s : Ownership ω) : Except Fault (Ownership ω) := do
  let s ← { s with registered := false }.onDialog fun d => { d with FS := false }
  let s ← detachWorker n s
  if s.dlg.HWindow && destroyed then wmDestroy n s else .ok s

def deleteFs (n : ℕ) (destroyed : Bool) (s : Ownership ω) : Except Fault (Ownership ω) :=
  if s.fsDeleted then .error .deletedObject
  else do
    let s ← if s.registered then s.closeDialog n destroyed else .ok s
    .ok { s with fsDeleted := true }

/-! ## Runs -/

inductive Event (ω : Type*)
  | attachWorker (w : ω)
  | detachWorker
  | wmDestroy
  /-- `Stop` of the worker that is attached, called by someone else than the dialog. -/
  | stop
  /-- `delete` of it, the same. -/
  | deleteWorker
  | deleteDialog
  | deleteFs (destroyed : Bool)

/-- What the calls of one event can be nested to. -/
def depth : ℕ := 8

def step (s : Ownership ω) : Event ω → Except Fault (Ownership ω)
  | .attachWorker w => s.attachWorker w
  | .detachWorker => s.detachWorker depth
  | .wmDestroy => s.wmDestroy depth
  | .stop => match s.dlg.Worker with
    | some w => s.stop depth w
    | none => .ok s
  | .deleteWorker => match s.dlg.Worker with
    | some w => s.deleteWorker depth w
    | none => .ok s
  | .deleteDialog => s.deleteDialog depth
  | .deleteFs destroyed => s.deleteFs depth destroyed

/-! ## One call -/

section Calls

variable {s : Ownership ω} {w : ω} {n : ℕ}

omit [DecidableEq ω] in
theorem ok_bind (s : Ownership ω) (f : Ownership ω → Except Fault (Ownership ω)) :
    ((.ok s : Except Fault (Ownership ω)) >>= f) = f s := rfl

omit [DecidableEq ω] in
theorem error_bind (fault : Fault) (f : Ownership ω → Except Fault (Ownership ω)) :
    ((.error fault : Except Fault (Ownership ω)) >>= f) = .error fault := rfl

/-- The worker's members are as the method leaves them. -/
def withWorker (s : Ownership ω) (w : ω) (o : WorkerObject) : Ownership ω :=
  { s with workers := Function.update s.workers w o }

@[simp] theorem withWorker_dlg (w : ω) (o : WorkerObject) : (s.withWorker w o).dlg = s.dlg := rfl

@[simp] theorem withWorker_workers (w : ω) (o : WorkerObject) : (s.withWorker w o).workers w = o :=
  Function.update_self w _ s.workers

@[simp] theorem withWorker_withWorker (w : ω) (o o' : WorkerObject) :
    (s.withWorker w o).withWorker w o' = s.withWorker w o' := by
  unfold withWorker
  rw [Function.update_idem]

theorem onWorker_of_alive (h : (s.workers w).deletions = 0) (f : WorkerObject → WorkerObject) :
    s.onWorker w f = .ok (s.withWorker w (f (s.workers w))) := if_pos h

theorem onWorker_of_deleted (h : (s.workers w).deletions ≠ 0) (f : WorkerObject → WorkerObject) :
    s.onWorker w f = .error .deletedObject := if_neg h

omit [DecidableEq ω] in
theorem onDialog_of_alive (h : s.dlg.deleted = false) (f : DialogObject ω → DialogObject ω) :
    s.onDialog f = .ok { s with dlg := f s.dlg } := if_neg (by rw [h]; exact Bool.false_ne_true)

theorem callObserver_unobserved (hobs : (s.workers w).AttachedObserver = false) :
    s.callObserver (n + 1) w = .ok s := by
  unfold callObserver
  rw [hobs]
  rfl

theorem stop_unobserved (h : (s.workers w).deletions = 0)
    (hobs : (s.workers w).AttachedObserver = false) :
    s.stop (n + 2) w =
      .ok (s.withWorker w { s.workers w with DlgHwnd := false, ThreadHandle := false }) := by
  unfold stop
  rw [onWorker_of_alive h, ok_bind, callObserver_unobserved (by rwa [withWorker_workers]), ok_bind,
    onWorker_of_alive (by rwa [withWorker_workers]), withWorker_withWorker, withWorker_workers]
  rfl

def ended (o : WorkerObject) : WorkerObject :=
  { o with
    AttachedObserver := false, DlgHwnd := false, ThreadHandle := false, Initialized := false
    deletions := 1 }

theorem deleteWorker_unobserved (h : (s.workers w).deletions = 0)
    (hobs : (s.workers w).AttachedObserver = false) :
    s.deleteWorker (n + 3) w = .ok (s.withWorker w (ended (s.workers w))) := by
  unfold deleteWorker
  rw [stop_unobserved h hobs, ok_bind, onWorker_of_alive (by rwa [withWorker_workers]), ok_bind,
    callObserver_unobserved (by rwa [withWorker_workers, withWorker_workers]), ok_bind,
    onWorker_of_alive (by rwa [withWorker_workers, withWorker_workers])]
  simp only [withWorker_withWorker, withWorker_workers, ended, h, hobs, Nat.zero_add]

/-- An owned worker is stopped and deleted by the dialog, once. -/
theorem releaseWorker_attached (hdlg : s.dlg.deleted = false) (hworker : s.dlg.Worker = some w)
    (howns : s.dlg.OwnsWorker = true) (h : (s.workers w).deletions = 0) :
    s.releaseWorker (n + 4) =
      .ok ({ s with dlg := { s.dlg with Worker := none, OwnsWorker := false } }.withWorker w
      (ended (s.workers w))) := by
  unfold releaseWorker
  rw [hworker]
  dsimp only
  rw [onDialog_of_alive hdlg, ok_bind, howns]
  generalize hs' : ({ s with dlg := { s.dlg with Worker := none, OwnsWorker := false } } :
    Ownership ω) = s'
  have h' : (s'.workers w).deletions = 0 := by
    rw [← hs']
    exact h
  have hsame : s'.workers w = s.workers w := by rw [← hs']
  rw [onWorker_of_alive h', ok_bind,
    onWorker_of_alive (by rwa [withWorker_workers]), ok_bind, if_pos rfl,
    stop_unobserved (by rwa [withWorker_workers, withWorker_workers]) (by rw [withWorker_workers]),
      ok_bind,
    deleteWorker_unobserved (by rwa [withWorker_workers, withWorker_workers, withWorker_workers])
      (by rw [withWorker_workers, withWorker_workers])]
  simp only [withWorker_withWorker, withWorker_workers, ended, hsame]

theorem releaseWorker_none (h : s.dlg.Worker = none) : s.releaseWorker (n + 1) = .ok s := by
  unfold releaseWorker
  rw [h]

/-- `Stop` goes on in a worker that the observer has deleted under way. -/
theorem stop_attached (hdlg : s.dlg.deleted = false) (hworker : s.dlg.Worker = some w)
    (howns : s.dlg.OwnsWorker = true) (h : (s.workers w).deletions = 0)
    (hobs : (s.workers w).AttachedObserver = true) :
    s.stop (n + 7) w = .error .deletedObject := by
  have hid : s.withWorker w (id (s.workers w)) = s := by
    unfold withWorker
    rw [id, Function.update_eq_self]
  unfold stop
  rw [onWorker_of_alive h, ok_bind, hid]
  have hcall : s.callObserver (n + 6) w = .error .deletedObject := by
    let t : Ownership ω := { s with dlg := { s.dlg with timer := s.dlg.timer && !s.dlg.HWindow } }
    have hrelease := releaseWorker_attached (s := t) (n := n) hdlg hworker howns h
    unfold callObserver detachWorker
    rw [hobs, if_pos rfl, onDialog_of_alive hdlg, ok_bind, hrelease, ok_bind]
    refine onWorker_of_deleted ?_ _
    rw [withWorker_workers]
    exact Nat.one_ne_zero
  rw [hcall, error_bind]

/-- So does the destructor. -/
theorem deleteWorker_attached (hdlg : s.dlg.deleted = false) (hworker : s.dlg.Worker = some w)
    (howns : s.dlg.OwnsWorker = true) (h : (s.workers w).deletions = 0)
    (hobs : (s.workers w).AttachedObserver = true) :
    s.deleteWorker (n + 8) w = .error .deletedObject := by
  unfold deleteWorker
  rw [stop_attached hdlg hworker howns h hobs, error_bind]

end Calls

/-! ## The invariant -/

/-- The dialog and its worker point to each other, every other worker that was owned has been
deleted once, and the FS is there as long as it is needed. -/
structure Consistent (s : Ownership ω) : Prop where
  owns : ∀ w, s.dlg.Worker = some w → s.dlg.OwnsWorker = true
  live : ∀ w, s.dlg.Worker = some w → s.dlg.deleted = false ∧ (s.workers w).deletions = 0 ∧
    (s.workers w).owned = true
  observed : ∀ w, (s.workers w).AttachedObserver = true ↔ s.dlg.Worker = some w
  ended : ∀ w, (s.workers w).owned = true → s.dlg.Worker ≠ some w → (s.workers w).deletions = 1
  fresh : ∀ w, (s.workers w).owned = false → (s.workers w).deletions = 0
  fs : s.dlg.FS = s.registered
  registered : s.registered = true → s.dlg.deleted = false ∧ s.fsDeleted = false

/-- Every worker that has come to be owned is attached or has been deleted exactly once, and no
other is deleted. -/
structure Accounted (s : Ownership ω) : Prop where
  owned : ∀ w, (s.workers w).owned = true →
    s.dlg.deleted = false ∧ s.dlg.Worker = some w ∧ (s.workers w).deletions = 0 ∨
      s.dlg.Worker ≠ some w ∧ (s.workers w).deletions = 1
  fresh : ∀ w, (s.workers w).owned = false → (s.workers w).deletions = 0

section Invariant

variable {s t : Ownership ω} {n : ℕ}

omit [DecidableEq ω] in
theorem Consistent.accounted (h : s.Consistent) : s.Accounted where
  owned w hw := by
    by_cases hworker : s.dlg.Worker = some w
    · have hlive := h.live w hworker
      exact .inl ⟨hlive.1, hworker, hlive.2.1⟩
    · exact .inr ⟨hworker, h.ended w hw hworker⟩
  fresh := h.fresh

omit [DecidableEq ω] in
theorem Consistent.of_same (h : s.Consistent) (hworkers : t.workers = s.workers)
    (hworker : t.dlg.Worker = s.dlg.Worker)
    (howns : t.dlg.OwnsWorker = s.dlg.OwnsWorker)
    (hdeleted : t.dlg.Worker ≠ none → t.dlg.deleted = s.dlg.deleted)
    (hfs : t.dlg.FS = t.registered)
    (hregistered : t.registered = true → t.dlg.deleted = false ∧ t.fsDeleted = false) :
    t.Consistent where
  owns w hw := by
    rw [howns]
    exact h.owns w (hworker ▸ hw)
  live w hw := by
    rw [hworkers, hdeleted (by rw [hw]; exact Option.some_ne_none w)]
    exact h.live w (hworker ▸ hw)
  observed w := by rw [hworkers, hworker, h.observed]
  ended w := by
    rw [hworkers, hworker]
    exact h.ended w
  fresh w := by
    rw [hworkers]
    exact h.fresh w
  fs := hfs
  registered := hregistered

/-- The dialog without its worker, which is deleted. -/
def released (s : Ownership ω) : Ownership ω :=
  match s.dlg.Worker with
  | none => s
  | some w => { s with dlg := { s.dlg with Worker := none, OwnsWorker := false } }.withWorker w
      (Ownership.ended (s.workers w))

theorem releaseWorker_eq (h : s.Consistent) (hdlg : s.dlg.deleted = false) :
    s.releaseWorker (n + 4) = .ok s.released := by
  unfold released
  rcases hworker : s.dlg.Worker with _ | w
  · exact releaseWorker_none hworker
  · exact releaseWorker_attached hdlg hworker (h.owns w hworker) (h.live w hworker).2.1

theorem released_dlg (s : Ownership ω) :
    s.released.dlg.Worker = none ∧ s.released.dlg.deleted = s.dlg.deleted ∧
    s.released.dlg.FS = s.dlg.FS ∧ s.released.dlg.HWindow = s.dlg.HWindow ∧
    s.released.registered = s.registered ∧
    s.released.fsDeleted = s.fsDeleted := by
  unfold released
  rcases hworker : s.dlg.Worker with _ | w
  · exact ⟨hworker, rfl, rfl, rfl, rfl, rfl⟩
  · exact ⟨rfl, rfl, rfl, rfl, rfl, rfl⟩

theorem Consistent.released (h : s.Consistent) : s.released.Consistent := by
  unfold Ownership.released
  rcases hworker : s.dlg.Worker with _ | w
  · exact h
  · have hlive := h.live w hworker
    have hself : ∀ v, (Function.update s.workers w (Ownership.ended (s.workers w)) v) =
        if v = w then Ownership.ended (s.workers w) else s.workers v :=
          fun v => Function.update_apply _ _ _ _
    refine ⟨fun v hv => ?_, fun v hv => ?_, fun v => ?_, fun v hv _ => ?_,
      fun v hv => ?_, h.fs, h.registered⟩
    · cases hv
    · cases hv
    · refine iff_of_false ?_ (Option.some_ne_none v).symm
      show ¬ (Function.update s.workers w (Ownership.ended (s.workers w)) v).AttachedObserver = true
      rw [hself]
      split_ifs with heq
      · exact Bool.false_ne_true
      · rw [h.observed, hworker]
        exact fun hsame => heq (Option.some.inj hsame).symm
    · show (Function.update s.workers w (Ownership.ended (s.workers w)) v).deletions = 1
      change (Function.update s.workers w (Ownership.ended (s.workers w)) v).owned = true at hv
      rw [hself] at hv ⊢
      split_ifs at hv ⊢ with heq
      · rfl
      · exact h.ended v hv (by rw [hworker]; exact fun hsame => heq (Option.some.inj hsame).symm)
    · show (Function.update s.workers w (Ownership.ended (s.workers w)) v).deletions = 0
      change (Function.update s.workers w (Ownership.ended (s.workers w)) v).owned = false at hv
      rw [hself] at hv ⊢
      split_ifs at hv ⊢ with heq
      · have howned : (s.workers w).owned = false := hv
        rw [hlive.2.2] at howned
        cases howned
      · exact h.fresh v hv

theorem detachWorker_ok (h : s.Consistent) (hdlg : s.dlg.deleted = false) :
    ∃ t, s.detachWorker (n + 5) = .ok t ∧
    t.Consistent ∧ t.dlg.Worker = none ∧ t.dlg.deleted = false ∧ t.dlg.FS = s.dlg.FS ∧
    t.registered = s.registered ∧
      t.fsDeleted = s.fsDeleted := by
  let u : Ownership ω := { s with dlg := { s.dlg with timer := s.dlg.timer && !s.dlg.HWindow } }
  have hu : u.Consistent := h.of_same rfl rfl rfl (fun _ => rfl) h.fs h.registered
  obtain ⟨hworker, hdeleted, hfs, -, hregistered, hfsDeleted⟩ := released_dlg u
  refine ⟨u.released, ?_, hu.released, hworker, hdeleted.trans hdlg, hfs, hregistered, hfsDeleted⟩
  unfold detachWorker
  rw [onDialog_of_alive hdlg, ok_bind]
  exact releaseWorker_eq hu hdlg

omit [DecidableEq ω] in
theorem leaveFs_ok (h : s.Consistent) (hdlg : s.dlg.deleted = false) :
    ∃ t, s.leaveFs = .ok t ∧ t.Consistent ∧
    t.dlg.Worker = s.dlg.Worker ∧ t.dlg.deleted = false ∧ t.registered = false := by
  unfold leaveFs
  by_cases hfs : s.dlg.FS = true
  · have hthere := (h.registered (h.fs ▸ hfs)).2
    refine ⟨{ s with registered := false, dlg := { s.dlg with FS := false } }, ?_, ?_, rfl, hdlg,
      rfl⟩
    · rw [if_pos hfs, if_neg (by rw [hthere]; exact Bool.false_ne_true)]
      exact onDialog_of_alive (s := { s with registered := false }) hdlg _
    · exact h.of_same rfl rfl rfl (fun _ => rfl) rfl fun hno => absurd hno Bool.false_ne_true
  · have hno : s.dlg.FS = false := Bool.not_eq_true _ ▸ hfs
    exact ⟨s, if_neg hfs, h, rfl, hdlg, h.fs ▸ hno⟩

theorem wmDestroy_ok (h : s.Consistent) (hdlg : s.dlg.deleted = false) :
    ∃ t, s.wmDestroy (n + 4) = .ok t ∧
    t.Consistent ∧ t.registered = false := by
  let u : Ownership ω := { s with dlg := { s.dlg with timer := false } }
  have hu : u.Consistent := h.of_same rfl rfl rfl (fun _ => rfl) h.fs h.registered
  obtain ⟨-, hdeleted, -⟩ := released_dlg u
  obtain ⟨v, hleave, hv, -, hvdlg, hvreg⟩ := leaveFs_ok hu.released (hdeleted.trans hdlg)
  refine ⟨{ v with dlg := { v.dlg with HWindow := false } }, ?_,
    hv.of_same rfl rfl rfl (fun _ => rfl) hv.fs hv.registered, hvreg⟩
  have hrelease : releaseWorker (n + 4) u = .ok u.released := releaseWorker_eq hu hdlg
  unfold wmDestroy
  rw [onDialog_of_alive hdlg, ok_bind, hrelease, ok_bind, hleave, ok_bind, onDialog_of_alive hvdlg]

theorem deleteDialog_ok (h : s.Consistent) (hdlg : s.dlg.deleted = false) :
    ∃ t, s.deleteDialog (n + 5) = .ok t ∧
    t.Consistent := by
  obtain ⟨u, hdetach, hu, hworker, hudlg, -⟩ := detachWorker_ok (n := n) h hdlg
  obtain ⟨v, hleave, hv, hvworker, hvdlg, hvreg⟩ := leaveFs_ok hu hudlg
  refine ⟨{ v with dlg := { v.dlg with deleted := true } }, ?_, ?_⟩
  · unfold deleteDialog
    rw [hdetach, ok_bind, hleave, ok_bind, onDialog_of_alive hvdlg]
  · refine hv.of_same rfl rfl rfl (fun hne => absurd (hvworker.trans hworker) hne) hv.fs fun hreg =>
      ?_
    rw [show v.registered = true from hreg] at hvreg
    cases hvreg

theorem closeDialog_ok (h : s.Consistent) (hdlg : s.dlg.deleted = false) (destroyed : Bool) :
    ∃ t, s.closeDialog (n + 5) destroyed = .ok t ∧ t.Consistent ∧ t.registered = false := by
  let u : Ownership ω := { s with registered := false, dlg := { s.dlg with FS := false } }
  have hu : u.Consistent :=
    h.of_same rfl rfl rfl (fun _ => rfl) rfl fun hno => absurd hno Bool.false_ne_true
  have hforget : ({ s with registered := false } : Ownership ω).onDialog
      (fun d => { d with FS := false }) = .ok u :=
    onDialog_of_alive (s := { s with registered := false }) hdlg _
  obtain ⟨v, hdetach, hv, -, hvdlg, -, hvreg, -⟩ := detachWorker_ok (n := n) hu hdlg
  unfold closeDialog
  rw [hforget, ok_bind, hdetach, ok_bind]
  split_ifs
  · obtain ⟨t, hdestroy, ht, htreg⟩ := wmDestroy_ok (n := n + 1) hv hvdlg
    exact ⟨t, hdestroy, ht, htreg⟩
  · exact ⟨v, rfl, hv, hvreg⟩

/-- The FS detaches the worker of the dialog that is registered with it. -/
theorem deleteFs_ok (h : s.Consistent) (hfs : s.fsDeleted = false) (destroyed : Bool) :
    ∃ t, s.deleteFs (n + 5) destroyed = .ok t ∧ t.Consistent := by
  have hend : ∀ u : Ownership ω, u.Consistent → u.registered = false →
      ({ u with fsDeleted := true } : Ownership ω).Consistent := by
    intro u hu hreg
    refine hu.of_same rfl rfl rfl (fun _ => rfl) hu.fs fun hyes => ?_
    rw [show u.registered = true from hyes] at hreg
    cases hreg
  unfold deleteFs
  rw [hfs, if_neg Bool.false_ne_true]
  by_cases hreg : s.registered = true
  · obtain ⟨u, hclose, hu, hureg⟩ := closeDialog_ok (n := n) h (h.registered hreg).1 destroyed
    exact ⟨_, by rw [if_pos hreg, hclose, ok_bind], hend u hu hureg⟩
  · exact ⟨_, by rw [if_neg hreg, ok_bind], hend s h (Bool.not_eq_true _ ▸ hreg)⟩

theorem consistent_attached (h : s.Consistent) {w : ω} (hdlg : s.dlg.deleted = false)
    (hworker : ∀ v, s.dlg.Worker = some v → v = w) {o : WorkerObject}
    (ho : o.AttachedObserver = true ∧ o.owned = true ∧ o.deletions = 0) :
    ({ s with dlg := { s.dlg with Worker := some w, OwnsWorker := true } }.withWorker w
      o).Consistent := by
  have hself : ∀ v, Function.update s.workers w o v = if v = w then o else s.workers v :=
    fun v => Function.update_apply _ _ _ _
  have hother : ∀ v, v ≠ w → s.dlg.Worker ≠ some v := fun v hne hv => hne (hworker v hv)
  refine ⟨fun v _ => rfl, fun v hv => ?_, fun v => ?_, fun v hv hne => ?_,
    fun v hv => ?_, h.fs, h.registered⟩
  · obtain rfl : w = v := Option.some.inj hv
    rw [withWorker_workers]
    exact ⟨hdlg, ho.2.2, ho.2.1⟩
  · show (Function.update s.workers w o v).AttachedObserver = true ↔ some w = some v
    rw [hself]
    split_ifs with heq
    · exact iff_of_true ho.1 (congrArg some heq.symm)
    · exact iff_of_false (mt (h.observed v).mp (hother v heq)) fun hsame =>
        heq (Option.some.inj hsame).symm
  · have hvw : v ≠ w := fun heq => hne (congrArg some heq.symm)
    change (Function.update s.workers w o v).owned = true at hv
    show (Function.update s.workers w o v).deletions = 1
    rw [hself, if_neg hvw] at hv ⊢
    exact h.ended v hv (hother v hvw)
  · change (Function.update s.workers w o v).owned = false at hv
    show (Function.update s.workers w o v).deletions = 0
    rw [hself] at hv ⊢
    split_ifs at hv ⊢ with heq
    · exact ho.2.2
    · exact h.fresh v hv

/-- What `AttachWorker` leaves of the dialog and of a worker that is alive. -/
theorem attachWorker_eq {w : ω} (hdlg : s.dlg.deleted = false) (hw : (s.workers w).deletions = 0) :
    ∃ o : WorkerObject, (o.AttachedObserver = true ∧ o.owned = true ∧ o.deletions = 0) ∧
      s.attachWorker w = .ok
        ({ s with dlg := { s.dlg with Worker := some w, OwnsWorker := true } }.withWorker w o) := by
  unfold attachWorker
  rw [onDialog_of_alive hdlg, ok_bind]
  generalize hu : ({ s with dlg := { s.dlg with Worker := some w, OwnsWorker := true } } :
    Ownership ω) = u
  have hwu : (u.workers w).deletions = 0 := by
    rw [← hu]
    exact hw
  rw [onWorker_of_alive hwu, ok_bind]
  by_cases hwindow : u.dlg.HWindow = true
  · refine ⟨{ u.workers w with AttachedObserver := true, owned := true, DlgHwnd := true },
      ⟨rfl, rfl, hwu⟩, ?_⟩
    rw [withWorker_dlg, if_pos hwindow,
      onWorker_of_alive (by rwa [withWorker_workers]), withWorker_withWorker,
      withWorker_workers]
  · exact ⟨{ u.workers w with AttachedObserver := true, owned := true },
      ⟨rfl, rfl, hwu⟩, if_neg hwindow⟩

end Invariant

/-! ## All runs -/

/-- The objects that the event is about are there. -/
def Enabled (s : Ownership ω) : Event ω → Prop
  | .attachWorker w => s.dlg.deleted = false ∧ (s.workers w).deletions = 0
  | .detachWorker => s.dlg.deleted = false
  | .wmDestroy => s.dlg.deleted = false ∧ s.dlg.HWindow = true
  | .stop => s.dlg.Worker.isSome
  | .deleteWorker => s.dlg.Worker.isSome
  | .deleteDialog => s.dlg.deleted = false
  | .deleteFs _ => s.fsDeleted = false

/-- No worker is attached in the place of another, and only the dialog stops or deletes its
worker. -/
def Orderly (s : Ownership ω) : Event ω → Prop
  | .attachWorker w => ∀ v, s.dlg.Worker = some v → v = w
  | .stop => False
  | .deleteWorker => False
  | _ => True

/-- Every event of the run is about objects that are there. -/
def Possible (s : Ownership ω) : List (Event ω) → Prop
  | [] => True
  | e :: es => s.Enabled e ∧ ∀ t, s.step e = .ok t → t.Possible es

/-- So is every event orderly. -/
def AllOrderly (s : Ownership ω) : List (Event ω) → Prop
  | [] => True
  | e :: es => s.Orderly e ∧ ∀ t, s.step e = .ok t → t.AllOrderly es

/-- No method runs on a deleted object, and the workers are accounted for all the time. -/
def Kept (s : Ownership ω) : List (Event ω) → Prop
  | [] => s.Accounted
  | e :: es => s.Accounted ∧ ∃ t, s.step e = .ok t ∧ t.Kept es

/-- The state after an event that goes well. -/
def after (s : Ownership ω) (e : Event ω) : Ownership ω :=
  match s.step e with
  | .ok t => t
  | .error _ => s

theorem eq_after {s t : Ownership ω} {e : Event ω} (h : s.step e = .ok t) : t = s.after e := by
  unfold after
  rw [h]

theorem possible_cons {s : Ownership ω} {e : Event ω} {es : List (Event ω)} (he : s.Enabled e)
    (hes : (s.after e).Possible es) : s.Possible (e :: es) :=
  ⟨he, fun _ ht => eq_after ht ▸ hes⟩

theorem allOrderly_cons {s : Ownership ω} {e : Event ω} {es : List (Event ω)} (he : s.Orderly e)
    (hes : (s.after e).AllOrderly es) : s.AllOrderly (e :: es) :=
  ⟨he, fun _ ht => eq_after ht ▸ hes⟩

/-- Before any worker is attached. -/
structure Fresh (s : Ownership ω) : Prop where
  workers : ∀ w, (s.workers w).AttachedObserver = false ∧ (s.workers w).owned = false ∧
    (s.workers w).deletions = 0
  dlg : s.dlg.deleted = false ∧ s.dlg.Worker = none
  fs : s.fsDeleted = false ∧ s.dlg.FS = s.registered

omit [DecidableEq ω] in
theorem Fresh.consistent {s : Ownership ω} (h : s.Fresh) : s.Consistent where
  owns w hw := by rw [h.dlg.2] at hw; cases hw
  live w hw := by rw [h.dlg.2] at hw; cases hw
  observed w := by
    rw [(h.workers w).1, h.dlg.2]
    exact iff_of_false Bool.false_ne_true (Option.some_ne_none w).symm
  ended w hw := by rw [(h.workers w).2.1] at hw; cases hw
  fresh w _ := (h.workers w).2.2
  fs := h.fs.2
  registered _ := ⟨h.dlg.1, h.fs.1⟩

section Steps

variable {s : Ownership ω} {e : Event ω}

/-- An orderly event keeps the invariant. -/
theorem step_ok (h : s.Consistent) (hen : s.Enabled e) (hord : s.Orderly e) :
    ∃ t, s.step e = .ok t ∧ t.Consistent := by
  cases e with
  | attachWorker w =>
    obtain ⟨o, ho, hstep⟩ := attachWorker_eq hen.1 hen.2
    exact ⟨_, hstep, consistent_attached h hen.1 hord ho⟩
  | detachWorker =>
    obtain ⟨t, hstep, ht, -⟩ := detachWorker_ok (n := 3) h hen
    exact ⟨t, hstep, ht⟩
  | wmDestroy =>
    obtain ⟨t, hstep, ht, -⟩ := wmDestroy_ok (n := 4) h hen.1
    exact ⟨t, hstep, ht⟩
  | stop => exact hord.elim
  | deleteWorker => exact hord.elim
  | deleteDialog => exact deleteDialog_ok (n := 3) h hen
  | deleteFs destroyed => exact deleteFs_ok (n := 3) h hen destroyed

/-- Any other uses a worker that is deleted, or loses one. -/
theorem step_not_accounted (h : s.Consistent) (hen : s.Enabled e) (hord : ¬ s.Orderly e) :
    ¬ ∃ t, s.step e = .ok t ∧ t.Accounted := by
  rintro ⟨t, hstep, ht⟩
  have hlive : ∀ w, s.dlg.Worker = some w → (s.workers w).AttachedObserver = true :=
    fun w => (h.observed w).mpr
  cases e with
  | attachWorker w =>
    obtain ⟨v, hv⟩ := not_forall.mp hord
    obtain ⟨hworker, hne⟩ := Classical.not_imp.mp hv
    obtain ⟨o, -, hattach⟩ := attachWorker_eq hen.1 hen.2
    obtain rfl := Except.ok.inj (hattach.symm.trans hstep)
    -- the worker that was attached is as it was, and no longer attached
    have hsame : Function.update s.workers w o v = s.workers v :=
      Function.update_of_ne hne o s.workers
    have howned := ht.owned v (by
      show (Function.update s.workers w o v).owned = true
      rw [hsame]
      exact (h.live v hworker).2.2)
    rcases howned with ⟨-, hattached, -⟩ | ⟨-, hdeleted⟩
    · exact hne (Option.some.inj hattached).symm
    · change (Function.update s.workers w o v).deletions = 1 at hdeleted
      rw [hsame, (h.live v hworker).2.1] at hdeleted
      cases hdeleted
  | stop =>
    obtain ⟨w, hworker⟩ := Option.isSome_iff_exists.mp hen
    have herror :=
      stop_attached (n := 1) (h.live w hworker).1 hworker (h.owns w hworker) (h.live w hworker).2.1
      (hlive w hworker)
    unfold step at hstep
    rw [hworker] at hstep
    cases herror.symm.trans hstep
  | deleteWorker =>
    obtain ⟨w, hworker⟩ := Option.isSome_iff_exists.mp hen
    have herror := deleteWorker_attached (n := 0) (h.live w hworker).1 hworker (h.owns w hworker)
        (h.live w hworker).2.1
      (hlive w hworker)
    unfold step at hstep
    rw [hworker] at hstep
    cases herror.symm.trans hstep
  | detachWorker => exact hord trivial
  | wmDestroy => exact hord trivial
  | deleteDialog => exact hord trivial
  | deleteFs destroyed => exact hord trivial

theorem Kept.accounted : ∀ {es : List (Event ω)}, s.Kept es → s.Accounted
  | [], h => h
  | _ :: _, h => h.1

theorem kept_iff : ∀ (es : List (Event ω)) {s : Ownership ω}, s.Consistent → s.Possible es →
    (s.Kept es ↔ s.AllOrderly es)
  | [], s, h, _ => iff_of_true h.accounted trivial
  | e :: es, s, h, hpossible => by
    constructor
    · rintro ⟨-, t, hstep, hkept⟩
      have hord : s.Orderly e := by
        by_contra hno
        exact step_not_accounted h hpossible.1 hno ⟨t, hstep, hkept.accounted⟩
      obtain ⟨u, hu, hconsistent⟩ := step_ok h hpossible.1 hord
      obtain rfl := Except.ok.inj (hu.symm.trans hstep)
      refine ⟨hord, fun v hv => ?_⟩
      obtain rfl := Except.ok.inj (hstep.symm.trans hv)
      exact (kept_iff es hconsistent (hpossible.2 u hstep)).mp hkept
    · rintro ⟨hord, hrest⟩
      obtain ⟨t, hstep, hconsistent⟩ := step_ok h hpossible.1 hord
      exact ⟨h.accounted, t, hstep,
        (kept_iff es hconsistent (hpossible.2 t hstep)).mpr (hrest t hstep)⟩

end Steps

end Ownership

/-- From the beginning on, in a run of events on objects that are there, no method runs on a deleted
object and every owned worker is attached or has been deleted once, exactly if no worker is attached
in the place of another and none is stopped or deleted but by the dialog. -/
theorem ownership_kept_iff {ω : Type*} [DecidableEq ω] {s : Ownership ω} (h : s.Fresh)
    {events : List (Ownership.Event ω)}
    (hpossible : s.Possible events) : s.Kept events ↔ s.AllOrderly events :=
  Ownership.kept_iff events h.consistent hpossible

/-- A dialog with its window, and workers that no one has used. -/
def freshDialog : Ownership ℕ where
  workers := fun _ => ⟨false, false, false, true, false, 0⟩
  dlg := ⟨false, true, true, none, false, true⟩
  fsDeleted := false
  registered := true

theorem fresh_freshDialog : freshDialog.Fresh := ⟨fun _ => ⟨rfl, rfl, rfl⟩, ⟨rfl, rfl⟩, ⟨rfl, rfl⟩⟩

/-- The FS goes while a worker is attached, then the dialog. -/
theorem ownership_kept_iff_fs :
    freshDialog.Kept [.attachWorker 0, .deleteFs true, .deleteDialog] := by
  refine (ownership_kept_iff fresh_freshDialog ?_).mpr ?_
  · refine Ownership.possible_cons ⟨rfl, rfl⟩
      (Ownership.possible_cons ?_ (Ownership.possible_cons ?_ trivial))
    · show (freshDialog.after (.attachWorker 0)).fsDeleted = false
      decide +kernel
    · show ((freshDialog.after (.attachWorker 0)).after (.deleteFs true)).dlg.deleted = false
      decide +kernel
  · refine Ownership.allOrderly_cons (fun v hv => ?_) (Ownership.allOrderly_cons trivial
      (Ownership.allOrderly_cons trivial trivial))
    cases hv

/-- The worker is stopped while it is attached. -/
theorem not_ownership_kept :
    ¬ ∀ (s : Ownership ℕ) (events : List (Ownership.Event ℕ)), s.Fresh → s.Possible events →
    s.Kept events := by
  intro h
  have hpossible : freshDialog.Possible [.attachWorker 0, .stop] :=
    Ownership.possible_cons ⟨rfl, rfl⟩ (Ownership.possible_cons rfl trivial)
  have hord := (Ownership.kept_iff _ fresh_freshDialog.consistent hpossible).mp
      (h _ _ fresh_freshDialog hpossible)
  have hattach : freshDialog.step (.attachWorker 0) = .ok (freshDialog.after (.attachWorker 0)) :=
    rfl
  exact (hord.2 _ hattach).1

end SalamanderSftp
