import Mathlib
import SalamanderSftp.Lib.Machine

/-!
# The windows of the background transfers

Each transfer has a dialog with a thread of its own, and a worker. The FS that began it lists the
dialog, the dialog points to the FS, and the plugin lists its FSs. The main thread opens and closes
FSs and begins transfers; at any point of this a dialog may come to its end in its own thread.

Each handler is one step here, as if the threads took turns. The source takes no lock for that: a
dialog that comes to its end while the destructor of its FS has it in its hands is touched when it
is gone (`letGo_of_ended`).

1. No pointer to a deleted FS or dialog is followed, and the lists are what the pointers say
   (`windows_safe`).
2. "Show transfers" finds a dialog whenever an FS has one (`transfers_shown`).
-/

open Machine

namespace SalamanderSftp

/-- A part of what `GetStateSnapshot` gives. -/
structure TransferSnapshot where
  Cancelled : Bool
  HasError : Bool
  /-- `ErrorMsg[0] != 0` -/
  ErrorMsg : Bool

/-- The worker of a dialog. -/
structure TransferJob where
  IsRunning : Bool
  state : TransferSnapshot

/-- A `CSftpTransferProgressDlg`, which goes with its window. -/
structure TransferDlg where
  FS : Option ℕ
  Worker : Option TransferJob
  /-- The window is hidden. -/
  IsBackground : Bool
  WantCancel : Bool
  OperationFinished : Bool
  /-- The state of `IDC_TR_CLOSE_ON_FINISH`. -/
  closeOnFinish : Bool
  /-- `WM_APP_SFTP_WORKER_FINISHED` is in the queue. -/
  finished : Bool

/-- The transfers of a `CPluginFSInterface`. -/
structure FsTransfers where
  ActiveTransferDlgs : List ℕ
  ActiveTransferDlg : Option ℕ

/-- Where the main thread is. -/
inductive MainPoint
  | idle
  /-- In the destructor of an FS. -/
  | closing (f : ℕ)
  /-- The window is there, and the tasks are enqueued. -/
  | starting (f d : ℕ)
  deriving DecidableEq

/-- The plugin; an object that is not there is `none`. -/
structure Plugin where
  ActiveFSCount : ℤ
  ActiveFSList : List ℕ
  LastDetachedFS : Option ℕ
  SftpCloseTransferDlgOnFinish : Bool
  fs : ℕ → Option FsTransfers
  dlg : ℕ → Option TransferDlg
  main : MainPoint

namespace TransferDlg

/-- `Worker->Cancel()`, if there is a worker. -/
def cancelWorker (w : TransferDlg) : TransferDlg :=
  { w with Worker := w.Worker.map fun j => { j with state := { j.state with Cancelled := true } } }

end TransferDlg

namespace FsTransfers

def hasTransfers (o : FsTransfers) :
    Bool := o.ActiveTransferDlg.isSome || !o.ActiveTransferDlgs.isEmpty

/-- `RegisterTransferDlg` -/
def register (o : FsTransfers) (d : ℕ) : FsTransfers :=
  if d ∈ o.ActiveTransferDlgs then o else ⟨o.ActiveTransferDlgs ++ [d], some d⟩

/-- `UnregisterTransferDlg` -/
def unregister (o : FsTransfers) (d : ℕ) : FsTransfers :=
  ⟨o.ActiveTransferDlgs.erase d, (o.ActiveTransferDlgs.erase d).getLast?⟩

end FsTransfers

namespace Plugin

def new (closeOnFinish : Bool) :
    Plugin := ⟨0, [], none, closeOnFinish, fun _ => none, fun _ => none, .idle⟩

def setFs (s : Plugin) (f : ℕ) (o : Option FsTransfers) :
    Plugin := { s with fs := Function.update s.fs f o }

def setDlg (s : Plugin) (d : ℕ) (w : Option TransferDlg) :
    Plugin := { s with dlg := Function.update s.dlg d w }

/-- A method of an FS; nothing comes of it when the FS is deleted. -/
def onFs (s : Plugin) (f : ℕ) (g : FsTransfers → FsTransfers) : Option Plugin :=
  (s.fs f).map fun o => s.setFs f (some (g o))

/-- A method of a dialog. -/
def onDlg (s : Plugin) (d : ℕ) (g : TransferDlg → TransferDlg) : Option Plugin :=
  (s.dlg d).map fun w => s.setDlg d (some (g w))

/-! ## The main thread -/

def openFS (s : Plugin) (f : ℕ) : Plugin :=
  { s with ActiveFSCount := s.ActiveFSCount + 1, ActiveFSList := s.ActiveFSList ++ [f] }.setFs f
    (some ⟨[], none⟩)

/-- `CloseFS`, up to the destructor. -/
def closeFS (s : Plugin) (f : ℕ) : Plugin :=
  { s with
    ActiveFSList := s.ActiveFSList.erase f
    LastDetachedFS := if s.LastDetachedFS = some f then none else s.LastDetachedFS
    ActiveFSCount := s.ActiveFSCount - 1
    main := .closing f }

/-- The destructor takes the last dialog from its list: `SetFS(NULL)` and `DetachWorker`, which
stops and deletes the worker. `DestroyWindow` does nothing in this thread. Without a dialog the FS
is gone. -/
def destructFS (s : Plugin) (f : ℕ) : Option Plugin :=
  (s.fs f).bind fun o =>
    match o.ActiveTransferDlgs.getLast? with
    | none => some ({ s with main := .idle }.setFs f none)
    | some d => (s.setFs f
        (some { o with ActiveTransferDlgs := o.ActiveTransferDlgs.dropLast })).onDlg d fun w =>
      { w with FS := none, Worker := none }

/-- The first half of a turn of the destructor: the last dialog is taken from the list. -/
def popDlg (s : Plugin) (f : ℕ) : Option Plugin :=
  s.onFs f fun o => { o with ActiveTransferDlgs := o.ActiveTransferDlgs.dropLast }

/-- The second half. -/
def letGo (s : Plugin) (d : ℕ) :
    Option Plugin := s.onDlg d fun w => { w with FS := none, Worker := none }

/-- A dialog is made for a transfer, and its thread has made the window. -/
def create (s : Plugin) (f d : ℕ) : Plugin :=
  { s with main := .starting f d }.setDlg d
    (some ⟨none, none, false, false, false, s.SftpCloseTransferDlgOnFinish, false⟩)

/-- The worker that `Start` has given a thread, or has not. -/
def startedJob (started : Bool) : TransferJob := ⟨started, ⟨false, !started, !started⟩⟩

/-- `SetFS(this)`, `AttachWorker(worker, true)`, `RegisterTransferDlg(dlg)` and `Start`. -/
def begin_ (s : Plugin) (f d : ℕ) (started : Bool) : Option Plugin :=
  ({ s with main := .idle }.onDlg d fun w =>
    { w with FS := some f, Worker := some (startedJob started) }).bind
    (·.onFs f (·.register d))

/-- `ShowFromBackground` for each. -/
def showAll : List ℕ → Plugin → Option Plugin
  | [], s => some s
  | d :: ds, s => (s.onDlg d fun w => { w with IsBackground := false }).bind (showAll ds)

/-- `ShowTransferDialog`, and whether a window was shown. -/
def showTransferDialog (s : Plugin) (f : ℕ) : Option (Plugin × Bool) :=
  (s.fs f).bind fun o => (showAll o.ActiveTransferDlgs s).map fun t =>
    (t, !o.ActiveTransferDlgs.isEmpty)

/-- The first of these FSs that has a transfer. -/
def firstWithTransfers (s : Plugin) : List ℕ → Option (Option ℕ)
  | [] => some none
  | f :: fs => (s.fs f).bind fun o =>
    if o.hasTransfers then some (some f) else s.firstWithTransfers fs

def isOurFS (s : Plugin) (f : ℕ) : Bool := s.ActiveFSList.contains f

/-- `MENUCMD_SHOWTRANSFERS` with the FSs of the two panels, and whether a window was shown; if not
there is a message. -/
def showTransfers (s : Plugin) (source target : Option ℕ) : Option (Plugin × Bool) :=
  (s.firstWithTransfers ((source.toList ++ target.toList).filter s.isOurFS ++ s.ActiveFSList)).bind
    fun found =>
    found.elim (some (s, false)) s.showTransferDialog

/-! ## The threads of the dialogs and of the workers -/

/-- `WM_DESTROY`: the worker is stopped and deleted, the FS forgets the dialog, and then it is
gone. -/
def destroyWindow (s : Plugin) (d : ℕ) : Option Plugin :=
  (s.dlg d).bind fun w => w.FS.elim (some (s.setDlg d none)) fun f =>
    (s.setDlg d none).onFs f (·.unregister d)

/-- `WM_APP_SFTP_WORKER_FINISHED`. Without a worker the snapshot is as it was made, with anything in
it. -/
def finish (s : Plugin) (d : ℕ) (anything : TransferSnapshot) : Option Plugin :=
  (s.dlg d).bind fun w =>
    let snap := w.Worker.elim anything TransferJob.state
    let hasError := snap.HasError && !snap.Cancelled
    if !hasError && w.closeOnFinish && !snap.Cancelled then s.destroyWindow d
    else s.onDlg d fun w =>
      { w with
        OperationFinished := true
        finished := false
        IsBackground := w.IsBackground && !(hasError && snap.ErrorMsg && !snap.Cancelled) }

/-- `IDCANCEL`, with the answer to the question. -/
def cancel (s : Plugin) (d : ℕ) (confirmed : Bool) : Option Plugin :=
  (s.dlg d).bind fun w =>
    if w.OperationFinished then s.destroyWindow d
    else s.onDlg d fun w => if !w.WantCancel &&
      confirmed then { w with WantCancel := true }.cancelWorker else w

inductive Act
  | openFs (f : ℕ)
  | closeFs (f : ℕ)
  /-- The destructor goes on. -/
  | destruct
  /-- `FSE_DETACHED` -/
  | detached (f : ℕ)
  /-- `FSE_ATTACHED` -/
  | attached (f : ℕ)
  | create (f d : ℕ)
  | begin_ (started : Bool)
  | showTransfers (source target : Option ℕ)
  /-- The thread of the worker ends; its message can be posted or not. -/
  | ends (d : ℕ) (state : TransferSnapshot) (posted : Bool)
  | finish (d : ℕ) (anything : TransferSnapshot)
  | cancel (d : ℕ) (confirmed : Bool)
  /-- `IDB_OPCONSSTOP` -/
  | stop (d : ℕ) (confirmed : Bool)
  /-- `IDB_BACKGROUND` -/
  | background (d : ℕ)
  /-- `IDC_TR_CLOSE_ON_FINISH` -/
  | check (d : ℕ) (checked : Bool)

/-- `none` when a deleted object is touched. -/
def act : Act → Plugin → Option Plugin
  | .openFs f, s => some (s.openFS f)
  | .closeFs f, s => some (s.closeFS f)
  | .destruct, s => match s.main with
    | .closing f => s.destructFS f
    | _ => some s
  | .detached f, s => some { s with LastDetachedFS := some f }
  | .attached f, s =>
    some { s with LastDetachedFS := if s.LastDetachedFS = some f then none else s.LastDetachedFS }
  | .create f d, s => some (s.create f d)
  | .begin_ started, s => match s.main with
    | .starting f d => s.begin_ f d started
    | _ => some s
  | .showTransfers source target, s => (s.showTransfers source target).map Prod.fst
  | .ends d state posted, s => s.onDlg d fun w =>
    { w with
      Worker := w.Worker.map fun j =>
        ⟨false, { state with Cancelled := j.state.Cancelled || state.Cancelled }⟩
      finished := posted }
  | .finish d anything, s => s.finish d anything
  | .cancel d confirmed, s => s.cancel d confirmed
  | .stop d confirmed, s => s.onDlg d fun w => if confirmed then w.cancelWorker else w
  | .background d, s => s.onDlg d fun w => { w with IsBackground := true }
  | .check d checked, s => ({ s with SftpCloseTransferDlgOnFinish := checked }).onDlg d fun w =>
    { w with closeOnFinish := checked }

def HasDlg (s : Plugin) (d : ℕ) (P : TransferDlg → Prop) : Prop := ∃ w, s.dlg d = some w ∧ P w

/-- The main thread does one thing after the other, with FSs that are open, and new objects are
where none is. A message comes to a window that is there, a command to one that is shown. -/
def Possible (s : Plugin) : Act → Prop
  | .openFs f => s.main = .idle ∧ s.fs f = none
  | .closeFs f => s.main = .idle ∧ f ∈ s.ActiveFSList
  | .destruct => ∃ f, s.main = .closing f
  | .detached f => s.main = .idle ∧ f ∈ s.ActiveFSList
  | .attached f => s.main = .idle ∧ f ∈ s.ActiveFSList
  | .create f d => s.main = .idle ∧ f ∈ s.ActiveFSList ∧ s.dlg d = none
  | .begin_ _ => ∃ f d, s.main = .starting f d
  | .showTransfers _ _ => s.main = .idle
  | .ends d _ _ => s.HasDlg d fun w => ∃ j ∈ w.Worker, j.IsRunning = true
  | .finish d _ => s.HasDlg d fun w => w.finished = true
  | .cancel d _ => s.HasDlg d fun w => w.IsBackground = false
  | .stop d _ => s.HasDlg d fun w => w.IsBackground = false
  | .background d => s.HasDlg d fun w => w.IsBackground = false ∧ w.OperationFinished = false
  | .check d _ => s.HasDlg d fun w => w.IsBackground = false

/-! ## Pointers -/

section Pointers

variable {s t : Plugin} {f d : ℕ} {w : TransferDlg} {o : FsTransfers}

@[simp] theorem setFs_self (f : ℕ) (o : Option FsTransfers) :
    (s.setFs f o).fs f = o := Function.update_self ..

@[simp] theorem setDlg_self (d : ℕ) (w : Option TransferDlg) :
    (s.setDlg d w).dlg d = w := Function.update_self ..

theorem setFs_of_ne {f' : ℕ} (h : f' ≠ f) (o : Option FsTransfers) :
    (s.setFs f o).fs f' = s.fs f' :=
  Function.update_of_ne h ..

theorem setDlg_of_ne {d' : ℕ} (h : d' ≠ d) (w : Option TransferDlg) :
    (s.setDlg d w).dlg d' = s.dlg d' :=
  Function.update_of_ne h ..

@[simp] theorem setFs_dlg (f : ℕ) (o : Option FsTransfers) : (s.setFs f o).dlg = s.dlg := rfl

@[simp] theorem setFs_ActiveFSList (f : ℕ) (o : Option FsTransfers) :
    (s.setFs f o).ActiveFSList = s.ActiveFSList := rfl

@[simp] theorem setDlg_fs (d : ℕ) (w : Option TransferDlg) : (s.setDlg d w).fs = s.fs := rfl

theorem onDlg_eq (h : s.dlg d = some w) (g : TransferDlg → TransferDlg) :
    s.onDlg d g = some (s.setDlg d (some (g w))) := by
  unfold onDlg
  rw [h]
  rfl

theorem onFs_eq (h : s.fs f = some o) (g : FsTransfers → FsTransfers) :
    s.onFs f g = some (s.setFs f (some (g o))) := by
  unfold onFs
  rw [h]
  rfl

theorem act_destruct (h : s.main = .closing f) :
    act .destruct s = s.destructFS f := by simp only [act, h]

theorem act_begin_ (h : s.main = .starting f d) (started : Bool) :
    act (.begin_ started) s = s.begin_ f d started := by
  simp only [act, h]

/-- The dialog is there and points to the FS. -/
def PointsTo (s : Plugin) (d f : ℕ) : Prop := ∃ w, s.dlg d = some w ∧ w.FS = some f

/-- What an FS lists are the dialogs that point to it, each once. -/
structure Lists (s : Plugin) (f : ℕ) (o : FsTransfers) : Prop where
  nodup : o.ActiveTransferDlgs.Nodup
  mem_iff : ∀ d, d ∈ o.ActiveTransferDlgs ↔ s.PointsTo d f
  /-- The destructor does not keep it up. -/
  last : s.main ≠ .closing f → o.ActiveTransferDlg = o.ActiveTransferDlgs.getLast?

/-- A dialog whose transfer is being begun. -/
structure Fresh (w : TransferDlg) : Prop where
  FS : w.FS = none
  Worker : w.Worker = none
  OperationFinished : w.OperationFinished = false
  finished : w.finished = false

structure Sound (s : Plugin) : Prop where
  count : s.ActiveFSCount = s.ActiveFSList.length
  nodup : s.ActiveFSList.Nodup
  exists_iff : ∀ f, (s.fs f).isSome ↔ f ∈ s.ActiveFSList ∨ s.main = .closing f
  closing : ∀ f, s.main = .closing f → f ∉ s.ActiveFSList
  detached : ∀ f ∈ s.LastDetachedFS, f ∈ s.ActiveFSList
  lists : ∀ f o, s.fs f = some o → s.Lists f o
  points : ∀ d f, s.PointsTo d f → (s.fs f).isSome
  /-- A dialog has an FS as long as it has a worker. -/
  worker : ∀ d w, s.dlg d = some w → (w.FS.isSome ↔ w.Worker.isSome)
  starting : ∀ f d, s.main = .starting f d → f ∈ s.ActiveFSList ∧ s.HasDlg d Fresh

theorem sound_new (closeOnFinish : Bool) : (new closeOnFinish).Sound where
  count := rfl
  nodup := List.nodup_nil
  exists_iff f :=
    ⟨fun h => absurd h Bool.false_ne_true, fun h => absurd (h.resolve_left List.not_mem_nil) nofun⟩
  closing := nofun
  detached := nofun
  lists := nofun
  points := by
    rintro d f ⟨w, hw, -⟩
    cases hw
  worker := nofun
  starting := nofun

/-- A dialog is left where it belongs. -/
structure Keeps (w w' : TransferDlg) : Prop where
  FS : w'.FS = w.FS
  Worker : w'.Worker.isSome = w.Worker.isSome
  fresh : Fresh w → Fresh w'

theorem pointsTo_setDlg_self {v : Option TransferDlg} {f : ℕ} :
    (s.setDlg d v).PointsTo d f ↔ ∃ w ∈ v, w.FS = some f := by
  unfold PointsTo
  rw [setDlg_self]
  rfl

theorem pointsTo_setDlg_of_ne {v : Option TransferDlg} {d' : ℕ} (h : d' ≠ d) (f : ℕ) :
    (s.setDlg d v).PointsTo d' f ↔ s.PointsTo d' f := by
  unfold PointsTo
  rw [setDlg_of_ne h]

theorem pointsTo_iff (hw : s.dlg d = some w) (f : ℕ) : s.PointsTo d f ↔ w.FS = some f := by
  unfold PointsTo
  rw [hw]
  simp

theorem pointsTo_setDlg {w' : TransferDlg} (hw : s.dlg d = some w) (hFS : w'.FS = w.FS) (d' f : ℕ) :
    (s.setDlg d (some w')).PointsTo d' f ↔ s.PointsTo d' f := by
  by_cases hd : d' = d
  · subst hd
    rw [pointsTo_iff (setDlg_self _ _), pointsTo_iff hw, hFS]
  · exact pointsTo_setDlg_of_ne hd f

theorem Sound.setDlg (h : s.Sound) {w' : TransferDlg}
    (hw : s.dlg d = some w) (hkeeps : Keeps w w') :
    (s.setDlg d (some w')).Sound where
  count := h.count
  nodup := h.nodup
  exists_iff := h.exists_iff
  closing := h.closing
  detached := h.detached
  lists f o ho :=
    have hlists := h.lists f o ho
    { nodup := hlists.nodup
      mem_iff d' := (hlists.mem_iff d').trans (pointsTo_setDlg hw hkeeps.FS d' f).symm
      last := hlists.last }
  points d' f hpoints := h.points d' f ((pointsTo_setDlg hw hkeeps.FS d' f).mp hpoints)
  worker d' v hv := by
    by_cases hd : d' = d
    · subst hd
      rw [setDlg_self] at hv
      obtain rfl := Option.some.inj hv
      rw [hkeeps.FS, hkeeps.Worker]
      exact h.worker d' w hw
    · rw [setDlg_of_ne hd] at hv
      exact h.worker d' v hv
  starting f d' hstarting := by
    obtain ⟨hf, v, hv, hfresh⟩ := h.starting f d' hstarting
    refine ⟨hf, ?_⟩
    by_cases hd : d' = d
    · subst hd
      obtain rfl := Option.some.inj (hw.symm.trans hv)
      exact ⟨w', setDlg_self .., hkeeps.fresh hfresh⟩
    · exact ⟨v, (setDlg_of_ne hd _).trans hv, hfresh⟩

theorem Sound.setDetached (h : s.Sound) {detached : Option ℕ}
    (hdetached : ∀ f ∈ detached, f ∈ s.ActiveFSList) :
    Sound { s with LastDetachedFS := detached } where
  __ := h
  detached := hdetached
  lists f o ho := { h.lists f o ho with }

theorem Sound.setCloseOnFinish (h : s.Sound) (b : Bool) :
    Sound { s with SftpCloseTransferDlgOnFinish := b } where
  __ := h
  lists f o ho := { h.lists f o ho with }

/-- A method of a dialog that leaves it where it belongs. -/
theorem Sound.onDlg (h : s.Sound) (hw : s.dlg d = some w) {g : TransferDlg → TransferDlg}
    (hkeeps : Keeps w (g w)) :
    ∃ t, s.onDlg d g = some t ∧ t.Sound :=
  ⟨_, onDlg_eq hw g, h.setDlg hw hkeeps⟩

theorem keeps_cancelWorker (w : TransferDlg) : Keeps w w.cancelWorker where
  FS := rfl
  Worker := Option.isSome_map
  fresh hfresh :=
    { FS := hfresh.FS
      Worker := Option.map_eq_none_iff.mpr hfresh.Worker
      OperationFinished := hfresh.OperationFinished
      finished := hfresh.finished }

/-- A dialog with more to it than at first is not the one whose transfer is being begun. -/
theorem Sound.begun (h : s.Sound) (hw : s.dlg d = some w) (hbegun : ¬ Fresh w) (f : ℕ) :
    s.main ≠ .starting f d := by
  intro hstarting
  obtain ⟨-, w', hw', hfresh⟩ := h.starting f d hstarting
  obtain rfl := Option.some.inj (hw.symm.trans hw')
  exact hbegun hfresh

theorem Sound.openFS (h : s.Sound) (hidle : s.main = .idle) (hnone : s.fs f = none) :
    (s.openFS f).Sound where
  count := by
    show s.ActiveFSCount + 1 = ((s.ActiveFSList ++ [f]).length : ℤ)
    rw [h.count, List.length_append]
    rfl
  nodup := by
    refine List.nodup_append.mpr ⟨h.nodup, List.nodup_singleton f, fun a ha b hb hab => ?_⟩
    have hsome := (h.exists_iff a).mpr (.inl ha)
    rw [hab, List.mem_singleton.mp hb, hnone] at hsome
    cases hsome
  exists_iff f' := by
    by_cases hf : f' = f
    · rw [hf]
      unfold Plugin.openFS
      simp
    · show ((Plugin.setFs _ f _).fs f').isSome ↔ f' ∈ s.ActiveFSList ++ [f] ∨ _
      rw [setFs_of_ne hf, List.mem_append, List.mem_singleton, or_iff_left hf]
      exact h.exists_iff f'
  closing f' hclosing := absurd (hidle.symm.trans hclosing) nofun
  detached f' hf' := List.mem_append_left _ (h.detached f' hf')
  lists f' o ho := by
    by_cases hf : f' = f
    · subst hf
      obtain rfl := Option.some.inj ((setFs_self _ _).symm.trans ho)
      refine ⟨List.nodup_nil, fun d => ⟨fun hd => absurd hd List.not_mem_nil, fun hpoints => ?_⟩,
        fun _ => rfl⟩
      have hsome := h.points d f' hpoints
      rw [hnone] at hsome
      cases hsome
    · have hlists := h.lists f' o ((setFs_of_ne hf _).symm.trans ho)
      exact ⟨hlists.nodup, hlists.mem_iff, hlists.last⟩
  points d f' hpoints := by
    by_cases hf : f' = f
    · subst hf
      exact congrArg Option.isSome (setFs_self _ _)
    · exact (congrArg Option.isSome (setFs_of_ne hf _)).trans (h.points d f' hpoints)
  worker := h.worker
  starting f' d hstarting := absurd (hidle.symm.trans hstarting) nofun

theorem Sound.closeFS (h : s.Sound) (hidle : s.main = .idle) (hf : f ∈ s.ActiveFSList) :
    (s.closeFS f).Sound where
  count := by
    show s.ActiveFSCount - 1 = ((s.ActiveFSList.erase f).length : ℤ)
    have hpos := List.length_pos_of_mem hf
    rw [h.count, List.length_erase_of_mem hf]
    omega
  nodup := h.nodup.erase f
  exists_iff f' := by
    show _ ↔ f' ∈ s.ActiveFSList.erase f ∨ MainPoint.closing f = .closing f'
    rw [MainPoint.closing.injEq, h.nodup.mem_erase_iff]
    refine (h.exists_iff f').trans ⟨fun hopen => ?_, fun hopen => ?_⟩
    · have hmem := hopen.resolve_right fun hclosing => absurd (hidle.symm.trans hclosing) nofun
      by_cases hne : f' = f
      · exact .inr hne.symm
      · exact .inl ⟨hne, hmem⟩
    · rcases hopen with ⟨-, hmem⟩ | rfl
      · exact .inl hmem
      · exact .inl hf
  closing f' hclosing := by
    obtain rfl := MainPoint.closing.inj hclosing
    exact fun hmem => (h.nodup.mem_erase_iff.mp hmem).1 rfl
  detached f' hf' := by
    change f' ∈ (if s.LastDetachedFS = some f then none else s.LastDetachedFS) at hf'
    split_ifs at hf' with hlast
    · cases hf'
    · refine h.nodup.mem_erase_iff.mpr ⟨?_, h.detached f' hf'⟩
      rintro rfl
      exact hlast hf'
  lists f' o ho :=
    have hlists := h.lists f' o ho
    ⟨hlists.nodup, hlists.mem_iff,
      fun _ => hlists.last fun hclosing => absurd (hidle.symm.trans hclosing) nofun⟩
  points := h.points
  worker := h.worker
  starting f' d hstarting := absurd hstarting nofun

/-- A turn of the destructor is its two halves, with nothing between them. -/
theorem destructFS_eq_halves (ho : s.fs f = some o)
    (hlast : o.ActiveTransferDlgs.getLast? = some d) :
    s.destructFS f = (s.popDlg f).bind (·.letGo d) := by
  unfold Plugin.destructFS popDlg
  rw [ho, Option.bind_some, hlast, onFs_eq ho, Option.bind_some]
  rfl

theorem dlg_onFs {g : FsTransfers → FsTransfers} (hstep : s.onFs f g = some t) : t.dlg = s.dlg := by
  obtain ⟨o, -, rfl⟩ := Option.map_eq_some_iff.mp hstep
  rfl

theorem dlg_destroyWindow (hstep : s.destroyWindow d = some t) :
    t.dlg = Function.update s.dlg d none := by
  obtain ⟨w, -, hrest⟩ := Option.bind_eq_some_iff.mp hstep
  rcases hFS : w.FS with _ | f
  · rw [hFS] at hrest
    obtain rfl := Option.some.inj hrest
    rfl
  · rw [hFS] at hrest
    exact dlg_onFs hrest

/-- A dialog that comes to its end between the halves is touched when it is gone. -/
theorem letGo_of_ended (s : Plugin) (f d : ℕ) :
    ((s.popDlg f).bind (·.destroyWindow d)).bind (·.letGo d) = none := by
  refine Option.bind_eq_none_iff.mpr fun t ht => ?_
  obtain ⟨u, -, hdestroyed⟩ := Option.bind_eq_some_iff.mp ht
  unfold letGo onDlg
  rw [dlg_destroyWindow hdestroyed, Function.update_self]
  rfl

def released (s : Plugin) (f d : ℕ) (o : FsTransfers) (w : TransferDlg) : Plugin :=
  (s.setFs f (some { o with ActiveTransferDlgs := o.ActiveTransferDlgs.dropLast })).setDlg d
    (some { w with FS := none, Worker := none })

theorem pointsTo_released_of_ne {d' : ℕ} (hne : d' ≠ d) (f' : ℕ) :
    (s.released f d o w).PointsTo d' f' ↔ s.PointsTo d' f' := pointsTo_setDlg_of_ne hne f'

theorem not_pointsTo_released (f' : ℕ) : ¬ (s.released f d o w).PointsTo d f' := by
  intro hpoints
  obtain ⟨v, hv, hnone⟩ := pointsTo_setDlg_self.mp hpoints
  obtain rfl := Option.some.inj hv
  cases hnone

theorem released_fs_self : (s.released f d o w).fs f =
    some { o with ActiveTransferDlgs := o.ActiveTransferDlgs.dropLast } := setFs_self _ _

theorem released_fs_of_ne {f' : ℕ} (hne : f' ≠ f) :
    (s.released f d o w).fs f' = s.fs f' := setFs_of_ne hne _

/-- The list of the FS is still what points to it. -/
theorem Lists.released (hlists : s.Lists f o) (hclosing : s.main = .closing f)
    (hlast : o.ActiveTransferDlgs.getLast? = some d) :
    (s.released f d o w).Lists f
      { o with ActiveTransferDlgs := o.ActiveTransferDlgs.dropLast } := by
  have hsplit : o.ActiveTransferDlgs = o.ActiveTransferDlgs.dropLast ++ [d] :=
    (List.dropLast_append_getLast? d hlast).symm
  have hnodup := hlists.nodup
  rw [hsplit, List.nodup_append] at hnodup
  refine ⟨hnodup.1, fun d' => ?_, fun hnot => absurd hclosing hnot⟩
  by_cases hne : d' = d
  · subst hne
    exact iff_of_false (fun hmem => hnodup.2.2 d' hmem d' (List.mem_singleton_self d') rfl)
      (not_pointsTo_released f)
  · rw [pointsTo_released_of_ne hne, ← hlists.mem_iff d', hsplit,
      List.mem_append, List.mem_singleton,
      or_iff_left hne, List.dropLast_concat]

theorem Lists.released_of_ne {f' : ℕ} {o' : FsTransfers} (hlists : s.Lists f' o') (hne : f' ≠ f)
    (hFS : ∀ f', s.PointsTo d f' ↔ f' = f) : (s.released f d o w).Lists f' o' := by
  refine ⟨hlists.nodup, fun d' => ?_, hlists.last⟩
  rw [hlists.mem_iff]
  by_cases hd : d' = d
  · rw [hd]
    exact iff_of_false (fun hpoints => hne ((hFS f').mp hpoints)) (not_pointsTo_released f')
  · exact (pointsTo_released_of_ne hd f').symm

theorem Sound.released (h : s.Sound) (hclosing : s.main = .closing f) (ho : s.fs f = some o)
    (hlast : o.ActiveTransferDlgs.getLast? = some d) (hw : s.dlg d = some w) (hFS : w.FS = some f) :
    (s.released f d o w).Sound := by
  have honly : ∀ f', s.PointsTo d f' ↔ f' = f := by
    intro f'
    rw [pointsTo_iff hw, hFS, Option.some_inj, eq_comm]
  refine
    { count := h.count
      nodup := h.nodup
      exists_iff := fun f' => ?_
      closing := h.closing
      detached := h.detached
      lists := fun f' o' ho' => ?_
      points := fun d' f' hpoints => ?_
      worker := fun d' v hv => ?_
      starting := fun f' d' hstarting => absurd (hclosing.symm.trans hstarting) nofun }
  · by_cases hf : f' = f
    · rw [hf, released_fs_self]
      exact iff_of_true rfl (.inr hclosing)
    · rw [released_fs_of_ne hf]
      exact h.exists_iff f'
  · by_cases hf : f' = f
    · subst hf
      obtain rfl := Option.some.inj (released_fs_self.symm.trans ho')
      exact (h.lists f' o ho).released hclosing hlast
    · exact (h.lists f' o' ((released_fs_of_ne hf).symm.trans ho')).released_of_ne hf honly
  · by_cases hd : d' = d
    · rw [hd] at hpoints
      exact absurd hpoints (not_pointsTo_released f')
    · by_cases hf : f' = f
      · rw [hf, released_fs_self]
        rfl
      · rw [released_fs_of_ne hf]
        exact h.points d' f' ((pointsTo_released_of_ne hd f').mp hpoints)
  · by_cases hd : d' = d
    · subst hd
      obtain rfl := Option.some.inj ((setDlg_self _ _).symm.trans hv)
      simp
    · exact h.worker d' v ((setDlg_of_ne hd _).symm.trans hv)

/-- A dialog that the destructor lets go of. -/
theorem Sound.release (h : s.Sound) (hclosing : s.main = .closing f) (ho : s.fs f = some o)
    (hlast : o.ActiveTransferDlgs.getLast? = some d) : ∃ t, s.destructFS f = some t ∧ t.Sound := by
  obtain ⟨w, hw, hFS⟩ := ((h.lists f o ho).mem_iff d).mp (List.mem_of_getLast? hlast)
  have hstep : s.destructFS f = some (s.released f d o w) := by
    unfold Plugin.destructFS
    rw [ho, Option.bind_some, hlast]
    exact onDlg_eq (s := s.setFs f _) hw _
  exact ⟨_, hstep, h.released hclosing ho hlast hw hFS⟩

theorem Sound.deleted (h : s.Sound) (hclosing : s.main = .closing f) (ho : s.fs f = some o)
    (hlast : o.ActiveTransferDlgs.getLast? = none) : ∃ t, s.destructFS f = some t ∧ t.Sound := by
  have hstep : s.destructFS f = some ({ s with main := .idle }.setFs f none) := by
    unfold Plugin.destructFS
    rw [ho, Option.bind_some, hlast]
  have hempty : ∀ d, ¬ s.PointsTo d f := by
    intro d hpoints
    have hmem := ((h.lists f o ho).mem_iff d).mpr hpoints
    rw [List.getLast?_eq_none_iff.mp hlast] at hmem
    cases hmem
  refine ⟨_, hstep, ?_⟩
  refine
    { count := h.count
      nodup := h.nodup
      exists_iff := fun f' => ?_
      closing := nofun
      detached := h.detached
      lists := fun f' o' ho' => ?_
      points := fun d f' hpoints => ?_
      worker := h.worker
      starting := nofun }
  · by_cases hf : f' = f
    · rw [hf, setFs_self]
      exact ⟨nofun, fun hopen => absurd (hopen.resolve_right nofun) (h.closing f hclosing)⟩
    · rw [setFs_of_ne hf]
      refine (h.exists_iff f').trans ⟨fun hopen => .inl ?_,
        fun hopen => .inl (hopen.resolve_right nofun)⟩
      exact hopen.resolve_right fun hother =>
        hf (MainPoint.closing.inj (hother.symm.trans hclosing))
  · have hf : f' ≠ f := by
      rintro rfl
      rw [setFs_self] at ho'
      cases ho'
    have hlists := h.lists f' o' ((setFs_of_ne hf _).symm.trans ho')
    exact ⟨hlists.nodup, hlists.mem_iff, fun _ => hlists.last fun hother =>
      hf (MainPoint.closing.inj (hother.symm.trans hclosing))⟩
  · have hf : f' ≠ f := by
      rintro rfl
      exact hempty d hpoints
    exact (congrArg Option.isSome (setFs_of_ne hf _)).trans (h.points d f' hpoints)

theorem Sound.destructFS (h : s.Sound) (hclosing : s.main = .closing f) :
    ∃ t, s.destructFS f = some t ∧ t.Sound := by
  obtain ⟨o, ho⟩ := Option.isSome_iff_exists.mp ((h.exists_iff f).mpr (.inr hclosing))
  rcases hlast : o.ActiveTransferDlgs.getLast? with _ | d
  · exact h.deleted hclosing ho hlast
  · exact h.release hclosing ho hlast

theorem pointsTo_setDlg_idle {v : Option TransferDlg} (hold : ∀ f, ¬ s.PointsTo d f)
    (hnew : ∀ w ∈ v, w.FS = none)
    (d' f : ℕ) : (s.setDlg d v).PointsTo d' f ↔ s.PointsTo d' f := by
  by_cases hd : d' = d
  · subst hd
    rw [pointsTo_setDlg_self]
    refine iff_of_false ?_ (hold f)
    rintro ⟨w, hw, hFS⟩
    rw [hnew w hw] at hFS
    cases hFS
  · exact pointsTo_setDlg_of_ne hd f

theorem Sound.create (h : s.Sound) (hidle : s.main = .idle) (hf : f ∈ s.ActiveFSList)
    (hnone : s.dlg d = none) :
    (s.create f d).Sound := by
  have hsame : ∀ d' f', (s.create f d).PointsTo d' f' ↔ s.PointsTo d' f' := by
    refine pointsTo_setDlg_idle (s := { s with main := .starting f d }) ?_ ?_
    · rintro f' ⟨w, hw, -⟩
      cases hnone.symm.trans hw
    · rintro w ⟨⟩
      rfl
  exact
    { count := h.count
      nodup := h.nodup
      exists_iff := fun f' => by
        refine (h.exists_iff f').trans
          ⟨fun hopen => .inl (hopen.resolve_right fun hclosing => ?_), fun hopen =>
          .inl (hopen.resolve_right nofun)⟩
        cases hidle.symm.trans hclosing
      closing := nofun
      detached := h.detached
      lists := fun f' o ho =>
        have hlists := h.lists f' o ho
        ⟨hlists.nodup, fun d' => (hlists.mem_iff d').trans (hsame d' f').symm,
          fun _ => hlists.last fun hclosing => absurd (hidle.symm.trans hclosing) nofun⟩
      points := fun d' f' hpoints => h.points d' f' ((hsame d' f').mp hpoints)
      worker := fun d' w hw => by
        by_cases hd : d' = d
        · subst hd
          obtain rfl := Option.some.inj ((setDlg_self _ _).symm.trans hw)
          exact Iff.rfl
        · exact h.worker d' w ((setDlg_of_ne hd _).symm.trans hw)
      starting := fun f' d' hstarting => by
        obtain ⟨rfl, rfl⟩ := MainPoint.starting.inj hstarting
        exact ⟨hf, _, setDlg_self .., rfl, rfl, rfl, rfl⟩ }

/-- A dialog comes or goes, and the list of an FS is another one. -/
def changed (s : Plugin) (main : MainPoint) (f d : ℕ) (v : Option TransferDlg) (dlgs : List ℕ) :
    Plugin :=
  ({ s with main := main }.setDlg d v).setFs f (some ⟨dlgs, dlgs.getLast?⟩)

section Changed

variable {v : Option TransferDlg} {main : MainPoint} {dlgs : List ℕ} {f' d' : ℕ}

theorem pointsTo_changed_self (hnew : ∀ w ∈ v, w.FS = some f ∧ w.Worker.isSome) :
    (s.changed main f d v dlgs).PointsTo d f' ↔ f' = f ∧ v.isSome = true := by
  refine pointsTo_setDlg_self.trans ⟨?_, ?_⟩
  · rintro ⟨w, hw, hFS⟩
    exact ⟨Option.some.inj (hFS.symm.trans (hnew w hw).1), Option.isSome_iff_exists.mpr ⟨w, hw⟩⟩
  · rintro ⟨rfl, hv⟩
    obtain ⟨w, hw⟩ := Option.isSome_iff_exists.mp hv
    exact ⟨w, hw, (hnew w hw).1⟩

theorem pointsTo_changed_of_ne (hne : d' ≠ d) :
    (s.changed main f d v dlgs).PointsTo d' f' ↔ s.PointsTo d' f' :=
  pointsTo_setDlg_of_ne (s := { s with main := main }) hne f'

theorem changed_fs_self :
    (s.changed main f d v dlgs).fs f = some ⟨dlgs, dlgs.getLast?⟩ := setFs_self _ _

theorem changed_fs_of_ne (hne : f' ≠ f) :
    (s.changed main f d v dlgs).fs f' = s.fs f' := setFs_of_ne hne _

/-- The list of the FS is what points to it, with the dialog or without. -/
theorem Lists.changed (hlists : s.Lists f o) (hdlgs : dlgs.Nodup)
    (hnew : ∀ w ∈ v, w.FS = some f ∧ w.Worker.isSome)
    (hmem : ∀ d', d' ∈ dlgs ↔ if d' = d then v.isSome = true else d' ∈ o.ActiveTransferDlgs) :
    (s.changed main f d v dlgs).Lists f ⟨dlgs, dlgs.getLast?⟩ := by
  refine ⟨hdlgs, fun d' => (hmem d').trans ?_, fun _ => rfl⟩
  by_cases hne : d' = d
  · rw [if_pos hne, hne, pointsTo_changed_self hnew]
    exact (and_iff_right rfl).symm
  · rw [if_neg hne, pointsTo_changed_of_ne hne]
    exact hlists.mem_iff d'

theorem Lists.changed_of_ne {o' : FsTransfers} (hlists : s.Lists f' o') (hne : f' ≠ f)
    (hmain : main = .closing f' ↔ s.main = .closing f') (hold : ¬ s.PointsTo d f')
    (hnew : ∀ w ∈ v, w.FS = some f ∧ w.Worker.isSome) :
    (s.changed main f d v dlgs).Lists f' o' := by
  refine ⟨hlists.nodup, fun d' => (hlists.mem_iff d').trans ?_,
    fun hnot => hlists.last (mt hmain.mpr hnot)⟩
  by_cases hd : d' = d
  · rw [hd]
    exact iff_of_false hold fun hpoints => hne ((pointsTo_changed_self hnew).mp hpoints).1
  · exact (pointsTo_changed_of_ne hd).symm

end Changed

/-- The dialog of an FS that is there comes or goes, and the FS takes note of it. -/
theorem Sound.changeDlg (h : s.Sound) {v : Option TransferDlg} {main : MainPoint} {dlgs : List ℕ}
    (hmain : ∀ f, main = .closing f ↔ s.main = .closing f)
    (hstarting : ∀ f' d', main = .starting f' d' →
      d' ≠ d ∧ s.main = .starting f' d') (ho : s.fs f = some o) (hdlgs : dlgs.Nodup)
    (hold : ∀ f' ≠ f, ¬ s.PointsTo d f') (hnew : ∀ w ∈ v, w.FS = some f ∧ w.Worker.isSome)
    (hmem : ∀ d', d' ∈ dlgs ↔ if d' = d then v.isSome = true else d' ∈ o.ActiveTransferDlgs) :
    (s.changed main f d v dlgs).Sound := by
  refine
    { count := h.count
      nodup := h.nodup
      exists_iff := fun f' => ?_
      closing := fun f' hclosing => h.closing f' ((hmain f').mp hclosing)
      detached := h.detached
      lists := fun f' o' ho' => ?_
      points := fun d' f' hpoints => ?_
      worker := fun d' w hw => ?_
      starting := fun f' d' hmain' => ?_ }
  · show _ ↔ _ ∨ main = .closing f'
    rw [hmain f']
    by_cases hf : f' = f
    · rw [hf, changed_fs_self]
      refine iff_of_true rfl ((h.exists_iff f).mp ?_)
      rw [ho]
      rfl
    · rw [changed_fs_of_ne hf]
      exact h.exists_iff f'
  · by_cases hf : f' = f
    · subst hf
      obtain rfl := Option.some.inj (changed_fs_self.symm.trans ho')
      exact (h.lists f' o ho).changed hdlgs hnew hmem
    · rw [changed_fs_of_ne hf] at ho'
      exact (h.lists f' o' ho').changed_of_ne hf (hmain f') (hold f' hf) hnew
  · by_cases hf : f' = f
    · rw [hf, changed_fs_self]
      rfl
    · rw [changed_fs_of_ne hf]
      by_cases hne : d' = d
      · rw [hne, pointsTo_changed_self hnew] at hpoints
        exact absurd hpoints.1 hf
      · exact h.points d' f' ((pointsTo_changed_of_ne hne).mp hpoints)
  · by_cases hne : d' = d
    · subst hne
      have hv := hnew w ((setDlg_self _ _).symm.trans hw)
      rw [hv.1]
      exact iff_of_true rfl hv.2
    · exact h.worker d' w ((setDlg_of_ne hne _).symm.trans hw)
  · obtain ⟨hne, hbefore⟩ := hstarting f' d' hmain'
    obtain ⟨hf', w, hw, hfresh⟩ := h.starting f' d' hbefore
    exact ⟨hf', w, (setDlg_of_ne hne _).trans hw, hfresh⟩

theorem Sound.begin_ (h : s.Sound) (hstarting : s.main = .starting f d) (started : Bool) :
    ∃ t, s.begin_ f d started = some t ∧ t.Sound := by
  obtain ⟨hf, w, hw, hfresh⟩ := h.starting f d hstarting
  obtain ⟨o, ho⟩ := Option.isSome_iff_exists.mp ((h.exists_iff f).mpr (.inl hf))
  have hlists := h.lists f o ho
  have hnone : ∀ f', ¬ s.PointsTo d f' := by
    intro f' hpoints
    rw [pointsTo_iff hw, hfresh.FS] at hpoints
    cases hpoints
  have hd : d ∉ o.ActiveTransferDlgs := fun hmem => hnone f ((hlists.mem_iff d).mp hmem)
  have hregister :
      o.register d = ⟨o.ActiveTransferDlgs ++ [d], (o.ActiveTransferDlgs ++ [d]).getLast?⟩ := by
    unfold FsTransfers.register
    rw [if_neg hd, List.getLast?_concat]
  have hstep : s.begin_ f d started = some (({ s with main := .idle }.setDlg d (some { w with
      FS := some f, Worker := some (startedJob started) })).setFs f (some (o.register d))) := by
    unfold Plugin.begin_
    rw [onDlg_eq (s := { s with main := .idle }) hw, Option.bind_some]
    exact onFs_eq (s := Plugin.setDlg { s with main := .idle } d _) ho _
  refine ⟨_, hstep, ?_⟩
  rw [hregister]
  refine h.changeDlg (fun f' => iff_of_false nofun fun hclosing => ?_) nofun ho ?_
    (fun f' _ => hnone f') ?_
    fun d' => ?_
  · cases hstarting.symm.trans hclosing
  · refine List.nodup_append.mpr ⟨hlists.nodup, List.nodup_singleton d, fun a ha b hb hab => hd ?_⟩
    rwa [← List.mem_singleton.mp hb, ← hab]
  · rintro w' ⟨⟩
    exact ⟨rfl, rfl⟩
  · rw [List.mem_append, List.mem_singleton]
    split_ifs with hne
    · exact iff_of_true (.inr hne) rfl
    · exact or_iff_left hne

theorem Sound.destroyWindow (h : s.Sound) (hw : s.dlg d = some w)
    (hbegun : ∀ f, s.main ≠ .starting f d) :
    ∃ t, s.destroyWindow d = some t ∧ t.Sound := by
  have hstarting : ∀ f' d', s.main = .starting f' d' → d' ≠ d ∧ s.main = .starting f' d' := by
    intro f' d' hmain
    refine ⟨?_, hmain⟩
    rintro rfl
    exact hbegun f' hmain
  unfold Plugin.destroyWindow
  rw [hw, Option.bind_some]
  rcases hFS : w.FS with _ | f
  · refine ⟨_, rfl, ?_⟩
    have hsame := pointsTo_setDlg_idle (s := s) (d := d) (v := none) (fun f hpoints => by
      rw [pointsTo_iff hw, hFS] at hpoints
      cases hpoints) nofun
    exact
      { h with
        lists := fun f o ho =>
          have hlists := h.lists f o ho
          ⟨hlists.nodup, fun d' => (hlists.mem_iff d').trans (hsame d' f).symm, hlists.last⟩
        points := fun d' f hpoints => h.points d' f ((hsame d' f).mp hpoints)
        worker := fun d' w' hw' => by
          have hne : d' ≠ d := by
            rintro rfl
            rw [setDlg_self] at hw'
            cases hw'
          exact h.worker d' w' ((setDlg_of_ne hne _).symm.trans hw')
        starting := fun f d' hmain => by
          obtain ⟨hf, w', hw', hfresh⟩ := h.starting f d' hmain
          exact ⟨hf, w', (setDlg_of_ne (hstarting f d' hmain).1 _).trans hw', hfresh⟩ }
  · have hpoints : s.PointsTo d f := ⟨w, hw, hFS⟩
    obtain ⟨o, ho⟩ := Option.isSome_iff_exists.mp (h.points d f hpoints)
    have hlists := h.lists f o ho
    have hstep : (s.setDlg d none).onFs f (·.unregister d) =
        some ((s.setDlg d none).setFs f (some (o.unregister d))) :=
      onFs_eq (s := s.setDlg d none) ho _
    refine ⟨_, hstep, ?_⟩
    refine @Sound.changeDlg s f d o h none s.main _
      (fun _ => Iff.rfl) hstarting ho (hlists.nodup.erase d)
      (fun f' hne hother => ?_) nofun fun d' => ?_
    · rw [pointsTo_iff hw, hFS] at hother
      exact hne (Option.some.inj hother).symm
    · rw [hlists.nodup.mem_erase_iff]
      split_ifs with hne
      · exact iff_of_false (fun hmem => hmem.1 hne) Bool.false_ne_true
      · exact and_iff_right hne

theorem Sound.showAll {ds : List ℕ} (h : s.Sound) (hds : ∀ d ∈ ds, (s.dlg d).isSome) :
    ∃ t, Plugin.showAll ds s = some t ∧ t.Sound ∧ t.main = s.main ∧
      ∀ d, t.dlg d = (s.dlg d).map fun w =>
        if d ∈ ds then { w with IsBackground := false } else w := by
  induction ds generalizing s with
  | nil =>
    refine ⟨s, rfl, h, rfl, fun d => ?_⟩
    simp only [List.not_mem_nil, if_false, Option.map_id']
  | cons d ds ih =>
    obtain ⟨w, hw⟩ := Option.isSome_iff_exists.mp (hds d List.mem_cons_self)
    have hkeeps : Keeps w { w with IsBackground := false } := ⟨rfl, rfl, fun hfresh =>
      ⟨hfresh.FS, hfresh.Worker, hfresh.OperationFinished, hfresh.finished⟩⟩
    obtain ⟨t, hstep, ht, hmain, hdlg⟩ := ih (h.setDlg hw hkeeps) fun d' hd' => by
      by_cases hne : d' = d
      · rw [hne, setDlg_self]
        rfl
      · rw [setDlg_of_ne hne]
        exact hds d' (List.mem_cons_of_mem d hd')
    refine ⟨t, ?_, ht, hmain, fun d' => ?_⟩
    · rw [Plugin.showAll, onDlg_eq hw]
      exact hstep
    · rw [hdlg d']
      by_cases hne : d' = d
      · subst hne
        rw [setDlg_self, hw, Option.map_some, Option.map_some, if_pos List.mem_cons_self]
        split_ifs <;> rfl
      · rw [setDlg_of_ne hne]
        simp only [List.mem_cons, hne, false_or]

/-- Outside of a destructor both lists of an FS say whether it has a transfer. -/
theorem Sound.hasTransfers_iff (h : s.Sound) (hidle : s.main = .idle) (ho : s.fs f = some o) :
    o.hasTransfers = true ↔ ∃ d, s.PointsTo d f := by
  have hlists := h.lists f o ho
  have hlast := hlists.last (by rw [hidle]; exact nofun)
  unfold FsTransfers.hasTransfers
  rw [hlast]
  constructor
  · intro hsome
    obtain ⟨d, hd⟩ : ∃ d, d ∈ o.ActiveTransferDlgs := by
      refine List.exists_mem_of_ne_nil _ fun hnil => ?_
      rw [hnil] at hsome
      cases hsome
    exact ⟨d, (hlists.mem_iff d).mp hd⟩
  · rintro ⟨d, hpoints⟩
    have hmem := (hlists.mem_iff d).mpr hpoints
    cases hdlgs : o.ActiveTransferDlgs with
    | nil =>
      rw [hdlgs] at hmem
      cases hmem
    | cons => exact Bool.or_true _

theorem Sound.firstWithTransfers (h : s.Sound) (hidle : s.main = .idle) {fs : List ℕ}
    (hfs : ∀ f ∈ fs, f ∈ s.ActiveFSList) :
    ∃ found, s.firstWithTransfers fs = some found ∧
    (found = none → ∀ f ∈ fs, ∀ d, ¬ s.PointsTo d f) ∧
      (∀ f, found = some f → f ∈ s.ActiveFSList ∧ ∃ d, s.PointsTo d f) ∧
        ∀ f, fs.head? = some f → (∃ d, s.PointsTo d f) → found = some f := by
  induction fs with
  | nil => exact ⟨none, rfl, fun _ => nofun, nofun, nofun⟩
  | cons f fs ih =>
    obtain ⟨found, hfound, hnone, hsome, -⟩ := ih fun f' hf' => hfs f' (List.mem_cons_of_mem f hf')
    have hopen := hfs f List.mem_cons_self
    obtain ⟨o, ho⟩ := Option.isSome_iff_exists.mp ((h.exists_iff f).mpr (.inl hopen))
    have hiff := h.hasTransfers_iff hidle ho
    rw [Plugin.firstWithTransfers, ho, Option.bind_some]
    by_cases hhas : o.hasTransfers = true
    · rw [if_pos hhas]
      refine ⟨some f, rfl, nofun, ?_, fun _ hhead _ => hhead⟩
      rintro _ ⟨⟩
      exact ⟨hopen, hiff.mp hhas⟩
    · rw [if_neg hhas]
      refine ⟨found, hfound, fun hno f' hf' => ?_, hsome, ?_⟩
      · rcases List.mem_cons.mp hf' with rfl | hf'
        · exact fun d hpoints => hhas (hiff.mpr ⟨d, hpoints⟩)
        · exact hnone hno f' hf'
      · rintro _ ⟨⟩ hpoints
        exact absurd (hiff.mpr hpoints) hhas

def shownFor (found : Option ℕ) (w : TransferDlg) : TransferDlg :=
  if found.isSome ∧ w.FS = found then { w with IsBackground := false } else w

theorem Sound.showTransfers (h : s.Sound) (hidle : s.main = .idle) (source target : Option ℕ) :
    ∃ t found, s.showTransfers source target = some (t, found.isSome) ∧ t.Sound ∧ t.main = .idle ∧
      (found.isSome ↔ ∃ d f, s.PointsTo d f) ∧
      (∀ f ∈ source, (∃ d, s.PointsTo d f) → found = some f) ∧
        ∀ d, t.dlg d = (s.dlg d).map (shownFor found) := by
  have hopen : ∀ d f, s.PointsTo d f → f ∈ s.ActiveFSList := by
    intro d f hpoints
    refine ((h.exists_iff f).mp (h.points d f hpoints)).resolve_right fun hclosing => ?_
    cases hidle.symm.trans hclosing
  have hours : ∀ f, s.isOurFS f = true ↔ f ∈ s.ActiveFSList := fun f => List.contains_iff_mem
  have hfs : ∀ f ∈ (source.toList ++ target.toList).filter s.isOurFS ++ s.ActiveFSList,
      f ∈ s.ActiveFSList := by
    intro f hf
    rcases List.mem_append.mp hf with hf | hf
    · exact (hours f).mp (List.mem_filter.mp hf).2
    · exact hf
  obtain ⟨found, hfound, hnone, hsome, hhead⟩ := h.firstWithTransfers hidle hfs
  have hsource : ∀ f ∈ source, (∃ d, s.PointsTo d f) → found = some f := by
    rintro f hf ⟨d, hd⟩
    obtain rfl := Option.mem_def.mp hf
    refine hhead f ?_ ⟨d, hd⟩
    rw [Option.toList_some, List.singleton_append,
      List.filter_cons_of_pos ((hours f).mpr (hopen d f hd))]
    rfl
  unfold Plugin.showTransfers
  rw [hfound, Option.bind_some]
  cases found with
  | none =>
    refine ⟨s, none, rfl, h, hidle, iff_of_false Bool.false_ne_true ?_, hsource, fun d => ?_⟩
    · rintro ⟨d, f, hpoints⟩
      exact hnone rfl f (List.mem_append_right _ (hopen d f hpoints)) d hpoints
    · have hsame : shownFor none = id := rfl
      rw [hsame, Option.map_id, id]
  | some f =>
    obtain ⟨hf, d, hd⟩ := hsome f rfl
    obtain ⟨o, ho⟩ := Option.isSome_iff_exists.mp ((h.exists_iff f).mpr (.inl hf))
    have hlists := h.lists f o ho
    have hdlgs : ∀ d ∈ o.ActiveTransferDlgs, (s.dlg d).isSome := by
      intro d hd
      obtain ⟨w, hw, -⟩ := (hlists.mem_iff d).mp hd
      rw [hw]
      rfl
    obtain ⟨t, hshow, ht, hmain, hdlg⟩ := h.showAll hdlgs
    have hshown : (!o.ActiveTransferDlgs.isEmpty) = true := by
      have hmem := (hlists.mem_iff d).mpr hd
      cases hdlgs : o.ActiveTransferDlgs with
      | nil =>
        rw [hdlgs] at hmem
        cases hmem
      | cons => rfl
    have hstep : s.showTransferDialog f = some (t, true) := by
      unfold Plugin.showTransferDialog
      rw [ho, Option.bind_some, hshow, hshown]
      rfl
    refine ⟨t, some f, hstep, ht, hmain.trans hidle,
      iff_of_true rfl ⟨d, f, hd⟩, hsource, fun d => ?_⟩
    rw [hdlg d]
    cases hw : s.dlg d with
    | none => rfl
    | some w =>
      have hiff : d ∈ o.ActiveTransferDlgs ↔ w.FS = some f :=
        (hlists.mem_iff d).trans (pointsTo_iff hw f)
      simp only [Option.map_some, shownFor, hiff, Option.isSome_some, true_and]

theorem Sound.finish (h : s.Sound) (hw : s.dlg d = some w) (hfinished : w.finished = true)
    (anything : TransferSnapshot) : ∃ t, s.finish d anything = some t ∧ t.Sound := by
  have hbegun : ¬ Fresh w := fun hfresh => Bool.false_ne_true (hfresh.finished.symm.trans hfinished)
  unfold Plugin.finish
  rw [hw, Option.bind_some]
  dsimp only
  split_ifs
  · exact h.destroyWindow hw (h.begun hw hbegun)
  · exact h.onDlg hw ⟨rfl, rfl, fun hfresh => absurd hfresh hbegun⟩

theorem Sound.cancel (h : s.Sound) (hw : s.dlg d = some w) (confirmed : Bool) :
    ∃ t, s.cancel d confirmed = some t ∧ t.Sound := by
  unfold Plugin.cancel
  rw [hw, Option.bind_some]
  split_ifs with hfinished
  · refine h.destroyWindow hw (h.begun hw fun hfresh => ?_)
    exact Bool.false_ne_true (hfresh.OperationFinished.symm.trans hfinished)
  · refine h.onDlg hw ?_
    split_ifs
    · have hkeeps := keeps_cancelWorker { w with WantCancel := true }
      exact ⟨hkeeps.FS, hkeeps.Worker, fun hfresh => hkeeps.fresh
        ⟨hfresh.FS, hfresh.Worker, hfresh.OperationFinished, hfresh.finished⟩⟩
    · exact ⟨rfl, rfl, id⟩

/-- What is done never touches a deleted object, and leaves the lists and the pointers as they
should be. -/
theorem Sound.act (h : s.Sound) {a : Act} (ha : s.Possible a) :
    ∃ t, act a s = some t ∧ t.Sound := by
  cases a with
  | openFs f => exact ⟨_, rfl, h.openFS ha.1 ha.2⟩
  | closeFs f => exact ⟨_, rfl, h.closeFS ha.1 ha.2⟩
  | destruct =>
    obtain ⟨f, hclosing⟩ := ha
    rw [act_destruct hclosing]
    exact h.destructFS hclosing
  | detached f =>
    refine ⟨_, rfl, h.setDetached fun f' hf' => ?_⟩
    obtain rfl := Option.some.inj hf'
    exact ha.2
  | attached f =>
    refine ⟨_, rfl, h.setDetached fun f' hf' => ?_⟩
    split_ifs at hf'
    · cases hf'
    · exact h.detached f' hf'
  | create f d => exact ⟨_, rfl, h.create ha.1 ha.2.1 ha.2.2⟩
  | begin_ started =>
    obtain ⟨f, d, hstarting⟩ := ha
    rw [act_begin_ hstarting]
    exact h.begin_ hstarting started
  | showTransfers source target =>
    obtain ⟨t, found, hstep, ht, -⟩ := h.showTransfers ha source target
    exact ⟨t, congrArg (Option.map Prod.fst) hstep, ht⟩
  | ends d state posted =>
    obtain ⟨w, hw, j, hj, -⟩ := ha
    refine h.onDlg hw ⟨rfl, Option.isSome_map, fun hfresh => ?_⟩
    rw [hfresh.Worker] at hj
    cases hj
  | finish d anything =>
    obtain ⟨w, hw, hfinished⟩ := ha
    exact h.finish hw hfinished anything
  | cancel d confirmed =>
    obtain ⟨w, hw, -⟩ := ha
    exact h.cancel hw confirmed
  | stop d confirmed =>
    obtain ⟨w, hw, -⟩ := ha
    refine h.onDlg hw ?_
    split_ifs
    · exact keeps_cancelWorker w
    · exact ⟨rfl, rfl, id⟩
  | background d =>
    obtain ⟨w, hw, -⟩ := ha
    exact h.onDlg hw ⟨rfl, rfl,
      fun hfresh => ⟨hfresh.FS, hfresh.Worker, hfresh.OperationFinished, hfresh.finished⟩⟩
  | check d checked =>
    obtain ⟨w, hw, -⟩ := ha
    exact (h.setCloseOnFinish checked).onDlg hw
      ⟨rfl, rfl,
        fun hfresh => ⟨hfresh.FS, hfresh.Worker, hfresh.OperationFinished, hfresh.finished⟩⟩

theorem sound_reached {b : Bool} (h : Reaches act Possible (new b) s) : s.Sound := by
  refine h.invariant (I := Sound) (fun s a t hs ha hstep => ?_) (sound_new b)
  obtain ⟨t', hstep', ht⟩ := hs.act ha
  obtain rfl := Option.some.inj (hstep'.symm.trans hstep)
  exact ht

end Pointers

/-! ## Over whole runs -/

section Runs

variable {s : Plugin} {b : Bool}

/-- Whatever was done, the lists and the pointers are as they should be, and nothing that can be
done now touches a deleted object. That is so because the threads take turns: a dialog that comes to
its end between the halves of a turn of the destructor is touched when it is gone. -/
theorem windows_safe (h : Reaches act Possible (new b) s) :
    s.Sound ∧ (∀ a, s.Possible a → ∃ t, act a s = some t) ∧
      ∀ f o d, s.fs f = some o → o.ActiveTransferDlgs.getLast? = some d →
        s.destructFS f = (s.popDlg f).bind (·.letGo d) ∧
          ((s.popDlg f).bind (·.destroyWindow d)).bind (·.letGo d) = none := by
  have hsound := sound_reached h
  refine ⟨hsound, fun a ha => ?_, fun f o d ho hlast => ?_⟩
  · obtain ⟨t, ht, -⟩ := hsound.act ha
    exact ⟨t, ht⟩
  · exact ⟨destructFS_eq_halves ho hlast, letGo_of_ended s f d⟩

theorem windows_safe_starting : (((new true).openFS 0).create 0 1).Sound ∧
    ∀ a, Possible (((new true).openFS 0).create 0 1) a →
      ∃ t, act a (((new true).openFS 0).create 0 1) = some t := by
  have hopen : Reaches act Possible (new true) ((new true).openFS 0) :=
    .single ⟨.openFs 0, ⟨rfl, rfl⟩, rfl⟩
  obtain ⟨hsound, hsafe, -⟩ :=
    windows_safe (hopen.next (a := .create 0 1) ⟨rfl, List.mem_singleton_self 0, rfl⟩ rfl)
  exact ⟨hsound, hsafe⟩

/-- "Show transfers" finds an FS with a transfer whenever there is one, the one of the source panel
before others, and shows exactly the windows of this FS. -/
theorem transfers_shown (h : Reaches act Possible (new b) s) (hidle : s.main = .idle)
    (source target : Option ℕ) :
    ∃ t found, s.showTransfers source target = some (t, found.isSome) ∧
      (found.isSome ↔ ∃ d f, s.PointsTo d f) ∧
      (∀ f ∈ source, (∃ d, s.PointsTo d f) → found = some f) ∧
        ∀ d, t.dlg d = (s.dlg d).map (shownFor found) := by
  obtain ⟨t, found, hstep, -, -, hiff, hsource, hdlg⟩ :=
    (sound_reached h).showTransfers hidle source target
  exact ⟨t, found, hstep, hiff, hsource, hdlg⟩

/-- A transfer of the FS `0` that goes on in the background. -/
theorem reaches_background :
    ∃ s w, Reaches act Possible (new false) s ∧ s.main = .idle ∧ s.dlg 1 = some w ∧
    w.FS = some 0 ∧ w.Worker = some (startedJob true) ∧ w.IsBackground = true := by
  have hopen : Reaches act Possible (new false) ((new false).openFS 0) :=
    .single ⟨.openFs 0, ⟨rfl, rfl⟩, rfl⟩
  have hcreate := hopen.next (a := .create 0 1) ⟨rfl, List.mem_singleton_self 0, rfl⟩ rfl
  have hbegin := hcreate.next (a := .begin_ true) ⟨0, 1, rfl⟩ rfl
  exact ⟨_, _, hbegin.next (a := .background 1) ⟨_, rfl, rfl, rfl⟩ rfl, rfl, rfl, rfl, rfl, rfl⟩

theorem transfers_shown_background : ∃ s t, Reaches act Possible (new false) s ∧
    s.HasDlg 1 (fun w => w.IsBackground = true) ∧ s.showTransfers (some 0) none = some (t, true) ∧
      t.HasDlg 1 fun w => w.IsBackground = false := by
  obtain ⟨s, w, hreaches, hidle, hw, hFS, -, hhidden⟩ := reaches_background
  obtain ⟨t, found, hstep, -, hsource, hdlg⟩ := transfers_shown hreaches hidle (some 0) none
  obtain rfl := hsource 0 rfl ⟨1, w, hw, hFS⟩
  refine ⟨s, t, hreaches, ⟨w, hw, hhidden⟩, hstep, { w with IsBackground := false }, ?_, rfl⟩
  rw [hdlg 1, hw, Option.map_some]
  unfold shownFor
  rw [if_pos ⟨rfl, hFS⟩]

end Runs

end Plugin

end SalamanderSftp
