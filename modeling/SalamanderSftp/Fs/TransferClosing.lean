import SalamanderSftp.Fs.TransferDialogs

/-!
# Which of the transfer windows can be closed

A dialog can be closed once `WM_APP_SFTP_WORKER_FINISHED` has come to it, and then only when it is
shown. The FS shows it, so without the FS a hidden one stays; and nothing comes from a worker that
was never started or is stopped with the FS (`window_closable_iff`).
-/

open Machine

namespace SalamanderSftp

namespace Plugin

/-! ## What becomes of a dialog -/

section Becomes

variable {s t u : Plugin} {d : ℕ} {w : TransferDlg} {a : Act} {anything : TransferSnapshot}

/-- A snapshot that nobody has filled in has this in it. -/
def Act.Finds (anything : TransferSnapshot) : Act → Prop
  | .finish _ found => found = anything
  | _ => True

/-- What a step may do to a dialog; `none` is its end. -/
inductive Becomes (s : Plugin) (anything : TransferSnapshot) (d : ℕ) (w : TransferDlg) :
    Option TransferDlg → Prop
  | same : Becomes s anything d w (some w)
  | released : Becomes s anything d w (some { w with FS := none, Worker := none })
  | begun (f : ℕ) (started : Bool) : s.main = .starting f d →
      Becomes s anything d w (some { w with FS := some f, Worker := some (startedJob started) })
  | shown : w.FS.isSome → Becomes s anything d w (some { w with IsBackground := false })
  | ended (j : TransferJob) (state : TransferSnapshot) (posted : Bool) : j ∈ w.Worker →
      j.IsRunning = true →
      Becomes s anything d w (some { w with Worker := some ⟨false, state⟩, finished := posted })
  | finished (shown : Bool) : w.finished = true →
      (shown = true → w.Worker = none → anything.Cancelled = false) →
      Becomes s anything d w (some { w with
        OperationFinished := true
        finished := false
        IsBackground := w.IsBackground && !shown })
  | cancelled (wantCancel : Bool) : w.IsBackground = false →
      Becomes s anything d w (some { w.cancelWorker with WantCancel := wantCancel })
  | hidden : w.IsBackground = false → Becomes s anything d w (some { w with IsBackground := true })
  | checked (b : Bool) : w.IsBackground = false →
      Becomes s anything d w (some { w with closeOnFinish := b })
  | reported : w.finished = true → (w.Worker = none → anything.Cancelled = false) →
      Becomes s anything d w none
  | closed : w.OperationFinished = true → w.IsBackground = false → Becomes s anything d w none

/-- Only the dialog whose method is called can become another. -/
theorem becomes_onDlg {d' : ℕ} {g : TransferDlg → TransferDlg}
    (hstep : u.onDlg d' g = some t) (hu : u.dlg = s.dlg)
    (hw : s.dlg d = some w) (hself : d' = d → Becomes s anything d w (some (g w))) :
    Becomes s anything d w (t.dlg d) := by
  obtain ⟨w', hw', rfl⟩ := Option.map_eq_some_iff.mp hstep
  by_cases hne : d = d'
  · subst hne
    obtain rfl := Option.some.inj (hw.symm.trans ((congrFun hu d).symm.trans hw'))
    rw [setDlg_self]
    exact hself rfl
  · rw [setDlg_of_ne hne, hu, hw]
    exact .same

/-- Only the dialog that is closed can come to its end. -/
theorem becomes_destroyWindow {d' : ℕ} (hstep : s.destroyWindow d' = some t) (hw : s.dlg d = some w)
    (hself : d' = d → Becomes s anything d w none) : Becomes s anything d w (t.dlg d) := by
  rw [dlg_destroyWindow hstep]
  by_cases hne : d = d'
  · rw [hne, Function.update_self]
    rw [hne] at hself
    exact hself rfl
  · rw [Function.update_of_ne hne, hw]
    exact .same

theorem becomes_destructFS {f : ℕ} (hstep : s.destructFS f = some t) (hw : s.dlg d = some w) :
    Becomes s anything d w (t.dlg d) := by
  obtain ⟨o, -, hrest⟩ := Option.bind_eq_some_iff.mp hstep
  split at hrest
  · obtain rfl := Option.some.inj hrest
    rw [setFs_dlg, hw]
    exact .same
  · exact becomes_onDlg hrest rfl hw fun _ => .released

theorem becomes_begin_ {f d' : ℕ} {started : Bool} (hstarting : s.main = .starting f d')
    (hstep : s.begin_ f d' started = some t) (hw : s.dlg d = some w) :
    Becomes s anything d w (t.dlg d) := by
  obtain ⟨u, hu, hrest⟩ := Option.bind_eq_some_iff.mp hstep
  rw [dlg_onFs hrest]
  refine becomes_onDlg hu rfl hw ?_
  rintro rfl
  exact .begun f started hstarting

theorem becomes_finish {d' : ℕ} (hpossible : s.HasDlg d' fun w => w.finished = true)
    (hstep : s.finish d' anything = some t) (hw : s.dlg d = some w) :
    Becomes s anything d w (t.dlg d) := by
  obtain ⟨w', hw', hfinished⟩ := hpossible
  have hsame : d' = d → w' = w := by
    rintro rfl
    exact Option.some.inj (hw'.symm.trans hw)
  unfold Plugin.finish at hstep
  rw [hw', Option.bind_some] at hstep
  dsimp only at hstep
  split_ifs at hstep with hclose
  · refine becomes_destroyWindow hstep hw fun hd => ?_
    obtain rfl := hsame hd
    refine .reported hfinished fun hnone => ?_
    rw [hnone] at hclose
    simpa using (Bool.and_eq_true_iff.mp hclose).2
  · refine becomes_onDlg hstep rfl hw fun hd => ?_
    obtain rfl := hsame hd
    refine .finished _ hfinished fun hshown hnone => ?_
    rw [hnone] at hshown
    simpa using (Bool.and_eq_true_iff.mp hshown).2

theorem becomes_cancel {d' : ℕ} {confirmed : Bool}
    (hpossible : s.HasDlg d' fun w => w.IsBackground = false)
    (hstep : s.cancel d' confirmed = some t) (hw : s.dlg d = some w) :
    Becomes s anything d w (t.dlg d) := by
  obtain ⟨w', hw', hvisible⟩ := hpossible
  have hsame : d' = d → w' = w := by
    rintro rfl
    exact Option.some.inj (hw'.symm.trans hw)
  unfold Plugin.cancel at hstep
  rw [hw', Option.bind_some] at hstep
  split_ifs at hstep with hfinished
  · refine becomes_destroyWindow hstep hw fun hd => ?_
    obtain rfl := hsame hd
    exact .closed hfinished hvisible
  · refine becomes_onDlg hstep rfl hw fun hd => ?_
    obtain rfl := hsame hd
    split_ifs
    · exact .cancelled true hvisible
    · exact .same

theorem Sound.becomes (h : s.Sound) (ha : s.Possible a) (hfinds : a.Finds anything)
    (hstep : Plugin.act a s = some t)
    (hw : s.dlg d = some w) : Becomes s anything d w (t.dlg d) := by
  have hsame : t.dlg = s.dlg → Becomes s anything d w (t.dlg d) := by
    intro hdlg
    rw [hdlg, hw]
    exact .same
  cases a with
  | openFs | closeFs | detached | attached =>
    obtain rfl := Option.some.inj hstep
    exact hsame rfl
  | destruct =>
    obtain ⟨f, hclosing⟩ := ha
    rw [act_destruct hclosing] at hstep
    exact becomes_destructFS hstep hw
  | create f d' =>
    obtain rfl := Option.some.inj hstep
    have hne : d ≠ d' := by
      rintro rfl
      cases hw.symm.trans ha.2.2
    have hdlg : (s.create f d').dlg d = s.dlg d := setDlg_of_ne hne _
    rw [hdlg, hw]
    exact .same
  | begin_ started =>
    obtain ⟨f, d', hstarting⟩ := ha
    rw [act_begin_ hstarting] at hstep
    exact becomes_begin_ hstarting hstep hw
  | showTransfers source target =>
    obtain ⟨t', found, hshow, -, -, -, -, hdlg⟩ := h.showTransfers ha source target
    obtain rfl := Option.some.inj ((congrArg (Option.map Prod.fst) hshow).symm.trans hstep)
    rw [hdlg d, hw, Option.map_some]
    unfold shownFor
    split_ifs with hfound
    · refine .shown ?_
      rw [hfound.2]
      exact hfound.1
    · exact .same
  | ends d' state posted =>
    obtain ⟨w', hw', j, hj, hrunning⟩ := ha
    refine becomes_onDlg hstep rfl hw ?_
    rintro rfl
    obtain rfl := Option.some.inj (hw'.symm.trans hw)
    rw [Option.mem_def.mp hj]
    exact .ended j _ posted hj hrunning
  | finish d' found =>
    obtain rfl := hfinds
    exact becomes_finish ha hstep hw
  | cancel d' confirmed => exact becomes_cancel ha hstep hw
  | stop d' confirmed =>
    obtain ⟨w', hw', hvisible⟩ := ha
    refine becomes_onDlg hstep rfl hw ?_
    rintro rfl
    obtain rfl := Option.some.inj (hw'.symm.trans hw)
    split_ifs
    · exact .cancelled _ hvisible
    · exact .same
  | background d' =>
    obtain ⟨w', hw', hvisible, -⟩ := ha
    refine becomes_onDlg hstep rfl hw ?_
    rintro rfl
    obtain rfl := Option.some.inj (hw'.symm.trans hw)
    exact .hidden hvisible
  | check d' checked =>
    obtain ⟨w', hw', hvisible⟩ := ha
    refine becomes_onDlg hstep rfl hw ?_
    rintro rfl
    obtain rfl := Option.some.inj (hw'.symm.trans hw)
    exact .checked checked hvisible

theorem main_onDlg {g : TransferDlg → TransferDlg} (hstep : s.onDlg d g = some t) :
    t.main = s.main := by
  obtain ⟨w, -, rfl⟩ := Option.map_eq_some_iff.mp hstep
  rfl

theorem main_onFs {f : ℕ} {g : FsTransfers → FsTransfers} (hstep : s.onFs f g = some t) :
    t.main = s.main := by
  obtain ⟨o, -, rfl⟩ := Option.map_eq_some_iff.mp hstep
  rfl

theorem main_destroyWindow (hstep : s.destroyWindow d = some t) : t.main = s.main := by
  obtain ⟨w, -, hrest⟩ := Option.bind_eq_some_iff.mp hstep
  rcases hFS : w.FS with _ | f
  · rw [hFS] at hrest
    obtain rfl := Option.some.inj hrest
    rfl
  · rw [hFS] at hrest
    exact main_onFs (s := s.setDlg d none) hrest

/-- A transfer that is about to begin was so before, or its dialog was not there. -/
theorem Sound.starting_before (h : s.Sound) (ha : s.Possible a)
    (hstep : Plugin.act a s = some t) {f : ℕ}
    (hstarting : t.main = .starting f d) : s.main = .starting f d ∨ s.dlg d = none := by
  have hkept : t.main = s.main → s.main = .starting f d ∨ s.dlg d = none := fun hmain =>
    .inl (hmain.symm.trans hstarting)
  cases a with
  | openFs | detached | attached =>
    obtain rfl := Option.some.inj hstep
    exact hkept rfl
  | closeFs =>
    obtain rfl := Option.some.inj hstep
    cases hstarting
  | destruct =>
    obtain ⟨f', hclosing⟩ := ha
    rw [act_destruct hclosing] at hstep
    obtain ⟨o, -, hrest⟩ := Option.bind_eq_some_iff.mp hstep
    split at hrest
    · obtain rfl := Option.some.inj hrest
      cases hstarting
    · exact hkept (main_onDlg (s := s.setFs f' _) hrest)
  | create f' d' =>
    obtain rfl := Option.some.inj hstep
    obtain ⟨-, rfl⟩ := MainPoint.starting.inj hstarting
    exact .inr ha.2.2
  | begin_ started =>
    obtain ⟨f', d', hbefore⟩ := ha
    rw [act_begin_ hbefore] at hstep
    obtain ⟨u, hu, hrest⟩ := Option.bind_eq_some_iff.mp hstep
    rw [main_onFs hrest, main_onDlg hu] at hstarting
    cases hstarting
  | showTransfers source target =>
    obtain ⟨t', found, hshow, -, hidle, -⟩ := h.showTransfers ha source target
    obtain rfl := Option.some.inj ((congrArg (Option.map Prod.fst) hshow).symm.trans hstep)
    cases hidle.symm.trans hstarting
  | finish d' found =>
    obtain ⟨w', -, hrest⟩ := Option.bind_eq_some_iff.mp hstep
    dsimp only at hrest
    split_ifs at hrest
    · exact hkept (main_destroyWindow hrest)
    · exact hkept (main_onDlg hrest)
  | cancel d' confirmed =>
    obtain ⟨w', -, hrest⟩ := Option.bind_eq_some_iff.mp hstep
    split_ifs at hrest
    · exact hkept (main_destroyWindow hrest)
    · exact hkept (main_onDlg hrest)
  | ends | stop | background => exact hkept (main_onDlg hstep)
  | check d' checked =>
    exact hkept (main_onDlg (s := { s with SftpCloseTransferDlgOnFinish := checked }) hstep)

end Becomes

/-! ## Windows that stay -/

section Closable

variable {s t : Plugin} {d : ℕ} {w : TransferDlg} {a : Act} {anything : TransferSnapshot}

/-- The FS of a hidden window is gone, or the end of the transfer has not been reported and will not
be. -/
def Lost (w : TransferDlg) : Prop :=
  w.FS = none ∧ w.IsBackground = true ∨
    w.finished = false ∧ w.OperationFinished = false ∧ ∀ j ∈ w.Worker, j.IsRunning = false

/-- There is a way on, with this in a snapshot that nobody has filled in, on which the window comes
to its end. -/
def Closable (s : Plugin) (d : ℕ) (anything : TransferSnapshot) : Prop :=
  ∃ t, Reaches act (fun s a => s.Possible a ∧ a.Finds anything) s t ∧ t.dlg d = none

theorem Lost.becomes (hlost : Lost w) (hworker : w.FS.isSome ↔ w.Worker.isSome)
    (hmain : ∀ f, s.main ≠ .starting f d)
    (hanything : anything.Cancelled = true) {v : Option TransferDlg}
    (hbecomes : Becomes s anything d w v) :
    ∃ w' ∈ v, Lost w' := by
  have hnone : w.FS = none → w.Worker = none := by
    intro hFS
    rw [hFS] at hworker
    exact Option.not_isSome_iff_eq_none.mp fun hsome => Bool.false_ne_true (hworker.mpr hsome)
  have hfilled : ¬ (w.FS = none ∧ (w.Worker = none → anything.Cancelled = false)) :=
    fun ⟨hFS, hfound⟩ =>
    Bool.false_ne_true ((hfound (hnone hFS)).symm.trans hanything)
  cases hbecomes with
  | same => exact ⟨w, rfl, hlost⟩
  | released =>
    refine ⟨_, rfl, hlost.imp (fun ⟨_, hhidden⟩ => ⟨rfl, hhidden⟩) fun ⟨hfinished, hopen, _⟩ => ?_⟩
    exact ⟨hfinished, hopen, nofun⟩
  | begun f started hstarting => exact absurd hstarting (hmain f)
  | shown hFS =>
    refine ⟨_, rfl, hlost.imp_left fun ⟨hnoFS, _⟩ => ?_⟩
    rw [hnoFS] at hFS
    cases hFS
  | ended j state posted hj hrunning =>
    rcases hlost with ⟨hFS, -⟩ | ⟨-, -, hstopped⟩
    · rw [hnone hFS] at hj
      cases hj
    · exact absurd ((hstopped j hj).symm.trans hrunning) Bool.false_ne_true
  | finished shown hfinished hfound =>
    rcases hlost with ⟨hFS, hhidden⟩ | ⟨hunfinished, -⟩
    · refine ⟨_, rfl, .inl ⟨hFS, ?_⟩⟩
      have hkept : shown = false := by
        rw [← Bool.not_eq_true]
        exact fun hshown => hfilled ⟨hFS, hfound hshown⟩
      rw [hhidden, hkept]
      rfl
    · exact absurd (hunfinished.symm.trans hfinished) Bool.false_ne_true
  | cancelled wantCancel hvisible =>
    rcases hlost with ⟨-, hhidden⟩ | ⟨hunfinished, hopen, hstopped⟩
    · exact absurd (hvisible.symm.trans hhidden) Bool.false_ne_true
    · refine ⟨_, rfl, .inr ⟨hunfinished, hopen, fun j hj => ?_⟩⟩
      obtain ⟨j', hj', rfl⟩ := Option.map_eq_some_iff.mp hj
      exact hstopped j' hj'
  | hidden hvisible =>
    exact ⟨_, rfl, hlost.imp_left fun ⟨hFS, _⟩ => ⟨hFS, rfl⟩⟩
  | checked b hvisible => exact ⟨_, rfl, hlost⟩
  | reported hfinished hfound =>
    rcases hlost with ⟨hFS, -⟩ | ⟨hunfinished, -⟩
    · exact absurd ⟨hFS, hfound⟩ hfilled
    · exact absurd (hunfinished.symm.trans hfinished) Bool.false_ne_true
  | closed hfinished hvisible =>
    rcases hlost with ⟨-, hhidden⟩ | ⟨-, hopen, -⟩
    · exact absurd (hvisible.symm.trans hhidden) Bool.false_ne_true
    · exact absurd (hopen.symm.trans hfinished) Bool.false_ne_true

/-- A lost window is never closed if its snapshot happens to say that the transfer was cancelled. -/
theorem Lost.not_closable (hlost : Lost w) (h : s.Sound)
    (hmain : ∀ f, s.main ≠ .starting f d) (hw : s.dlg d = some w)
    (hanything : anything.Cancelled = true) : ¬ s.Closable d anything := by
  rintro ⟨t, hreaches, hgone⟩
  obtain ⟨-, -, w', hw', -⟩ := hreaches.invariant
    (I := fun t => t.Sound ∧ (∀ f, t.main ≠ .starting f d) ∧ ∃ w, t.dlg d = some w ∧ Lost w)
    (fun u a v ⟨hu, hbegun, w, hw, hlost⟩ ⟨ha, hfinds⟩ hstep => by
      obtain ⟨v', hstep', hv⟩ := hu.act ha
      obtain rfl := Option.some.inj (hstep'.symm.trans hstep)
      refine ⟨hv, fun f hstarting => ?_, ?_⟩
      · rcases hu.starting_before ha hstep hstarting with hbefore | hnone
        · exact hbegun f hbefore
        · cases hw.symm.trans hnone
      · obtain ⟨w', hw', hlost'⟩ :=
        hlost.becomes (hu.worker d w hw) hbegun hanything (hu.becomes ha hfinds hstep hw)
        exact ⟨w', hw', hlost'⟩) ⟨h, hmain, w, hw, hlost⟩
  cases hw'.symm.trans hgone

/-! ## Windows that can be closed -/

theorem Closable.of_act (ha : s.Possible a) (hfinds : a.Finds anything) (hstep : act a s = some t)
    (ht : t.Closable d anything) : s.Closable d anything := by
  obtain ⟨u, hreaches, hgone⟩ := ht
  exact ⟨u, hreaches.head ⟨a, ⟨ha, hfinds⟩, hstep⟩, hgone⟩

/-- Once the window is destroyed there is nothing left to do. -/
theorem Sound.closable_of_destroyWindow (h : s.Sound) (ha : s.Possible a)
    (hfinds : a.Finds anything)
    (hstep : Plugin.act a s = s.destroyWindow d) : s.Closable d anything := by
  obtain ⟨t, ht, -⟩ := h.act ha
  refine Closable.of_act ha hfinds ht ⟨t, .refl, ?_⟩
  rw [dlg_destroyWindow (hstep.symm.trans ht), Function.update_self]

theorem Sound.closable_of_visible (h : s.Sound) (hw : s.dlg d = some w)
    (hfinished : w.OperationFinished = true)
    (hvisible : w.IsBackground = false) : s.Closable d anything := by
  refine h.closable_of_destroyWindow (a := .cancel d true) ⟨w, hw, hvisible⟩ trivial ?_
  show s.cancel d true = _
  unfold Plugin.cancel
  rw [hw, Option.bind_some, if_pos hfinished]

/-- A window that is hidden is shown first. -/
theorem Sound.closable_of_finished (h : s.Sound) (hidle : s.main = .idle) (hw : s.dlg d = some w)
    (hfinished : w.OperationFinished = true) (hfound : ¬ (w.FS = none ∧ w.IsBackground = true)) :
    s.Closable d anything := by
  cases hvisible : w.IsBackground with
  | false => exact h.closable_of_visible hw hfinished hvisible
  | true =>
    obtain ⟨f, hFS⟩ := Option.ne_none_iff_exists'.mp fun hnone => hfound ⟨hnone, hvisible⟩
    obtain ⟨t, found, hshow, ht, -, -, hsource, hdlg⟩ := h.showTransfers hidle (some f) none
    have hhas : found = some f := hsource f rfl ⟨d, w, hw, hFS⟩
    refine Closable.of_act (a := .showTransfers (some f) none) hidle trivial
      (congrArg (Option.map Prod.fst) hshow) ?_
    have hw' : t.dlg d = some { w with IsBackground := false } := by
      rw [hdlg d, hw, Option.map_some, hhas]
      unfold shownFor
      rw [if_pos ⟨rfl, hFS⟩]
    exact ht.closable_of_visible hw' hfinished rfl

/-- Once the end is reported the window closes by itself, or it can be closed. -/
theorem Sound.closable_of_reported (h : s.Sound) (hidle : s.main = .idle) (hw : s.dlg d = some w)
    (hfinished : w.finished = true) (hfound : ¬ (w.FS = none ∧ w.IsBackground = true)) :
    s.Closable d anything := by
  have ha : s.Possible (.finish d anything) := ⟨w, hw, hfinished⟩
  have hstep : Plugin.act (.finish d anything) s = s.finish d anything := rfl
  unfold Plugin.finish at hstep
  rw [hw, Option.bind_some] at hstep
  dsimp only at hstep
  split_ifs at hstep
  · exact h.closable_of_destroyWindow ha rfl hstep
  · rw [onDlg_eq hw] at hstep
    obtain ⟨t, ht, hsound⟩ := h.act ha
    obtain rfl := Option.some.inj (hstep.symm.trans ht)
    refine Closable.of_act ha rfl hstep (hsound.closable_of_finished hidle (setDlg_self _ _) rfl ?_)
    rintro ⟨hFS, hhidden⟩
    exact hfound ⟨hFS, (Bool.and_eq_true_iff.mp hhidden).1⟩

theorem Sound.closable_of_running (h : s.Sound) (hidle : s.main = .idle)
    (hw : s.dlg d = some w) {j : TransferJob}
    (hj : j ∈ w.Worker) (hrunning : j.IsRunning = true)
    (hfound : ¬ (w.FS = none ∧ w.IsBackground = true)) :
    s.Closable d anything := by
  have ha : s.Possible (.ends d j.state true) := ⟨w, hw, j, hj, hrunning⟩
  obtain ⟨t, ht, hsound⟩ := h.act ha
  have hstep := ht
  rw [show Plugin.act (.ends d j.state true) s = some (s.setDlg d _) from onDlg_eq hw _] at hstep
  obtain rfl := Option.some.inj hstep
  exact Closable.of_act ha trivial ht
    (hsound.closable_of_reported hidle (setDlg_self _ _) rfl hfound)

end Closable

/-! ## Over whole runs -/

/-- A window can be closed unless it is lost, whatever is in a snapshot that nobody has filled
in. -/
theorem window_closable_iff {s : Plugin} {b : Bool}
    (h : Reaches act Possible (new b) s) (hidle : s.main = .idle)
    {d : ℕ} {w : TransferDlg} (hw : s.dlg d = some w) :
    (∀ anything, s.Closable d anything) ↔ ¬ Lost w := by
  have hsound := sound_reached h
  constructor
  · intro hclosable hlost
    have hbegun : ∀ f, s.main ≠ .starting f d := by
      intro f hstarting
      cases hidle.symm.trans hstarting
    exact hlost.not_closable hsound hbegun hw rfl (hclosable ⟨true, false, false⟩)
  · intro hlost anything
    obtain ⟨hfound, hends⟩ := not_or.mp hlost
    by_cases hreported : w.finished = true
    · exact hsound.closable_of_reported hidle hw hreported hfound
    by_cases hfinished : w.OperationFinished = true
    · exact hsound.closable_of_finished hidle hw hfinished hfound
    obtain ⟨j, hj, hrunning⟩ : ∃ j ∈ w.Worker, j.IsRunning = true := by
      by_contra hnone
      push Not at hnone
      exact hends ⟨Bool.eq_false_of_not_eq_true hreported,
        Bool.eq_false_of_not_eq_true hfinished, fun j hj =>
        Bool.eq_false_of_not_eq_true (hnone j hj)⟩
    exact hsound.closable_of_running hidle hw hj hrunning hfound

theorem window_closable_background : ∃ s, Reaches act Possible (new false) s ∧
    s.HasDlg 1 (fun w => w.IsBackground = true) ∧ ∀ anything, s.Closable 1 anything := by
  obtain ⟨s, w, hreaches, hidle, hw, hFS, hworker, hhidden⟩ := reaches_background
  refine ⟨s, hreaches, ⟨w, hw, hhidden⟩, (window_closable_iff hreaches hidle hw).mpr ?_⟩
  rintro (⟨hnoFS, -⟩ | ⟨-, -, hstopped⟩)
  · cases hFS.symm.trans hnoFS
  · exact Bool.false_ne_true (hstopped (startedJob true) hworker).symm

end Plugin

end SalamanderSftp
