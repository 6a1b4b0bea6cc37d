import SalamanderSftp.Worker.LateTasks

/-!
# Pausing the worker

The pause is kept twice: `IsPaused` is what the dialog shows, and the thread waits in
`ReportProgress` while `RunEvent` is reset. `Cancel` sets the event, and nothing keeps a later
`SetPaused` from resetting it again; `Start` sets the event and leaves `IsPaused`. Apart from these
two the pause and the event agree, and a cancelled thread does not wait.
-/

namespace SalamanderSftp

open Machine

/-- The calls are `EnqueueTask`, `Start`, `Cancel` and `SetPaused`. -/
def PauseCalls (_ : TransferWorker) : Action → Prop
  | .begin_ .stop => False
  | .begin_ .reset => False
  | _ => True

instance (w : TransferWorker) (a : Action) : Decidable (PauseCalls w a) :=
  match a with
  | .begin_ .stop | .begin_ .reset => instDecidableFalse
  | .begin_ (.enqueueTask _) | .begin_ .start | .begin_ .cancel | .begin_ (.setPaused _) =>
    instDecidableTrue
  | .call _ => instDecidableTrue
  | .thread _ => instDecidableTrue

/-- The thread waits for `RunEvent` in `ReportProgress`. -/
def waits (w : TransferWorker) : Bool :=
  match w.thread with
  | some (.executing _ _ .progress) => true
  | _ => false

/-- A call of `Cancel` is in progress and has not yet set `RunEvent`. -/
def Cancelling (w : TransferWorker) : Prop := w.call = cancelOps ∨ w.call = [.setRun, .setWake]

/-- The worker is cancelled and waits, and no event is going to wake it. -/
structure Stuck (w : TransferWorker) : Prop where
  cancelled : w.Cancelled = true
  waits : waits w = true
  paused : w.RunEvent = false
  goesOn : w.StopEvent = false
  idle : ¬ Cancelling w

/-- Between calls, `IsPaused` says whether a thread that is not cancelled may run. -/
def PauseShown (w : TransferWorker) : Prop :=
  w.call = [] → w.active = true → w.Cancelled = false → (w.IsPaused = true ↔ w.RunEvent = false)

/-- The thread may come to wait before it looks whether it is cancelled. -/
def mayWait : Option ThreadPoint → Bool
  | some (.counted _) => true
  -- The thread itself is in `Cancel`, and is still to set the event.
  | some (.executing _ _ (.cancelling (_ :: _ :: _))) => false
  | some (.executing _ _ _) => true
  | _ => false

/-- `SetPaused` does not reset the event of a cancelled thread that may come to wait, and no thread
is started while `IsPaused` is set. -/
def PauseAllowed (w : TransferWorker) : Action → Prop
  | .call answer =>
    match w.call with
    | .resetRun :: _ => w.Cancelled = true → mayWait w.thread = false
    | .createThread :: _ => answer = true → w.IsPaused = false
    | _ => True
  | _ => True

instance (w : TransferWorker) (a : Action) : Decidable (PauseAllowed w a) :=
  match a with
  | .begin_ _ => instDecidableTrue
  | .call answer => by
    unfold PauseAllowed
    rcases w.call with _ | ⟨op, ops⟩
    · exact instDecidableTrue
    · apply @Op.casesOn _ op <;> intros <;> infer_instance
  | .thread _ => instDecidableTrue

/-! ## The invariant -/

/-- The pause that is shown is that of the event. -/
def Agree (w : TransferWorker) :
    Prop := w.active = true → w.Cancelled = false → w.IsPaused = !w.RunEvent

/-- A cancelled thread does not come to wait. -/
def Released (w : TransferWorker) :
    Prop := w.Cancelled = true → w.RunEvent = false → mayWait w.thread = false

/-- What holds at each point of a call. -/
def PauseStage (w : TransferWorker) : List Op → Prop
  | [.resetRun] => w.IsPaused = true ∧ Released w
  | [.setRun] => w.IsPaused = false ∧ Released w
  | [.setRun, .setWake] => w.Cancelled = true
  | [.resetStop, .resetWake, .setRun, .startState, .createThread] => w.thread = none
  | [.resetWake, .setRun, .startState, .createThread] => w.thread = none
  | [.setRun, .startState, .createThread] => w.thread = none
  | [.startState, .createThread] => w.thread = none ∧ w.RunEvent = true
  | [.createThread] => w.thread = none ∧ w.RunEvent = true ∧ w.Cancelled = false
  | _ => Agree w ∧ Released w

/-- What holds while the thread itself is in `Cancel`. -/
def OwnCancel (w : TransferWorker) : Option ThreadPoint → Prop
  | some (.executing _ _ (.cancelling ops)) =>
    ops = cancelOps ∨ ops = [.setRun, .setWake] ∧ w.Cancelled = true ∨ ops = [.setWake] ∨ ops = []
  | _ => True

structure PauseInvariant (w : TransferWorker) : Prop where
  pending : Pending (fun c => c ≠ .stop ∧ c ≠ .reset) w.call
  goesOn : w.StopEvent = false
  own : OwnCancel w w.thread
  stage : PauseStage w w.call

theorem PauseInvariant.fresh : PauseInvariant .fresh where
  pending := .idle
  goesOn := rfl
  own := trivial
  stage := ⟨fun _ _ => rfl, fun _ _ => rfl⟩

/-! ## The steps of the plugin -/

theorem Pending.call_cases {ops : List Op} (h : Pending (fun c => c ≠ .stop ∧ c ≠ .reset) ops) :
    ops = [] ∨ ops = [.startFailed] ∨ (∃ t, ops = [.push t, .setWake]) ∨ ops = [.setWake] ∨
      ops = [.resetStop, .resetWake, .setRun, .startState, .createThread] ∨
      ops = [.resetWake, .setRun, .startState, .createThread] ∨
      ops = [.setRun, .startState, .createThread] ∨
      ops = [.startState, .createThread] ∨ ops = [.createThread] ∨ ops = cancelOps ∨
      ops = [.setRun, .setWake] ∨
      (∃ paused, ops = [.setPaused paused, if paused then .resetRun else .setRun]) ∨
      ops = [.resetRun] ∨
      ops = [.setRun] := by
  rcases h with _ | _ | ⟨c, _, ⟨hstop, hreset⟩, h⟩
  · simp
  · simp
  cases c with
  | enqueueTask t =>
    simp only [Call.ops, List.suffix_cons_iff, List.suffix_nil] at h
    rcases h with rfl | rfl | rfl <;> simp
  | start =>
    simp only [Call.ops, List.suffix_cons_iff, List.suffix_nil] at h
    rcases h with rfl | rfl | rfl | rfl | rfl | rfl <;> simp
  | cancel =>
    simp only [Call.ops, cancelOps, List.suffix_cons_iff, List.suffix_nil] at h
    rcases h with rfl | rfl | rfl | rfl <;> simp [cancelOps]
  | setPaused paused =>
    simp only [Call.ops, List.suffix_cons_iff, List.suffix_nil] at h
    rcases h with rfl | rfl | rfl
    · simp
    · rcases paused with _ | _ <;> simp
    · simp
  | stop => exact absurd rfl hstop
  | reset => exact absurd rfl hreset

theorem Pending.nil_of_resetRun {P : Call → Prop} {ops : List Op}
    (h : Pending P (.resetRun :: ops)) : ops = [] := by
  rcases h with _ | _ | ⟨c, _, -, h⟩
  rcases c with t | _ | _ | (_ | _) | _ | _ <;> simp_all [Call.ops, cancelOps, List.suffix_cons_iff]

theorem PauseInvariant.beginCall {c : Call} {w w' : TransferWorker} (h : PauseInvariant w)
    (hok : PauseCalls w (.begin_ c)) (hstep : beginCall c w = some w') : PauseInvariant w' := by
  obtain ⟨hcall, hmoves⟩ := beginCall_eq hstep
  have hstage := h.stage
  rw [hcall] at hstage
  have hbegins : Pending (fun c => c ≠ .stop ∧ c ≠ .reset) c.ops := by
    refine .within c _ ?_ List.suffix_rfl
    constructor <;> rintro rfl <;> exact hok
  rcases hmoves with rfl | ⟨hstart, -, rfl⟩ | ⟨rfl | rfl, -, rfl⟩
  · exact h
  · refine ⟨hbegins, h.goesOn, h.own, ?_⟩
    cases c with
    | start => exact absurd rfl hstart
    | stop => exact hok.elim
    | reset => exact hok.elim
    | _ => exact hstage
  · exact ⟨hbegins, h.goesOn, trivial, rfl⟩
  · exact hok.elim

theorem OwnCancel.cancel {w : TransferWorker} {p : Option ThreadPoint} (h : OwnCancel w p) :
    OwnCancel (Op.apply w .setCancelled) p := by
  unfold OwnCancel at h ⊢
  split
  · exact h.imp id (.imp (fun h => ⟨h.1, rfl⟩) id)
  · trivial

theorem PauseInvariant.callStep {answer : Bool} {w w' : TransferWorker} (h : PauseInvariant w)
    (hallowed : PauseAllowed w (.call answer)) (hstep : callStep answer w = some w') :
    PauseInvariant w' := by
  have hpending := h.pending
  have hstage := h.stage
  cases callStep_moves hstep with
  | created ops hcall =>
    rw [hcall] at hpending hstage
    obtain rfl := hpending.nil_of_createThread
    obtain ⟨hthread, hrun, hcancelled⟩ := hstage
    have hpaused : w.IsPaused = false := by simpa [PauseAllowed, hcall] using hallowed
    refine ⟨.idle, h.goesOn, trivial, fun _ _ => ?_, fun _ hno => ?_⟩
    · simp [hpaused, hrun]
    · exact absurd (hrun.symm.trans hno) (by simp)
  | notCreated ops hcall =>
    rw [hcall] at hpending hstage
    obtain rfl := hpending.nil_of_createThread
    obtain ⟨hthread, hrun, hcancelled⟩ := hstage
    refine ⟨.failing, h.goesOn, h.own, fun hactive => ?_, fun _ hno => ?_⟩
    · simp [TransferWorker.active, hthread] at hactive
    · exact absurd (hrun.symm.trans hno) (by simp)
  | joined answer ops hcall hend =>
    rw [hcall] at hpending
    rcases hpending.op_cases with hq | ⟨t, ht⟩ | hop | hop | hop | hop | hop
    · exact hq.elim
    · cases ht
    all_goals cases hop
  | applied answer op ops hcall hcreate hjoin =>
    rw [hcall] at hpending hstage
    have htail := hpending.tail
    have hown := h.own
    rcases hpending.call_cases with
      hl | hl | ⟨t, hl⟩ | hl | hl | hl | hl | hl | hl | hl | hl | ⟨paused, hl⟩ | hl | hl
    · cases hl
    · cases hl
      exact ⟨htail, h.goesOn, hown, hstage⟩
    · cases hl
      exact ⟨htail, h.goesOn, hown, hstage⟩
    · cases hl
      exact ⟨htail, h.goesOn, hown, hstage⟩
    · cases hl
      exact ⟨htail, rfl, hown, hstage⟩
    · cases hl
      exact ⟨htail, h.goesOn, hown, hstage⟩
    · cases hl
      exact ⟨htail, h.goesOn, hown, hstage, rfl⟩
    · cases hl
      exact ⟨htail, h.goesOn, hstage.1 ▸ trivial, hstage.1, hstage.2, rfl⟩
    · cases hl
      exact absurd rfl hcreate
    · cases hl
      exact ⟨htail, h.goesOn, hown.cancel, rfl⟩
    · cases hl
      have hcancelled : w.Cancelled = true := hstage
      refine ⟨htail, h.goesOn, hown, fun _ hno => ?_, fun _ hno => ?_⟩
      · exact absurd (hcancelled.symm.trans hno) (by simp)
      · cases hno
    · cases hl
      rcases paused with _ | _
      · exact ⟨htail, h.goesOn, hown, rfl, hstage.2⟩
      · exact ⟨htail, h.goesOn, hown, rfl, hstage.2⟩
    · cases hl
      refine ⟨htail, h.goesOn, hown, fun _ _ => hstage.1, fun hcancelled _ => ?_⟩
      simp only [PauseAllowed, hcall] at hallowed
      exact hallowed hcancelled
    · cases hl
      refine ⟨htail, h.goesOn, hown, fun _ _ => hstage.1, fun _ hno => ?_⟩
      cases hno

/-! ## The steps of the thread -/

theorem PauseStage.move {w w' : TransferWorker} {ops : List Op}
    (hpending : Pending (fun c => c ≠ .stop ∧ c ≠ .reset) ops)
    (h : PauseStage w ops) (hsome : w.thread ≠ none)
    (hpaused : w'.IsPaused = w.IsPaused) (hcancelled : w.Cancelled = true → w'.Cancelled = true)
    (hagree : Agree w → Agree w') (hreleased : Released w → Released w') : PauseStage w' ops := by
  rcases hpending.call_cases with
    rfl | rfl | ⟨t, rfl⟩ | rfl | rfl | rfl | rfl | rfl | rfl | rfl | rfl | ⟨paused, rfl⟩ |
    rfl | rfl
  · exact ⟨hagree h.1, hreleased h.2⟩
  · exact ⟨hagree h.1, hreleased h.2⟩
  · exact ⟨hagree h.1, hreleased h.2⟩
  · exact ⟨hagree h.1, hreleased h.2⟩
  · exact absurd h hsome
  · exact absurd h hsome
  · exact absurd h hsome
  · exact absurd h.1 hsome
  · exact absurd h.1 hsome
  · exact ⟨hagree h.1, hreleased h.2⟩
  · exact hcancelled h
  · exact ⟨hagree h.1, hreleased h.2⟩
  · exact ⟨hpaused.trans h.1, hreleased h.2⟩
  · exact ⟨hpaused.trans h.1, hreleased h.2⟩

/-- The two states have the same events and flags, but for `WakeEvent` and `HasError`. -/
structure SamePause (w w' : TransferWorker) : Prop where
  IsPaused : w'.IsPaused = w.IsPaused
  Cancelled : w'.Cancelled = w.Cancelled
  RunEvent : w'.RunEvent = w.RunEvent
  StopEvent : w'.StopEvent = w.StopEvent
  call : w'.call = w.call

theorem PauseInvariant.move {w w' : TransferWorker} {p : ThreadPoint}
    (h : PauseInvariant w) (hp : w.thread = some p)
    (hactive : p ≠ .exited) (hsame : SamePause w w') (hown : OwnCancel w' w'.thread)
    (hwait : w.Cancelled = true → mayWait w'.thread = true → mayWait (some p) = true) :
    PauseInvariant w' := by
  have hact : w.active = true := by
    rw [TransferWorker.active, hp]
    cases p <;> first | rfl | exact absurd rfl hactive
  refine ⟨hsame.call ▸ h.pending, hsame.StopEvent.trans h.goesOn, hown, ?_⟩
  rw [hsame.call]
  refine h.stage.move h.pending (by simp [hp]) hsame.IsPaused
    (fun hc => hsame.Cancelled.trans hc) ?_ ?_
  · intro hagree _ hcancelled
    rw [hsame.IsPaused, hsame.RunEvent]
    exact hagree hact (hsame.Cancelled.symm.trans hcancelled)
  · intro hreleased hcancelled hrun
    have hcancelled' := hsame.Cancelled.symm.trans hcancelled
    have hno := hreleased hcancelled' (hsame.RunEvent.symm.trans hrun)
    rw [hp] at hno
    by_contra hyes
    exact absurd (hno.symm.trans (hwait hcancelled' (by simpa using hyes))) (by simp)

theorem PauseInvariant.threadStep {answer : Answer} {w w' : TransferWorker} (h : PauseInvariant w)
    (hstep : threadStep answer w = some w') : PauseInvariant w' := by
  have hown := h.own
  have hgo := fun p => (⟨rfl, rfl, rfl, rfl, rfl⟩ : SamePause w (w.goto p))
  cases threadStep_moves hstep with
  | connected hp | goesOn _ hp | empty _ hp | timedOut hp | stillEmpty _ hp | filled _ hp
  | refused hp | stopped _ hp | stoppedIdle _ hp | dropped _ t hp | posts _ hp | exits _ hp
  | refusalNoted _ hp | notes _ hp | clears _ hp | woken _ hp | pops _ t rest hp
  | returns ok t i hp =>
    exact h.move hp (by simp) ⟨rfl, rfl, rfl, rfl, rfl⟩ trivial (fun _ hwait => by cases hwait)
  | counts _ t hp hcancelled =>
    exact h.move hp (by simp) ⟨rfl, rfl, rfl, rfl, rfl⟩ trivial
      (fun hc _ => absurd (hc.symm.trans hcancelled) (by simp))
  | begins _ t hp | beginsUnlisted _ t hp | reports t i hp | stoppedProgress _ t i hp
  | runs _ t i hp | reported _ t i hp =>
    exact h.move hp (by simp) ⟨rfl, rfl, rfl, rfl, rfl⟩ trivial (fun _ _ => rfl)
  | cancels t i hp => exact h.move hp (by simp) (hgo _) (.inl rfl) (fun _ hwait => by cases hwait)
  | cancelled _ t i hp => exact h.move hp (by simp) (hgo _) trivial (fun _ _ => rfl)
  | cancelling _ t i op ops hp =>
    rw [hp] at hown
    have hsome : w.thread ≠ none := by simp [hp]
    rcases hown with hops | ⟨hops, hcancelled⟩ | hops | hops
    · cases hops
      refine ⟨h.pending, h.goesOn, .inr (.inl ⟨rfl, rfl⟩), ?_⟩
      exact h.stage.move h.pending hsome rfl (fun _ => rfl)
        (fun _ _ hno => by cases hno) (fun _ _ _ => rfl)
    · cases hops
      refine ⟨h.pending, h.goesOn, .inr (.inr (.inl rfl)), ?_⟩
      exact h.stage.move h.pending hsome rfl id
        (fun _ _ hno => absurd (hcancelled.symm.trans hno) (by simp))
        (fun _ _ hno => by cases hno)
    · cases hops
      exact h.move hp (by simp) ⟨rfl, rfl, rfl, rfl, rfl⟩ (.inr (.inr (.inr rfl))) (fun _ _ => rfl)
    · cases hops
  | marks _ t i success hp =>
    rcases i with _ | i <;> rcases success with _ | _ <;>
      exact h.move hp (by simp) ⟨rfl, rfl, rfl, rfl, rfl⟩ trivial (fun _ hwait => by cases hwait)

theorem PauseInvariant.of_reaches {w : TransferWorker}
    (h : Reaches step (fun w a => PauseCalls w a ∧ PauseAllowed w a) .fresh w) :
    PauseInvariant w := by
  refine h.invariant (fun w a w' hinv hok hstep => ?_) .fresh
  cases a with
  | begin_ c => exact hinv.beginCall hok.1 hstep
  | call answer => exact hinv.callStep hok.2 hstep
  | thread answer => exact hinv.threadStep hstep

theorem PauseInvariant.not_stuck {w : TransferWorker} (h : PauseInvariant w) : ¬ Stuck w := by
  intro hstuck
  have hwaits := hstuck.waits
  unfold waits at hwaits
  split at hwaits
  · next t i hp =>
    have hreleased : ¬ Released w := fun hreleased => by
      have hno := hreleased hstuck.cancelled hstuck.paused
      rw [hp] at hno
      cases hno
    have hstage := h.stage
    rcases h.pending.call_cases with
      hl | hl | ⟨s, hl⟩ | hl | hl | hl | hl | hl | hl | hl | hl | ⟨paused, hl⟩ | hl | hl <;>
      rw [hl] at hstage
    · exact hreleased hstage.2
    · exact hreleased hstage.2
    · exact hreleased hstage.2
    · exact hreleased hstage.2
    · exact absurd (hp.symm.trans hstage) (by simp)
    · exact absurd (hp.symm.trans hstage) (by simp)
    · exact absurd (hp.symm.trans hstage) (by simp)
    · exact absurd (hp.symm.trans hstage.1) (by simp)
    · exact absurd (hp.symm.trans hstage.1) (by simp)
    · exact hstuck.idle (.inl hl)
    · exact hstuck.idle (.inr hl)
    · exact hreleased hstage.2
    · exact hreleased hstage.2
    · exact hreleased hstage.2
  · cases hwaits

theorem PauseInvariant.pauseShown {w : TransferWorker} (h : PauseInvariant w) : PauseShown w := by
  intro hcall hactive hcancelled
  have hstage := h.stage
  rw [hcall] at hstage
  rw [hstage.1 hactive hcancelled]
  simp

/-! ## The other steps -/

/-- No call is in progress, and neither event wakes the cancelled worker. -/
structure Doomed (w : TransferWorker) : Prop where
  idle : w.call = []
  cancelled : w.Cancelled = true
  paused : w.RunEvent = false
  goesOn : w.StopEvent = false

theorem Doomed.stuck {w : TransferWorker} {t : QueuedTask} {i : Option ℕ} (h : Doomed w)
    (hp : w.thread = some (.executing t i .progress)) : Stuck w where
  cancelled := h.cancelled
  waits := by rw [waits, hp]
  paused := h.paused
  goesOn := h.goesOn
  idle hcall := by
    rcases hcall with hcall | hcall <;> simp [cancelOps, h.idle] at hcall

theorem threadStep_executing {answer : Answer} {t : QueuedTask} {i : Option ℕ}
    {p : TaskPoint} {w : TransferWorker}
    (hp : w.thread = some (.executing t i p)) :
    step (.thread answer) w = taskStep answer t i p w := by
  rcases answer with (_ | _) | _ | _ | _ <;> simp [step, threadStep, hp]

/-- A task that reports progress then waits for ever. -/
theorem Doomed.of_busy {w : TransferWorker} {t : QueuedTask} {i : Option ℕ} (h : Doomed w)
    (hp : w.thread = some (.executing t i .busy)) : ∃ v, Reaches step PauseCalls w v ∧ Stuck v := by
  refine ⟨w.goto (.executing t i .progress), .single ⟨.thread .progress, trivial, ?_⟩, ?_⟩
  · rw [threadStep_executing hp]
    rfl
  · exact Doomed.stuck ⟨h.idle, h.cancelled, h.paused, h.goesOn⟩ rfl

theorem exists_stuck_of_step {w w' : TransferWorker} {answer : Answer}
    (hstep : step (.thread answer) w = some w')
    (h : ∃ v, Reaches step PauseCalls w' v ∧ Stuck v) :
    ∃ v, Reaches step PauseCalls w v ∧ Stuck v := by
  obtain ⟨v, hreach, hstuck⟩ := h
  exact ⟨v, .head ⟨.thread answer, trivial, hstep⟩ hreach, hstuck⟩

theorem Doomed.of_cancelled {w : TransferWorker} {t : QueuedTask} {i : Option ℕ} (h : Doomed w)
    (hp : w.thread = some (.executing t i (.cancelling []))) :
    ∃ v, Reaches step PauseCalls w v ∧ Stuck v := by
  have hbusy : Doomed (w.goto (.executing t i .busy)) := ⟨h.idle, h.cancelled, h.paused, h.goesOn⟩
  have hstep : step (.thread .timeout) w = taskStep .timeout t i (.cancelling []) w :=
    threadStep_executing hp
  exact exists_stuck_of_step hstep (hbusy.of_busy rfl)

/-- A cancelled thread that may come to wait does so when the event is reset. -/
theorem Doomed.exists_stuck {w : TransferWorker} (h : Doomed w) (hown : OwnCancel w w.thread)
    (hwait : mayWait w.thread = true) : ∃ v, Reaches step PauseCalls w v ∧ Stuck v := by
  have hgo : ∀ p, Doomed (w.goto p) := fun p => ⟨h.idle, h.cancelled, h.paused, h.goesOn⟩
  unfold mayWait at hwait
  split at hwait
  · next t hp =>
    by_cases hindex : w.CurrentTaskIndex < w.AllTasks.length
    · have hstep : step (.thread .timeout) w = some (({ w with
          CurrentTaskIndex := w.CurrentTaskIndex + 1, begun :=
            w.begun ++ [t] }.mark (some w.CurrentTaskIndex) .running).goto
          (.executing t (some w.CurrentTaskIndex) .busy)) := by
        simp [step, threadStep, hp, hindex]
      exact exists_stuck_of_step hstep
        (Doomed.of_busy ⟨h.idle, h.cancelled, h.paused, h.goesOn⟩ rfl)
    · have hstep : step (.thread .timeout) w =
          some ({ w with begun := w.begun ++ [t] }.goto (.executing t none .busy)) := by
        simp [step, threadStep, hp, hindex]
      exact exists_stuck_of_step hstep
        (Doomed.of_busy ⟨h.idle, h.cancelled, h.paused, h.goesOn⟩ rfl)
  · cases hwait
  · next t i p hnot hp =>
    have hstep : ∀ answer, step (.thread answer) w = taskStep answer t i p w :=
      fun _ => threadStep_executing hp
    cases p with
    | busy => exact h.of_busy hp
    | progress => exact ⟨w, .refl, h.stuck hp⟩
    | awake => exact exists_stuck_of_step (hstep .timeout) ((hgo _).of_busy rfl)
    | cancelling ops =>
      rw [hp] at hown
      rcases hown with hops | ⟨hops, -⟩ | hops | hops
      · exact (hnot _ _ _ (congrArg _ hops)).elim
      · exact (hnot _ _ _ (congrArg _ hops)).elim
      · obtain rfl := hops
        have hwoken : Doomed ((Op.apply w .setWake).goto (.executing t i (.cancelling []))) :=
          ⟨h.idle, h.cancelled, h.paused, h.goesOn⟩
        exact exists_stuck_of_step (hstep .timeout) (hwoken.of_cancelled rfl)
      · obtain rfl := hops
        exact h.of_cancelled hp
  · cases hwait

/-- While every step is allowed, a cancelled thread does not wait and the pause that is shown is
that of the event. From a step that is not, a state is reached in which one of the two fails. -/
theorem pause_iff_allowed {w : TransferWorker}
    (h : Reaches step (fun w a => PauseCalls w a ∧ PauseAllowed w a) .fresh w) :
    (¬ Stuck w ∧ PauseShown w) ∧
    ∀ a w', step a w = some w' → ¬ PauseAllowed w a →
      ∃ v, Reaches step PauseCalls w' v ∧ (Stuck v ∨ ¬ PauseShown v) := by
  have hinv := PauseInvariant.of_reaches h
  refine ⟨⟨hinv.not_stuck, hinv.pauseShown⟩, fun a w' hstep hnot => ?_⟩
  cases a with
  | begin_ c => exact absurd trivial hnot
  | thread answer => exact absurd trivial hnot
  | call answer =>
    have hpending := hinv.pending
    have hstage := hinv.stage
    simp only [PauseAllowed] at hnot
    split at hnot
    · next ops hcall =>
      rw [hcall] at hpending
      obtain rfl := hpending.nil_of_resetRun
      obtain ⟨hcancelled, hwait⟩ : w.Cancelled = true ∧ mayWait w.thread = true := by
        simpa using hnot
      have hresets : callStep answer w = some { Op.apply w .resetRun with call := [] } := by
        simp [callStep, hcall]
      obtain rfl := Option.some.inj (hresets.symm.trans hstep)
      have hdoomed : Doomed { Op.apply w .resetRun with call := [] } :=
        ⟨rfl, hcancelled, rfl, hinv.goesOn⟩
      obtain ⟨v, hreach, hstuck⟩ := hdoomed.exists_stuck hinv.own hwait
      exact ⟨v, hreach, .inl hstuck⟩
    · next ops hcall =>
      rw [hcall] at hpending hstage
      obtain rfl := hpending.nil_of_createThread
      obtain ⟨-, hrun, hcancelled⟩ := hstage
      obtain ⟨rfl, hpaused⟩ : answer = true ∧ w.IsPaused = true := by simpa using hnot
      have hcreates : callStep true w = some { w with thread := some .connecting, call := [] } := by
        simp [callStep, hcall]
      obtain rfl := Option.some.inj (hcreates.symm.trans hstep)
      refine ⟨_, .refl, .inr fun hshown => ?_⟩
      have hno := (hshown rfl rfl hcancelled).mp hpaused
      exact absurd (hrun.symm.trans hno) (by simp)
    · exact absurd trivial hnot

/-! ## Examples of runs -/

/-- A task is executed, the user cancels, and then presses the button for the pause. -/
def cancelsThenPauses : List Action :=
  [.begin_ (.enqueueTask aDownload), .call true, .call true, .begin_ .start,
    .call true, .call true, .call true,
    .call true, .call true, .thread (.result true), .thread .timeout,
      .thread .timeout, .thread .timeout,
    .thread .timeout, .begin_ .cancel, .call true, .call true, .call true,
      .begin_ (.setPaused true), .call true]

theorem pause_iff_allowed_cancelled :
    ∃ w, (¬ Stuck w ∧ PauseShown w) ∧ w.Cancelled = true ∧ w.call = [.resetRun] ∧
    ∃ v, Reaches step PauseCalls w v ∧ (Stuck v ∨ ¬ PauseShown v) :=
  let w :=
    (run step (fun w a => PauseCalls w a ∧ PauseAllowed w a) cancelsThenPauses .fresh).get rfl
  let w' := (step (.call true) w).get rfl
  have hreach : Reaches step (fun w a => PauseCalls w a ∧ PauseAllowed w a) .fresh w :=
    reaches_run rfl
  have hw := pause_iff_allowed hreach
  have ⟨v, hv, hbroken⟩ := hw.2 (.call true) w' rfl (by decide)
  ⟨w, hw.1, rfl, rfl, v, .head ⟨.call true, trivial, rfl⟩ hv, hbroken⟩

/-- Then the task reports progress, and the thread waits for ever. -/
theorem stuck_cancelsThenPauses : ∃ w, Reaches step PauseCalls .fresh w ∧ Stuck w := by
  refine ⟨(run step PauseCalls
    (cancelsThenPauses ++ [.call true, .thread .progress]) .fresh).get rfl,
    reaches_run rfl, rfl, rfl, rfl, rfl, ?_⟩
  rintro (h | h) <;> cases h

end SalamanderSftp
