import SalamanderSftp.Worker.Alignment

/-!
# Tasks that are enqueued while the worker runs

No call but `EnqueueTask` and the one `Start` is made, and every task succeeds. The thread leaves
its loop when it has found the queue empty, and clears `IsRunning` only later: a task that is
enqueued in between is never executed, and every other one is.
-/

namespace SalamanderSftp

open Machine

/-- Tasks are enqueued at any time, the worker is started once, it connects, and nothing fails or is
cancelled. -/
def OnlyEnqueues (w : TransferWorker) : Action → Prop
  | .begin_ (.enqueueTask _) => True
  | .begin_ .start => w.thread = none
  | .begin_ _ => False
  | .call _ => True
  | .thread answer => answer ≠ .result false ∧ answer ≠ .cancel

instance (w : TransferWorker) (a : Action) : Decidable (OnlyEnqueues w a) :=
  match a with
  | .begin_ (.enqueueTask _) => instDecidableTrue
  | .begin_ .start => inferInstanceAs (Decidable (w.thread = none))
  | .begin_ .cancel | .begin_ (.setPaused _) | .begin_ .stop | .begin_ .reset => instDecidableFalse
  | .call _ => instDecidableTrue
  | .thread answer => inferInstanceAs (Decidable (answer ≠ .result false ∧ answer ≠ .cancel))

/-- The step enqueues no task after the thread has left its loop and before it clears
`IsRunning`. -/
def NotTooLate (w : TransferWorker) : Action → Prop
  | .call _ =>
    match w.call with
    | .push _ :: _ =>
      match w.thread with
      | some .leaving => False
      | _ => True
    | _ => True
  | _ => True

instance (w : TransferWorker) (a : Action) : Decidable (NotTooLate w a) :=
  match a with
  | .begin_ _ => instDecidableTrue
  | .call answer => by
    unfold NotTooLate
    rcases w.call with _ | ⟨op, ops⟩
    · exact instDecidableTrue
    · rcases w.thread with _ | p
      · apply @Op.casesOn _ op <;> intros <;> exact instDecidableTrue
      · apply @Op.casesOn _ op
        case push => exact fun _ => by apply @ThreadPoint.casesOn _ p <;> intros <;> infer_instance
        all_goals intros; exact instDecidableTrue
  | .thread _ => instDecidableTrue

/-- Every task that was enqueued before `IsRunning` was cleared has been executed. -/
def AllExecuted (w : TransferWorker) : Prop := w.executed.map Prod.fst = w.accepted

/-! ## The invariant -/

/-- What of the accepted tasks has not been executed. -/
def QueueStage (w : TransferWorker) : Option ThreadPoint → Prop
  | some (.taken t) => w.accepted = w.executed.map Prod.fst ++ t :: w.TaskQueue
  | some (.counted t) => w.accepted = w.executed.map Prod.fst ++ t :: w.TaskQueue
  | some (.executing t _ p) =>
    w.accepted = w.executed.map Prod.fst ++ t :: w.TaskQueue ∧
      match p with
      | .cancelling _ => False
      | _ => True
  | some (.returned _ _ success) =>
    w.accepted = w.executed.map Prod.fst ++ w.TaskQueue ∧ success = true
  | some .connectFailed => False
  | some .failed => False
  | some .posting => w.executed.map Prod.fst <+: w.accepted
  | some .posted => w.executed.map Prod.fst <+: w.accepted
  | some .exited => w.executed.map Prod.fst <+: w.accepted
  | _ => w.accepted = w.executed.map Prod.fst ++ w.TaskQueue

structure QueueInvariant (w : TransferWorker) : Prop where
  stage : QueueStage w w.thread
  goesOn : w.StopEvent = false
  uncancelled : w.Cancelled = false
  pending : Pending (fun c => c = .start ∨ ∃ t, c = .enqueueTask t) w.call
  idle : .createThread ∈ w.call → w.thread = none

theorem QueueInvariant.fresh : QueueInvariant .fresh where
  stage := rfl
  goesOn := rfl
  uncancelled := rfl
  pending := .idle
  idle _ := rfl

theorem QueueStage.congr {w w' : TransferWorker} {p : Option ThreadPoint} (h : QueueStage w p)
    (hqueue : w'.TaskQueue = w.TaskQueue) (haccepted : w'.accepted = w.accepted)
    (hexecuted : w'.executed = w.executed) :
    QueueStage w' p := by
  unfold QueueStage at h ⊢
  rw [hqueue, haccepted, hexecuted]
  exact h

/-- A task that is enqueued is the last of the queue, and accepted unless `IsRunning` has been
cleared. -/
theorem QueueStage.push {w : TransferWorker} (h : QueueStage w w.thread) (t : QueuedTask) :
    QueueStage (Op.apply w (.push t)) w.thread := by
  rcases hp : w.thread with _ | p
  · rw [hp] at h
    simp only [QueueStage] at h
    simp [QueueStage, Op.apply, TransferWorker.ended, hp, h]
  rw [hp] at h
  cases p with
  | connectFailed | failed => exact h.elim
  | posting | posted | exited => simpa [QueueStage, Op.apply, TransferWorker.ended, hp] using h
  | executing s i p => exact ⟨by simp [Op.apply, TransferWorker.ended, hp, h.1], h.2⟩
  | returned s i success => exact ⟨by simp [Op.apply, TransferWorker.ended, hp, h.1], h.2⟩
  | _ =>
    simp only [QueueStage] at h
    simp [QueueStage, Op.apply, TransferWorker.ended, hp, h]

/-- The calls have no operation but these. -/
theorem Pending.enqueue_cases {op : Op} {ops : List Op}
    (h : Pending (fun c => c = .start ∨ ∃ t, c = .enqueueTask t) (op :: ops)) :
    (∃ t, op = .push t) ∨ op = .setWake ∨ op = .resetStop ∨ op = .resetWake ∨
    op = .setRun ∨ op = .startState ∨
      op = .createThread ∨ op = .startFailed := by
  rcases h with _ | _ | ⟨c, _, hc, h⟩
  · simp
  have hop : op ∈ c.ops := h.subset List.mem_cons_self
  rcases hc with rfl | ⟨t, rfl⟩
  · simp only [Call.ops, List.mem_cons, List.not_mem_nil, or_false] at hop
    rcases hop with rfl | rfl | rfl | rfl | rfl <;> simp
  · rcases List.mem_pair.mp hop with rfl | rfl <;> simp

theorem QueueInvariant.beginCall {c : Call} {w w' : TransferWorker} (h : QueueInvariant w)
    (hok : OnlyEnqueues w (.begin_ c)) (hstep : beginCall c w = some w') : QueueInvariant w' := by
  have hallowed : c = .start ∧ w.thread = none ∨ ∃ t, c = .enqueueTask t := by
    cases c with
    | start => exact .inl ⟨rfl, hok⟩
    | enqueueTask t => exact .inr ⟨t, rfl⟩
    | _ => exact hok.elim
  have hbegins : QueueInvariant { w with call := c.ops } := by
    refine ⟨h.stage.congr rfl rfl rfl, h.goesOn, h.uncancelled,
      .within c _ (hallowed.imp And.left id) List.suffix_rfl,
      fun hop => ?_⟩
    rcases hallowed with ⟨-, hthread⟩ | ⟨t, rfl⟩
    · exact hthread
    · simp [Call.ops] at hop
  obtain ⟨-, rfl | ⟨-, -, rfl⟩ | ⟨hc, -, rfl⟩⟩ := beginCall_eq hstep
  · exact h
  · exact hbegins
  · rcases hallowed with ⟨-, hthread⟩ | ⟨t, rfl⟩
    · rw [← hthread]
      exact hbegins
    · rcases hc with hc | hc <;> cases hc

theorem QueueInvariant.callStep {answer : Bool} {w w' : TransferWorker} (h : QueueInvariant w)
    (hstep : callStep answer w = some w') : QueueInvariant w' := by
  have hpending := h.pending
  have hidle := h.idle
  cases callStep_moves hstep with
  | created ops hcall =>
    rw [hcall] at hpending hidle
    obtain rfl := hpending.nil_of_createThread
    have hstage := h.stage
    rw [hidle List.mem_cons_self] at hstage
    exact ⟨hstage, h.goesOn, h.uncancelled, .idle, by simp⟩
  | notCreated ops hcall =>
    exact ⟨h.stage.congr rfl rfl rfl, h.goesOn, h.uncancelled, .failing, by simp⟩
  | joined answer ops hcall hend =>
    rw [hcall] at hpending
    rcases hpending.enqueue_cases with ⟨t, ht⟩ | hop | hop | hop | hop | hop | hop | hop
    · cases ht
    all_goals cases hop
  | applied answer op ops hcall hcreate hjoin =>
    rw [hcall] at hpending hidle
    have hthread : ({ op.apply w with call := ops } : TransferWorker).thread = w.thread :=
      op.apply_thread w
    have hrest : .createThread ∈ ops → w.thread = none :=
      fun hop => hidle (List.mem_cons_of_mem _ hop)
    rcases hpending.enqueue_cases with ⟨t, rfl⟩ | rfl | rfl | rfl | rfl | rfl | rfl | rfl
    · exact ⟨hthread ▸ (h.stage.push t).congr rfl rfl rfl, h.goesOn, h.uncancelled,
        hpending.tail, hthread ▸ hrest⟩
    · exact ⟨h.stage.congr rfl rfl rfl, h.goesOn, h.uncancelled, hpending.tail, hrest⟩
    · exact ⟨h.stage.congr rfl rfl rfl, rfl, h.uncancelled, hpending.tail, hrest⟩
    · exact ⟨h.stage.congr rfl rfl rfl, h.goesOn, h.uncancelled, hpending.tail, hrest⟩
    · exact ⟨h.stage.congr rfl rfl rfl, h.goesOn, h.uncancelled, hpending.tail, hrest⟩
    · exact ⟨h.stage.congr rfl rfl rfl, h.goesOn, rfl, hpending.tail, hrest⟩
    · exact absurd rfl hcreate
    · exact ⟨h.stage.congr rfl rfl rfl, h.goesOn, h.uncancelled, hpending.tail, hrest⟩

theorem QueueInvariant.move {w w' : TransferWorker} {p : ThreadPoint}
    (h : QueueInvariant w) (hp : w.thread = some p)
    (hstop : w'.StopEvent = w.StopEvent) (hcancelled : w'.Cancelled = w.Cancelled)
    (hcall : w'.call = w.call)
    (hstage : QueueStage w' w'.thread) : QueueInvariant w' where
  stage := hstage
  goesOn := hstop.trans h.goesOn
  uncancelled := hcancelled.trans h.uncancelled
  pending := hcall ▸ h.pending
  idle hop := by
    have hnone := h.idle (hcall ▸ hop)
    rw [hp] at hnone
    cases hnone

theorem QueueInvariant.threadStep {answer : Answer} {w w' : TransferWorker} (h : QueueInvariant w)
    (hok : OnlyEnqueues w (.thread answer)) (hstep : threadStep answer w = some w') :
    QueueInvariant w' := by
  have hstage := h.stage
  cases threadStep_moves hstep with
  | connected hp | goesOn _ hp | empty _ hp | woken _ hp | timedOut hp | stillEmpty _ hp
  | filled _ hp | counts _ t hp | posts _ hp | exits _ hp =>
    rw [hp] at hstage
    exact h.move hp rfl rfl rfl hstage
  | begins _ t hp | beginsUnlisted _ t hp =>
    rw [hp] at hstage
    exact h.move hp rfl rfl rfl ⟨hstage, trivial⟩
  | reports t i hp | runs _ t i hp | reported _ t i hp =>
    rw [hp] at hstage
    exact h.move hp rfl rfl rfl ⟨hstage.1, trivial⟩
  | refused hp => exact absurd rfl hok.1
  | cancels t i hp => exact absurd rfl hok.2
  | refusalNoted _ hp | notes _ hp =>
    rw [hp] at hstage
    exact hstage.elim
  | cancelled _ t i hp | cancelling _ t i op ops hp =>
    rw [hp] at hstage
    exact hstage.2.elim
  | stopped _ hp hstop | stoppedIdle _ hp hstop | stoppedProgress _ t i hp hstop =>
    exact absurd (hstop.symm.trans h.goesOn) (by simp)
  | dropped _ t hp hcancelled => exact absurd (hcancelled.symm.trans h.uncancelled) (by simp)
  | pops _ t rest hp hqueue =>
    rw [hp] at hstage
    refine h.move hp rfl rfl rfl ?_
    simp only [QueueStage, hqueue] at hstage
    exact hstage
  | returns ok t i hp =>
    rw [hp] at hstage
    refine h.move hp rfl rfl rfl ⟨?_, ?_⟩
    · simp [TransferWorker.goto, hstage.1]
    · rcases ok with _ | _
      · exact absurd rfl hok.1
      · rfl
  | marks _ t i success hp =>
    rw [hp] at hstage
    obtain ⟨hstage, rfl⟩ := hstage
    rcases i with _ | i <;> exact h.move hp rfl rfl rfl hstage
  | clears _ hp =>
    rw [hp] at hstage
    exact h.move hp rfl rfl rfl ⟨_, hstage.symm⟩

theorem QueueInvariant.next {a : Action} {w w' : TransferWorker}
    (h : QueueInvariant w) (hok : OnlyEnqueues w a)
    (hstep : step a w = some w') : QueueInvariant w' :=
  match a with
  | .begin_ _ => h.beginCall hok hstep
  | .call _ => h.callStep hstep
  | .thread _ => h.threadStep hok hstep

theorem QueueInvariant.of_reaches {w : TransferWorker} (h : Reaches step OnlyEnqueues .fresh w) :
    QueueInvariant w :=
  h.invariant (fun _ _ _ h hok hstep => h.next hok hstep) .fresh

/-! ## Runs in which no task comes too late -/

/-- The queue is empty when the thread has left its loop. -/
structure Settled (w : TransferWorker) : Prop where
  leaving : w.thread = some .leaving → w.TaskQueue = []
  ended : w.ended = true → AllExecuted w

theorem Settled.congr {w w' : TransferWorker} (h : Settled w) (hthread : w'.thread = w.thread)
    (hqueue : w'.TaskQueue = w.TaskQueue) (haccepted : w'.accepted = w.accepted)
    (hexecuted : w'.executed = w.executed) :
    Settled w' where
  leaving hp := hqueue.trans (h.leaving (hthread.symm.trans hp))
  ended hend := by
    rw [AllExecuted, haccepted, hexecuted]
    exact h.ended (by rwa [TransferWorker.ended, hthread] at hend)

/-- The thread is in its loop, or there is none. -/
theorem Settled.of_thread {w : TransferWorker} (hleaving : w.thread ≠ some .leaving)
    (hended : w.ended = false) :
    Settled w :=
  ⟨fun hp => absurd hp hleaving, fun hend => absurd (hend.symm.trans hended) (by simp)⟩

theorem Settled.next {a : Action} {w w' : TransferWorker} (h : Settled w) (hinv : QueueInvariant w)
    (hok : OnlyEnqueues w a) (hlate : NotTooLate w a) (hstep : step a w = some w') :
    Settled w' := by
  cases a with
  | begin_ c =>
    obtain ⟨-, rfl | ⟨-, -, rfl⟩ | ⟨-, -, rfl⟩⟩ := beginCall_eq hstep
    · exact h
    · exact h.congr rfl rfl rfl rfl
    · exact .of_thread (by simp) rfl
  | call answer =>
    have hpending := hinv.pending
    cases callStep_moves hstep with
    | created ops hcall => exact .of_thread (by simp) rfl
    | notCreated ops hcall => exact h.congr rfl rfl rfl rfl
    | joined answer ops hcall hend => exact .of_thread (by simp) rfl
    | applied answer op ops hcall hcreate hjoin =>
      rw [hcall] at hpending
      have hthread := op.apply_thread w
      rcases hpending.enqueue_cases with ⟨t, rfl⟩ | rfl | rfl | rfl | rfl | rfl | rfl | rfl
      · refine ⟨fun hp => ?_, fun hend => ?_⟩
        · have hp' : w.thread = some .leaving := hthread.symm.trans hp
          simp [NotTooLate, hcall, hp'] at hlate
        · have hend' : w.ended = true := by
            rw [TransferWorker.ended, ← hthread]
            exact hend
          simpa [AllExecuted, Op.apply, hend'] using h.ended hend'
      all_goals exact h.congr rfl rfl rfl rfl
  | thread answer =>
    have hstage := hinv.stage
    cases threadStep_moves hstep with
    | connected hp | goesOn _ hp | empty _ hp | woken _ hp | timedOut hp | filled _ hp
    | counts _ t hp | begins _ t hp | beginsUnlisted _ t hp | reports t i hp | runs _ t i hp
    | reported _ t i hp | pops _ t rest hp | returns ok t i hp | refused hp | cancels t i hp
    | cancelled _ t i hp | cancelling _ t i op ops hp | stoppedProgress _ t i hp =>
      exact .of_thread (by simp [TransferWorker.goto]) rfl
    | stopped _ hp hstop | stoppedIdle _ hp hstop =>
      exact absurd (hstop.symm.trans hinv.goesOn) (by simp)
    | dropped _ t hp hcancelled => exact absurd (hcancelled.symm.trans hinv.uncancelled) (by simp)
    | refusalNoted _ hp | notes _ hp =>
      rw [hp] at hstage
      exact hstage.elim
    | marks _ t i success hp =>
      rcases success with _ | _ <;> exact .of_thread (by simp [TransferWorker.goto]) rfl
    | stillEmpty _ hp hqueue => exact ⟨fun _ => hqueue, fun hend => by cases hend⟩
    | clears _ hp =>
      rw [hp] at hstage
      simp only [QueueStage, h.leaving hp, List.append_nil] at hstage
      exact ⟨fun hp' => by simp [TransferWorker.goto] at hp', fun _ => hstage.symm⟩
    | posts _ hp | exits _ hp =>
      exact ⟨fun hp' =>
        by simp [TransferWorker.goto] at hp', fun _ => h.ended (by rw [TransferWorker.ended, hp])⟩

theorem Settled.of_reaches {w : TransferWorker}
    (h : Reaches step (fun w a => OnlyEnqueues w a ∧ NotTooLate w a) .fresh w) : Settled w := by
  have hboth : QueueInvariant w ∧ Settled w := by
    refine h.invariant (I := fun w => QueueInvariant w ∧ Settled w)
      (fun w a w' hinv hok hstep => ?_) ⟨.fresh, ?_⟩
    · exact ⟨hinv.1.next hok.1 hstep, hinv.2.next hinv.1 hok.1 hok.2 hstep⟩
    · exact .of_thread (by simp [TransferWorker.fresh]) rfl
  exact hboth.2

/-! ## Runs in which a task comes too late -/

/-- The thread has left its loop, and not all accepted tasks have been executed. -/
structure LeftBehind (w : TransferWorker) : Prop where
  left : w.thread = some .leaving ∨ w.ended = true
  less : w.executed.length < w.accepted.length

theorem LeftBehind.next {a : Action} {w w' : TransferWorker}
    (h : LeftBehind w) (hinv : QueueInvariant w)
    (hok : OnlyEnqueues w a) (hstep : step a w = some w') : LeftBehind w' := by
  have hsome : w.thread ≠ none := by
    intro hthread
    rcases h.left with hp | hend
    · simp [hthread] at hp
    · simp [TransferWorker.ended, hthread] at hend
  cases a with
  | begin_ c =>
    obtain ⟨-, rfl | ⟨-, -, rfl⟩ | ⟨rfl | rfl, -, rfl⟩⟩ := beginCall_eq hstep
    · exact h
    · exact ⟨h.left, h.less⟩
    · exact absurd hok hsome
    · exact hok.elim
  | call answer =>
    have hpending := hinv.pending
    cases callStep_moves hstep with
    | created ops hcall => exact absurd (hinv.idle (by rw [hcall]; exact List.mem_cons_self)) hsome
    | notCreated ops hcall =>
      exact absurd (hinv.idle (by rw [hcall]; exact List.mem_cons_self)) hsome
    | joined answer ops hcall hend =>
      rw [hcall] at hpending
      rcases hpending.enqueue_cases with ⟨t, ht⟩ | hop | hop | hop | hop | hop | hop | hop
      · cases ht
      all_goals cases hop
    | applied answer op ops hcall hcreate hjoin =>
      rw [hcall] at hpending
      rcases hpending.enqueue_cases with ⟨t, rfl⟩ | rfl | rfl | rfl | rfl | rfl | rfl | rfl
      · refine ⟨h.left, h.less.trans_le ?_⟩
        rcases hend : w.ended with _ | _ <;> simp [Op.apply, hend]
      all_goals exact ⟨h.left, h.less⟩
  | thread answer =>
    cases threadStep_moves hstep with
    | clears _ hp => exact ⟨.inr rfl, h.less⟩
    | posts _ hp => exact ⟨.inr rfl, h.less⟩
    | exits _ hp => exact ⟨.inr rfl, h.less⟩
    | _ =>
      rcases h.left with hleft | hleft
      · simp_all
      · simp_all [TransferWorker.ended]

/-- A task that is enqueued when the thread has left its loop is left behind. -/
theorem LeftBehind.of_late {a : Action} {w w' : TransferWorker} (h : QueueInvariant w)
    (hlate : ¬ NotTooLate w a)
    (hstep : step a w = some w') : LeftBehind w' := by
  cases a with
  | begin_ c => exact absurd trivial hlate
  | thread answer => exact absurd trivial hlate
  | call answer =>
    simp only [NotTooLate] at hlate
    split at hlate
    · next t ops hcall =>
      split at hlate
      · next hp =>
        have hpushes : callStep answer w = some { Op.apply w (.push t) with call := ops } := by
          simp [callStep, hcall]
        obtain rfl := Option.some.inj (hpushes.symm.trans hstep)
        have hstage := h.stage
        rw [hp] at hstage
        simp only [QueueStage] at hstage
        exact ⟨.inl hp, by simp [Op.apply, TransferWorker.ended, hp, hstage]⟩
      · exact absurd trivial hlate
    · exact absurd trivial hlate

theorem LeftBehind.of_reaches {w w' : TransferWorker}
    (hw : Reaches step OnlyEnqueues .fresh w) (h : LeftBehind w)
    (hreach : Reaches step OnlyEnqueues w w') : LeftBehind w' := by
  have hboth : QueueInvariant w' ∧ LeftBehind w' := by
    refine hreach.invariant (I := fun w => QueueInvariant w ∧ LeftBehind w)
      (fun w a w' hinv hok hstep => ?_)
      ⟨.of_reaches hw, h⟩
    exact ⟨hinv.1.next hok hstep, hinv.2.next hinv.1 hok hstep⟩
  exact hboth.2

/-- In a run in which no task comes too late the queue is empty when the thread leaves its loop, and
all accepted tasks have been executed when it has ended. In a run with a task that comes too late
that is never so. -/
theorem allExecuted_iff_notTooLate {w : TransferWorker} (h : Reaches step OnlyEnqueues .fresh w) :
    (Reaches step (fun w a => OnlyEnqueues w a ∧ NotTooLate w a) .fresh w →
      (w.thread = some .leaving → w.TaskQueue = []) ∧ (w.ended = true → AllExecuted w)) ∧
    ∀ a w' v, OnlyEnqueues w a → ¬ NotTooLate w a → step a w = some w' →
    Reaches step OnlyEnqueues w' v →
      v.ended = true → ¬ AllExecuted v := by
  refine ⟨fun hintime => ?_, fun a w' v hok hlate hstep hreach hended hall => ?_⟩
  · have hsettled := Settled.of_reaches hintime
    exact ⟨hsettled.leaving, hsettled.ended⟩
  · have hbehind :=
      LeftBehind.of_reaches (h.next hok hstep) (.of_late (.of_reaches h) hlate hstep) hreach
    have hless := hbehind.less
    rw [← hall, List.length_map] at hless
    exact lt_irrefl _ hless

/-! ## An example -/

/-- One task is executed, and the thread leaves its loop. Then the plugin begins to enqueue another
one. -/
def leavesLoop : List Action :=
  [.begin_ (.enqueueTask aDownload), .call true, .call true, .begin_ .start,
    .call true, .call true, .call true,
    .call true, .call true, .thread (.result true), .thread .timeout,
      .thread .timeout, .thread .timeout,
    .thread .timeout, .thread (.result true), .thread .timeout, .thread .timeout,
      .thread .timeout, .thread .timeout,
    .thread .timeout, .begin_ (.enqueueTask bDownload)]

/-- `EnqueueTask` sets the event, and the thread ends. -/
def endsAfterPush : List Action :=
  [.call true, .thread .timeout, .thread .timeout, .thread .timeout]

theorem allExecuted_iff_notTooLate_leaving :
    ∃ w v : TransferWorker, w.thread = some .leaving ∧ w.TaskQueue = [] ∧
    v.thread = some .exited ∧ ¬ AllExecuted v :=
  let w := (run step (fun w a => OnlyEnqueues w a ∧ NotTooLate w a) leavesLoop .fresh).get rfl
  let w' := (step (.call true) w).get rfl
  let v := (run step OnlyEnqueues endsAfterPush w').get rfl
  have hreach : Reaches step (fun w a => OnlyEnqueues w a ∧ NotTooLate w a) .fresh w :=
    reaches_run rfl
  have hw := allExecuted_iff_notTooLate (w := w) (hreach.mono fun _ _ => And.left)
  ⟨w, v, rfl, (hw.1 hreach).1 rfl, rfl,
    hw.2 (.call true) w' v trivial (by decide) rfl (reaches_run rfl) rfl⟩

/-- The task was enqueued while `IsRunning` was set; it stays in the queue when the thread has
exited. -/
theorem not_allExecuted_endsAfterPush :
    ∃ w, Reaches step OnlyEnqueues .fresh w ∧ w.thread = some .exited ∧
    w.TaskQueue = [bDownload] ∧ ¬ AllExecuted w := by
  refine ⟨(run step OnlyEnqueues (leavesLoop ++ .call true :: endsAfterPush) .fresh).get rfl,
    reaches_run rfl, rfl, rfl, fun h => ?_⟩
  exact absurd (congrArg List.length h) (by decide)

end SalamanderSftp
