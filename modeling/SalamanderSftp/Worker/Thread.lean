import SalamanderSftp.Lib.Machine
import SalamanderSftp.Worker.Recursion

/-!
# The worker thread and its callers

`CSftpTransferWorker` is driven by two parties: the worker thread in `ThreadLoop`, and the plugin,
which calls the methods one after the other. Each locked section and each operation on an event is
one step, so that every order of the steps of the two is a run.

What a task does is left open: it may report progress, the user may cancel it in the conflict
dialog, and it returns either result. Texts and the counters of the current file are left out.
-/

namespace SalamanderSftp

/-! ## State -/

inductive TaskStatus
  | waiting
  | running
  | done
  | error
  | skipped
  deriving DecidableEq

/-- `CSftpTransferTask` in the queue and in the list. -/
structure QueuedTask where
  task : TransferTask
  FileSize : ℕ
  Status : TaskStatus

namespace QueuedTask

def withStatus (status : TaskStatus) (t : QueuedTask) : QueuedTask := { t with Status := status }

@[simp] theorem withStatus_Status (status : TaskStatus) (t : QueuedTask) :
    (t.withStatus status).Status = status := rfl

@[simp] theorem withStatus_withStatus (status status' : TaskStatus) (t : QueuedTask) :
    (t.withStatus status).withStatus status' = t.withStatus status' := rfl

theorem withStatus_self {status : TaskStatus} {t : QueuedTask} (h : t.Status = status) :
    t.withStatus status = t := by
  rw [← h]
  rfl

end QueuedTask

/-- One locked section, or one operation on an event or on the thread. -/
inductive Op
  | push (t : QueuedTask)
  | setWake
  | resetWake
  | setStop
  | resetStop
  | setRun
  | resetRun
  | setCancelled
  | setPaused (paused : Bool)
  | startState
  | createThread
  | startFailed
  /-- Wait for the thread, and terminate it when it takes too long. -/
  | join
  | clearRunning
  | clearQueue
  | resetState

def cancelOps : List Op := [.setCancelled, .setRun, .setWake]

/-- Where the thread is within a task. -/
inductive TaskPoint
  | busy
  /-- Waiting in `ReportProgress`. -/
  | progress
  /-- Before the locked section of `ReportProgress`. -/
  | awake
  /-- In a call of `Cancel`, with what is left of it. -/
  | cancelling (ops : List Op)

/-- Where the thread is in `ThreadLoop`: the step that it makes next. -/
inductive ThreadPoint
  | connecting
  | connectFailed
  | top
  | pop
  | idle
  | recheck
  | taken (t : QueuedTask)
  | counted (t : QueuedTask)
  | executing (t : QueuedTask) (taskIdx : Option ℕ) (p : TaskPoint)
  | returned (t : QueuedTask) (taskIdx : Option ℕ) (success : Bool)
  | failed
  | leaving
  | posting
  /-- `FINISHED` is posted. -/
  | posted
  | exited

structure TransferWorker where
  TaskQueue : List QueuedTask
  AllTasks : List QueuedTask
  CurrentTaskIndex : ℕ
  CurrentItemIndex : ℕ
  TotalItemsCount : ℕ
  TotalBytesExpected : ℕ
  IsRunning : Bool
  IsPaused : Bool
  Cancelled : Bool
  HasError : Bool
  WakeEvent : Bool
  StopEvent : Bool
  RunEvent : Bool
  /-- The thread behind `ThreadHandle`. -/
  thread : Option ThreadPoint
  /-- What is left of the call of the plugin. -/
  call : List Op
  /-- The tasks that were enqueued before the thread cleared `IsRunning`. Like the next two fields
  it is for statements only. -/
  accepted : List QueuedTask
  /-- The tasks for which `ExecuteTask` was called since the list was cleared. -/
  begun : List QueuedTask
  /-- The tasks that have been executed, with their results. -/
  executed : List (QueuedTask × Bool)

namespace TransferWorker

def fresh : TransferWorker where
  TaskQueue := []
  AllTasks := []
  CurrentTaskIndex := 0
  CurrentItemIndex := 0
  TotalItemsCount := 0
  TotalBytesExpected := 0
  IsRunning := false
  IsPaused := false
  Cancelled := false
  HasError := false
  WakeEvent := false
  StopEvent := false
  RunEvent := true
  thread := none
  call := []
  accepted := []
  begun := []
  executed := []

/-- The thread has cleared `IsRunning`. -/
def ended (w : TransferWorker) : Bool :=
  match w.thread with
  | some .posting => true
  | some .posted => true
  | some .exited => true
  | _ => false

/-- `GetExitCodeThread` says `STILL_ACTIVE`. -/
def active (w : TransferWorker) : Bool :=
  match w.thread with
  | none => false
  | some .exited => false
  | some _ => true

end TransferWorker

/-! ## The operations -/

/-- The operations that always go on; for the other two see `callStep`. -/
def Op.apply (w : TransferWorker) : Op → TransferWorker
  | push t =>
    let t := t.withStatus .waiting
    { w with
      TaskQueue := w.TaskQueue ++ [t]
      AllTasks := w.AllTasks ++ [t]
      TotalItemsCount := w.TotalItemsCount + 1
      TotalBytesExpected := w.TotalBytesExpected + t.FileSize
      accepted := if w.ended then w.accepted else w.accepted ++ [t] }
  | setWake => { w with WakeEvent := true }
  | resetWake => { w with WakeEvent := false }
  | setStop => { w with StopEvent := true }
  | resetStop => { w with StopEvent := false }
  | setRun => { w with RunEvent := true }
  | resetRun => { w with RunEvent := false }
  | setCancelled => { w with Cancelled := true }
  | setPaused paused => { w with IsPaused := paused }
  | startState =>
    { w with CurrentItemIndex := 0, Cancelled := false, HasError := false, IsRunning := true }
  | startFailed => { w with IsRunning := false, HasError := true }
  | clearRunning => { w with IsRunning := false }
  | clearQueue => { w with TaskQueue := [], AllTasks := [], CurrentTaskIndex := 0, begun := [] }
  | resetState =>
    { w with
      CurrentItemIndex := 0, TotalItemsCount := 0, TotalBytesExpected := 0, IsRunning :=
        false, IsPaused := false,
      Cancelled := false, HasError := false }
  | createThread => w
  | join => w

inductive Call
  | enqueueTask (t : QueuedTask)
  | start
  | cancel
  | setPaused (paused : Bool)
  | stop
  | reset

/-- The operations of a call, in order. -/
def Call.ops : Call → List Op
  | enqueueTask t => [.push t, .setWake]
  | start => [.resetStop, .resetWake, .setRun, .startState, .createThread]
  | cancel => cancelOps
  | setPaused paused => [.setPaused paused, if paused then .resetRun else .setRun]
  | stop => [.setCancelled, .setStop, .setWake, .setRun, .join, .clearRunning]
  | reset => [.clearQueue, .resetState, .setRun]

/-- A call begins, with what it does before its first operation. -/
def beginCall (c : Call) (w : TransferWorker) : Option TransferWorker :=
  if w.call.isEmpty then
    match c with
    | .start => some (if w.active then w else { w with thread := none, call := c.ops })
    | .stop => some (if w.thread.isNone then w else { w with call := c.ops })
    | .reset => some { w with thread := if w.active then w.thread else none, call := c.ops }
    | _ => some { w with call := c.ops }
  else none

/-- The next operation of the call. The answer says whether the thread could be created, and whether
the wait for it timed out. -/
def callStep (answer : Bool) (w : TransferWorker) : Option TransferWorker :=
  match w.call with
  | [] => none
  | .createThread :: ops =>
    if answer then some { w with thread := some .connecting, call := ops }
      else some { w with call := [.startFailed] }
  | .join :: ops =>
    if w.active && !answer then none else some { w with thread := none, call := ops }
  | op :: ops => some { op.apply w with call := ops }

/-! ## The thread -/

/-- What the surroundings of the thread decide. -/
inductive Answer
  /-- The result of `Connect` or of `ExecuteTask`. -/
  | result (ok : Bool)
  /-- The task reports progress. -/
  | progress
  /-- The task calls `Cancel`. -/
  | cancel
  /-- The 200 ms are over. -/
  | timeout
  deriving DecidableEq

namespace TransferWorker

def goto (w : TransferWorker) (p : ThreadPoint) : TransferWorker := { w with thread := some p }

def mark (w : TransferWorker) (taskIdx : Option ℕ) (status : TaskStatus) : TransferWorker :=
  match taskIdx with
  | none => w
  | some i => { w with AllTasks := w.AllTasks.modify i (QueuedTask.withStatus status) }

end TransferWorker

def taskStep (answer : Answer) (t : QueuedTask) (taskIdx : Option ℕ)
    (p : TaskPoint) (w : TransferWorker) :
    Option TransferWorker :=
  match p with
  | .busy =>
    match answer with
    | .progress => some (w.goto (.executing t taskIdx .progress))
    | .cancel => some (w.goto (.executing t taskIdx (.cancelling cancelOps)))
    | .result ok =>
      some ({ w with executed := w.executed ++ [(t, ok)] }.goto (.returned t taskIdx ok))
    | .timeout => none
  | .progress =>
    if w.StopEvent then some (w.goto (.executing t taskIdx .busy))
    else if w.RunEvent then some (w.goto (.executing t taskIdx .awake))
    else none
  | .awake => some (w.goto (.executing t taskIdx .busy))
  | .cancelling [] => some (w.goto (.executing t taskIdx .busy))
  | .cancelling (op :: ops) => some ((op.apply w).goto (.executing t taskIdx (.cancelling ops)))

/-- The next step of `ThreadLoop`. -/
def threadStep (answer : Answer) (w : TransferWorker) : Option TransferWorker :=
  match w.thread with
  | none => none
  | some .connecting =>
    match answer with
    | .result true => some (w.goto .top)
    | .result false => some (w.goto .connectFailed)
    | _ => none
  | some .connectFailed => some ({ w with HasError := true, IsRunning := false }.goto .posting)
  | some .top => some (w.goto (if w.StopEvent then .leaving else .pop))
  | some .pop =>
    match w.TaskQueue with
    | [] => some (w.goto .idle)
    | t :: rest => some ({ w with TaskQueue := rest }.goto (.taken t))
  | some .idle =>
    if w.StopEvent then some (w.goto .leaving)
    else if w.WakeEvent then some ({ w with WakeEvent := false }.goto .top)
    else if answer = .timeout then some (w.goto .recheck)
    else none
  | some .recheck => some (w.goto (if w.TaskQueue.isEmpty then .leaving else .top))
  | some (.taken t) =>
    if w.Cancelled then some (w.goto .leaving)
    else some ({ w with CurrentItemIndex := w.CurrentItemIndex + 1 }.goto (.counted t))
  | some (.counted t) =>
    if w.CurrentTaskIndex < w.AllTasks.length then
      let taskIdx := some w.CurrentTaskIndex
      some (({ w with CurrentTaskIndex := w.CurrentTaskIndex + 1, begun := w.begun ++ [t] }.mark
        taskIdx .running).goto
        (.executing t taskIdx .busy))
    else some ({ w with begun := w.begun ++ [t] }.goto (.executing t none .busy))
  | some (.executing t taskIdx p) => taskStep answer t taskIdx p w
  | some (.returned _ taskIdx success) =>
    let status : TaskStatus := if success then .done else if w.Cancelled then .skipped else .error
    some ((w.mark taskIdx status).goto (if success then .top else .failed))
  | some .failed => some ({ w with HasError := w.HasError || !w.Cancelled }.goto .leaving)
  | some .leaving => some ({ w with IsRunning := false }.goto .posting)
  | some .posting => some (w.goto .posted)
  | some .posted => some (w.goto .exited)
  | some .exited => none

/-! ## Runs -/

/-- Who makes the next step. -/
inductive Action
  | begin_ (c : Call)
  | call (answer : Bool)
  | thread (answer : Answer)

def step (a : Action) (w : TransferWorker) : Option TransferWorker :=
  match a with
  | .begin_ c => beginCall c w
  | .call answer => callStep answer w
  | .thread answer => threadStep answer w

/-! ## What a step can do -/

/-- The operations of `Cancel` and `SetPaused`. -/
def Op.Quiet : Op → Prop
  | .setWake => True
  | .setRun => True
  | .resetRun => True
  | .setCancelled => True
  | .setPaused _ => True
  | _ => False

theorem cancelOps_quiet : ∀ op ∈ cancelOps, op.Quiet := by
  intro op hop
  simp only [cancelOps, List.mem_cons, List.not_mem_nil, or_false] at hop
  rcases hop with rfl | rfl | rfl <;> trivial

theorem Op.apply_thread (op : Op) (w : TransferWorker) : (op.apply w).thread = w.thread := by
  cases op <;> rfl

theorem Op.apply_call (op : Op) (w : TransferWorker) : (op.apply w).call = w.call := by
  cases op <;> rfl

/-- What is left of a call, when every call meets the condition. -/
inductive Pending (P : Call → Prop) : List Op → Prop
  | idle : Pending P []
  | failing : Pending P [.startFailed]
  | within (c : Call) (ops : List Op) (hc : P c) (h : ops <:+ c.ops) : Pending P ops

theorem Pending.tail {P : Call → Prop} {op : Op} {ops : List Op} (h : Pending P (op :: ops)) :
    Pending P ops := by
  generalize hall : op :: ops = all at h
  cases h with
  | idle => cases hall
  | failing => cases hall; exact .idle
  | within c _ hc h => exact .within c ops hc ((List.suffix_cons op ops).trans (hall ▸ h))

theorem Pending.nil_of_createThread {P : Call → Prop} {ops : List Op}
    (h : Pending P (.createThread :: ops)) :
    ops = [] := by
  rcases h with _ | _ | ⟨c, _, -, h⟩
  cases c <;> simp_all [Call.ops, cancelOps, List.suffix_cons_iff]

/-- A beginning call only sets what is left of it, and forgets a thread that has exited. -/
theorem beginCall_eq {c : Call} {w w' : TransferWorker} (h : beginCall c w = some w') :
    w.call = [] ∧ (w' = w ∨
      (c ≠ .start ∧ (c = .reset → w.active = true) ∧ w' = { w with call := c.ops }) ∨
      ((c = .start ∨ c = .reset) ∧ w.active = false ∧
        w' = { w with thread := none, call := c.ops })) := by
  unfold beginCall at h
  rcases hcall : w.call with _ | ⟨op, ops⟩
  · refine ⟨rfl, ?_⟩
    rw [hcall, if_pos List.isEmpty_nil] at h
    cases c with
    | start =>
      obtain rfl := Option.some.inj h
      rcases hactive : w.active with _ | _
      · exact .inr (.inr ⟨.inl rfl, rfl, rfl⟩)
      · exact .inl rfl
    | stop =>
      obtain rfl := Option.some.inj h
      rcases hthread : w.thread.isNone with _ | _
      · exact .inr (.inl ⟨by simp, by simp, rfl⟩)
      · exact .inl rfl
    | reset =>
      obtain rfl := Option.some.inj h
      rcases hactive : w.active with _ | _
      · exact .inr (.inr ⟨.inr rfl, rfl, rfl⟩)
      · exact .inr (.inl ⟨by simp, fun _ => rfl, rfl⟩)
    | _ => exact .inr (.inl ⟨by simp, by simp, (Option.some.inj h).symm⟩)
  · rw [hcall, if_neg (by simp)] at h
    cases h

/-- The ways in which the next operation of a call changes the state. -/
inductive CallMoves (w : TransferWorker) : Bool → TransferWorker → Prop
  | created (ops : List Op) (h : w.call = .createThread :: ops) :
    CallMoves w true { w with thread := some .connecting, call := ops }
  | notCreated (ops : List Op)
      (h : w.call = .createThread :: ops) : CallMoves w false { w with call := [.startFailed] }
  | joined (answer : Bool) (ops : List Op) (h : w.call = .join :: ops)
      (hend : w.active = true → answer = true) :
    CallMoves w answer { w with thread := none, call := ops }
  | applied (answer : Bool) (op : Op) (ops : List Op) (h : w.call = op :: ops)
      (hcreate : op ≠ .createThread)
    (hjoin : op ≠ .join) : CallMoves w answer { op.apply w with call := ops }

theorem callStep_moves {answer : Bool} {w w' : TransferWorker} (h : callStep answer w = some w') :
    CallMoves w answer w' := by
  unfold callStep at h
  rcases hcall : w.call with _ | ⟨op, ops⟩
  · rw [hcall] at h
    cases h
  rw [hcall] at h
  cases op with
  | createThread =>
    rcases answer with _ | _ <;> obtain rfl := Option.some.inj h
    · exact .notCreated ops hcall
    · exact .created ops hcall
  | join =>
    simp only at h
    split_ifs at h with hactive
    obtain rfl := Option.some.inj h
    exact .joined answer ops hcall (by simpa using hactive)
  | _ =>
    obtain rfl := Option.some.inj h
    exact .applied answer _ ops hcall (by simp) (by simp)

/-- The ways in which the thread changes the state. -/
inductive Moves (w : TransferWorker) : Answer → TransferWorker → Prop
  | connected (h : w.thread = some .connecting) : Moves w (.result true) (w.goto .top)
  | refused (h : w.thread = some .connecting) : Moves w (.result false) (w.goto .connectFailed)
  | refusalNoted (a : Answer) (h : w.thread = some .connectFailed) :
    Moves w a ({ w with HasError := true, IsRunning := false }.goto .posting)
  | stopped (a : Answer) (h : w.thread = some .top)
      (hstop : w.StopEvent = true) : Moves w a (w.goto .leaving)
  | goesOn (a : Answer) (h : w.thread = some .top)
      (hstop : w.StopEvent = false) : Moves w a (w.goto .pop)
  | empty (a : Answer) (h : w.thread = some .pop)
      (hqueue : w.TaskQueue = []) : Moves w a (w.goto .idle)
  | pops (a : Answer) (t : QueuedTask) (rest : List QueuedTask) (h : w.thread = some .pop)
    (hqueue : w.TaskQueue = t :: rest) : Moves w a ({ w with TaskQueue := rest }.goto (.taken t))
  | stoppedIdle (a : Answer) (h : w.thread = some .idle)
      (hstop : w.StopEvent = true) : Moves w a (w.goto .leaving)
  | woken (a : Answer) (h : w.thread = some .idle) (hstop : w.StopEvent = false)
      (hwake : w.WakeEvent = true) :
    Moves w a ({ w with WakeEvent := false }.goto .top)
  | timedOut (h : w.thread = some .idle) (hstop : w.StopEvent = false)
      (hwake : w.WakeEvent = false) :
    Moves w .timeout (w.goto .recheck)
  | stillEmpty (a : Answer) (h : w.thread = some .recheck)
      (hqueue : w.TaskQueue = []) : Moves w a (w.goto .leaving)
  | filled (a : Answer) (h : w.thread = some .recheck)
      (hqueue : w.TaskQueue ≠ []) : Moves w a (w.goto .top)
  | dropped (a : Answer) (t : QueuedTask) (h : w.thread = some (.taken t))
      (hcancelled : w.Cancelled = true) :
    Moves w a (w.goto .leaving)
  | counts (a : Answer) (t : QueuedTask) (h : w.thread = some (.taken t))
      (hcancelled : w.Cancelled = false) :
    Moves w a ({ w with CurrentItemIndex := w.CurrentItemIndex + 1 }.goto (.counted t))
  | begins (a : Answer) (t : QueuedTask) (h : w.thread = some (.counted t))
    (hindex : w.CurrentTaskIndex < w.AllTasks.length) :
    Moves w a (({ w with CurrentTaskIndex := w.CurrentTaskIndex + 1, begun := w.begun ++ [t] }.mark
      (some w.CurrentTaskIndex) .running).goto (.executing t (some w.CurrentTaskIndex) .busy))
  | beginsUnlisted (a : Answer) (t : QueuedTask) (h : w.thread = some (.counted t))
    (hindex : ¬ w.CurrentTaskIndex < w.AllTasks.length) :
    Moves w a ({ w with begun := w.begun ++ [t] }.goto (.executing t none .busy))
  | reports (t : QueuedTask) (i : Option ℕ) (h : w.thread = some (.executing t i .busy)) :
    Moves w .progress (w.goto (.executing t i .progress))
  | cancels (t : QueuedTask) (i : Option ℕ) (h : w.thread = some (.executing t i .busy)) :
    Moves w .cancel (w.goto (.executing t i (.cancelling cancelOps)))
  | returns (ok : Bool) (t : QueuedTask) (i : Option ℕ)
      (h : w.thread = some (.executing t i .busy)) :
    Moves w (.result ok) ({ w with executed := w.executed ++ [(t, ok)] }.goto (.returned t i ok))
  | stoppedProgress (a : Answer) (t : QueuedTask) (i : Option ℕ)
      (h : w.thread = some (.executing t i .progress))
    (hstop : w.StopEvent = true) : Moves w a (w.goto (.executing t i .busy))
  | runs (a : Answer) (t : QueuedTask) (i : Option ℕ)
      (h : w.thread = some (.executing t i .progress))
    (hstop : w.StopEvent = false) (hrun : w.RunEvent = true) : Moves w a
    (w.goto (.executing t i .awake))
  | reported (a : Answer) (t : QueuedTask) (i : Option ℕ)
      (h : w.thread = some (.executing t i .awake)) :
    Moves w a (w.goto (.executing t i .busy))
  | cancelled (a : Answer) (t : QueuedTask) (i : Option ℕ)
      (h : w.thread = some (.executing t i (.cancelling []))) :
    Moves w a (w.goto (.executing t i .busy))
  | cancelling (a : Answer) (t : QueuedTask) (i : Option ℕ) (op : Op) (ops : List Op)
    (h : w.thread = some (.executing t i (.cancelling (op :: ops)))) :
    Moves w a ((op.apply w).goto (.executing t i (.cancelling ops)))
  | marks (a : Answer) (t : QueuedTask) (i : Option ℕ) (success : Bool)
      (h : w.thread = some (.returned t i success)) :
    Moves w a ((w.mark i (if success then .done else if w.Cancelled then .skipped else .error)).goto
      (if success then .top else .failed))
  | notes (a : Answer) (h : w.thread = some .failed) :
    Moves w a ({ w with HasError := w.HasError || !w.Cancelled }.goto .leaving)
  | clears (a : Answer) (h : w.thread = some .leaving) : Moves w a
      ({ w with IsRunning := false }.goto .posting)
  | posts (a : Answer) (h : w.thread = some .posting) : Moves w a (w.goto .posted)
  | exits (a : Answer) (h : w.thread = some .posted) : Moves w a (w.goto .exited)

theorem taskStep_moves {answer : Answer} {t : QueuedTask} {i : Option ℕ}
    {p : TaskPoint} {w w' : TransferWorker}
    (hp : w.thread = some (.executing t i p)) (h : taskStep answer t i p w = some w') :
    Moves w answer w' := by
  cases p with
  | busy =>
    cases answer with
    | progress => obtain rfl := Option.some.inj h; exact .reports t i hp
    | cancel => obtain rfl := Option.some.inj h; exact .cancels t i hp
    | result ok => obtain rfl := Option.some.inj h; exact .returns ok t i hp
    | timeout => cases h
  | progress =>
    rw [taskStep] at h
    split_ifs at h with hstop hrun <;> obtain rfl := Option.some.inj h
    · exact .stoppedProgress answer t i hp hstop
    · exact .runs answer t i hp (by simpa using hstop) hrun
  | awake => obtain rfl := Option.some.inj h; exact .reported answer t i hp
  | cancelling ops =>
    cases ops with
    | nil => obtain rfl := Option.some.inj h; exact .cancelled answer t i hp
    | cons op ops => obtain rfl := Option.some.inj h; exact .cancelling answer t i op ops hp

theorem threadStep_moves {answer : Answer} {w w' : TransferWorker}
    (h : threadStep answer w = some w') :
    Moves w answer w' := by
  unfold threadStep at h
  rcases hp : w.thread with _ | p
  · rw [hp] at h
    cases h
  rw [hp] at h
  cases p with
  | connecting =>
    rcases answer with ok | _ | _ | _
    · rcases ok with _ | _ <;> obtain rfl := Option.some.inj h
      · exact .refused hp
      · exact .connected hp
    all_goals cases h
  | connectFailed => obtain rfl := Option.some.inj h; exact .refusalNoted answer hp
  | top =>
    obtain rfl := Option.some.inj h
    rcases hstop : w.StopEvent with _ | _
    · exact .goesOn answer hp hstop
    · exact .stopped answer hp hstop
  | pop =>
    rcases hqueue : w.TaskQueue with _ | ⟨t, rest⟩
    · simp only [hqueue] at h
      obtain rfl := Option.some.inj h
      exact .empty answer hp hqueue
    · simp only [hqueue] at h
      obtain rfl := Option.some.inj h
      exact .pops answer t rest hp hqueue
  | idle =>
    simp only at h
    split_ifs at h with hstop hwake htimeout <;> obtain rfl := Option.some.inj h
    · exact .stoppedIdle answer hp hstop
    · exact .woken answer hp (by simpa using hstop) hwake
    · rw [htimeout]
      exact .timedOut hp (by simpa using hstop) (by simpa using hwake)
  | recheck =>
    obtain rfl := Option.some.inj h
    by_cases hqueue : w.TaskQueue = []
    · rw [hqueue]
      exact .stillEmpty answer hp hqueue
    · rw [if_neg (by simpa using hqueue)]
      exact .filled answer hp hqueue
  | taken t =>
    simp only at h
    split_ifs at h with hcancelled <;> obtain rfl := Option.some.inj h
    · exact .dropped answer t hp hcancelled
    · exact .counts answer t hp (by simpa using hcancelled)
  | counted t =>
    simp only at h
    split_ifs at h with hindex <;> obtain rfl := Option.some.inj h
    · exact .begins answer t hp hindex
    · exact .beginsUnlisted answer t hp hindex
  | executing t i p => exact taskStep_moves hp h
  | returned t i success => obtain rfl := Option.some.inj h; exact .marks answer t i success hp
  | failed => obtain rfl := Option.some.inj h; exact .notes answer hp
  | leaving => obtain rfl := Option.some.inj h; exact .clears answer hp
  | posting => obtain rfl := Option.some.inj h; exact .posts answer hp
  | posted => obtain rfl := Option.some.inj h; exact .exits answer hp
  | exited => cases h

end SalamanderSftp
