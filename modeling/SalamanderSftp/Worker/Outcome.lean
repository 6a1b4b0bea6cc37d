import SalamanderSftp.Worker.Thread

/-!
# The outcome of one run of the worker

The tasks are enqueued, `Start` is called once, and while the thread runs the plugin may cancel and
pause. The tasks that the thread has executed well, the one it holds and the queue are the accepted
tasks in order, and the list shows the same tasks; `Stage` says so for each point of the thread.
-/

namespace SalamanderSftp

open Machine

/-- Tasks are enqueued before the one `Start`; after it the plugin may only cancel and pause. -/
def SingleStart (w : TransferWorker) : Action → Prop
  | .begin_ (.enqueueTask _) => w.thread = none
  | .begin_ .start => w.thread = none
  | .begin_ .cancel => True
  | .begin_ (.setPaused _) => True
  | .begin_ .stop => False
  | .begin_ .reset => False
  | .call _ => True
  | .thread _ => True

instance (w : TransferWorker) (a : Action) : Decidable (SingleStart w a) :=
  match a with
  | .begin_ (.enqueueTask _) => inferInstanceAs (Decidable (w.thread = none))
  | .begin_ .start => inferInstanceAs (Decidable (w.thread = none))
  | .begin_ .cancel => inferInstanceAs (Decidable True)
  | .begin_ (.setPaused _) => inferInstanceAs (Decidable True)
  | .begin_ .stop => inferInstanceAs (Decidable False)
  | .begin_ .reset => inferInstanceAs (Decidable False)
  | .call _ => inferInstanceAs (Decidable True)
  | .thread _ => inferInstanceAs (Decidable True)

/-! ## Operations that leave the tasks alone -/

/-- The second state has the tasks of the first, and at most a cancellation more. -/
structure SameTasks (w w' : TransferWorker) : Prop where
  TaskQueue : w'.TaskQueue = w.TaskQueue
  AllTasks : w'.AllTasks = w.AllTasks
  CurrentTaskIndex : w'.CurrentTaskIndex = w.CurrentTaskIndex
  IsRunning : w'.IsRunning = w.IsRunning
  HasError : w'.HasError = w.HasError
  StopEvent : w'.StopEvent = w.StopEvent
  accepted : w'.accepted = w.accepted
  executed : w'.executed = w.executed
  Cancelled : w.Cancelled = true → w'.Cancelled = true

theorem SameTasks.rfl {w : TransferWorker} : SameTasks w w :=
  ⟨Eq.refl _, Eq.refl _, Eq.refl _, Eq.refl _, Eq.refl _, Eq.refl _, Eq.refl _, Eq.refl _, id⟩

theorem SameTasks.setCall {w w' : TransferWorker} (h : SameTasks w w') (ops : List Op) :
    SameTasks w { w' with call := ops } :=
  ⟨h.TaskQueue, h.AllTasks, h.CurrentTaskIndex, h.IsRunning, h.HasError,
    h.StopEvent, h.accepted, h.executed,
    h.Cancelled⟩

theorem SameTasks.goto {w w' : TransferWorker} (h : SameTasks w w') (p : ThreadPoint) :
    SameTasks w (w'.goto p) :=
  ⟨h.TaskQueue, h.AllTasks, h.CurrentTaskIndex, h.IsRunning, h.HasError,
    h.StopEvent, h.accepted, h.executed,
    h.Cancelled⟩

theorem Op.Quiet.sameTasks {op : Op} (h : op.Quiet) (w : TransferWorker) :
    SameTasks w (op.apply w) := by
  cases op <;> first | exact h.elim | exact ⟨rfl, rfl, rfl, rfl, rfl, rfl, rfl, rfl,
    fun hc => by simp [Op.apply, hc]⟩

/-! ## The invariant -/

/-- The tasks in order: the good ones, the one that was taken (with its entry in the list), and the
queue. -/
structure Layout (w : TransferWorker) (goods taken entries : List QueuedTask)
    (results : List (QueuedTask × Bool))
    (index : ℕ) : Prop where
  accepted : w.accepted = goods ++ taken ++ w.TaskQueue
  AllTasks : w.AllTasks = goods.map (.withStatus .done) ++ entries ++ w.TaskQueue
  executed : w.executed = goods.map (·, true) ++ results
  CurrentTaskIndex : w.CurrentTaskIndex = goods.length + index

theorem Layout.congr {w w' : TransferWorker} {goods taken entries : List QueuedTask}
    {results : List (QueuedTask × Bool)} {index : ℕ}
    (h : Layout w goods taken entries results index)
    (hsame : SameTasks w w') : Layout w' goods taken entries results index where
  accepted := by rw [hsame.accepted, hsame.TaskQueue, h.accepted]
  AllTasks := by rw [hsame.AllTasks, hsame.TaskQueue, h.AllTasks]
  executed := by rw [hsame.executed, h.executed]
  CurrentTaskIndex := by rw [hsame.CurrentTaskIndex, h.CurrentTaskIndex]

/-- How the loop can end. -/
inductive Ending (w : TransferWorker) : Prop
  | refused (h : Layout w [] [] [] [] 0) (herror : w.HasError = true)
  | drained (goods : List QueuedTask) (h : Layout w goods [] [] [] 0) (hqueue : w.TaskQueue = [])
    (herror : w.HasError = false)
  | dropped (goods : List QueuedTask) (t : QueuedTask) (h : Layout w goods [t] [t] [] 0)
      (hcancelled : w.Cancelled = true)
    (herror : w.HasError = false)
  | failed (goods : List QueuedTask) (t : QueuedTask)
      (h : Layout w goods [t] [t.withStatus .error] [(t, false)] 1)
    (herror : w.HasError = false → w.Cancelled = true)
  | skipped (goods : List QueuedTask) (t : QueuedTask)
      (h : Layout w goods [t] [t.withStatus .skipped] [(t, false)] 1)
    (hcancelled : w.Cancelled = true) (herror : w.HasError = false)

/-- What holds at each point of the thread. -/
def Stage (w : TransferWorker) : Option ThreadPoint → Prop
  | none => Layout w [] [] [] [] 0
  | some .connecting => Layout w [] [] [] [] 0 ∧ w.HasError = false
  | some .connectFailed => Layout w [] [] [] [] 0
  | some .top => ∃ goods, Layout w goods [] [] [] 0 ∧ w.HasError = false
  | some .pop => ∃ goods, Layout w goods [] [] [] 0 ∧ w.HasError = false
  | some .idle => ∃ goods, Layout w goods [] [] [] 0 ∧ w.HasError = false
  | some .recheck => ∃ goods, Layout w goods [] [] [] 0 ∧ w.HasError = false
  | some (.taken t) => ∃ goods, Layout w goods [t] [t] [] 0 ∧ w.HasError = false
  | some (.counted t) => ∃ goods, Layout w goods [t] [t] [] 0 ∧ w.HasError = false
  | some (.executing t i p) =>
    ∃ goods, Layout w goods [t] [t.withStatus .running] [] 1 ∧
      w.HasError = false ∧ i = some goods.length ∧
      match p with
      | .cancelling ops => ∀ op ∈ ops, op.Quiet
      | _ => True
  | some (.returned t i ok) =>
    ∃ goods, Layout w goods [t] [t.withStatus .running] [(t, ok)] 1 ∧
      w.HasError = false ∧ i = some goods.length
  | some .failed =>
    ∃ goods t status, Layout w goods [t] [t.withStatus status] [(t, false)] 1 ∧ w.HasError = false ∧
      (status = .error ∨ status = .skipped ∧ w.Cancelled = true)
  | some .leaving => Ending w
  | some .posting => Ending w ∧ w.IsRunning = false
  | some .posted => Ending w ∧ w.IsRunning = false
  | some .exited => Ending w ∧ w.IsRunning = false

theorem Ending.congr {w w' : TransferWorker} (h : Ending w) (hsame : SameTasks w w') :
    Ending w' := by
  cases h with
  | refused h herror => exact .refused (h.congr hsame) (hsame.HasError.trans herror)
  | drained goods h hqueue herror =>
    exact .drained goods (h.congr hsame) (hsame.TaskQueue.trans hqueue)
      (hsame.HasError.trans herror)
  | dropped goods t h hcancelled herror =>
    exact .dropped goods t (h.congr hsame) (hsame.Cancelled hcancelled)
      (hsame.HasError.trans herror)
  | failed goods t h herror =>
    exact .failed goods t (h.congr hsame)
      (fun hno => hsame.Cancelled (herror (hsame.HasError ▸ hno)))
  | skipped goods t h hcancelled herror =>
    exact .skipped goods t (h.congr hsame) (hsame.Cancelled hcancelled)
      (hsame.HasError.trans herror)

theorem Stage.congr {w w' : TransferWorker} {p : Option ThreadPoint} (h : Stage w p)
    (hsame : SameTasks w w') :
    Stage w' p := by
  rcases p with _ | p
  · exact Layout.congr h hsame
  cases p with
  | connecting => exact ⟨h.1.congr hsame, hsame.HasError.trans h.2⟩
  | connectFailed => exact Layout.congr h hsame
  | top | pop | idle | recheck | taken | counted =>
    obtain ⟨goods, hlayout, herror⟩ := h
    exact ⟨goods, hlayout.congr hsame, hsame.HasError.trans herror⟩
  | executing =>
    obtain ⟨goods, hlayout, herror, hrest⟩ := h
    exact ⟨goods, hlayout.congr hsame, hsame.HasError.trans herror, hrest⟩
  | returned =>
    obtain ⟨goods, hlayout, herror, hi⟩ := h
    exact ⟨goods, hlayout.congr hsame, hsame.HasError.trans herror, hi⟩
  | failed =>
    obtain ⟨goods, t, status, hlayout, herror, hstatus⟩ := h
    exact ⟨goods, t, status, hlayout.congr hsame, hsame.HasError.trans herror,
      hstatus.imp id (.imp id hsame.Cancelled)⟩
  | leaving => exact Ending.congr h hsame
  | posting | posted | exited => exact ⟨h.1.congr hsame, hsame.IsRunning.trans h.2⟩

/-- What holds in every state of a run with one `Start`. -/
structure LoopInvariant (w : TransferWorker) : Prop where
  stage : Stage w w.thread
  waiting : ∀ t ∈ w.accepted, t.Status = .waiting
  goesOn : w.StopEvent = false
  pending : Pending (fun c => c ≠ .stop ∧ c ≠ .reset) w.call
  quiet : w.thread ≠ none → ∀ op ∈ w.call, op.Quiet
  /-- `Start` has cleared the error when it comes to the thread. -/
  cleared : w.call = [.createThread] → w.HasError = false

theorem LoopInvariant.fresh : LoopInvariant .fresh where
  stage := ⟨rfl, rfl, rfl, rfl⟩
  waiting := by simp [TransferWorker.fresh]
  goesOn := rfl
  pending := .idle
  quiet h := absurd rfl h
  cleared h := by cases h

/-! ## The steps of the plugin -/

theorem Pending.startState_of_createThread {P : Call → Prop} {op : Op}
    (h : Pending P [op, .createThread]) :
    op = .startState := by
  rcases h with _ | _ | ⟨c, _, -, h⟩
  rcases c with t | _ | _ | (_ | _) | _ | _ <;> simp_all [Call.ops, cancelOps, List.suffix_cons_iff]

/-- Calls other than `Stop` and `Reset` have no other operations. -/
theorem Pending.op_cases {op : Op} {ops : List Op}
    (h : Pending (fun c => c ≠ .stop ∧ c ≠ .reset) (op :: ops)) :
    op.Quiet ∨ (∃ t, op = .push t) ∨ op = .resetStop ∨ op = .resetWake ∨
    op = .startState ∨ op = .createThread ∨
      op = .startFailed := by
  rcases h with _ | _ | ⟨c, _, ⟨hstop, hreset⟩, h⟩
  · simp
  have hop : op ∈ c.ops := h.subset List.mem_cons_self
  cases c with
  | enqueueTask t =>
    rcases List.mem_pair.mp hop with rfl | rfl
    · exact .inr (.inl ⟨t, rfl⟩)
    · exact .inl trivial
  | start =>
    simp only [Call.ops, List.mem_cons, List.not_mem_nil, or_false] at hop
    rcases hop with rfl | rfl | rfl | rfl | rfl <;> simp [Op.Quiet]
  | cancel => exact .inl (cancelOps_quiet op hop)
  | setPaused paused =>
    rcases List.mem_pair.mp hop with rfl | rfl
    · exact .inl trivial
    · rcases paused with _ | _ <;> exact .inl trivial
  | stop => exact absurd rfl hstop
  | reset => exact absurd rfl hreset

theorem Layout.push {w : TransferWorker} {t : QueuedTask} (h : Layout w [] [] [] [] 0)
    (hended : w.ended = false) :
    Layout (Op.apply w (.push t)) [] [] [] [] 0 where
  accepted := by simpa [Op.apply, hended] using h.accepted
  AllTasks := by simpa [Op.apply] using h.AllTasks
  executed := h.executed
  CurrentTaskIndex := h.CurrentTaskIndex

theorem LoopInvariant.applyQuiet {op : Op} {ops : List Op}
    {w : TransferWorker} (h : LoopInvariant w)
    (hcall : w.call = op :: ops) (hq : op.Quiet) :
    LoopInvariant { op.apply w with call := ops } := by
  have hpending := h.pending
  rw [hcall] at hpending
  have hsame := (hq.sameTasks w).setCall ops
  refine ⟨?_, hsame.accepted ▸ h.waiting, hsame.StopEvent.trans h.goesOn, hpending.tail, ?_, ?_⟩
  · show Stage _ (op.apply w).thread
    rw [op.apply_thread]
    exact h.stage.congr hsame
  · intro hthread op' hop'
    exact h.quiet (op.apply_thread w ▸ hthread) op' (hcall ▸ List.mem_cons_of_mem _ hop')
  · rintro rfl
    rw [hpending.startState_of_createThread] at hq
    exact hq.elim

/-- Before the thread the queue is all that is to be kept. -/
theorem LoopInvariant.applyUnstarted {op : Op} {ops : List Op}
    {w : TransferWorker} (h : LoopInvariant w)
    (hcall : w.call = op :: ops) (hthread : w.thread = none) (hq : ¬ op.Quiet)
    (hcreate : op ≠ .createThread) :
    LoopInvariant { op.apply w with call := ops } := by
  have hpending := h.pending
  have hstage := h.stage
  rw [hcall] at hpending
  rw [hthread] at hstage
  have htail := hpending.tail
  have hcleared : op ≠ .startState → ops = [.createThread] → (op.apply w).HasError = false := by
    rintro hop rfl
    exact absurd hpending.startState_of_createThread hop
  have hstays : ∀ {v : TransferWorker}, v.thread = none → v.thread ≠ none →
      ∀ op ∈ v.call, op.Quiet :=
    fun hnone hsome => absurd hnone hsome
  rcases hpending.op_cases with hq' | ⟨t, rfl⟩ | rfl | rfl | rfl | rfl | rfl
  · exact absurd hq' hq
  · refine ⟨?_, ?_, h.goesOn, htail, hstays hthread, hcleared (by simp)⟩
    · show Stage _ w.thread
      rw [hthread]
      have hpushed := hstage.push (t := t) (by rw [TransferWorker.ended, hthread])
      exact ⟨hpushed.accepted, hpushed.AllTasks, hpushed.executed, hpushed.CurrentTaskIndex⟩
    · intro s hs
      rw [show (Op.apply w (.push t)).accepted = w.accepted ++ [t.withStatus .waiting] by
        simp [Op.apply, TransferWorker.ended, hthread]] at hs
      rcases List.mem_append.mp hs with hs | hs
      · exact h.waiting s hs
      · rw [List.mem_singleton.mp hs, QueuedTask.withStatus_Status]
  · exact ⟨hthread ▸ hstage.congr ⟨rfl, rfl, rfl, rfl, rfl, h.goesOn.symm, rfl, rfl, id⟩, h.waiting,
      rfl, htail,
      hstays hthread, hcleared (by simp)⟩
  · exact ⟨hthread ▸ hstage.congr ⟨rfl, rfl, rfl, rfl, rfl, rfl, rfl, rfl, id⟩,
      h.waiting, h.goesOn, htail,
      hstays hthread, hcleared (by simp)⟩
  · refine ⟨?_, h.waiting, h.goesOn, htail, hstays hthread, fun _ => rfl⟩
    show Stage _ w.thread
    rw [hthread]
    exact ⟨hstage.accepted, hstage.AllTasks, hstage.executed, hstage.CurrentTaskIndex⟩
  · exact absurd rfl hcreate
  · refine ⟨?_, h.waiting, h.goesOn, htail, hstays hthread, hcleared (by simp)⟩
    show Stage _ w.thread
    rw [hthread]
    exact ⟨hstage.accepted, hstage.AllTasks, hstage.executed, hstage.CurrentTaskIndex⟩

theorem LoopInvariant.callStep {answer : Bool} {w w' : TransferWorker} (h : LoopInvariant w)
    (hstep : callStep answer w = some w') : LoopInvariant w' := by
  have hstage := h.stage
  have hpending := h.pending
  have hunstarted : ∀ {op ops}, w.call = op :: ops → ¬ op.Quiet → w.thread = none := fun hcall hq =>
    by_contra fun hthread => hq (h.quiet hthread _ (hcall ▸ List.mem_cons_self))
  cases callStep_moves hstep with
  | created ops hcall =>
    rw [hunstarted hcall id] at hstage
    rw [hcall] at hpending
    obtain rfl := hpending.nil_of_createThread
    exact ⟨⟨⟨hstage.accepted, hstage.AllTasks, hstage.executed, hstage.CurrentTaskIndex⟩,
      h.cleared hcall⟩, h.waiting,
      h.goesOn, .idle, by simp, by simp⟩
  | notCreated ops hcall =>
    exact ⟨hstage.congr (SameTasks.rfl.setCall _), h.waiting, h.goesOn, .failing,
      fun hsome => absurd (hunstarted hcall id) hsome, by simp⟩
  | joined answer ops hcall hend =>
    rw [hcall] at hpending
    rcases hpending.op_cases with hq | ⟨t, ht⟩ | hop | hop | hop | hop | hop
    · exact hq.elim
    · cases ht
    all_goals cases hop
  | applied answer op ops hcall hcreate hjoin =>
    by_cases hq : op.Quiet
    · exact h.applyQuiet hcall hq
    · exact h.applyUnstarted hcall (hunstarted hcall hq) hq hcreate

theorem LoopInvariant.beginCall {c : Call} {w w' : TransferWorker} (h : LoopInvariant w)
    (hok : SingleStart w (.begin_ c)) (hstep : beginCall c w = some w') : LoopInvariant w' := by
  have hallowed : c ≠ .stop ∧ c ≠ .reset := by
    constructor <;> rintro rfl <;> exact hok
  have hbegins : LoopInvariant { w with call := c.ops } := by
    refine ⟨h.stage.congr (SameTasks.rfl.setCall _), h.waiting, h.goesOn,
      .within c _ hallowed List.suffix_rfl, ?_, ?_⟩
    · intro hthread op hop
      cases c with
      | enqueueTask t => exact absurd hok hthread
      | start => exact absurd hok hthread
      | cancel => exact cancelOps_quiet op hop
      | setPaused paused =>
        rcases List.mem_pair.mp hop with rfl | rfl
        · trivial
        · rcases paused with _ | _ <;> trivial
      | stop => exact hok.elim
      | reset => exact hok.elim
    · intro hcall
      rcases c with t | _ | _ | _ | _ | _ <;> simp [Call.ops, cancelOps] at hcall
  obtain ⟨-, rfl | ⟨-, -, rfl⟩ | ⟨hc, -, rfl⟩⟩ := beginCall_eq hstep
  · exact h
  · exact hbegins
  · obtain rfl : c = .start := hc.resolve_right hallowed.2
    have hthread : w.thread = none := hok
    rw [← hthread]
    exact hbegins

/-! ## The steps of the thread -/

/-- A step of the thread that leaves the accepted tasks, the stop event and the call alone. -/
theorem LoopInvariant.move {w w' : TransferWorker} {p : ThreadPoint}
    (h : LoopInvariant w) (hp : w.thread = some p)
    (haccepted : w'.accepted = w.accepted) (hstop : w'.StopEvent = w.StopEvent)
    (hcall : w'.call = w.call)
    (hstage : Stage w' w'.thread) : LoopInvariant w' := by
  have hquiet : ∀ op ∈ w.call, op.Quiet := h.quiet (by simp [hp])
  refine ⟨hstage, haccepted ▸ h.waiting, hstop.trans h.goesOn, hcall ▸ h.pending,
    fun _ => hcall ▸ hquiet, ?_⟩
  intro hcreate
  exact (hquiet .createThread (by rw [← hcall, hcreate]; exact List.mem_cons_self)).elim

theorem Layout.takes {w : TransferWorker} {goods rest : List QueuedTask} {t : QueuedTask}
    (h : Layout w goods [] [] [] 0) (hqueue : w.TaskQueue = t :: rest) :
    Layout { w with TaskQueue := rest } goods [t] [t] [] 0 where
  accepted := by simp [h.accepted, hqueue]
  AllTasks := by simp [h.AllTasks, hqueue]
  executed := h.executed
  CurrentTaskIndex := h.CurrentTaskIndex

theorem modify_length {α : Type*} (f : α → α) (a : α) (ys : List α) :
    ∀ xs : List α, (xs ++ a :: ys).modify xs.length f = xs ++ f a :: ys
  | [] => rfl
  | x :: xs => by
    rw [List.cons_append, List.length_cons, List.modify_succ_cons,
      modify_length f a ys xs, List.cons_append]

theorem Layout.mark {w : TransferWorker} {goods taken : List QueuedTask} {entry : QueuedTask}
    {results : List (QueuedTask × Bool)} {index : ℕ}
    (h : Layout w goods taken [entry] results index)
    (status : TaskStatus) :
    Layout (w.mark (some goods.length) status) goods taken
      [entry.withStatus status] results index where
  accepted := h.accepted
  AllTasks := by
    have hmark :=
      modify_length (.withStatus status) entry w.TaskQueue (goods.map (.withStatus .done))
    rw [List.length_map] at hmark
    simp only [TransferWorker.mark, h.AllTasks, List.append_assoc, List.singleton_append, hmark]
  executed := h.executed
  CurrentTaskIndex := h.CurrentTaskIndex

theorem Layout.returns {w : TransferWorker} {goods taken entries : List QueuedTask} {index : ℕ}
    (h : Layout w goods taken entries [] index) (t : QueuedTask) (ok : Bool) :
    Layout { w with executed := w.executed ++ [(t, ok)] } goods taken entries [(t, ok)] index where
  accepted := h.accepted
  AllTasks := h.AllTasks
  executed := by simp [h.executed]
  CurrentTaskIndex := h.CurrentTaskIndex

/-- A task that was executed well joins the others. -/
theorem Layout.good {w : TransferWorker} {goods : List QueuedTask} {t : QueuedTask}
    (h : Layout w goods [t] [t.withStatus .done] [(t, true)] 1) :
    Layout w (goods ++ [t]) [] [] [] 0 where
  accepted := by simp [h.accepted]
  AllTasks := by simp [h.AllTasks]
  executed := by simp [h.executed]
  CurrentTaskIndex := by simp [h.CurrentTaskIndex]

theorem Ending.clear {w : TransferWorker} (h : Ending w) :
    Ending ({ w with IsRunning := false }.goto .posting) := by
  have hlayout : ∀ {goods taken entries results index}, Layout w goods taken entries results index →
      Layout ({ w with IsRunning := false }.goto .posting) goods taken entries results index :=
    fun h => ⟨h.accepted, h.AllTasks, h.executed, h.CurrentTaskIndex⟩
  cases h with
  | refused h herror => exact .refused (hlayout h) herror
  | drained goods h hqueue herror => exact .drained goods (hlayout h) hqueue herror
  | dropped goods t h hcancelled herror => exact .dropped goods t (hlayout h) hcancelled herror
  | failed goods t h herror => exact .failed goods t (hlayout h) herror
  | skipped goods t h hcancelled herror => exact .skipped goods t (hlayout h) hcancelled herror

section ThreadStep

variable {w : TransferWorker} {t : QueuedTask} {index : Option ℕ}

theorem LoopInvariant.stage_at {p : ThreadPoint} (h : LoopInvariant w) (hp : w.thread = some p) :
    Stage w (some p) := by
  have hstage := h.stage
  rwa [hp] at hstage

/-- The thread goes on to another point, and does nothing else. -/
theorem LoopInvariant.goto {p q : ThreadPoint} (h : LoopInvariant w) (hp : w.thread = some p)
    (hstage : Stage w (some q)) : LoopInvariant (w.goto q) :=
  h.move hp rfl rfl rfl (hstage.congr (SameTasks.rfl.goto q))

/-- The same where what holds at the points is the same. -/
theorem LoopInvariant.goes {p q : ThreadPoint} (h : LoopInvariant w) (hp : w.thread = some p)
    (hsame : Stage w (some p) = Stage w (some q)) : LoopInvariant (w.goto q) :=
  h.goto hp (hsame ▸ h.stage_at hp)

/-- A task is begun, whose entry is the next one of the list. -/
theorem LoopInvariant.begins (h : LoopInvariant w) (hp : w.thread = some (.counted t)) :
    LoopInvariant
      (({ w with CurrentTaskIndex := w.CurrentTaskIndex + 1, begun := w.begun ++ [t] }.mark
        (some w.CurrentTaskIndex) .running).goto
    (.executing t (some w.CurrentTaskIndex) .busy)) := by
  obtain ⟨goods, hlayout, herror⟩ := h.stage_at hp
  have hcounted : Layout
      { w with CurrentTaskIndex := w.CurrentTaskIndex + 1, begun := w.begun ++ [t] }
      goods [t] [t] [] 1 :=
    ⟨hlayout.accepted, hlayout.AllTasks, hlayout.executed,
      congrArg (· + 1) hlayout.CurrentTaskIndex⟩
  have hi : w.CurrentTaskIndex = goods.length := hlayout.CurrentTaskIndex
  rw [hi]
  rw [hi] at hcounted
  exact h.move hp rfl rfl rfl
    ⟨goods, (hcounted.mark .running).congr (SameTasks.rfl.goto _), herror, rfl, trivial⟩

/-- One operation of a `Cancel` that comes while the task is executed. -/
theorem LoopInvariant.cancelling {op : Op} {ops : List Op} (h : LoopInvariant w)
    (hp : w.thread = some (.executing t index (.cancelling (op :: ops)))) :
    LoopInvariant ((op.apply w).goto (.executing t index (.cancelling ops))) := by
  obtain ⟨goods, hlayout, herror, hi, hquiet⟩ := h.stage_at hp
  have hq := hquiet op List.mem_cons_self
  have hsame := (hq.sameTasks w).goto (.executing t index (.cancelling ops))
  refine h.move hp hsame.accepted hsame.StopEvent (op.apply_call w)
    ⟨goods, hlayout.congr hsame, hsame.HasError.trans herror, hi, ?_⟩
  exact fun op' hop' => hquiet op' (List.mem_cons_of_mem _ hop')

theorem LoopInvariant.marks {success : Bool} (h : LoopInvariant w)
    (hp : w.thread = some (.returned t index success)) :
    LoopInvariant
      ((w.mark index (if success then .done else if w.Cancelled then .skipped else .error)).goto
        (if success then .top else .failed)) := by
  obtain ⟨goods, hlayout, herror, rfl⟩ := h.stage_at hp
  rcases success with _ | _
  · refine h.move hp rfl rfl rfl
      ⟨goods, t, _, (hlayout.mark _).congr (SameTasks.rfl.goto _), herror, ?_⟩
    rcases hcancelled : w.Cancelled with _ | _
    · exact .inl rfl
    · exact .inr ⟨rfl, hcancelled⟩
  · exact h.move hp rfl rfl rfl
      ⟨goods ++ [t], (hlayout.mark .done).good.congr (SameTasks.rfl.goto _), herror⟩

/-- Behind a task that has failed the loop is left. -/
theorem LoopInvariant.notes (h : LoopInvariant w) (hp : w.thread = some .failed) :
    LoopInvariant ({ w with HasError := w.HasError || !w.Cancelled }.goto .leaving) := by
  obtain ⟨goods, t, status, hlayout, herror, hstatus⟩ := h.stage_at hp
  have hnoted : Layout ({ w with HasError := w.HasError || !w.Cancelled }.goto .leaving) goods [t]
      [t.withStatus status] [(t, false)] 1 :=
    ⟨hlayout.accepted, hlayout.AllTasks, hlayout.executed, hlayout.CurrentTaskIndex⟩
  refine h.move hp rfl rfl rfl ?_
  rcases hstatus with rfl | ⟨rfl, hcancelled⟩
  · exact .failed goods t hnoted (fun hno => by simpa [TransferWorker.goto, herror] using hno)
  · exact .skipped goods t hnoted hcancelled (by simp [TransferWorker.goto, herror, hcancelled])

theorem LoopInvariant.threadStep {answer : Answer} {w' : TransferWorker} (h : LoopInvariant w)
    (hstep : threadStep answer w = some w') : LoopInvariant w' := by
  cases threadStep_moves hstep with
  | connected hp =>
    obtain ⟨hlayout, herror⟩ := h.stage_at hp
    exact h.goto hp ⟨[], hlayout, herror⟩
  | refused hp => exact h.goto hp (h.stage_at hp).1
  | refusalNoted _ hp =>
    have hstage : Layout w [] [] [] [] 0 := h.stage_at hp
    exact h.move hp rfl rfl rfl
      ⟨.refused ⟨hstage.accepted, hstage.AllTasks, hstage.executed, hstage.CurrentTaskIndex⟩ rfl,
        rfl⟩
  | stopped _ hp hstop => exact absurd (hstop.symm.trans h.goesOn) (by simp)
  | goesOn _ hp hstop => exact h.goes hp rfl
  | empty _ hp hqueue => exact h.goes hp rfl
  | pops _ t rest hp hqueue =>
    obtain ⟨goods, hlayout, herror⟩ := h.stage_at hp
    exact h.move hp rfl rfl rfl
      ⟨goods, (hlayout.takes hqueue).congr (SameTasks.rfl.goto _), herror⟩
  | stoppedIdle _ hp hstop => exact absurd (hstop.symm.trans h.goesOn) (by simp)
  | woken _ hp hstop hwake =>
    exact h.move hp rfl rfl rfl
      ((h.stage_at hp).congr ⟨rfl, rfl, rfl, rfl, rfl, rfl, rfl, rfl, id⟩)
  | timedOut hp hstop hwake => exact h.goes hp rfl
  | stillEmpty _ hp hqueue =>
    obtain ⟨goods, hlayout, herror⟩ := h.stage_at hp
    exact h.goto hp (.drained goods hlayout hqueue herror)
  | filled _ hp hqueue => exact h.goes hp rfl
  | dropped _ t hp hcancelled =>
    obtain ⟨goods, hlayout, herror⟩ := h.stage_at hp
    exact h.goto hp (.dropped goods t hlayout hcancelled herror)
  | counts _ t hp hcancelled =>
    exact h.move hp rfl rfl rfl
      ((h.stage_at hp).congr ⟨rfl, rfl, rfl, rfl, rfl, rfl, rfl, rfl, id⟩)
  | begins _ t hp hindex => exact h.begins hp
  | beginsUnlisted _ t hp hindex =>
    obtain ⟨goods, hlayout, herror⟩ := h.stage_at hp
    refine absurd ?_ hindex
    rw [hlayout.CurrentTaskIndex, hlayout.AllTasks]
    simp
  | reports t i hp => exact h.goes hp rfl
  | cancels t i hp =>
    obtain ⟨goods, hlayout, herror, hi, -⟩ := h.stage_at hp
    exact h.goto hp ⟨goods, hlayout, herror, hi, cancelOps_quiet⟩
  | returns ok t i hp =>
    obtain ⟨goods, hlayout, herror, hi, -⟩ := h.stage_at hp
    exact h.move hp rfl rfl rfl
      ⟨goods, (hlayout.returns t ok).congr (SameTasks.rfl.goto _), herror, hi⟩
  | stoppedProgress _ t i hp hstop => exact absurd (hstop.symm.trans h.goesOn) (by simp)
  | runs _ t i hp hstop hrun => exact h.goes hp rfl
  | reported _ t i hp => exact h.goes hp rfl
  | cancelled _ t i hp =>
    obtain ⟨goods, hlayout, herror, hi, -⟩ := h.stage_at hp
    exact h.goto hp ⟨goods, hlayout, herror, hi, trivial⟩
  | cancelling _ t i op ops hp => exact h.cancelling hp
  | marks _ t i success hp => exact h.marks hp
  | notes _ hp => exact h.notes hp
  | clears _ hp =>
    have hstage : Ending w := h.stage_at hp
    exact h.move hp rfl rfl rfl ⟨hstage.clear, rfl⟩
  | posts _ hp => exact h.goes hp rfl
  | exits _ hp => exact h.goes hp rfl

end ThreadStep

/-! ## The outcome -/

/-- What a finished run leaves of the tasks that were enqueued. -/
structure RunOutcome (w : TransferWorker) : Prop where
  /-- The executed tasks are the first of the tasks, in order. -/
  inOrder : w.executed.map Prod.fst <+: w.accepted
  /-- The list shows the tasks that were enqueued. -/
  listed : w.AllTasks.map (.withStatus .waiting) = w.accepted
  before : ∀ i t, i + 1 < w.executed.length → w.AllTasks[i]? = some t → t.Status = .done
  last : ∀ i t, i + 1 = w.executed.length → w.AllTasks[i]? = some t →
    t.Status = .done ∨ t.Status = .error ∨ t.Status = .skipped ∧ w.Cancelled = true
  after : ∀ i t, w.executed.length ≤ i → w.AllTasks[i]? = some t → t.Status = .waiting
  noneRunning : ∀ t ∈ w.AllTasks, t.Status ≠ .running
  notRunning : w.IsRunning = false
  /-- The loop executes a task before it sets the error. -/
  stopping : w.HasError = true → w.executed ≠ [] →
    ∀ t, w.AllTasks[w.executed.length - 1]? = some t → t.Status = .error
  complete : w.HasError = false → w.Cancelled = false →
    w.TaskQueue = [] ∧ w.executed = w.accepted.map (·, true) ∧ ∀ t ∈ w.AllTasks, t.Status = .done

theorem getElem?_cases {α : Type*} {xs ys zs : List α} {i : ℕ} {a : α}
    (h : (xs ++ ys ++ zs)[i]? = some a) :
    i < xs.length ∧ a ∈ xs ∨ (xs.length ≤ i ∧ i < xs.length + ys.length) ∧ a ∈ ys ∨
      xs.length + ys.length ≤ i ∧ a ∈ zs := by
  rcases lt_or_ge i xs.length with hxs | hxs
  · rw [List.append_assoc, List.getElem?_append_left hxs] at h
    exact .inl ⟨hxs, List.mem_of_getElem? h⟩
  rcases lt_or_ge i (xs.length + ys.length) with hys | hys
  · rw [List.getElem?_append_left (by simpa using hys), List.getElem?_append_right hxs] at h
    exact .inr (.inl ⟨⟨hxs, hys⟩, List.mem_of_getElem? h⟩)
  · rw [List.getElem?_append_right (by simpa using hys)] at h
    exact .inr (.inr ⟨hys, List.mem_of_getElem? h⟩)

theorem map_withStatus_self {status : TaskStatus} {ts : List QueuedTask}
    (h : ∀ t ∈ ts, t.Status = status) :
    ts.map (.withStatus status) = ts := by
  conv_rhs => rw [← List.map_id ts]
  exact List.map_congr_left fun t ht => QueuedTask.withStatus_self (h t ht)

/-- The outcome, from the good tasks, the entry of the one at which the loop stopped, and the tasks
after it. -/
theorem RunOutcome.of_parts {w : TransferWorker} (goods stopped rest : List QueuedTask)
    (haccepted : w.accepted = goods ++ stopped.map (.withStatus .waiting) ++ rest)
    (hAllTasks : w.AllTasks = goods.map (.withStatus .done) ++ stopped ++ rest)
    (hexecuted : w.executed.map Prod.fst = goods ++ stopped.map (.withStatus .waiting))
    (hwaiting : ∀ t ∈ w.accepted, t.Status = .waiting) (hone : stopped.length ≤ 1)
    (hstatus : ∀ t ∈ stopped, t.Status = .error ∨ t.Status = .skipped ∧ w.Cancelled = true)
    (hrunning : w.IsRunning = false) (herror : w.HasError = true → ∀ t ∈ stopped, t.Status = .error)
    (hloop : w.HasError = true → stopped = [] → w.executed = [])
    (hcomplete : w.HasError = false → w.Cancelled = false →
      w.TaskQueue = [] ∧ stopped = [] ∧ rest = [] ∧ w.executed = goods.map (·, true)) :
    RunOutcome w := by
  have hlength : w.executed.length = goods.length + stopped.length := by
    simpa using congrArg List.length hexecuted
  have hgoods : ∀ t ∈ goods, t.Status = .waiting := fun t ht => hwaiting t (by simp [haccepted, ht])
  have hrest : ∀ t ∈ rest, t.Status = .waiting := fun t ht => hwaiting t (by simp [haccepted, ht])
  have hdone : ∀ t ∈ goods.map (QueuedTask.withStatus .done), t.Status = .done := by
    intro t ht
    obtain ⟨s, -, rfl⟩ := List.mem_map.mp ht
    rfl
  have hentry : ∀ {i t}, w.AllTasks[i]? = some t → i < goods.length ∧ t.Status = .done ∨
      (goods.length ≤ i ∧ i < goods.length + stopped.length) ∧ t ∈ stopped ∨
      goods.length + stopped.length ≤ i ∧ t.Status = .waiting := by
    intro i t ht
    rw [hAllTasks] at ht
    have hcases := getElem?_cases ht
    rw [List.length_map] at hcases
    exact hcases.imp (.imp id (hdone t)) (.imp id (.imp id (hrest t)))
  refine ⟨?_, ?_, ?_, ?_, ?_, ?_, hrunning, ?_, ?_⟩
  · rw [hexecuted, haccepted]
    exact List.prefix_append _ _
  · rw [hAllTasks, haccepted, List.map_append, List.map_append, List.map_map,
      map_withStatus_self hrest]
    congr 2
    exact map_withStatus_self hgoods
  · intro i t hi ht
    rcases hentry ht with ⟨-, h⟩ | ⟨⟨h, -⟩, -⟩ | ⟨h, -⟩
    · exact h
    all_goals omega
  · intro i t hi ht
    rcases hentry ht with ⟨-, h⟩ | ⟨-, h⟩ | ⟨h, -⟩
    · exact .inl h
    · exact .inr (hstatus t h)
    · omega
  · intro i t hi ht
    rcases hentry ht with ⟨h, -⟩ | ⟨⟨-, h⟩, -⟩ | ⟨-, h⟩
    · omega
    · omega
    · exact h
  · intro t ht
    obtain ⟨i, hi⟩ := List.getElem?_of_mem ht
    rcases hentry hi with ⟨-, h⟩ | ⟨-, h⟩ | ⟨-, h⟩
    · simp [h]
    · rcases hstatus t h with h | ⟨h, -⟩ <;> simp [h]
    · simp [h]
  · intro hset hsome t ht
    rcases hentry ht with ⟨h, -⟩ | ⟨-, h⟩ | ⟨h, -⟩
    · rcases stopped with _ | ⟨s, stopped⟩
      · exact absurd (hloop hset rfl) hsome
      · rw [List.length_cons] at hlength
        omega
    · exact herror hset t h
    · have hpos := List.length_pos_of_ne_nil hsome
      omega
  · intro hset hcancelled
    obtain ⟨hqueue, rfl, rfl, hall⟩ := hcomplete hset hcancelled
    refine ⟨hqueue, by simpa [haccepted] using hall, ?_⟩
    simp [hAllTasks]

theorem Layout.executed_fst {w : TransferWorker} {goods taken entries : List QueuedTask}
    {results : List (QueuedTask × Bool)} {index : ℕ}
    (h : Layout w goods taken entries results index) :
    w.executed.map Prod.fst = goods ++ results.map Prod.fst := by
  rw [h.executed, List.map_append, List.map_map]
  congr 1
  exact List.map_id goods

theorem Ending.outcome {w : TransferWorker} (h : Ending w)
    (hwaiting : ∀ t ∈ w.accepted, t.Status = .waiting)
    (hrunning : w.IsRunning = false) : RunOutcome w := by
  -- The loop stopped at a task, whose entry has the status.
  have hstop : ∀ {goods t status}, Layout w goods [t] [t.withStatus status] [(t, false)] 1 →
      (status = .error ∨ status = .skipped ∧ w.Cancelled = true) →
        (w.HasError = true → status = .error) →
      (w.HasError = false → w.Cancelled = true) → RunOutcome w := by
    intro goods t status h hstatus herror hcancelled
    have ht : t.withStatus .waiting = t :=
      QueuedTask.withStatus_self (hwaiting t (by simp [h.accepted]))
    refine .of_parts goods [t.withStatus status] w.TaskQueue ?_ h.AllTasks ?_ hwaiting (by simp)
      (by simpa using hstatus) hrunning (by simpa using herror) (by simp) ?_
    · rw [List.map_singleton, QueuedTask.withStatus_withStatus, ht, h.accepted]
    · rw [List.map_singleton, QueuedTask.withStatus_withStatus, ht]
      exact h.executed_fst
    · intro hset hno
      exact absurd (hno.symm.trans (hcancelled hset)) (by simp)
  cases h with
  | refused h herror =>
    exact .of_parts [] [] w.TaskQueue h.accepted h.AllTasks h.executed_fst hwaiting (by simp)
      (by simp) hrunning (by simp)
      (fun _ _ => h.executed) (by simp [herror])
  | drained goods h hqueue herror =>
    exact .of_parts goods [] w.TaskQueue h.accepted h.AllTasks h.executed_fst hwaiting
      (by simp) (by simp) hrunning
      (by simp) (by simp [herror]) (by simp [hqueue, h.executed])
  | dropped goods t h hcancelled herror =>
    exact .of_parts goods [] (t :: w.TaskQueue) (by simp [h.accepted])
      (by simp [h.AllTasks]) h.executed_fst hwaiting
      (by simp) (by simp) hrunning (by simp) (by simp [herror]) (by simp [hcancelled])
  | failed goods t h herror => exact hstop h (.inl rfl) (fun _ => rfl) herror
  | skipped goods t h hcancelled herror =>
    exact hstop h (.inr ⟨rfl, hcancelled⟩) (by simp [herror]) (fun _ => hcancelled)

theorem LoopInvariant.next {a : Action} {w w' : TransferWorker}
    (h : LoopInvariant w) (hok : SingleStart w a)
    (hstep : step a w = some w') : LoopInvariant w' :=
  match a with
  | .begin_ _ => h.beginCall hok hstep
  | .call _ => h.callStep hstep
  | .thread _ => h.threadStep hstep

theorem LoopInvariant.of_reaches {w : TransferWorker} (h : Reaches step SingleStart .fresh w) :
    LoopInvariant w :=
  h.invariant (fun _ _ _ h hok hstep => h.next hok hstep) .fresh

/-- When the thread has cleared `IsRunning`, the run has its outcome. The loop sets the error at one
point only, and then a task has been executed. -/
theorem run_outcome {w : TransferWorker} (h : Reaches step SingleStart .fresh w) :
    (w.ended = true → RunOutcome w) ∧ (w.thread = some .failed → w.executed ≠ []) := by
  have hinv := LoopInvariant.of_reaches h
  have hstage := hinv.stage
  constructor
  · intro hended
    have hend : Ending w ∧ w.IsRunning = false := by
      unfold TransferWorker.ended at hended
      split at hended
      · next hp => rwa [hp] at hstage
      · next hp => rwa [hp] at hstage
      · next hp => rwa [hp] at hstage
      · cases hended
    exact hend.1.outcome hinv.waiting hend.2
  · intro hp
    rw [hp] at hstage
    obtain ⟨goods, t, status, hlayout, -⟩ := hstage
    simp [hlayout.executed]

def aDownload : QueuedTask := ⟨⟨.download, [97], [97], false, false⟩, 1, .waiting⟩

/-- Two tasks are enqueued and the worker is started; the first task fails, or both are executed. -/
def startTwo : List Action :=
  [.begin_ (.enqueueTask aDownload), .call true, .call true,
    .begin_ (.enqueueTask aDownload), .call true, .call true,
    .begin_ .start, .call true, .call true, .call true, .call true,
      .call true, .thread (.result true),
    .thread .timeout, .thread .timeout, .thread .timeout, .thread .timeout]

def failsFirst : List Action :=
  startTwo ++ [.thread (.result false), .thread .timeout]

def executesBoth : List Action :=
  startTwo ++ [.thread (.result true), .thread .timeout, .thread .timeout,
    .thread .timeout, .thread .timeout,
    .thread .timeout, .thread (.result true), .thread .timeout, .thread .timeout,
      .thread .timeout, .thread .timeout,
    .thread .timeout, .thread .timeout, .thread .timeout]

theorem run_outcome_two :
    (∃ w, w.executed.map Prod.snd = [true, true] ∧ w.thread = some .posted ∧ RunOutcome w) ∧
      ∃ w : TransferWorker, w.thread = some .failed ∧ w.executed ≠ [] :=
  ⟨⟨(run step SingleStart executesBoth .fresh).get rfl, rfl, rfl,
    (run_outcome (reaches_run rfl)).1 rfl⟩,
    (run step SingleStart failsFirst .fresh).get rfl, rfl, (run_outcome (reaches_run rfl)).2 rfl⟩

end SalamanderSftp
