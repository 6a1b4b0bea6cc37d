import SalamanderSftp.Worker.Outcome

/-!
# The queue and the list of the worker

The queue is to be the end of the list from `CurrentTaskIndex` on, but for a task that the thread
has taken and not yet counted. A thread that leaves with such a task, because of a cancellation or
because it is terminated, leaves the two apart, and a later `Start` goes on from there.
-/

namespace SalamanderSftp

open Machine

/-- `Reset` is called only while no thread runs. -/
def ResetIdle (w : TransferWorker) : Action → Prop
  | .begin_ .reset => w.active = false
  | _ => True

instance (w : TransferWorker) (a : Action) : Decidable (ResetIdle w a) := by
  unfold ResetIdle
  split <;> infer_instance

/-- The task between the two locked sections. -/
def heldAt : Option ThreadPoint → List QueuedTask
  | some (.taken t) => [t]
  | some (.counted t) => [t]
  | _ => []

/-- The task that is executed has the entry that is marked. -/
def CurrentAt (AllTasks : List QueuedTask) : Option ThreadPoint → Prop
  | some (.executing t i _) =>
    ∃ taskIdx, i = some taskIdx ∧ AllTasks[taskIdx]? = some (t.withStatus .running)
  | some (.returned t i _) =>
    ∃ taskIdx, i = some taskIdx ∧ AllTasks[taskIdx]? = some (t.withStatus .running)
  | _ => True

structure Aligned (w : TransferWorker) : Prop where
  queue : heldAt w.thread ++ w.TaskQueue = w.AllTasks.drop w.CurrentTaskIndex
  current : CurrentAt w.AllTasks w.thread
  /-- An entry with a mark is that of the task that was executed at its place. -/
  marked : ∀ (i : ℕ) (t : QueuedTask), w.AllTasks[i]? = some t → t.Status ≠ .waiting →
    w.begun[i]? = some (t.withStatus .waiting)

/-- The steps that do not lose a task that the thread holds: it does not leave with it, and `Stop`
does not terminate it there. -/
def KeepsHeld (w : TransferWorker) : Action → Prop
  | .thread _ =>
    match w.thread with
    | some (.taken _) => w.Cancelled = false
    | _ => True
  | .call _ =>
    match w.call with
    | .join :: _ => heldAt w.thread = []
    | _ => True
  | .begin_ _ => True

instance (w : TransferWorker) (a : Action) : Decidable (KeepsHeld w a) := by
  unfold KeepsHeld
  split
  · split <;> infer_instance
  · split <;> infer_instance
  · infer_instance

/-! ## The invariant -/

/-- The list is what has been marked, what the thread holds, and the queue. -/
structure InList (w : TransferWorker) (marked held : List QueuedTask) : Prop where
  AllTasks : w.AllTasks = marked ++ held ++ w.TaskQueue
  CurrentTaskIndex : w.CurrentTaskIndex = marked.length
  begun : w.begun = marked.map (.withStatus .waiting)
  waiting : ∀ t ∈ held ++ w.TaskQueue, t.Status = .waiting

/-- The last of the marked tasks is the one that is executed. -/
def LastAt (marked : List QueuedTask) : Option ThreadPoint → Prop
  | some (.executing t i p) =>
    ∃ before, marked = before ++ [t.withStatus .running] ∧ i = some before.length ∧
      match p with
      | .cancelling ops => ∀ op ∈ ops, op.Quiet
      | _ => True
  | some (.returned t i _) =>
    ∃ before, marked = before ++ [t.withStatus .running] ∧ i = some before.length
  | _ => True

structure AlignmentInvariant (w : TransferWorker) : Prop where
  listed : ∃ marked, InList w marked (heldAt w.thread) ∧ LastAt marked w.thread
  pending : Pending (fun _ => True) w.call
  /-- The list is cleared, and a thread created, only without a thread. -/
  idle : .createThread ∈ w.call ∨ .clearQueue ∈ w.call → w.thread = none

theorem AlignmentInvariant.fresh : AlignmentInvariant .fresh where
  listed := ⟨[], ⟨rfl, rfl, rfl, by simp [TransferWorker.fresh, heldAt]⟩, trivial⟩
  pending := .idle
  idle _ := rfl

/-- The two states have the same queue and list. -/
structure SameLists (w w' : TransferWorker) : Prop where
  TaskQueue : w'.TaskQueue = w.TaskQueue
  AllTasks : w'.AllTasks = w.AllTasks
  CurrentTaskIndex : w'.CurrentTaskIndex = w.CurrentTaskIndex
  begun : w'.begun = w.begun

theorem InList.congr {w w' : TransferWorker} {marked held : List QueuedTask}
    (h : InList w marked held)
    (hsame : SameLists w w') : InList w' marked held where
  AllTasks := by rw [hsame.AllTasks, hsame.TaskQueue, h.AllTasks]
  CurrentTaskIndex := by rw [hsame.CurrentTaskIndex, h.CurrentTaskIndex]
  begun := by rw [hsame.begun, h.begun]
  waiting := by
    rw [hsame.TaskQueue]
    exact h.waiting

theorem Op.sameLists {op : Op} (hpush : ∀ t, op ≠ .push t)
    (hclear : op ≠ .clearQueue) (w : TransferWorker) :
    SameLists w (op.apply w) := by
  cases op with
  | push t => exact absurd rfl (hpush t)
  | clearQueue => exact absurd rfl hclear
  | _ => exact ⟨rfl, rfl, rfl, rfl⟩

theorem Op.Quiet.sameLists {op : Op} (h : op.Quiet) (w : TransferWorker) :
    SameLists w (op.apply w) := by
  refine op.sameLists ?_ ?_ w
  · rintro t rfl
    exact h.elim
  · rintro rfl
    exact h.elim

theorem InList.push {w : TransferWorker} {marked held : List QueuedTask}
    (h : InList w marked held) (t : QueuedTask) :
    InList (Op.apply w (.push t)) marked held where
  AllTasks := by simp [Op.apply, h.AllTasks]
  CurrentTaskIndex := h.CurrentTaskIndex
  begun := h.begun
  waiting := by
    intro s hs
    simp only [Op.apply, ← List.append_assoc, List.mem_append, List.mem_singleton] at hs
    rcases hs with hs | rfl
    · exact h.waiting s (List.mem_append.mpr hs)
    · rfl

theorem AlignmentInvariant.aligned {w : TransferWorker} (h : AlignmentInvariant w) : Aligned w := by
  obtain ⟨marked, hlisted, hlast⟩ := h.listed
  refine ⟨?_, ?_, ?_⟩
  · rw [hlisted.AllTasks, hlisted.CurrentTaskIndex, List.append_assoc, List.drop_left]
  · have hcurrent : ∀ {before : List QueuedTask} {t : QueuedTask}, marked =
        before ++ [t.withStatus .running] →
        w.AllTasks[before.length]? = some (t.withStatus .running) := by
      rintro before t rfl
      simp [hlisted.AllTasks]
    rcases hp : w.thread with _ | p
    · trivial
    rw [hp] at hlast
    cases p with
    | executing t i p =>
      obtain ⟨before, hmarked, hi, -⟩ := hlast
      exact ⟨_, hi, hcurrent hmarked⟩
    | returned t i ok =>
      obtain ⟨before, hmarked, hi⟩ := hlast
      exact ⟨_, hi, hcurrent hmarked⟩
    | _ => trivial
  · intro i t ht hmark
    rw [hlisted.AllTasks, List.append_assoc] at ht
    rcases lt_or_ge i marked.length with hi | hi
    · rw [List.getElem?_append_left hi] at ht
      rw [hlisted.begun, List.getElem?_map, ht]
      rfl
    · rw [List.getElem?_append_right hi] at ht
      exact absurd (hlisted.waiting t (List.mem_of_getElem? ht)) hmark

theorem InList.begins {w : TransferWorker} {marked : List QueuedTask} {t : QueuedTask}
    (h : InList w marked [t]) :
    InList ({ w with CurrentTaskIndex := marked.length + 1, begun := w.begun ++ [t] }.mark
      (some marked.length) .running)
      (marked ++ [t.withStatus .running]) [] where
  AllTasks := by
    simp only [TransferWorker.mark, h.AllTasks, List.append_assoc, List.singleton_append]
    exact modify_length _ _ _ marked
  CurrentTaskIndex := by simp [TransferWorker.mark]
  begun := by
    have ht : t.withStatus .waiting = t := QueuedTask.withStatus_self (h.waiting t (by simp))
    simp [TransferWorker.mark, h.begun, ht]
  waiting t ht := h.waiting t (List.mem_cons_of_mem _ ht)

theorem InList.mark {w : TransferWorker} {before held : List QueuedTask} {entry : QueuedTask}
    (h : InList w (before ++ [entry]) held) (status : TaskStatus) :
    InList (w.mark (some before.length) status) (before ++ [entry.withStatus status]) held where
  AllTasks := by
    simp only [TransferWorker.mark, h.AllTasks, List.append_assoc, List.singleton_append]
    exact modify_length _ _ _ before
  CurrentTaskIndex := by simp [TransferWorker.mark, h.CurrentTaskIndex]
  begun := by simp [TransferWorker.mark, h.begun]
  waiting := h.waiting

/-! ## The steps -/

theorem AlignmentInvariant.beginCall {c : Call} {w w' : TransferWorker} (h : AlignmentInvariant w)
    (hidle : ResetIdle w (.begin_ c)) (hstep : beginCall c w = some w') :
    AlignmentInvariant w' := by
  obtain ⟨marked, hlisted, hlast⟩ := h.listed
  have hbegins : Pending (fun _ => True) c.ops := .within c _ trivial List.suffix_rfl
  obtain ⟨-, rfl | ⟨hstart, hreset, rfl⟩ | ⟨hc, hactive, rfl⟩⟩ := beginCall_eq hstep
  · exact h
  · refine ⟨⟨marked, hlisted.congr ⟨rfl, rfl, rfl, rfl⟩, hlast⟩, hbegins, fun hop => ?_⟩
    rcases c with t | _ | _ | (_ | _) | _ | _ <;> simp [Call.ops, cancelOps] at hop hstart
    exact absurd (hidle.symm.trans (hreset rfl)) (by simp)
  · have hheld : heldAt w.thread = [] := by
      rcases hp : w.thread with _ | p
      · rfl
      cases p <;> first | rfl | simp [TransferWorker.active, hp] at hactive
    exact ⟨⟨marked, (hheld ▸ hlisted).congr ⟨rfl, rfl, rfl, rfl⟩, trivial⟩, hbegins, fun _ => rfl⟩

theorem AlignmentInvariant.callStep {answer : Bool} {w w' : TransferWorker}
    (h : AlignmentInvariant w)
    (hkeeps : KeepsHeld w (.call answer)) (hstep : callStep answer w = some w') :
    AlignmentInvariant w' := by
  obtain ⟨marked, hlisted, hlast⟩ := h.listed
  have hpending := h.pending
  have hidle := h.idle
  cases callStep_moves hstep with
  | created ops hcall =>
    rw [hcall] at hpending hidle
    obtain rfl := hpending.nil_of_createThread
    have hthread : w.thread = none := hidle (.inl List.mem_cons_self)
    rw [hthread] at hlisted
    exact ⟨⟨marked, hlisted.congr ⟨rfl, rfl, rfl, rfl⟩, trivial⟩, .idle, by simp⟩
  | notCreated ops hcall =>
    exact ⟨⟨marked, hlisted.congr ⟨rfl, rfl, rfl, rfl⟩, hlast⟩, .failing, by simp⟩
  | joined answer ops hcall hend =>
    rw [hcall] at hpending
    have hheld : heldAt w.thread = [] := by simpa [KeepsHeld, hcall] using hkeeps
    exact ⟨⟨marked, (hheld ▸ hlisted).congr ⟨rfl, rfl, rfl, rfl⟩, trivial⟩,
      hpending.tail, fun _ => rfl⟩
  | applied answer op ops hcall hcreate hjoin =>
    rw [hcall] at hpending hidle
    have hthread : ({ op.apply w with call := ops } : TransferWorker).thread = w.thread :=
      op.apply_thread w
    refine ⟨?_, hpending.tail, fun hop => ?_⟩
    · rw [hthread]
      by_cases hpush : ∃ t, op = .push t
      · obtain ⟨t, rfl⟩ := hpush
        exact ⟨marked, (hlisted.push t).congr ⟨rfl, rfl, rfl, rfl⟩, hlast⟩
      by_cases hclear : op = .clearQueue
      · obtain rfl := hclear
        rw [hidle (.inr List.mem_cons_self)]
        exact ⟨[], ⟨rfl, rfl, rfl, by simp [Op.apply, heldAt]⟩, trivial⟩
      · have hsame := op.sameLists (fun t ht => hpush ⟨t, ht⟩) hclear w
        exact ⟨marked, (hlisted.congr hsame).congr ⟨rfl, rfl, rfl, rfl⟩, hlast⟩
    · rw [hthread]
      exact hidle (hop.imp (List.mem_cons_of_mem _) (List.mem_cons_of_mem _))

/-- A step of the thread that leaves the lists alone and holds what it held. -/
theorem AlignmentInvariant.move {w w' : TransferWorker} {p : ThreadPoint} (h : AlignmentInvariant w)
    (hp : w.thread = some p) (hcall : w'.call = w.call)
    (hlisted : ∃ marked, InList w' marked (heldAt w'.thread) ∧
      LastAt marked w'.thread) : AlignmentInvariant w' where
  listed := hlisted
  pending := hcall ▸ h.pending
  idle hop := by
    have hnone := h.idle (hcall ▸ hop)
    rw [hp] at hnone
    cases hnone

theorem AlignmentInvariant.threadStep {answer : Answer} {w w' : TransferWorker}
    (h : AlignmentInvariant w)
    (hkeeps : KeepsHeld w (.thread answer)) (hstep : threadStep answer w = some w') :
    AlignmentInvariant w' := by
  obtain ⟨marked, hlisted, hlast⟩ := h.listed
  cases threadStep_moves hstep with
  | connected hp | refused hp | refusalNoted _ hp | stopped _ hp | goesOn _ hp | empty _ hp
  | stoppedIdle _ hp | woken _ hp | timedOut hp | stillEmpty _ hp | filled _ hp | notes _ hp
  | clears _ hp | posts _ hp | exits _ hp | counts _ t hp =>
    rw [hp] at hlisted
    exact h.move hp rfl ⟨marked, hlisted.congr ⟨rfl, rfl, rfl, rfl⟩, trivial⟩
  | pops _ t rest hp hqueue =>
    rw [hp] at hlisted
    have htaken : InList { w with TaskQueue := rest } marked [t] := by
      refine ⟨?_, hlisted.CurrentTaskIndex, hlisted.begun, ?_⟩
      · simpa [heldAt, hqueue] using hlisted.AllTasks
      · simpa [heldAt, hqueue] using hlisted.waiting
    exact h.move hp rfl ⟨marked, htaken.congr ⟨rfl, rfl, rfl, rfl⟩, trivial⟩
  | dropped _ t hp hcancelled => simp [KeepsHeld, hp, hcancelled] at hkeeps
  | begins _ t hp hindex =>
    rw [hp] at hlisted
    have hi := hlisted.CurrentTaskIndex
    rw [hi]
    exact h.move hp rfl ⟨marked ++ [t.withStatus .running],
      (hlisted.begins).congr ⟨rfl, rfl, rfl, rfl⟩,
      marked, rfl, rfl, trivial⟩
  | beginsUnlisted _ t hp hindex =>
    rw [hp] at hlisted
    refine absurd ?_ hindex
    rw [hlisted.CurrentTaskIndex, hlisted.AllTasks]
    simp [heldAt]
  | reports t i hp | stoppedProgress _ t i hp | runs _ t i hp | reported _ t i hp =>
    rw [hp] at hlisted hlast
    exact h.move hp rfl ⟨marked, hlisted.congr ⟨rfl, rfl, rfl, rfl⟩, hlast⟩
  | cancels t i hp =>
    rw [hp] at hlisted hlast
    obtain ⟨before, hmarked, hi, -⟩ := hlast
    exact h.move hp rfl ⟨marked, hlisted.congr ⟨rfl, rfl, rfl, rfl⟩, before,
      hmarked, hi, cancelOps_quiet⟩
  | returns ok t i hp =>
    rw [hp] at hlisted hlast
    obtain ⟨before, hmarked, hi, -⟩ := hlast
    exact h.move hp rfl ⟨marked, hlisted.congr ⟨rfl, rfl, rfl, rfl⟩, before, hmarked, hi⟩
  | cancelled _ t i hp =>
    rw [hp] at hlisted hlast
    obtain ⟨before, hmarked, hi, -⟩ := hlast
    exact h.move hp rfl ⟨marked, hlisted.congr ⟨rfl, rfl, rfl, rfl⟩, before, hmarked, hi, trivial⟩
  | cancelling _ t i op ops hp =>
    rw [hp] at hlisted hlast
    obtain ⟨before, hmarked, hi, hquiet⟩ := hlast
    have hsame := (hquiet op List.mem_cons_self).sameLists w
    exact h.move hp (op.apply_call w) ⟨marked,
      (hlisted.congr hsame).congr ⟨rfl, rfl, rfl, rfl⟩, before, hmarked, hi,
      fun op' hop' => hquiet op' (List.mem_cons_of_mem _ hop')⟩
  | marks _ t i success hp =>
    rw [hp] at hlisted hlast
    obtain ⟨before, rfl, rfl⟩ := hlast
    have hmarked :=
      hlisted.mark (if success then .done else if w.Cancelled then .skipped else .error)
    rcases success with _ | _
    · exact h.move hp rfl ⟨_, hmarked.congr ⟨rfl, rfl, rfl, rfl⟩, trivial⟩
    · exact h.move hp rfl ⟨_, hmarked.congr ⟨rfl, rfl, rfl, rfl⟩, trivial⟩

/-! ## Runs -/

theorem AlignmentInvariant.of_reaches {w : TransferWorker}
    (h : Reaches step (fun w a => ResetIdle w a ∧ KeepsHeld w a) .fresh w) :
    AlignmentInvariant w := by
  refine h.invariant (fun w a w' hinv hok hstep => ?_) .fresh
  cases a with
  | begin_ c => exact hinv.beginCall hok.1 hstep
  | call answer => exact hinv.callStep hok.2 hstep
  | thread answer => exact hinv.threadStep hok.2 hstep

theorem Aligned.not_of_held {w w' : TransferWorker} (h : Aligned w) (hsame : SameLists w w')
    (hheld : heldAt w.thread ≠ []) (hheld' : heldAt w'.thread = []) : ¬ Aligned w' := by
  intro h'
  have hqueue := h'.queue
  rw [hheld', hsame.TaskQueue, hsame.AllTasks, hsame.CurrentTaskIndex, ← h.queue] at hqueue
  exact hheld (List.append_cancel_right hqueue).symm

/-- A step that loses the held task parts the queue from the list. -/
theorem Aligned.not_of_loses {a : Action} {w w' : TransferWorker} (h : Aligned w)
    (hloses : ¬ KeepsHeld w a)
    (hstep : step a w = some w') : ¬ Aligned w' := by
  cases a with
  | begin_ c => exact absurd trivial hloses
  | call answer =>
    cases callStep_moves hstep with
    | created ops hcall | notCreated ops hcall => exact absurd (by simp [KeepsHeld, hcall]) hloses
    | joined answer ops hcall hend =>
      exact h.not_of_held ⟨rfl, rfl, rfl, rfl⟩ (by simpa [KeepsHeld, hcall] using hloses) rfl
    | applied answer op ops hcall hcreate hjoin =>
      refine absurd ?_ hloses
      cases op <;> first | exact absurd rfl hjoin | simp [KeepsHeld, hcall]
  | thread answer =>
    simp only [KeepsHeld] at hloses
    split at hloses
    · next t hp =>
      have hcancelled : w.Cancelled = true := by simpa using hloses
      have hdrops : threadStep answer w = some (w.goto .leaving) := by
        rcases answer with (_ | _) | _ | _ | _ <;> simp [threadStep, hp, hcancelled]
      obtain rfl := Option.some.inj (hdrops.symm.trans hstep)
      exact h.not_of_held ⟨rfl, rfl, rfl, rfl⟩ (by simp [hp, heldAt]) rfl
    · exact absurd trivial hloses

/-- In a run without a step that loses the held task the queue and the list are aligned, and the
next step leaves them aligned exactly when it is not such a step either. -/
theorem aligned_iff_keepsHeld {w : TransferWorker}
    (h : Reaches step (fun w a => ResetIdle w a ∧ KeepsHeld w a) .fresh w) :
    Aligned w ∧ ∀ a w', ResetIdle w a → step a w = some w' → (Aligned w' ↔ KeepsHeld w a) := by
  have hinv := AlignmentInvariant.of_reaches h
  refine ⟨hinv.aligned, fun a w' hidle hstep => ⟨fun h' => ?_, fun hkeeps => ?_⟩⟩
  · by_contra hloses
    exact hinv.aligned.not_of_loses hloses hstep h'
  · exact (AlignmentInvariant.of_reaches (h.next ⟨hidle, hkeeps⟩ hstep)).aligned

/-! ## Examples of runs -/

def bDownload : QueuedTask := ⟨⟨.download, [98], [98], false, false⟩, 1, .waiting⟩

/-- Two tasks are enqueued, the thread takes the first and counts it. -/
def countsFirst : List Action :=
  [.begin_ (.enqueueTask aDownload), .call true, .call true,
    .begin_ (.enqueueTask bDownload), .call true, .call true,
    .begin_ .start, .call true, .call true, .call true, .call true,
      .call true, .thread (.result true),
    .thread .timeout, .thread .timeout, .thread .timeout]

theorem aligned_iff_keepsHeld_counted :
    ∃ w, w.thread = some (.counted aDownload) ∧ w.TaskQueue = [bDownload] ∧
    Aligned w ∧ ∀ a w', ResetIdle w a → step a w = some w' → (Aligned w' ↔ KeepsHeld w a) :=
  ⟨(run step (fun w a => ResetIdle w a ∧ KeepsHeld w a) countsFirst .fresh).get rfl, rfl, rfl,
    aligned_iff_keepsHeld (reaches_run rfl)⟩

/-- The first task is taken, and then the user cancels. The thread is started again. -/
def startsAgain : List Action :=
  [.begin_ (.enqueueTask aDownload), .call true, .call true,
    .begin_ (.enqueueTask bDownload), .call true, .call true,
    .begin_ .start, .call true, .call true, .call true, .call true,
      .call true, .thread (.result true),
    .thread .timeout, .thread .timeout, .begin_ .cancel, .call true, .call true,
      .call true, .thread .timeout,
    .thread .timeout, .thread .timeout, .thread .timeout,
    .begin_ .start, .call true, .call true, .call true, .call true,
      .call true, .thread (.result true),
    .thread .timeout, .thread .timeout, .thread .timeout, .thread .timeout]

/-- The second task is executed, and the entry of the first one is marked. -/
theorem not_aligned_startsAgain : ∃ w, Reaches step ResetIdle .fresh w ∧
    w.thread = some (.executing bDownload (some 0) .busy) ∧ w.TaskQueue = [] ∧
    w.AllTasks = [aDownload.withStatus .running, bDownload] ∧ ¬ Aligned w := by
  refine ⟨(run step ResetIdle startsAgain .fresh).get rfl, reaches_run rfl,
    rfl, rfl, rfl, fun h => ?_⟩
  have hqueue := congrArg List.length h.queue
  exact absurd hqueue (by decide)

end SalamanderSftp
