import SalamanderSftp.Worker.Conflict

/-!
# What an answer means

`AskOverwriteWorker` read as a function of the button, the check box and the typed name: when it
lets the transfer go on (`askDialog_go`), under which name (`askDialog_newName`), at which offset
(`askDialog_resumeOffset`), and what it remembers (`askDialog_remembered`).
-/

namespace SalamanderSftp

/-! ## Name and decision -/

/-- The name typed for another target; empty when there is none. -/
def typedName (tgtName : CStr) (input : DlgInput) : CStr :=
  let newName := (executeDlg tgtName input).newName
  if newName ≠ tgtName then newName else []

theorem askDialog_newName {tgtName : CStr} {input : DlgInput} (hb : input.button ≠ .cancel)
    (existingSize newSize : ℕ) :
    (askDialog tgtName existingSize newSize input).newName = typedName tgtName input := by
  unfold askDialog typedName executeDlg
  rw [if_neg hb]
  cases h : input.button <;> simp_all [DlgButton.action] <;> split_ifs <;> simp_all

theorem askDialog_go (tgtName : CStr) (existingSize newSize : ℕ) (input : DlgInput) :
    (askDialog tgtName existingSize newSize input).decision = .go ↔
      input.button ≠ .skip ∧ input.button ≠ .cancel := by
  unfold askDialog executeDlg
  cases h : input.button <;> simp [DlgButton.action]

theorem askOverwriteWorker_skip (remembered : OverwriteAll) (window : Bool)
    (input : DlgInput) (tgtName : CStr)
    (existingSize newSize : ℕ) :
    (askOverwriteWorker remembered window input tgtName existingSize newSize).decision = .skip ↔
      remembered = .skipAll ∨ remembered = .ask ∧ window = true ∧ input.button = .skip := by
  cases remembered
    <;> simp only [askOverwriteWorker, reduceCtorEq, false_or, false_and, true_and, true_or]
  cases window
  · simp
  · unfold askDialog executeDlg
    cases h : input.button <;> simp [DlgButton.action]

theorem askDialog_answered {tgtName : CStr} {input : DlgInput} (hb : input.button ≠ .cancel)
    (existingSize newSize : ℕ) :
    (askDialog tgtName existingSize newSize input).answered = true := by
  unfold askDialog executeDlg
  rw [if_neg hb]
  cases h : input.button <;> simp_all [DlgButton.action]

/-- The answer decides all later conflicts too. -/
def DlgInput.Decides (input : DlgInput) : Prop :=
  (input.applyToAll = true ∨ input.button = .overwriteAll) ∧ input.button ≠ .ok

theorem askDialog_remembered (tgtName : CStr) {input : DlgInput} (hb : input.button ≠ .cancel)
    (existingSize newSize : ℕ) :
    (askDialog tgtName existingSize newSize input).remembered ≠ .ask ↔ input.Decides := by
  unfold askDialog executeDlg DlgInput.Decides
  rw [if_neg hb]
  cases h : input.button <;> cases hall : input.applyToAll
    <;> simp_all [DlgButton.action, rememberAction]

theorem askOverwriteWorker_ask {window : Bool} (hw : window = true)
    (input : DlgInput) (tgtName : CStr)
    (existingSize newSize : ℕ) :
    askOverwriteWorker .ask window input tgtName existingSize newSize =
      askDialog tgtName existingSize newSize input := by
  unfold askOverwriteWorker
  dsimp only
  rw [if_pos hw]

theorem askOverwriteWorker_remembered {remembered : OverwriteAll}
    (h : remembered ≠ .ask) (window : Bool)
    (input : DlgInput) (tgtName : CStr) (existingSize newSize : ℕ) :
    (askOverwriteWorker remembered window input tgtName existingSize newSize).newName = [] ∧
      (askOverwriteWorker remembered window input tgtName existingSize newSize).remembered =
        remembered ∧
      (askOverwriteWorker remembered window input tgtName existingSize newSize).answered =
        false := by
  cases remembered
  · exact absurd rfl h
  all_goals exact ⟨rfl, rfl, rfl⟩

/-! ## The offset -/

/-- The answer asks to resume at the existing size. -/
def DlgInput.Resumes (input : DlgInput) (existingSize newSize : ℕ) : Prop :=
  0 < existingSize ∧ (input.button = .resume ∨ input.button = .resumeOrOvr ∧ existingSize < newSize)

theorem DlgInput.Resumes.ne_cancel {input : DlgInput} {existingSize newSize : ℕ}
    (h : input.Resumes existingSize newSize) : input.button ≠ .cancel := by
  rcases h.2 with hb | ⟨hb, _⟩ <;> simp [hb]

theorem askDialog_resumeOffset (tgtName : CStr) (existingSize newSize : ℕ) (input : DlgInput) :
    0 < (askDialog tgtName existingSize newSize input).resumeOffset ↔
    input.Resumes existingSize newSize := by
  unfold askDialog executeDlg DlgInput.Resumes partialOffset
  cases h : input.button <;> simp [DlgButton.action]
  split_ifs with hp
  · omega
  · constructor
    · intro h0; exact absurd h0 (lt_irrefl 0)
    · intro h0; exact absurd h0 hp

theorem askDialog_resumes {existingSize newSize : ℕ} {input : DlgInput}
    (h : input.Resumes existingSize newSize)
    (tgtName : CStr) :
    (askDialog tgtName existingSize newSize input).decision = .go ∧
      (askDialog tgtName existingSize newSize input).resumeOffset = existingSize := by
  obtain ⟨hpos, hb | ⟨hb, hlt⟩⟩ := h
  · simp [askDialog, executeDlg, hb, DlgButton.action]
  · simp [askDialog, executeDlg, hb, DlgButton.action, partialOffset, hpos, hlt]

/-- A positive offset is the existing size; with a new name it comes from the dialog. -/
theorem askOverwriteWorker_offset {remembered : OverwriteAll} {window : Bool}
    {input : DlgInput} {tgtName : CStr}
    {existingSize newSize : ℕ}
    (h : 0 <
      (askOverwriteWorker remembered window input tgtName existingSize newSize).resumeOffset) :
    (askOverwriteWorker remembered window input tgtName existingSize newSize).resumeOffset =
      existingSize ∧
      ((askOverwriteWorker remembered window input tgtName existingSize newSize).newName = [] ∨
        remembered = .ask ∧ window = true) := by
  unfold askOverwriteWorker at h ⊢
  rcases remembered with _ | _ | _ | _ | _
  · dsimp only at h ⊢
    by_cases hw : window = true
    · rw [if_pos hw] at h ⊢
      exact ⟨(askDialog_resumes ((askDialog_resumeOffset _ _ _ _).mp h) tgtName).2,
        Or.inr ⟨rfl, hw⟩⟩
    · rw [if_neg hw] at h
      exact absurd h (lt_irrefl 0)
  · exact absurd h (lt_irrefl 0)
  · exact absurd h (lt_irrefl 0)
  all_goals
    simp only [partialOffset] at h ⊢
    split_ifs at h ⊢
    · exact ⟨rfl, Or.inl trivial⟩
    · exact absurd h (lt_irrefl 0)

end SalamanderSftp
