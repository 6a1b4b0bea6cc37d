import SalamanderSftp.Lib.Machine
import SalamanderSftp.Worker.Answers

/-!
# "Apply to all"

The decision an answer leaves behind for the conflicts that follow. It is settled row by row, for
each button against one later conflict (`sameAsDialog_iff`), and from there for a whole batch.
-/

namespace SalamanderSftp

open Machine

/-- A call of `AskOverwriteWorker`, with what the user would leave in the dialog if it is shown. -/
structure AskCall where
  window : Bool
  input : DlgInput
  tgtName : CStr
  existingSize : ℕ
  newSize : ℕ

namespace AskCall

variable (c : AskCall)

def ask (remembered : OverwriteAll) : AskResult :=
  askOverwriteWorker remembered c.window c.input c.tgtName c.existingSize c.newSize

/-- The call shows the dialog. -/
def Prompts (remembered : OverwriteAll) : Prop := remembered = .ask ∧ c.window = true

/-- What the call gives when the user closes the dialog with this button. -/
def choose (button : DlgButton) : AskResult :=
  askDialog c.tgtName c.existingSize c.newSize { c.input with button := button }

/-- The call does not prompt, and gives what that button in the dialog would give. -/
def SameAsDialog (button : DlgButton) (remembered : OverwriteAll) : Prop :=
  ¬ c.Prompts remembered ∧ (c.ask remembered).decision = (c.choose button).decision ∧
    (c.ask remembered).resumeOffset = (c.choose button).resumeOffset

/-- The rows in which a remembered answer and the dialog agree: "retry" is never remembered, so
there must be no window to ask in, and a remembered "resume" starts over at a target that is not
shorter than the source. -/
def Agrees (button : DlgButton) : Prop :=
  (button = .ok → c.window = false) ∧
    (button = .resume → c.existingSize = 0 ∨ c.existingSize < c.newSize)

/-- The answer of `first` is applied to all of `later`. -/
def AppliesToAll (first : AskCall) (later : List AskCall) : Prop :=
  Along (fun remembered c => (ask c remembered).remembered)
    (fun remembered c => c.SameAsDialog first.input.button remembered)
    (first.ask .ask).remembered later

variable {c}

/-! ## One later conflict -/

theorem choose_eq {button : DlgButton} (hb : button ≠ .cancel) :
    (c.choose button).decision = (if button = .skip then .skip else .go) ∧
      (c.choose button).resumeOffset =
        (if button = .resume then c.existingSize
          else if button = .resumeOrOvr then partialOffset c.existingSize c.newSize else 0) := by
  cases button <;> simp [choose, askDialog, executeDlg, DlgButton.action] at hb ⊢

theorem partialOffset_eq_self {existingSize newSize : ℕ} :
    partialOffset existingSize newSize = existingSize ↔ existingSize = 0 ∨
    existingSize < newSize := by
  unfold partialOffset
  split_ifs with h
  · simp only [true_iff]
    exact Or.inr h.2
  · omega

theorem sameAsDialog_iff {button : DlgButton} (hb : button ≠ .cancel) :
    c.SameAsDialog button (rememberAction button.action .ask) ↔ c.Agrees button := by
  obtain ⟨hdec, hoff⟩ := choose_eq (c := c) hb
  unfold SameAsDialog Agrees
  rw [hdec, hoff]
  cases button
  case cancel => exact absurd rfl hb
  case ok =>
    cases hw : c.window
      <;> simp [Prompts, ask, askOverwriteWorker, DlgButton.action, rememberAction, hw]
  case resume =>
    simp [Prompts, ask, askOverwriteWorker, DlgButton.action, rememberAction, partialOffset_eq_self]
  all_goals simp [Prompts, ask, askOverwriteWorker, DlgButton.action, rememberAction]

theorem ask_remembered {button : DlgButton} (h : c.Agrees button) (hb : button ≠ .cancel) :
    (c.ask (rememberAction button.action .ask)).remembered = rememberAction button.action .ask := by
  by_cases hr : rememberAction button.action .ask = .ask
  · have hok : button = .ok := by
      cases button <;> simp [DlgButton.action, rememberAction] at hr hb ⊢
    rw [hr, ask, h.1 hok]
    rfl
  · exact (askOverwriteWorker_remembered hr _ _ _ _ _).2.1

/-! ## The batch -/

/-- The check box decides, and "overwrite all" without it. -/
theorem ask_first {first : AskCall} (hw : first.window = true) (hb : first.input.button ≠ .cancel)
    (hall : (executeDlg first.tgtName first.input).applyToAll = true) :
    (first.ask .ask).remembered = rememberAction first.input.button.action .ask := by
  rw [ask, askOverwriteWorker_ask hw]
  unfold executeDlg at hall
  rw [if_neg hb] at hall
  unfold askDialog executeDlg
  rw [if_neg hb]
  cases h : first.input.button <;> simp_all [DlgButton.action, rememberAction]

/-- A decision given for all is taken for a later conflict as in the dialog exactly in the rows that
agree. -/
theorem appliesToAll_iff (first : AskCall) (later : List AskCall) (hw : first.window = true)
    (hb : first.input.button ≠ .cancel)
    (hall : (executeDlg first.tgtName first.input).applyToAll = true) :
    first.AppliesToAll later ↔ ∀ c ∈ later, c.Agrees first.input.button := by
  unfold AppliesToAll
  rw [ask_first hw hb hall]
  exact along_iff_forall (fun c hc => ask_remembered hc hb) (fun c => sameAsDialog_iff hb) later

/-- "Resume" for all: a shorter target is resumed where it ends, an empty one is started over. -/
theorem appliesToAll_resume :
    (⟨true, ⟨.resume, true, []⟩, [102], 4, 9⟩ : AskCall).AppliesToAll
      [⟨true, ⟨.skip, false, []⟩, [103], 5, 8⟩, ⟨true, ⟨.skip, false, []⟩, [104], 0, 8⟩] :=
  (appliesToAll_iff ⟨true, ⟨.resume, true, []⟩, [102], 4, 9⟩ _ rfl (by decide) rfl).mpr
    (by simp [Agrees])

/-- "Resume" for all, and then a target of the size of its source: the dialog resumes at the end,
the remembered answer starts over. -/
theorem not_appliesToAll_resume :
    ¬ ∀ (first : AskCall) (later : List AskCall), first.window = true →
    first.input.button ≠ .cancel →
      (executeDlg first.tgtName first.input).applyToAll = true → first.AppliesToAll later := by
  intro h
  have hsame :=
    h ⟨true, ⟨.resume, true, []⟩, [102], 4, 9⟩ [⟨true, ⟨.skip, false, []⟩, [103], 8, 8⟩] rfl
    (by decide) rfl
  have hoff : (0 : ℕ) = 8 := hsame.1.2.2
  omega

end AskCall

end SalamanderSftp
