import SalamanderSftp.Text

/-!
# The conflict dialog

What the user can do in `CSftpConflictDlg`, what `ExecuteDlg` makes of it, and the decision
`AskOverwriteWorker` takes: from the remembered `OverwriteAllDecision` or from the dialog.
-/

namespace SalamanderSftp

/-- `OverwriteAllDecision`: -1, 0, 1, 2, 3. -/
inductive OverwriteAll
  | ask
  | skipAll
  | overwriteAll
  | resumeAll
  | resumeOrOverwriteAll
  deriving DecidableEq

inductive ConflictAction
  | retry
  | resume
  | resumeOrOverwrite
  | overwrite
  | overwriteAll
  | skip
  | cancel
  deriving DecidableEq

/-- The button that closes the dialog: `IDOK`, `CM_SIED_RESUME`, `CM_SIED_RESUMEOROVR`,
`CM_SIED_OVERWRITE`, `CM_SIED_OVERWRITEALL`, `IDB_SCRD_SKIP`, `IDCANCEL`. -/
inductive DlgButton
  | ok
  | resume
  | resumeOrOvr
  | overwrite
  | overwriteAll
  | skip
  | cancel
  deriving DecidableEq

/-- What the user leaves in the dialog: the button, the check box and the target name. -/
structure DlgInput where
  button : DlgButton
  applyToAll : Bool
  name : CStr

/-- What `ExecuteDlg` returns. `idok` is false for `IDCANCEL`. -/
structure DlgResult where
  idok : Bool
  action : ConflictAction
  applyToAll : Bool
  newName : CStr

def DlgButton.action : DlgButton → ConflictAction
  | .ok => .retry
  | .resume => .resume
  | .resumeOrOvr => .resumeOrOverwrite
  | .overwrite => .overwrite
  | .overwriteAll => .overwriteAll
  | .skip => .skip
  | .cancel => .cancel

/-- `CSftpConflictDlg` for the target `tgtName`; its buffers hold `MAX_PATH` bytes. -/
def executeDlg (tgtName : CStr) (input : DlgInput) : DlgResult :=
  if input.button = .cancel then ⟨false, .cancel, false, []⟩
  else
    let tgtName := lstrcpyn tgtName MAX_PATH
    let resultName := lstrcpyn input.name MAX_PATH
    { idok := true
      action := input.button.action
      applyToAll := input.applyToAll || input.button == .overwriteAll
      newName :=
        if resultName ≠ [] ∧ resultName ≠ tgtName then lstrcpyn resultName MAX_PATH else [] }

/-- The return value 1, 0 or -1 of `AskOverwriteWorker`. -/
inductive Decision
  | go
  | skip
  | cancel
  deriving DecidableEq

/-- The return value and the out-parameters of `AskOverwriteWorker`, the decision remembered
afterwards, and whether the dialog was shown and answered. -/
structure AskResult where
  decision : Decision
  resumeOffset : ℕ
  newName : CStr
  remembered : OverwriteAll
  answered : Bool

/-- The offset of "resume or overwrite", and of a remembered "resume". -/
def partialOffset (existingSize newSize : ℕ) : ℕ :=
  if 0 < existingSize ∧ existingSize < newSize then existingSize else 0

/-- The decision an "apply to all" of this action leaves behind. -/
def rememberAction (action : ConflictAction) (remembered : OverwriteAll) : OverwriteAll :=
  match action with
  | .overwrite => .overwriteAll
  | .overwriteAll => .overwriteAll
  | .skip => .skipAll
  | .resume => .resumeAll
  | .resumeOrOverwrite => .resumeOrOverwriteAll
  | .retry => remembered
  | .cancel => remembered

/-- `AskOverwriteWorker` when `OverwriteAllDecision` is -1 and the dialog window exists. -/
def askDialog (tgtName : CStr) (existingSize newSize : ℕ) (input : DlgInput) : AskResult :=
  let dlg := executeDlg tgtName input
  if dlg.idok = false ∨ dlg.action = .cancel then ⟨.cancel, 0, [], .ask, false⟩
  else
    let newName := if dlg.newName ≠ [] ∧ dlg.newName ≠ tgtName then dlg.newName else []
    let remembered := if dlg.applyToAll then rememberAction dlg.action .ask else .ask
    match dlg.action with
    | .retry => ⟨.go, 0, newName, remembered, true⟩
    | .resume => ⟨.go, existingSize, newName, remembered, true⟩
    | .resumeOrOverwrite => ⟨.go, partialOffset existingSize newSize, newName, remembered, true⟩
    | .overwrite => ⟨.go, 0, newName, remembered, true⟩
    | .overwriteAll => ⟨.go, 0, newName, remembered, true⟩
    | .skip => ⟨.skip, 0, newName, remembered, true⟩
    | .cancel => ⟨.cancel, 0, newName, remembered, true⟩

/-- `window` is `DlgHwnd != NULL && IsWindow(DlgHwnd)`. -/
def askOverwriteWorker (remembered : OverwriteAll) (window : Bool)
    (input : DlgInput) (tgtName : CStr)
    (existingSize newSize : ℕ) : AskResult :=
  match remembered with
  | .overwriteAll => ⟨.go, 0, [], remembered, false⟩
  | .skipAll => ⟨.skip, 0, [], remembered, false⟩
  | .resumeAll => ⟨.go, partialOffset existingSize newSize, [], remembered, false⟩
  | .resumeOrOverwriteAll => ⟨.go, partialOffset existingSize newSize, [], remembered, false⟩
  | .ask =>
    if window then askDialog tgtName existingSize newSize input
    else ⟨.go, 0, [], remembered, false⟩  -- batch use without a window

end SalamanderSftp
