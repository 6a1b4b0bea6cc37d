import SalamanderSftp.Connection.Reports

/-!
# The bytes that the worker counts

`ReportProgress` adds to `TotalBytesDone` what the position of the current file has gone forward
since the last call. A file that is transferred to its end then counts for its size, unless `Upload`
has first reported an offset that it does not use (`byte_accounting_iff`).
-/

namespace SalamanderSftp

open Machine Meter

/-! ## The worker's side -/

/-- The counters of `CSftpTransferState`. -/
structure Accounts where
  CurrentFileDone : ℕ
  CurrentFileTotal : ℕ
  TotalBytesDone : ℕ
  deriving DecidableEq

namespace Accounts

/-- When the worker starts. -/
def reset : Accounts := ⟨0, 0, 0⟩

def startFile (s : Accounts) : Accounts := { s with CurrentFileDone := 0, CurrentFileTotal := 0 }

/-- `ReportProgress`, which a stop or a cancel makes return false before it counts. -/
def reportProgress (s : Accounts) (r : Report) : Accounts :=
  if !r.go then s
  else
    let prevDone := s.CurrentFileDone
    { CurrentFileDone := r.done
      CurrentFileTotal := r.total
      TotalBytesDone :=
        if prevDone ≤ r.done then (s.TotalBytesDone + (r.done - prevDone)) % 2 ^ 64
          else s.TotalBytesDone }

def meter (s : Accounts) : Meter := ⟨s.CurrentFileDone, s.TotalBytesDone⟩

end Accounts

/-- What becomes of a file or a directory of a task. -/
inductive FileCase
  /-- A directory, or a file that is skipped. -/
  | nothing
  /-- `size` is that of the remote file. -/
  | download (scpMode : Bool) (io : DownloadIo) (target : Option Bytes) (resumeOffset size : ℕ)
  | upload (scpMode : Bool) (io : UploadIo) (remotePath : CStr)
      (content : Bytes) (target : Option Bytes)
      (resumeOffset : ℕ)

namespace FileCase

def reports : FileCase → List Report
  | nothing => []
  | download scpMode io target resumeOffset _ => downloadReports scpMode io target resumeOffset
  | upload scpMode io remotePath content _ resumeOffset =>
    uploadReports scpMode io remotePath content resumeOffset

def size : FileCase → ℕ
  | nothing => 0
  | download _ _ _ _ size => size
  | upload _ _ _ content _ _ => content.length

/-- The transfer ends well, and what it kept and what it moved make up the file. -/
def Complete : FileCase → Prop
  | nothing => False
  | download scpMode io target resumeOffset size =>
    let r := SalamanderSftp.download scpMode io target resumeOffset
    r.ok = true ∧ startOffset scpMode io resumeOffset + r.moved.length = size
  | upload scpMode io remotePath content target resumeOffset =>
    let r := SalamanderSftp.upload scpMode io remotePath content target resumeOffset
    r.ok = true ∧ uploadOffset scpMode content resumeOffset + r.moved.length = content.length

/-- An upload over SFTP is not given an offset behind its file; one at its end does no harm where
the first `fread` gives the whole file. -/
def OffsetUsable : FileCase → Prop
  | upload false io _ content _ resumeOffset =>
    resumeOffset < content.length ∨
      resumeOffset = content.length ∧ content.length ≤ (io.firstRead content).length
  | _ => True

def counted (f : FileCase) : ℕ := gained 0 (passed f.reports)

/-- A file transferred to its end counts for its size exactly when the offset is of use. -/
theorem counted_eq_size_iff {f : FileCase} (h : f.Complete) :
    f.counted = f.size ↔ f.OffsetUsable := by
  cases f with
  | nothing => exact h.elim
  | download scpMode io target resumeOffset size =>
    exact iff_of_true ((gained_download h.1).trans h.2) trivial
  | upload scpMode io remotePath content target resumeOffset =>
    have hcounted := gained_upload h.1
    rw [h.2] at hcounted
    cases scpMode with
    | true => exact iff_of_true (hcounted.trans (if_neg (by simp))) trivial
    | false =>
      have hoffset : (upload false io remotePath content target resumeOffset).OffsetUsable ↔
          resumeOffset < content.length ∨
            resumeOffset = content.length ∧ content.length ≤ (io.firstRead content).length :=
              Iff.rfl
      rw [hoffset]
      refine (Eq.congr_left hcounted).trans ?_
      change _ = content.length ↔ _
      split_ifs with hdrop
      · have hfirst := io.length_firstRead_le content
        have hgiven := (io.prefix_given content).length_le
        have hall : (io.given content).length = content.length := by
          have hoff : uploadOffset false content resumeOffset = 0 := by
            unfold uploadOffset
            split_ifs <;> omega
          have hmoved := h.2
          rw [upload_of_ok h.1] at hmoved
          dsimp only at hmoved
          rwa [hoff, Nat.zero_add, List.drop_zero] at hmoved
        omega
      · exact iff_of_true rfl (Or.inl (Nat.lt_of_not_le fun hle => hdrop ⟨rfl, hle⟩))

end FileCase

/-- A file with its transfer, in which all positions are 64-bit numbers. -/
structure FileTransfer where
  file : FileCase
  small : ∀ d ∈ passed file.reports, d < 2 ^ 64

/-- The run of one file. -/
def Accounts.transfer (s : Accounts) (f : FileTransfer) : Accounts :=
  f.file.reports.foldl Accounts.reportProgress s.startFile

/-- A file that is transferred to its end adds its size, and no report takes anything away. -/
structure CountsExactly (s : Accounts) (f : FileTransfer) : Prop where
  size : f.file.Complete → (s.transfer f).TotalBytesDone = s.TotalBytesDone + f.file.size
  never : Along Accounts.reportProgress
    (fun s r => s.TotalBytesDone ≤ (s.reportProgress r).TotalBytesDone)
    s.startFile f.file.reports

/-- The offset can be used, and the counter has room. -/
structure Countable (s : Accounts) (f : FileTransfer) : Prop where
  usable : f.file.Complete → f.file.OffsetUsable
  room : s.TotalBytesDone + f.file.counted < 2 ^ 64

/-! ## The counter as a meter -/

theorem meter_reports (reports : List Report) : ∀ s : Accounts,
    (reports.foldl Accounts.reportProgress s).meter =
      (passed reports).foldl (note (2 ^ 64)) s.meter := by
  induction reports with
  | nil => exact fun s => rfl
  | cons r reports ih =>
    intro s
    obtain ⟨d, total, go⟩ := r
    cases go with
    | false => exact ih s
    | true => exact ih _

theorem along_reports (reports : List Report) : ∀ s : Accounts,
    Along Accounts.reportProgress
      (fun s r => s.TotalBytesDone ≤ (s.reportProgress r).TotalBytesDone) s reports ↔
      Along (note (2 ^ 64)) (fun m d => m.total ≤ (note (2 ^ 64) m d).total) s.meter
        (passed reports) := by
  induction reports with
  | nil => exact fun s => Iff.rfl
  | cons r reports ih =>
    intro s
    obtain ⟨d, total, go⟩ := r
    cases go with
    | false => exact (and_iff_right le_rfl).trans (ih s)
    | true => exact and_congr Iff.rfl (ih _)

theorem totalBytesDone_transfer {s : Accounts} (h : s.TotalBytesDone < 2 ^ 64) (f : FileTransfer) :
    (s.transfer f).TotalBytesDone = (s.TotalBytesDone + f.file.counted) % 2 ^ 64 := by
  have hmeter := congrArg Meter.total (meter_reports f.file.reports s.startFile)
  rw [foldl_total _ h] at hmeter
  exact hmeter

theorem countsExactly_iff {s : Accounts} (h : s.TotalBytesDone < 2 ^ 64) (f : FileTransfer) :
    CountsExactly s f ↔ Countable s f := by
  have hnever := (along_reports f.file.reports s.startFile).trans (along_le_iff _ f.small h)
  have htotal := totalBytesDone_transfer h f
  constructor
  · rintro ⟨hsize, hdown⟩
    have hroom : s.TotalBytesDone + f.file.counted < 2 ^ 64 := hnever.mp hdown
    refine ⟨fun hcomplete => (FileCase.counted_eq_size_iff hcomplete).mp ?_, hroom⟩
    have hgrown := hsize hcomplete
    rw [htotal, Nat.mod_eq_of_lt hroom] at hgrown
    exact Nat.add_left_cancel hgrown
  · rintro ⟨husable, hroom⟩
    refine ⟨fun hcomplete => ?_, hnever.mpr hroom⟩
    rw [htotal, Nat.mod_eq_of_lt hroom,
      (FileCase.counted_eq_size_iff hcomplete).mpr (husable hcomplete)]

/-! ## Runs -/

/-- In the runs of the worker every file that is transferred to its end adds its size, and the total
never decreases, exactly when no upload over SFTP is given an offset that is of no use and the
counter has room. -/
theorem byte_accounting_iff (run : List FileTransfer) :
    Along Accounts.transfer CountsExactly .reset run ↔
    Along Accounts.transfer Countable .reset run := by
  have hkeep : ∀ (s : Accounts) (f : FileTransfer), s.TotalBytesDone < 2 ^ 64 →
      (s.transfer f).TotalBytesDone < 2 ^ 64 := by
    intro s f h
    rw [totalBytesDone_transfer h]
    exact Nat.mod_lt _ (by decide)
  exact along_congr hkeep (fun s f h => countsExactly_iff h f) run (by decide)

/-- A file of three bytes is uploaded with the offset 5. -/
def shrunkUpload : FileTransfer where
  file := .upload false
    ⟨true, [bufSize], true, .handle, true, [some 3], [true], 0, true, true, none⟩ (ascii "/f")
    [1, 2, 3] (some [1, 2, 3, 4, 5]) 5
  small := by decide +kernel

/-- It counts for five. -/
theorem not_byte_accounting :
    ¬ ∀ run : List FileTransfer, Along Accounts.transfer CountsExactly .reset run := by
  intro h
  have hsize := (h [shrunkUpload]).1.size
    ⟨show (upload false _ _ _ _ _).ok = true by decide +kernel, by decide +kernel⟩
  exact absurd hsize (by decide +kernel)

end SalamanderSftp
