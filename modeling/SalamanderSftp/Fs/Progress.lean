import SalamanderSftp.Lib.Machine
import Mathlib.Tactic.Linarith

/-!
# The progress of a transfer

The dialog keeps the progress of a whole operation in per mille. `UpdateFromWorker` computes it from
the bytes of a snapshot and cuts it at 1000, but only after the product has lost what does not fit
into 64 bits, and the quotient what does not fit into 32. `UpdateFileProgress` does not cut it at
all. `transfer_progress_iff` says when the value shown is right all the same.
-/

namespace SalamanderSftp

open Machine

/-! ## The dialog -/

/-- The numbers of `CSftpTransferProgressDlg`. -/
structure ProgressDlg where
  FileProgressCache : UInt32
  TotalProgressCache : UInt32
  FileDoneBytes : UInt64
  FileTotalBytes : UInt64
  TotalDoneBytes : UInt64
  TotalExpectedBytes : UInt64
  CurrentFileIndex : Int32
  TotalFilesCount : Int32

/-- What `UpdateFromWorker` reads of a snapshot. -/
structure ProgressSnapshot where
  CurrentFileDone : UInt64
  CurrentFileTotal : UInt64
  CurrentItemIndex : Int32
  TotalItemsCount : Int32
  TotalBytesDone : UInt64
  TotalBytesExpected : UInt64

/-- `(DWORD)(done * 1000 / total)`. -/
def perMille (done total : UInt64) : UInt32 := (done * 1000 / total).toUInt32

namespace ProgressDlg

/-- The constructor. -/
def initial : ProgressDlg := ⟨0, 0, 0, 0, 0, 0, 0, 1⟩

def setOperationInfo (s : ProgressDlg) (totalFiles : Int32) (totalExpectedBytes : UInt64) :
    ProgressDlg :=
  { s with
    TotalFilesCount := if 0 < totalFiles then totalFiles else 1
    TotalExpectedBytes := totalExpectedBytes
    TotalDoneBytes := 0
    CurrentFileIndex := 0
    FileDoneBytes := 0
    FileTotalBytes := 0
    FileProgressCache := 0
    TotalProgressCache := 0 }

def setCurrentFile (s : ProgressDlg) (fileSize : UInt64) : ProgressDlg :=
  let index := s.CurrentFileIndex + 1
  { s with
    FileDoneBytes := 0
    FileTotalBytes := fileSize
    FileProgressCache := 0
    CurrentFileIndex := index
    TotalFilesCount := if s.TotalFilesCount < index then index else s.TotalFilesCount }

def updateFileProgress (s : ProgressDlg) (done total : UInt64) : ProgressDlg :=
  let fileTotal := if 0 < total then total else s.FileTotalBytes
  let fileProgress := if 0 < fileTotal then perMille done fileTotal else 0
  { s with
    FileDoneBytes := done
    FileTotalBytes := fileTotal
    FileProgressCache := fileProgress
    TotalProgressCache :=
      if 1 < s.TotalFilesCount then
        (((s.CurrentFileIndex - 1) * 1000).toUInt32 + fileProgress) / s.TotalFilesCount.toUInt32
      else fileProgress }

/-- `if (TotalProgressCache > 1000) TotalProgressCache = 1000`. -/
def cut (progress : UInt32) : UInt32 := if 1000 < progress then 1000 else progress

/-- `UpdateFromWorker` where it gets to the snapshot. -/
def takeSnapshot (s : ProgressDlg) (snap : ProgressSnapshot) : ProgressDlg :=
  let expected :=
    if 0 < snap.TotalBytesExpected then snap.TotalBytesExpected else s.TotalExpectedBytes
  { s with
    CurrentFileIndex :=
      if 0 < snap.CurrentItemIndex then snap.CurrentItemIndex else s.CurrentFileIndex
    TotalFilesCount := if 0 < snap.TotalItemsCount then snap.TotalItemsCount else s.TotalFilesCount
    FileDoneBytes := snap.CurrentFileDone
    FileTotalBytes := snap.CurrentFileTotal
    TotalDoneBytes := snap.TotalBytesDone
    TotalExpectedBytes := expected
    TotalProgressCache :=
      if 0 < expected then cut (perMille snap.TotalBytesDone expected)
      else if 0 < snap.CurrentFileTotal then
        cut (perMille snap.CurrentFileDone snap.CurrentFileTotal)
      else 0 }

/-- `UpdateFromWorker`; in the background the numbers stay as they are. -/
def updateFromWorker (s : ProgressDlg) (worker : Option ProgressSnapshot)
    (isBackground isVisible : Bool) :
    ProgressDlg :=
  match worker with
  | none => s
  | some snap => if isBackground || !isVisible then s else s.takeSnapshot snap

end ProgressDlg

theorem toNat_perMille (done total : UInt64) :
    (perMille done total).toNat = 1000 * done.toNat % 2 ^ 64 / total.toNat % 2 ^ 32 := by
  rw [perMille, UInt64.toNat_toUInt32, UInt64.toNat_div, UInt64.toNat_mul, Nat.mul_comm]
  rfl

theorem perMille_le (done total : UInt64) :
    (perMille done total).toNat ≤ 1000 * done.toNat / total.toNat := by
  rw [toNat_perMille]
  exact (Nat.mod_le _ _).trans (Nat.div_le_div_right (Nat.mod_le _ _))

/-! ## Snapshots of the worker -/

/-- The progress in per mille, at most 1000. -/
def exactProgress (done expected : ℕ) : ℕ := min 1000 (1000 * done / expected)

/-- With the same bytes to do it does not go back. -/
theorem exactProgress_mono {done done' : ℕ} (h : done ≤ done') (expected : ℕ) :
    exactProgress done expected ≤ exactProgress done' expected :=
  min_le_min_left _ (Nat.div_le_div_right (Nat.mul_le_mul_left _ h))

/-- Before the end nothing is lost of the product, and afterwards what is left of it is not just
above a multiple of 2^32 times the bytes expected. -/
structure ProgressSnapshot.Fits (snap : ProgressSnapshot) : Prop where
  before : snap.TotalBytesDone < snap.TotalBytesExpected → 1000 * snap.TotalBytesDone.toNat < 2 ^ 64
  after : snap.TotalBytesExpected ≤ snap.TotalBytesDone →
    1000 * snap.TotalBytesExpected.toNat ≤
      1000 * snap.TotalBytesDone.toNat % 2 ^ 64 % (2 ^ 32 * snap.TotalBytesExpected.toNat)

theorem toNat_cut (progress : UInt32) :
    (ProgressDlg.cut progress).toNat = min 1000 progress.toNat := by
  unfold ProgressDlg.cut
  split_ifs with h
  · exact (min_eq_left (UInt32.lt_iff_toNat_lt.mp h).le).symm
  · exact (min_eq_right (UInt32.le_iff_toNat_le.mp (UInt32.not_lt.mp h))).symm

theorem fits_iff {done expected : ℕ} (hpos : 0 < expected) (hlt : expected < 2 ^ 64) :
    min 1000 (1000 * done % 2 ^ 64 / expected % 2 ^ 32) = exactProgress done expected ↔
      (done < expected → 1000 * done < 2 ^ 64) ∧
        (expected ≤ done → 1000 * expected ≤ 1000 * done % 2 ^ 64 % (2 ^ 32 * expected)) := by
  unfold exactProgress
  rcases Nat.lt_or_ge done expected with h | h
  · have hexact : 1000 * done / expected < 1000 := Nat.div_lt_of_lt_mul (by omega)
    rw [min_eq_right hexact.le]
    constructor
    · intro heq
      refine ⟨fun _ => ?_, fun hle => absurd h (by omega)⟩
      -- a product that has lost 2^64 at least is too small by one per mille
      by_contra hover
      have hsub : 1000 * done % 2 ^ 64 + expected ≤ 1000 * done := by omega
      have hquot : 1000 * done % 2 ^ 64 / expected + 1 ≤ 1000 * done / expected := by
        rw [← Nat.add_div_right _ hpos]
        exact Nat.div_le_div_right hsub
      have hmod : 1000 * done % 2 ^ 64 / expected % 2 ^ 32 ≤ 1000 * done % 2 ^ 64 / expected :=
        Nat.mod_le _ _
      omega
    · rintro ⟨hfits, -⟩
      rw [Nat.mod_eq_of_lt (hfits h), Nat.mod_eq_of_lt (by omega), min_eq_right hexact.le]
  · have hexact : 1000 ≤ 1000 * done / expected :=
      (Nat.le_div_iff_mul_le hpos).mpr (Nat.mul_le_mul_left _ h)
    rw [min_eq_left hexact, min_eq_left_iff]
    have hswap : 1000 * done % 2 ^ 64 / expected % 2 ^ 32 =
        1000 * done % 2 ^ 64 % (2 ^ 32 * expected) / expected := by
      rw [Nat.mul_comm (2 ^ 32), Nat.mod_mul_right_div_self]
    rw [hswap, Nat.le_div_iff_mul_le hpos]
    exact ⟨fun hle => ⟨fun hdone => absurd hdone (by omega), fun _ => hle⟩, fun hfits => hfits.2 h⟩

/-- One snapshot is shown as it should be exactly when it fits. -/
theorem takeSnapshot_iff (s : ProgressDlg) {snap : ProgressSnapshot}
    (h : 0 < snap.TotalBytesExpected) :
    (s.takeSnapshot snap).TotalProgressCache.toNat =
        exactProgress snap.TotalBytesDone.toNat snap.TotalBytesExpected.toNat ↔ snap.Fits := by
  have hcache : (s.takeSnapshot snap).TotalProgressCache =
      ProgressDlg.cut (perMille snap.TotalBytesDone snap.TotalBytesExpected) := by
    unfold ProgressDlg.takeSnapshot
    simp only [if_pos h]
  rw [hcache, toNat_cut, toNat_perMille,
    fits_iff (UInt64.lt_iff_toNat_lt.mp h) (UInt64.toNat_lt snap.TotalBytesExpected)]
  constructor
  · rintro ⟨hbefore, hafter⟩
    exact ⟨fun hlt => hbefore (UInt64.lt_iff_toNat_lt.mp hlt),
      fun hle => hafter (UInt64.le_iff_toNat_le.mp hle)⟩
  · rintro ⟨hbefore, hafter⟩
    exact ⟨fun hlt => hbefore (UInt64.lt_iff_toNat_lt.mpr hlt),
      fun hle => hafter (UInt64.le_iff_toNat_le.mpr hle)⟩

/-- More bytes of the same total do not show as less. -/
theorem takeSnapshot_mono (s s' : ProgressDlg) {snap snap' : ProgressSnapshot}
    (h : 0 < snap.TotalBytesExpected)
    (hsame : snap'.TotalBytesExpected = snap.TotalBytesExpected)
    (hdone : snap.TotalBytesDone ≤ snap'.TotalBytesDone)
    (hfits : snap.Fits) (hfits' : snap'.Fits) :
    (s.takeSnapshot snap).TotalProgressCache ≤ (s'.takeSnapshot snap').TotalProgressCache := by
  rw [UInt32.le_iff_toNat_le, (takeSnapshot_iff s h).mpr hfits,
    (takeSnapshot_iff s' (hsame ▸ h)).mpr hfits', hsame]
  exact exactProgress_mono (UInt64.le_iff_toNat_le.mp hdone) _

/-! ## Calls for files -/

inductive FileCall
  | setOperationInfo (totalFiles : Int32) (totalExpectedBytes : UInt64)
  | setCurrentFile (fileSize : UInt64)
  | updateFileProgress (done total : UInt64)

namespace ProgressDlg

def call (s : ProgressDlg) : FileCall → ProgressDlg
  | .setOperationInfo totalFiles totalExpectedBytes =>
    s.setOperationInfo totalFiles totalExpectedBytes
  | .setCurrentFile fileSize => s.setCurrentFile fileSize
  | .updateFileProgress done total => s.updateFileProgress done total

/-- There are files, and the current one is among them. -/
structure InRange (s : ProgressDlg) : Prop where
  files : 1 ≤ s.TotalFilesCount.toInt
  among : s.CurrentFileIndex.toInt ≤ s.TotalFilesCount.toInt
  progress : s.TotalProgressCache.toNat ≤ 1000

/-- A file has been announced, if there are several, and it is not exceeded by more than the share
of the files that are still to come. -/
def FileFits (s : ProgressDlg) : FileCall → Prop
  | .updateFileProgress done total =>
    let fileTotal := if 0 < total then total else s.FileTotalBytes
    let before := if 1 < s.TotalFilesCount then s.CurrentFileIndex.toInt - 1 else 0
    0 ≤ before ∧ (0 < fileTotal →
      1000 * (done.toNat : ℤ) < (1001 * s.TotalFilesCount.toInt - 1000 * before) * fileTotal.toNat)
  | _ => True

theorem perMille_lt {done total : UInt64} {room : ℤ} (h : 0 < total)
    (hroom : 1000 * (done.toNat : ℤ) < room * total.toNat) :
    ((perMille done total).toNat : ℤ) < room := by
  have hle : (perMille done total).toNat * total.toNat ≤ 1000 * done.toNat :=
    (Nat.mul_le_mul_right _ (perMille_le done total)).trans (Nat.div_mul_le_self _ _)
  have hpos : (0 : ℤ) < total.toNat := by exact_mod_cast UInt64.lt_iff_toNat_lt.mp h
  have hlt : ((perMille done total).toNat : ℤ) * total.toNat < room * total.toNat :=
    lt_of_le_of_lt (by exact_mod_cast hle) hroom
  exact lt_of_mul_lt_mul_right hlt hpos.le

theorem toNat_toUInt32 {a : Int32} (h : 0 ≤ a.toInt) : (a.toUInt32.toNat : ℤ) = a.toInt := by
  rw [Int32.toNat_toUInt32_of_le (Int32.le_iff_toInt_le.mpr h)]
  exact Int.toNat_of_nonneg h

/-- The files before the current one, in the arithmetic of `DWORD`. -/
theorem toNat_before_le (index : Int32) (h : 1 ≤ index.toInt) :
    ((((index - 1) * 1000).toUInt32.toNat : ℕ) : ℤ) ≤ 1000 * (index.toInt - 1) := by
  have hindex := toNat_toUInt32 (a := index) (by omega)
  have hone : (1 : UInt32) ≤ index.toUInt32 := by
    rw [UInt32.le_iff_toNat_le]
    have : (1 : ℤ) ≤ index.toUInt32.toNat := hindex ▸ h
    exact_mod_cast this
  have hmul : ((index - 1) * 1000).toUInt32.toNat ≤ (index.toUInt32.toNat - 1) * 1000 := by
    rw [Int32.toUInt32_mul, Int32.toUInt32_sub, UInt32.toNat_mul]
    refine (Nat.mod_le _ _).trans (le_of_eq ?_)
    rw [show (Int32.toUInt32 1) = 1 from rfl, UInt32.toNat_sub_of_le _ _ hone]
    rfl
  omega

theorem InRange.updateFileProgress {s : ProgressDlg} (h : s.InRange) {done total : UInt64}
    (hfits : s.FileFits (.updateFileProgress done total)) :
    (s.updateFileProgress done total).InRange := by
  refine ⟨h.files, h.among, ?_⟩
  obtain ⟨hbefore, hroom⟩ := hfits
  have hfiles := h.files
  have hamong := h.among
  unfold ProgressDlg.updateFileProgress
  dsimp only
  generalize (if 0 < total then total else s.FileTotalBytes) = fileTotal at hroom ⊢
  have hbelow : (if 1 < s.TotalFilesCount then s.CurrentFileIndex.toInt - 1 else 0) <
      s.TotalFilesCount.toInt := by
    split_ifs <;> omega
  have hfile : (((if 0 < fileTotal then perMille done fileTotal else 0 : UInt32).toNat : ℕ) : ℤ) <
      1001 * s.TotalFilesCount.toInt -
        1000 * (if 1 < s.TotalFilesCount then s.CurrentFileIndex.toInt - 1 else 0) := by
    by_cases hpos : 0 < fileTotal
    · rw [if_pos hpos]
      exact perMille_lt hpos (hroom hpos)
    · rw [if_neg hpos, UInt32.toNat_zero]
      omega
  by_cases hseveral : 1 < s.TotalFilesCount
  · rw [if_pos hseveral] at hbefore hfile ⊢
    have hcount := toNat_toUInt32 (a := s.TotalFilesCount) (by omega)
    have hsum := toNat_before_le s.CurrentFileIndex (by omega)
    rw [UInt32.toNat_div, UInt32.toNat_add]
    have hlt := Nat.mod_le (((s.CurrentFileIndex - 1) * 1000).toUInt32.toNat +
      (if 0 < fileTotal then perMille done fileTotal else 0 : UInt32).toNat) (2 ^ 32)
    refine Nat.le_of_lt_succ (Nat.div_lt_of_lt_mul ?_)
    omega
  · rw [if_neg hseveral] at hfile ⊢
    have hone : s.TotalFilesCount.toInt ≤ 1 := Int32.le_iff_toInt_le.mp (Int32.not_lt.mp hseveral)
    omega

theorem InRange.call {s : ProgressDlg} (h : s.InRange) {c : FileCall} (hfits : s.FileFits c) :
    (s.call c).InRange := by
  cases c with
  | setOperationInfo totalFiles totalExpectedBytes =>
    have hcount : 1 ≤ (s.setOperationInfo totalFiles totalExpectedBytes).TotalFilesCount.toInt := by
      unfold ProgressDlg.setOperationInfo
      dsimp only
      split_ifs with hpos
      · exact Int32.lt_iff_toInt_lt.mp hpos
      · exact le_rfl
    have hindex : (0 : ℤ) ≤
        (s.setOperationInfo totalFiles totalExpectedBytes).TotalFilesCount.toInt := by omega
    exact ⟨hcount, hindex, Nat.zero_le 1000⟩
  | setCurrentFile fileSize =>
    have hfiles := h.files
    unfold ProgressDlg.call ProgressDlg.setCurrentFile
    by_cases hlt : s.TotalFilesCount < s.CurrentFileIndex + 1
    · have hlt' := Int32.lt_iff_toInt_lt.mp hlt
      constructor <;> simp only [if_pos hlt]
      · omega
      · exact le_rfl
      · exact h.progress
    · have hle := Int32.le_iff_toInt_le.mp (Int32.not_lt.mp hlt)
      constructor <;> simp only [if_neg hlt]
      · exact hfiles
      · exact hle
      · exact h.progress
  | updateFileProgress done total => exact h.updateFileProgress hfits

end ProgressDlg

/-! ## Both together -/

/-- A visible dialog takes a snapshot. -/
def ProgressDlg.take (s : ProgressDlg) (snap : ProgressSnapshot) : ProgressDlg :=
  s.updateFromWorker (some snap) false true

theorem ProgressDlg.take_eq (s : ProgressDlg) (snap : ProgressSnapshot) :
    s.take snap = s.takeSnapshot snap := rfl

/-- Snapshots are shown exactly when they fit, and those that do never go back; the calls for files
leave the value in range where each of them fits. -/
theorem transfer_progress_iff (s : ProgressDlg) {snaps : List ProgressSnapshot}
    (h : ∀ snap ∈ snaps, 0 < snap.TotalBytesExpected) (calls : List FileCall) :
    (Along ProgressDlg.take (fun s snap => (s.take snap).TotalProgressCache.toNat =
        exactProgress snap.TotalBytesDone.toNat snap.TotalBytesExpected.toNat) s snaps ↔
      ∀ snap ∈ snaps, snap.Fits) ∧
    (∀ s s' : ProgressDlg, ∀ snap ∈ snaps, ∀ snap' ∈ snaps, snap.Fits → snap'.Fits →
      snap'.TotalBytesExpected = snap.TotalBytesExpected →
      snap.TotalBytesDone ≤ snap'.TotalBytesDone →
      (s.take snap).TotalProgressCache ≤ (s'.take snap').TotalProgressCache) ∧
    (Along ProgressDlg.call ProgressDlg.FileFits .initial calls →
      Along ProgressDlg.call (fun s c => (s.call c).TotalProgressCache.toNat ≤ 1000)
        .initial calls) := by
  refine ⟨?_, ?_, ?_⟩
  · refine along_iff_each (fun s snap hsnap => ?_) s
    rw [ProgressDlg.take_eq]
    exact takeSnapshot_iff s (h snap hsnap)
  · intro s s' snap hsnap snap' _ hfits hfits' hsame hdone
    rw [ProgressDlg.take_eq, ProgressDlg.take_eq]
    exact takeSnapshot_mono s s' (h snap hsnap) hsame hdone hfits hfits'
  · intro hfits
    have hinitial : ProgressDlg.initial.InRange := ⟨by decide, by decide, by decide⟩
    exact hfits.imp (fun s c hs hc => ProgressDlg.InRange.call hs hc)
      (fun s c hs hc => (ProgressDlg.InRange.call hs hc).progress) hinitial

/-- A snapshot of a transfer with this many bytes done and to do. -/
def bytesSnapshot (done expected : UInt64) : ProgressSnapshot := ⟨0, 0, 1, 1, done, expected⟩

/-- Nothing, half and more than all of two bytes; and the first of two files halfway. -/
theorem transfer_progress_half :
    Along ProgressDlg.take (fun s snap => (s.take snap).TotalProgressCache.toNat =
        exactProgress snap.TotalBytesDone.toNat snap.TotalBytesExpected.toNat) .initial
      [bytesSnapshot 0 2, bytesSnapshot 1 2, bytesSnapshot 3 2] ∧
    (ProgressDlg.initial.take (bytesSnapshot 1 2)).TotalProgressCache ≤
      (ProgressDlg.initial.take (bytesSnapshot 3 2)).TotalProgressCache ∧
    Along ProgressDlg.call (fun s c => (s.call c).TotalProgressCache.toNat ≤ 1000) .initial
      [.setOperationInfo 2 4, .setCurrentFile 2, .updateFileProgress 1 2] := by
  have hnone : (bytesSnapshot 0 2).Fits := ⟨by decide, by decide⟩
  have hhalf : (bytesSnapshot 1 2).Fits := ⟨by decide, by decide⟩
  have hmore : (bytesSnapshot 3 2).Fits := ⟨by decide, by decide⟩
  obtain ⟨hshown, hmono, hrange⟩ := @transfer_progress_iff .initial
    [bytesSnapshot 0 2, bytesSnapshot 1 2, bytesSnapshot 3 2] (by decide)
    [.setOperationInfo 2 4, .setCurrentFile 2, .updateFileProgress 1 2]
  refine ⟨hshown.mpr ?_, ?_, hrange ?_⟩
  · simp [hnone, hhalf, hmore]
  · exact hmono _ _ _ (by simp) _ (by simp) hhalf hmore rfl (by decide)
  · exact ⟨trivial, trivial, ⟨by decide, fun _ => by decide⟩, trivial⟩

/-- Where directories count for nothing, 4294968 bytes of one are shown as 70 per cent; and a file
of one byte of which there have been two as 200. -/
theorem not_transfer_progress :
    (¬ ∀ (s : ProgressDlg) (snaps : List ProgressSnapshot),
      (∀ snap ∈ snaps, 0 < snap.TotalBytesExpected) →
      Along ProgressDlg.take (fun s snap => (s.take snap).TotalProgressCache.toNat =
        exactProgress snap.TotalBytesDone.toNat snap.TotalBytesExpected.toNat) s snaps) ∧
    (¬ ∀ calls : List FileCall,
      Along ProgressDlg.call
        (fun s c => (s.call c).TotalProgressCache.toNat ≤ 1000) .initial calls) := by
  constructor
  · intro h
    exact absurd (h .initial [bytesSnapshot 4294968 1] (by decide)).1 (by decide)
  · intro h
    exact absurd (h [.setCurrentFile 1, .updateFileProgress 2 1]).2.1 (by decide)

end SalamanderSftp
