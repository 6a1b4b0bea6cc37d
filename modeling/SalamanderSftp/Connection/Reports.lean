import SalamanderSftp.Connection.TransferComplete
import SalamanderSftp.Lib.Meter

/-!
# What a transfer reports

The calls of `ReportProgress` that `Download` and `Upload` make, with their answers. In a transfer
that ends well the positions reported rise from where it starts to the size of the file; but the
first report of `Upload` has the offset that it was given, also where it does not use it
(`gained_upload`).
-/

namespace SalamanderSftp

open Meter

/-- A call of the progress callback, and its answer. -/
structure Report where
  done : ℕ
  total : ℕ
  go : Bool

/-- The positions that were reported and not refused. -/
def passed (reports : List Report) : List ℕ := (reports.filter Report.go).map Report.done

@[simp] theorem passed_nil : passed [] = [] := rfl

theorem passed_cons_true (done total : ℕ) (reports : List Report) :
    passed (⟨done, total, true⟩ :: reports) = done :: passed reports := rfl

/-! ## Downloads -/

def readReports (more : ℕ → Bool) (want : ℕ → ℕ) (total : ℕ) :
    List ReadStep → (done : ℕ) → List Report
  | [], _ => []
  | step :: steps, done =>
    if !more done then []
    else
      match step.read with
      | none => []
      | some bs =>
        let buf := bs.take (want done)
        if buf = [] then []
        else if step.written < buf.length then []
        else
          let done := done + buf.length
          ⟨done, total, step.go⟩ :: if !step.go then [] else readReports more want total steps done

def downloadReports (scpMode : Bool) (io : DownloadIo) (target : Option Bytes) (resumeOffset : ℕ) :
    List Report :=
  if !io.opened then []
  else
    let total := io.announced.getD 0
    let offset := startOffset scpMode io resumeOffset
    ⟨offset, total, io.start⟩ ::
      if !io.start then []
      else if (keptContent target offset).isNone || !io.fopen then []
      else readReports (io.more scpMode) (io.want scpMode) total io.steps offset

theorem rises_readReports {more : ℕ → Bool} {want : ℕ → ℕ} (total : ℕ) {steps : List ReadStep} :
    ∀ {done : ℕ} {bs : Bytes}, delivered more want steps done = some bs →
      Rises done (passed (readReports more want total steps done)) (done + bs.length) := by
  induction steps with
  | nil =>
    intro done bs h
    rw [delivered] at h
    split_ifs at h
    obtain rfl := Option.some.inj h
    exact rfl
  | cons step steps ih =>
    intro done bs h
    rw [delivered] at h
    rw [readReports]
    by_cases hm : (!more done) = true
    · rw [if_pos hm] at h ⊢
      obtain rfl := Option.some.inj h
      exact rfl
    rw [if_neg hm] at h ⊢
    rcases hr : step.read with _ | raw
    · simp [hr] at h
    simp only [hr] at h ⊢
    generalize raw.take (want done) = buf at h ⊢
    by_cases hb : buf = []
    · rw [if_pos hb] at h ⊢
      obtain rfl := Option.some.inj h
      exact rfl
    rw [if_neg hb] at h ⊢
    split_ifs at h with hstop
    obtain ⟨hw, hg⟩ := not_or.mp hstop
    have hgo : step.go = true := by simpa using hg
    obtain ⟨cs, hcs, rfl⟩ := Option.map_eq_some_iff.mp h
    rw [if_neg hw, hgo, passed_cons_true]
    have hrest := ih hcs
    rw [Nat.add_assoc, ← List.length_append] at hrest
    exact ⟨Nat.le_add_right _ _, hrest⟩

/-- A download that ends well has reported all the way from 0 to the end of what it got. -/
theorem gained_download {scpMode : Bool} {io : DownloadIo}
    {target : Option Bytes} {resumeOffset : ℕ}
    (h : (download scpMode io target resumeOffset).ok = true) :
    gained 0 (passed (downloadReports scpMode io target resumeOffset)) =
      startOffset scpMode io resumeOffset +
        (download scpMode io target resumeOffset).moved.length := by
  obtain ⟨hstarts, content, bs, hc, hbs, heq⟩ := download_of_ok h
  unfold downloadReports
  dsimp only
  rw [heq, hstarts.opened, hstarts.start, hstarts.fopen, hc]
  exact gained_of_rises ⟨Nat.zero_le _, rises_readReports _ hbs⟩

/-! ## Uploads -/

def writeReports (total : ℕ) :
    List Bytes → List (Option ℕ) → List Bool → (done : ℕ) → (moved : Bytes) → List Report
  | [], _, _, _, _ => []
  | chunk :: chunks, ws, gos, done, moved =>
    match writeChunk ws chunk moved with
    | (false, _, _) => []
    | (true, moved, ws) =>
      let done := done + chunk.length
      ⟨done, total, gos.headD true⟩ ::
        if !gos.headD true then [] else writeReports total chunks ws gos.tail done moved

def uploadReports (scpMode : Bool) (io : UploadIo) (remotePath : CStr)
    (content : Bytes) (resumeOffset : ℕ) :
    List Report :=
  if !io.fopen then []
  else
    let total := content.length
    -- the offset is reported before it is looked at
    ⟨if scpMode then 0 else resumeOffset, total, io.start⟩ ::
      if !io.start then []
      else if !(if scpMode then decide (io.openFirst = .handle) else openRemote io remotePath) then
        []
      else
        let offset := uploadOffset scpMode content resumeOffset
        writeReports total (freads io.reads (content.drop offset)) io.writes io.gos offset []

theorem rises_writeReports (total : ℕ) (chunks : List Bytes) :
    ∀ {ws : List (Option ℕ)} {gos : List Bool} {done : ℕ} {moved : Bytes},
      (writeChunks chunks ws gos done moved).1 = true →
        Rises done (passed (writeReports total chunks ws gos done moved))
          (done + chunks.flatten.length) := by
  induction chunks with
  | nil => exact fun _ => rfl
  | cons chunk chunks ih =>
    intro ws gos done moved h
    rw [writeChunks] at h
    rw [writeReports]
    rcases hw : writeChunk ws chunk moved with ⟨ok, moved', ws'⟩
    rw [hw] at h
    rcases ok with _ | _
    · exact absurd h (by simp)
    dsimp only at h ⊢
    by_cases hg : (!gos.headD true) = true
    · rw [if_pos hg] at h
      exact absurd h (by simp)
    rw [if_neg hg] at h ⊢
    have hgo : gos.headD true = true := by simpa using hg
    have hrest := ih h
    rw [Nat.add_assoc, ← List.length_append, ← List.flatten_cons] at hrest
    rw [hgo, passed_cons_true]
    exact ⟨Nat.le_add_right _ _, hrest⟩

/-- The first report of the loop is behind one buffer. -/
theorem passed_writeReports_cons {total : ℕ} {chunk : Bytes}
    {chunks : List Bytes} {ws : List (Option ℕ)}
    {gos : List Bool} {moved : Bytes}
    (h : (writeChunks (chunk :: chunks) ws gos 0 moved).1 = true) :
    ∃ ds, passed (writeReports total (chunk :: chunks) ws gos 0 moved) = chunk.length :: ds := by
  rw [writeChunks] at h
  rw [writeReports]
  rcases hw : writeChunk ws chunk moved with ⟨ok, moved', ws'⟩
  rw [hw] at h
  rcases ok with _ | _
  · exact absurd h (by simp)
  dsimp only at h ⊢
  by_cases hg : (!gos.headD true) = true
  · rw [if_pos hg] at h
    exact absurd h (by simp)
  have hgo : gos.headD true = true := by simpa using hg
  rw [hgo, passed_cons_true, Nat.zero_add]
  exact ⟨_, rfl⟩

/-- What the first `fread` gives. -/
def UploadIo.firstRead (io : UploadIo) (rest : Bytes) : Bytes := (freads io.reads rest).headD []

theorem UploadIo.length_firstRead_le (io : UploadIo) (rest : Bytes) :
    (io.firstRead rest).length ≤ (io.given rest).length := by
  unfold firstRead given
  rcases freads io.reads rest with _ | ⟨chunk, chunks⟩
  · exact le_rfl
  · rw [List.headD_cons, List.flatten_cons, List.length_append]
    exact Nat.le_add_right _ _

/-- From an offset behind the file the reports fall back to the end of the first buffer. -/
theorem gained_restart {io : UploadIo} {content : Bytes} {offset : ℕ}
    (hoffset : content.length ≤ offset)
    (h : (writeChunks (freads io.reads content) io.writes io.gos 0 []).1 = true) :
    gained 0 (offset :: passed
        (writeReports content.length (freads io.reads content) io.writes io.gos 0 [])) =
      offset + ((io.given content).length - (io.firstRead content).length) := by
  have hgiven := (io.prefix_given content).length_le
  have hrises := rises_writeReports content.length (freads io.reads content) h
  unfold UploadIo.firstRead UploadIo.given at *
  rcases hchunks : freads io.reads content with _ | ⟨chunk, chunks⟩
  · rfl
  rw [hchunks] at h hrises hgiven
  rw [Nat.zero_add] at hrises
  obtain ⟨ds, hds⟩ := passed_writeReports_cons h
  rw [hds] at hrises ⊢
  have hrest := gained_of_rises hrises.2
  rw [List.flatten_cons, List.length_append] at hrest hgiven ⊢
  rw [List.headD_cons, gained, gained, hrest]
  omega

theorem gained_upload {scpMode : Bool} {io : UploadIo} {remotePath : CStr} {content : Bytes}
    {target : Option Bytes} {resumeOffset : ℕ}
    (h : (upload scpMode io remotePath content target resumeOffset).ok = true) :
    gained 0 (passed (uploadReports scpMode io remotePath content resumeOffset)) =
      if scpMode = false ∧ content.length ≤ resumeOffset then
        resumeOffset + ((io.given content).length - (io.firstRead content).length)
      else uploadOffset scpMode content resumeOffset +
        (upload scpMode io remotePath content target resumeOffset).moved.length := by
  rw [upload_of_ok h]
  obtain ⟨hf, hs, ho, haccepted⟩ := accepts_of_upload_ok h
  have hw := (writeChunks_ok_iff _ _ _ (uploadOffset scpMode content resumeOffset) []).mpr haccepted
  unfold uploadReports
  rw [hf, hs, ho]
  have hrises := rises_writeReports content.length _ hw
  by_cases hdrop : scpMode = false ∧ content.length ≤ resumeOffset
  · obtain ⟨rfl, hle⟩ := hdrop
    have hcond : false = false ∧ content.length ≤ resumeOffset := ⟨rfl, hle⟩
    have hoff : uploadOffset false content resumeOffset = 0 := by
      unfold uploadOffset
      split_ifs <;> omega
    rw [hoff, List.drop_zero] at hw
    rw [if_pos hcond]
    dsimp only
    rw [hoff, List.drop_zero]
    exact gained_restart hle hw
  · rw [if_neg hdrop]
    have hoff : (if scpMode then 0 else resumeOffset) =
        uploadOffset scpMode content resumeOffset := by
      unfold uploadOffset
      split_ifs with hscp hr
      · rfl
      · rfl
      · have hlt : ¬ content.length ≤ resumeOffset := fun hle => hdrop ⟨by simpa using hscp, hle⟩
        omega
    dsimp only
    rw [hoff]
    exact gained_of_rises ⟨Nat.zero_le _, hrises⟩

end SalamanderSftp
