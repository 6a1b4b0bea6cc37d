import SalamanderSftp.Connection.Writes

/-!
# When a successful transfer is complete

What `Download` and `Upload` did, once they return true (`download_of_ok`, `upload_of_ok`). Neither
loop compares `done` with `total` afterwards, and nobody asks why `fread` gave nothing or whether
`fclose` succeeded. So a download is complete exactly when the server ends the file at the size it
announced and nothing of it is lost in `fclose`, and an upload when no `fread` fails
(`transfer_complete_iff`).
-/

namespace SalamanderSftp

/-! ## Downloads -/

/-- Nothing stops the download before its loop. -/
structure DownloadIo.Starts (io : DownloadIo) : Prop where
  opened : io.opened = true
  start : io.start = true
  fopen : io.fopen = true

/-- Where `Download` starts to write; SCP cannot resume. -/
def startOffset (scpMode : Bool) (io : DownloadIo) (resumeOffset : ℕ) : ℕ :=
  if scpMode then 0
  else if 0 < resumeOffset ∧ resumeOffset ≤ io.announced.getD 0 then resumeOffset else 0

/-- The loop condition: `for (;;)`, or `done < total` in SCP mode. -/
def DownloadIo.more (scpMode : Bool) (io : DownloadIo) : ℕ → Bool :=
  if scpMode then fun done => decide (done < io.announced.getD 0) else fun _ => true

/-- The number of bytes asked for: a full buffer, in SCP mode not beyond the announced size. -/
def DownloadIo.want (scpMode : Bool) (io : DownloadIo) : ℕ → ℕ :=
  if scpMode then fun done => min (io.announced.getD 0 - done) bufSize else fun _ => bufSize

/-- The bytes the server delivers before it ends the file: up to the first read of length zero, and
in SCP mode up to the announced size if that comes first. `none` when a failed read, a short write
to the disk or the user ends the loop. -/
def served (scpMode : Bool) (io : DownloadIo) (offset : ℕ) : Option Bytes :=
  delivered (io.more scpMode) (io.want scpMode) io.steps offset

/-- The content the download writes over. -/
def keptContent (target : Option Bytes) (offset : ℕ) : Option Bytes :=
  if 0 < offset then target else some []

theorem downloadInto_of_delivered {io : DownloadIo} {target : Option Bytes} {more : ℕ → Bool}
    {want : ℕ → ℕ} {offset : ℕ} {content bs : Bytes} (hc : keptContent target offset = some content)
    (hf : io.fopen = true) (hd : delivered more want io.steps offset = some bs) :
    downloadInto io target more want offset =
      ⟨true, some (writeAt content offset (stored io.lost bs)), true, bs, bs, false⟩ := by
  have hloop := readLoop_of_delivered ⟨offset, [], []⟩ hd
  unfold keptContent at hc
  unfold downloadInto TransferResult.finish
  rw [hc]
  simp [hf, hloop]

theorem downloadInto_ok {io : DownloadIo} {target : Option Bytes} {more : ℕ → Bool}
    {want : ℕ → ℕ} {offset : ℕ} (h : (downloadInto io target more want offset).ok = true) :
    io.fopen = true ∧ ∃ content bs, keptContent target offset = some content ∧
      delivered more want io.steps offset = some bs := by
  have hc : ∃ content, keptContent target offset = some content := by
    rcases hk : keptContent target offset with _ | content
    · unfold keptContent at hk
      unfold downloadInto at h
      rw [hk] at h
      exact absurd h (by simp [TransferResult.refused])
    · exact ⟨content, rfl⟩
  obtain ⟨content, hc⟩ := hc
  have hc' := hc
  unfold keptContent at hc'
  unfold downloadInto at h
  rw [hc'] at h
  by_cases hf : io.fopen = true
  · refine ⟨hf, content, ?_⟩
    rcases hd : delivered more want io.steps offset with _ | bs
    · have hfail := readLoop_of_not_delivered ⟨offset, [], []⟩ hd
      simp [hf, TransferResult.finish, hfail] at h
    · exact ⟨bs, hc, rfl⟩
  · simp [hf, TransferResult.refused] at h

theorem download_eq {io : DownloadIo} (ho : io.opened = true) (hs : io.start = true)
    (scpMode : Bool) (target : Option Bytes) (resumeOffset : ℕ) :
    download scpMode io target resumeOffset =
      downloadInto io target (io.more scpMode) (io.want scpMode)
        (startOffset scpMode io resumeOffset) := by
  cases scpMode <;>
    simp [download, scpDownload, ho, hs, DownloadIo.more, DownloadIo.want, startOffset]

theorem download_eq_refused {io : DownloadIo} (h : ¬ (io.opened = true ∧ io.start = true))
    (scpMode : Bool) (target : Option Bytes) (resumeOffset : ℕ) :
    download scpMode io target resumeOffset = .refused target := by
  cases ho : io.opened <;> cases hs : io.start <;> cases scpMode <;>
    simp_all [download, scpDownload]

theorem download_of_ok {scpMode : Bool} {io : DownloadIo} {target : Option Bytes} {resumeOffset : ℕ}
    (h : (download scpMode io target resumeOffset).ok = true) :
    io.Starts ∧ ∃ content bs,
      keptContent target (startOffset scpMode io resumeOffset) = some content ∧
      served scpMode io (startOffset scpMode io resumeOffset) = some bs ∧
      download scpMode io target resumeOffset =
        ⟨true, some (writeAt content (startOffset scpMode io resumeOffset) (stored io.lost bs)),
          true, bs, bs, false⟩ := by
  by_cases hs : io.opened = true ∧ io.start = true
  · rw [download_eq hs.1 hs.2] at h ⊢
    obtain ⟨hf, content, bs, hc, hd⟩ := downloadInto_ok h
    exact ⟨⟨hs.1, hs.2, hf⟩, content, bs, hc, hd, downloadInto_of_delivered hc hf hd⟩
  · rw [download_eq_refused hs] at h
    exact absurd h (by simp [TransferResult.refused])

theorem download_of_served (scpMode : Bool) {io : DownloadIo} (target : Option Bytes)
    (resumeOffset : ℕ) {content bs : Bytes} (hs : io.Starts)
    (hc : keptContent target (startOffset scpMode io resumeOffset) = some content)
    (hd : served scpMode io (startOffset scpMode io resumeOffset) = some bs) :
    download scpMode io target resumeOffset =
      ⟨true, some (writeAt content (startOffset scpMode io resumeOffset) (stored io.lost bs)),
        true, bs, bs, false⟩ := by
  rw [download_eq hs.opened hs.start]
  exact downloadInto_of_delivered hc hs.fopen hd

theorem startOffset_zero (scpMode : Bool) (io : DownloadIo) : startOffset scpMode io 0 = 0 := by
  unfold startOffset
  split_ifs <;> simp_all

/-! ## Uploads -/

/-- Where `Upload` starts to read and write; SCP cannot resume. -/
def uploadOffset (scpMode : Bool) (content : Bytes) (resumeOffset : ℕ) : ℕ :=
  if scpMode then 0
  else if 0 < resumeOffset ∧ resumeOffset < content.length then resumeOffset else 0

/-- The content the upload writes over: without a resume the file is opened with `TRUNC`. -/
def keptRemote (target : Option Bytes) (offset : ℕ) : Bytes :=
  if 0 < offset then target.getD [] else []

/-- What `fread` gives of the rest of a file. -/
def UploadIo.given (io : UploadIo) (rest : Bytes) : Bytes := (freads io.reads rest).flatten

theorem UploadIo.prefix_given (io : UploadIo) (rest : Bytes) : io.given rest <+: rest :=
  flatten_freads_prefix io.reads rest

/-- No `fread` fails before the end of the file. -/
def UploadIo.ReadsAll (io : UploadIo) (rest : Bytes) : Prop := io.given rest = rest

theorem writeChunks_freads (io : UploadIo) (rest : Bytes) (done : ℕ)
    (h : (writeChunks (freads io.reads rest) io.writes io.gos done []).1 = true) :
    (writeChunks (freads io.reads rest) io.writes io.gos done []).2.2 = io.given rest :=
  writeChunks_true _ _ _ _ _ h

/-- The upload from `offset` on gets to its loop, where the server accepts every buffer and the user
does not cancel. -/
structure UploadIo.Accepts (scpMode : Bool) (io : UploadIo) (remotePath : CStr) (content : Bytes)
    (offset : ℕ) : Prop where
  fopen : io.fopen = true
  start : io.start = true
  opened : (if scpMode then decide (io.openFirst = .handle) else openRemote io remotePath) = true
  written : Accepted (freads io.reads (content.drop offset)) io.writes io.gos

/-- What is at the target when the server has taken `sent`, from `offset` on. -/
def UploadIo.leaves (io : UploadIo) (scpMode : Bool) (content : Bytes) (target : Option Bytes)
    (offset : ℕ) (sent : Bytes) : Option Bytes :=
  if scpMode then (if sent = content ∧ io.scpStores then some content else io.scpRest)
  else some (writeAt (keptRemote target offset) offset (stored io.lost sent))

/-- Without SCP the offset decides whether the remote file is truncated. -/
theorem upload_sftp_eq (io : UploadIo) (remotePath : CStr) (content : Bytes)
    (target : Option Bytes) (resumeOffset : ℕ) :
    upload false io remotePath content target resumeOffset =
      (let offset := uploadOffset false content resumeOffset
      if !io.fopen then .refused target
      else if !io.start then .refused target
      else if !openRemote io remotePath then .refused target
      else
        let r := writeChunks (freads io.reads (content.drop offset)) io.writes io.gos offset []
        .finish io.unlinks offset r.1 r.2.1 r.2.2 r.2.2
          (io.leaves false content target offset r.2.2)) := by
  have hoff : (if decide (0 < resumeOffset ∧ resumeOffset < content.length) = true then
      resumeOffset else 0) = uploadOffset false content resumeOffset := by
    simp [uploadOffset]
  have hkept : (if decide (0 < resumeOffset ∧ resumeOffset < content.length) = true then
      target.getD [] else []) = keptRemote target (uploadOffset false content resumeOffset) := by
    by_cases hr : 0 < resumeOffset ∧ resumeOffset < content.length <;>
      simp [uploadOffset, keptRemote, hr]
  simp only [upload, UploadIo.leaves, Bool.false_eq_true, if_false]
  rw [hoff, hkept]

/-- The upload comes to its loop. -/
structure UploadIo.Opens (io : UploadIo) (scpMode : Bool) (remotePath : CStr) : Prop where
  fopen : io.fopen = true
  start : io.start = true
  opened : if scpMode then io.openFirst = .handle else openRemote io remotePath = true

theorem upload_of_opens {scpMode : Bool} {io : UploadIo} {remotePath : CStr}
    (h : io.Opens scpMode remotePath) (content : Bytes) (target : Option Bytes)
    (resumeOffset : ℕ) :
    upload scpMode io remotePath content target resumeOffset =
      (let offset := uploadOffset scpMode content resumeOffset
      let r := writeChunks (freads io.reads (content.drop offset)) io.writes io.gos offset []
      .finish (io.unlinks && !scpMode) offset r.1 r.2.1 r.2.2 r.2.2
        (io.leaves scpMode content target offset r.2.2)) := by
  cases scpMode with
  | true =>
    have hopen : ¬ io.openFirst ≠ .handle := not_not.mpr h.opened
    simp [upload, scpUpload, h.fopen, h.start, hopen, uploadOffset, UploadIo.leaves]
  | false =>
    have hopen : openRemote io remotePath = true := h.opened
    rw [upload_sftp_eq]
    simp [h.fopen, h.start, hopen]

theorem upload_of_not_opens {scpMode : Bool} {io : UploadIo} {remotePath : CStr}
    (h : ¬ io.Opens scpMode remotePath) (content : Bytes) (target : Option Bytes)
    (resumeOffset : ℕ) :
    upload scpMode io remotePath content target resumeOffset = .refused target := by
  by_cases hf : io.fopen = true
  · by_cases hs : io.start = true
    · have hopen : ¬ (if scpMode then io.openFirst = .handle else
          openRemote io remotePath = true) := fun ho => h ⟨hf, hs, ho⟩
      cases scpMode with
      | true =>
        have hopen : io.openFirst ≠ .handle := hopen
        simp [upload, scpUpload, hf, hs, hopen]
      | false =>
        have hopen : openRemote io remotePath = false := by simpa using hopen
        simp [upload, hf, hs, hopen]
    · cases scpMode <;> simp [upload, scpUpload, hf, hs]
  · cases scpMode <;> simp [upload, scpUpload, hf]

theorem accepts_of_upload_ok {scpMode : Bool} {io : UploadIo} {remotePath : CStr} {content : Bytes}
    {target : Option Bytes} {resumeOffset : ℕ}
    (h : (upload scpMode io remotePath content target resumeOffset).ok = true) :
    io.Accepts scpMode remotePath content (uploadOffset scpMode content resumeOffset) := by
  by_cases hopens : io.Opens scpMode remotePath
  · rw [upload_of_opens hopens] at h
    refine ⟨hopens.fopen, hopens.start, ?_, (writeChunks_ok_iff _ _ _ _ _).mp h⟩
    have hopened := hopens.opened
    cases scpMode with
    | true => exact decide_eq_true hopened
    | false => exact hopened
  · rw [upload_of_not_opens hopens] at h
    exact absurd h (by simp [TransferResult.refused])

theorem UploadIo.Accepts.opens {scpMode : Bool} {io : UploadIo} {remotePath : CStr}
    {content : Bytes} {offset : ℕ} (h : io.Accepts scpMode remotePath content offset) :
    io.Opens scpMode remotePath := by
  refine ⟨h.fopen, h.start, ?_⟩
  have hopened := h.opened
  cases scpMode with
  | true => exact of_decide_eq_true hopened
  | false => exact hopened

/-- Then everything that was read from the start position on was accepted. -/
theorem upload_of_accepts {scpMode : Bool} {io : UploadIo} {remotePath : CStr} {content : Bytes}
    {resumeOffset : ℕ}
    (h : io.Accepts scpMode remotePath content (uploadOffset scpMode content resumeOffset))
    (target : Option Bytes) :
    upload scpMode io remotePath content target resumeOffset =
      (let offset := uploadOffset scpMode content resumeOffset
      let sent := io.given (content.drop offset)
      ⟨true, io.leaves scpMode content target offset sent, true, sent, sent, false⟩) := by
  rw [upload_of_opens h.opens]
  dsimp only
  have hok :=
    (writeChunks_ok_iff _ _ _ (uploadOffset scpMode content resumeOffset) []).mpr h.written
  rw [writeChunks_freads _ _ _ hok, hok]
  simp [TransferResult.finish]

theorem upload_of_ok {scpMode : Bool} {io : UploadIo} {remotePath : CStr} {content : Bytes}
    {target : Option Bytes} {resumeOffset : ℕ}
    (h : (upload scpMode io remotePath content target resumeOffset).ok = true) :
    upload scpMode io remotePath content target resumeOffset =
      (let offset := uploadOffset scpMode content resumeOffset
      let sent := io.given (content.drop offset)
      ⟨true, io.leaves scpMode content target offset sent, true, sent, sent, false⟩) :=
  upload_of_accepts (accepts_of_upload_ok h) target

theorem uploadOffset_zero (scpMode : Bool) (content : Bytes) :
    uploadOffset scpMode content 0 = 0 := by
  unfold uploadOffset
  split_ifs <;> simp_all

/-! ## Completeness -/

/-- A download that reports success put what it received into the file, and that is as many bytes
as the server announced. -/
def DownloadComplete (io : DownloadIo) (r : TransferResult) : Prop :=
  r.ok = true → r.target = some r.moved ∧ ∀ n, io.announced = some n → r.moved.length = n

/-- An upload that reports success had every byte of the local file accepted, in order. -/
def UploadComplete (content : Bytes) (r : TransferResult) : Prop :=
  r.ok = true → r.moved = content

/-- What the server delivers is as long as it announced, and all of it is in the file after
`fclose`. -/
def DownloadIo.ServesAll (scpMode : Bool) (io : DownloadIo) : Prop :=
  ∀ bs, served scpMode io 0 = some bs →
    (io.lost = 0 ∨ bs = []) ∧ ∀ n, io.announced = some n → bs.length = n

theorem download_complete_iff (scpMode : Bool) (io : DownloadIo) (target : Option Bytes) :
    DownloadComplete io (download scpMode io target 0) ↔ (io.Starts → io.ServesAll scpMode) := by
  constructor
  · intro hcomplete hstarts bs hbs
    have hkept : keptContent target (startOffset scpMode io 0) = some [] := by
      rw [startOffset_zero]
      rfl
    have hd := download_of_served scpMode target 0 hstarts hkept
      (by rw [startOffset_zero]; exact hbs)
    rw [hd, startOffset_zero, writeAt_nil_zero] at hcomplete
    obtain ⟨htarget, hlength⟩ := hcomplete rfl
    exact ⟨stored_eq_self_iff.mp (Option.some.inj htarget), hlength⟩
  · intro hserves hok
    obtain ⟨hstarts, content, bs, hc, hbs, heq⟩ := download_of_ok hok
    rw [startOffset_zero] at hc hbs heq
    obtain rfl : [] = content := by simpa [keptContent] using hc
    obtain ⟨hlost, hlength⟩ := hserves hstarts bs hbs
    rw [heq, writeAt_nil_zero, stored_eq_self_iff.mpr hlost]
    exact ⟨rfl, hlength⟩

theorem upload_complete_iff (scpMode : Bool) (io : UploadIo) (remotePath : CStr) (content : Bytes)
    (target : Option Bytes) :
    UploadComplete content (upload scpMode io remotePath content target 0) ↔
      (io.Accepts scpMode remotePath content 0 → io.ReadsAll content) := by
  constructor
  · intro hcomplete haccepts
    rw [← uploadOffset_zero scpMode content] at haccepts
    rw [upload_of_accepts haccepts] at hcomplete
    have hmoved := hcomplete rfl
    dsimp only at hmoved
    rwa [uploadOffset_zero, List.drop_zero] at hmoved
  · intro hreads hok
    have haccepts := accepts_of_upload_ok hok
    rw [upload_of_accepts haccepts]
    dsimp only
    rw [uploadOffset_zero] at haccepts ⊢
    rw [List.drop_zero]
    exact hreads haccepts

/-- Single-file transfers from offset 0: a download is complete on success exactly when the server
does not end the file before (or, outside SCP mode, after) the announced size and `fclose` loses
nothing of it, an upload exactly when no `fread` fails before the end of the file. -/
theorem transfer_complete_iff (scpMode : Bool) (io : DownloadIo) (target : Option Bytes)
    (uploadIo : UploadIo) (remotePath : CStr) (content : Bytes) (remote : Option Bytes) :
    (DownloadComplete io (download scpMode io target 0) ↔
      (io.Starts → io.ServesAll scpMode)) ∧
    (UploadComplete content (upload scpMode uploadIo remotePath content remote 0) ↔
      (uploadIo.Accepts scpMode remotePath content 0 → uploadIo.ReadsAll content)) :=
  ⟨download_complete_iff scpMode io target,
    upload_complete_iff scpMode uploadIo remotePath content remote⟩

/-- The server announces four bytes, sends two and ends the file. -/
def shortServer : DownloadIo where
  opened := true
  announced := some 4
  start := true
  fopen := true
  steps := [⟨some (ascii "ab"), 2, true⟩, ⟨some [], 0, true⟩]
  lost := 0
  deletes := true

/-- The first byte can be read of the local file, and no other. -/
def brokenDisk : UploadIo where
  fopen := true
  reads := [1]
  start := true
  openFirst := .handle
  openRetry := true
  writes := [some 1]
  gos := []
  lost := 0
  unlinks := true
  scpStores := true
  scpRest := none

/-- Both downloads call the two bytes a success, and both uploads the one byte, although nothing was
cancelled. -/
theorem not_transfer_complete :
    (¬ ∀ (io : DownloadIo) (target : Option Bytes), io.start = true →
      (∀ step ∈ io.steps, step.go = true) → DownloadComplete io (download false io target 0)) ∧
    (¬ ∀ (io : DownloadIo) (target : Option Bytes), io.start = true →
      (∀ step ∈ io.steps, step.go = true) → DownloadComplete io (download true io target 0)) ∧
    (¬ ∀ (io : UploadIo) (content : Bytes), io.start = true → (∀ go ∈ io.gos, go = true) →
      UploadComplete content (upload false io (ascii "/f") content none 0)) ∧
    (¬ ∀ (io : UploadIo) (content : Bytes), io.start = true → (∀ go ∈ io.gos, go = true) →
      UploadComplete content (upload true io (ascii "/f") content none 0)) := by
  have hgo : ∀ step ∈ shortServer.steps, step.go = true := by simp [shortServer]
  have hgos : ∀ go ∈ brokenDisk.gos, go = true := by simp [brokenDisk]
  have hdown : ∀ scpMode, download scpMode shortServer none 0 =
      ⟨true, some (ascii "ab"), true, ascii "ab", ascii "ab", false⟩ := by decide
  refine ⟨fun h => ?_, fun h => ?_, fun h => ?_, fun h => ?_⟩
  · have hcomplete := h shortServer none rfl hgo
    rw [hdown] at hcomplete
    exact absurd ((hcomplete rfl).2 4 rfl) (by decide)
  · have hcomplete := h shortServer none rfl hgo
    rw [hdown] at hcomplete
    exact absurd ((hcomplete rfl).2 4 rfl) (by decide)
  · exact absurd (h brokenDisk (ascii "ab") rfl hgos (by decide)) (by decide)
  · exact absurd (h brokenDisk (ascii "ab") rfl hgos (by decide)) (by decide)

end SalamanderSftp
