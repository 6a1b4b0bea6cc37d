import SalamanderSftp.Text

/-!
# Transferring one file

`Download`, `ScpDownload`, `Upload` and `ScpUpload` of `CSftpConnection` against a script of what
the SFTP/SCP primitives, `fopen`, `fread`, `fwrite` and the progress callback answer. A script that
runs out means that the next primitive fails, so every call returns; scripts of all lengths cover
every run that returns. No result is looked at of closing a file, and none of the remote `scp`.

1. `readLoop` is the loop of both downloads, `writeChunks` that of both uploads.
2. A download ends well exactly when its reads end without a fault (`delivered`), and then the
   delivered bytes went through `fwrite` (`readLoop_of_delivered`, `readLoop_of_not_delivered`).
3. An upload ends well only when all that `fread` gave was accepted (`writeChunks_true`).
-/

namespace SalamanderSftp

/-- `sizeof(buf)` of the transfer loops. -/
def bufSize : ℕ := 65536

/-- What a transfer did: its result, the target file afterwards, whether it opened the target for
writing, the bytes received from or accepted by the server, those that `fwrite` or the write calls
took, and whether it removed the target. -/
structure TransferResult where
  ok : Bool
  target : Option Bytes
  opened : Bool
  moved : Bytes
  written : Bytes
  removed : Bool
  deriving DecidableEq

/-- A transfer given up before its target was opened. -/
def TransferResult.refused (target : Option Bytes) : TransferResult :=
  ⟨false, target, false, [], [], false⟩

/-- The end of a transfer that opened its target: the loop's result and its counter, and what is at
the target once it is closed. A file for which nothing was counted is removed, where the transfer
tries to and can. -/
def TransferResult.finish (removes : Bool) (offset : ℕ) (ok : Bool) (done : ℕ)
    (moved written : Bytes) (left : Option Bytes) : TransferResult :=
  let removed := !ok && done == 0 && offset == 0 && removes
  ⟨ok, if removed then none else left, true, moved, written, removed⟩

@[simp] theorem TransferResult.finish_ok (removes : Bool) (offset : ℕ) (ok : Bool) (done : ℕ)
    (moved written : Bytes) (left : Option Bytes) :
    (finish removes offset ok done moved written left).ok = ok := rfl

@[simp] theorem TransferResult.finish_opened (removes : Bool) (offset : ℕ) (ok : Bool) (done : ℕ)
    (moved written : Bytes) (left : Option Bytes) :
    (finish removes offset ok done moved written left).opened = true := rfl

/-- The file after `bs` was written from position `pos` on; a hole before `pos` reads as zeros. -/
def writeAt (content : Bytes) (pos : ℕ) (bs : Bytes) : Bytes :=
  if bs = [] then content
  else
    content.take pos ++ List.replicate (pos - content.length) 0 ++ bs ++
      content.drop (pos + bs.length)

@[simp] theorem writeAt_nil_zero (bs : Bytes) : writeAt [] 0 bs = bs := by
  unfold writeAt
  by_cases h : bs = []
  · rw [if_pos h, h]
  · rw [if_neg h]; simp

/-- What gets into a file of the bytes written to it, when closing it loses the last ones. -/
def stored (lost : ℕ) (bs : Bytes) : Bytes := bs.take (bs.length - lost)

@[simp] theorem stored_zero (bs : Bytes) : stored 0 bs = bs := by
  unfold stored
  rw [Nat.sub_zero, List.take_length]

theorem prefix_stored (lost : ℕ) (bs : Bytes) : stored lost bs <+: bs := List.take_prefix _ _

theorem stored_eq_self_iff {lost : ℕ} {bs : Bytes} : stored lost bs = bs ↔ lost = 0 ∨ bs = [] := by
  unfold stored
  rw [List.take_eq_self_iff, ← List.length_eq_zero_iff]
  omega

/-! ## The read loop of the downloads -/

/-- One turn of a read loop. -/
structure ReadStep where
  /-- The bytes that `libssh2_sftp_read` or `libssh2_channel_read` returns; `none` for a negative
  result. -/
  read : Option Bytes
  /-- How many of them `fwrite` puts into the file. -/
  written : ℕ
  /-- `ReportProgress` after the write. -/
  go : Bool

/-- `done`, and the bytes that went through the buffer into the file. -/
structure ReadState where
  done : ℕ
  received : Bytes
  written : Bytes

/-- `more done` is the loop condition and `want done` the number of bytes asked for. -/
def readLoop (more : ℕ → Bool) (want : ℕ → ℕ) : List ReadStep → ReadState → Bool × ReadState
  | [], st => (!more st.done, st)
  | step :: steps, st =>
    if !more st.done then (true, st)
    else
      match step.read with
      | none => (false, st)
      | some bs =>
        let buf := bs.take (want st.done)
        if buf = [] then (true, st)
        else
          let st := { st with
            received := st.received ++ buf
            written := st.written ++ buf.take step.written }
          if step.written < buf.length then (false, st)
          else
            let st := { st with done := st.done + buf.length }
            if !step.go then (false, st) else readLoop more want steps st

/-- The bytes that the server delivers until the loop ends without a fault; `none` when a read
fails, the disk takes less than it was given, or the user cancels before that. -/
def delivered (more : ℕ → Bool) (want : ℕ → ℕ) : List ReadStep → ℕ → Option Bytes
  | [], done => if more done then none else some []
  | step :: steps, done =>
    if !more done then some []
    else
      match step.read with
      | none => none
      | some bs =>
        let buf := bs.take (want done)
        if buf = [] then some []
        else if step.written < buf.length ∨ step.go = false then none
        else (delivered more want steps (done + buf.length)).map (buf ++ ·)

/-- When the server delivers to the end the loop succeeds, and the file got the delivered bytes. -/
theorem readLoop_of_delivered {more : ℕ → Bool} {want : ℕ → ℕ} {steps : List ReadStep} :
    ∀ (st : ReadState) {bs : Bytes}, delivered more want steps st.done = some bs →
      readLoop more want steps st =
        (true, ⟨st.done + bs.length, st.received ++ bs, st.written ++ bs⟩) := by
  induction steps with
  | nil =>
    intro st bs h
    rw [delivered] at h
    split_ifs at h with hm
    obtain rfl : [] = bs := by simpa using h
    simp [readLoop, hm]
  | cons step steps ih =>
    intro st bs h
    rw [delivered] at h
    rw [readLoop]
    by_cases hm : (!more st.done) = true
    · rw [if_pos hm] at h ⊢
      obtain rfl : [] = bs := by simpa using h
      simp
    · rw [if_neg hm] at h ⊢
      rcases hr : step.read with _ | raw
      · simp [hr] at h
      · simp only [hr] at h ⊢
        generalize raw.take (want st.done) = buf at h ⊢
        by_cases hb : buf = []
        · rw [if_pos hb] at h ⊢
          obtain rfl : [] = bs := by simpa using h
          simp
        · rw [if_neg hb] at h ⊢
          split_ifs at h with hstop
          have hw : ¬ step.written < buf.length := fun hlt => hstop (Or.inl hlt)
          have hg : ¬ (!step.go) = true := fun hgo => hstop (Or.inr (by simpa using hgo))
          obtain ⟨cs, hcs, rfl⟩ := Option.map_eq_some_iff.mp h
          rw [if_neg hw, if_neg hg, List.take_of_length_le (by omega : buf.length ≤ step.written)]
          have hrec := ih ⟨st.done + buf.length, st.received ++ buf, st.written ++ buf⟩ hcs
          simp only [hrec, List.append_assoc, List.length_append, Nat.add_assoc]

theorem readLoop_of_not_delivered {more : ℕ → Bool} {want : ℕ → ℕ} {steps : List ReadStep} :
    ∀ st : ReadState, delivered more want steps st.done = none →
      (readLoop more want steps st).1 = false := by
  induction steps with
  | nil =>
    intro st h
    rw [delivered] at h
    split_ifs at h with hm
    simp [readLoop, hm]
  | cons step steps ih =>
    intro st h
    rw [delivered] at h
    rw [readLoop]
    by_cases hm : (!more st.done) = true
    · rw [if_pos hm] at h
      exact absurd h (by simp)
    rw [if_neg hm] at h ⊢
    rcases hr : step.read with _ | raw
    · rfl
    · simp only [hr] at h ⊢
      generalize raw.take (want st.done) = buf at h ⊢
      by_cases hb : buf = []
      · rw [if_pos hb] at h
        exact absurd h (by simp)
      · rw [if_neg hb] at h ⊢
        by_cases hw : step.written < buf.length
        · rw [if_pos hw]
        · rw [if_neg hw]
          by_cases hg : (!step.go) = true
          · rw [if_pos hg]
          · rw [if_neg hg]
            rw [if_neg (by simpa [hw] using hg)] at h
            exact ih ⟨_, _, _⟩ (Option.map_eq_none_iff.mp h)

/-! ## Download -/

/-- What the environment answers during one `Download` or `ScpDownload`. -/
structure DownloadIo where
  /-- `libssh2_sftp_open` or `libssh2_scp_recv2` returns a handle. -/
  opened : Bool
  /-- The size from `libssh2_sftp_fstat`, or `st_size` of `libssh2_scp_recv2`. -/
  announced : Option ℕ
  /-- `ReportProgress` before the local file is opened. -/
  start : Bool
  /-- `fopen_s` can open the local file for writing. -/
  fopen : Bool
  steps : List ReadStep
  /-- The bytes that `fwrite` took and `fclose` does not get into the file. -/
  lost : ℕ
  /-- `DeleteFileA` can remove the local file. -/
  deletes : Bool

/-- The part common to both downloads once the start position is known: `fopen`, the loop, `fclose`,
and `DeleteFileA` of a file for which nothing was counted. -/
def downloadInto (io : DownloadIo) (target : Option Bytes) (more : ℕ → Bool) (want : ℕ → ℕ)
    (offset : ℕ) : TransferResult :=
  -- "r+b" needs an existing file and keeps it, "wb" starts an empty one
  match (if 0 < offset then target else some []) with
  | none => .refused target
  | some content =>
    if !io.fopen then .refused target
    else
      let r := readLoop more want io.steps ⟨offset, [], []⟩
      .finish io.deletes offset r.1 r.2.done r.2.received r.2.written
        (some (writeAt content offset (stored io.lost r.2.written)))

def scpDownload (io : DownloadIo) (target : Option Bytes) : TransferResult :=
  if !io.opened then .refused target
  else
    let total := io.announced.getD 0
    if !io.start then .refused target
    else downloadInto io target (· < total) (fun done => min (total - done) bufSize) 0

def download (scpMode : Bool) (io : DownloadIo) (target : Option Bytes) (resumeOffset : ℕ) :
    TransferResult :=
  if scpMode then scpDownload io target
  else if !io.opened then .refused target
  else
    let total := io.announced.getD 0
    let resumeOffset := if 0 < resumeOffset ∧ resumeOffset ≤ total then resumeOffset else 0
    if !io.start then .refused target
    else downloadInto io target (fun _ => true) (fun _ => bufSize) resumeOffset

/-! ## The write loops of the uploads -/

/-- What each `fread` puts into the buffer, up to the first that gives nothing. The script has what
they give at most: less than a buffer, and nothing, before the end of the file only where the read
fails. -/
def freads : List ℕ → Bytes → List Bytes
  | [], _ => []
  | n :: ns, rest =>
    let chunk := rest.take (min n bufSize)
    if chunk = [] then [] else chunk :: freads ns (rest.drop chunk.length)

theorem flatten_freads_prefix (reads : List ℕ) :
    ∀ rest : Bytes, (freads reads rest).flatten <+: rest := by
  induction reads with
  | nil => exact fun _ => List.nil_prefix
  | cons n ns ih =>
    intro rest
    rw [freads]
    split_ifs
    · exact List.nil_prefix
    · generalize hchunk : rest.take (min n bufSize) = chunk
      have hsplit : chunk ++ rest.drop chunk.length = rest := by
        rw [← hchunk]
        exact List.prefix_iff_eq_append.mp (List.take_prefix _ _)
      obtain ⟨tail, htail⟩ := ih (rest.drop chunk.length)
      exact ⟨tail, by rw [List.flatten_cons, List.append_assoc, htail, hsplit]⟩

theorem ne_nil_of_mem_freads {reads : List ℕ} :
    ∀ {rest chunk : Bytes}, chunk ∈ freads reads rest → chunk ≠ [] := by
  induction reads with
  | nil => exact fun h => absurd h List.not_mem_nil
  | cons n ns ih =>
    intro rest chunk h
    rw [freads] at h
    split_ifs at h with hchunk
    · exact absurd h List.not_mem_nil
    · rcases List.mem_cons.mp h with rfl | h
      · exact hchunk
      · exact ih h

/-- The inner loop: write what is left of the buffer. A write result is `none` when negative and
otherwise the number of bytes accepted. The last component is what remains of the script. -/
def writeChunk : List (Option ℕ) → (left moved : Bytes) → Bool × Bytes × List (Option ℕ)
  | [], left, moved => (left.isEmpty, moved, [])
  | w :: ws, left, moved =>
    if left = [] then (true, moved, w :: ws)
    else
      match w with
      | none => (false, moved, ws)
      | some n => writeChunk ws (left.drop n) (moved ++ left.take n)

/-- The outer loop over the `fread` results. `gos` are the answers of `ReportProgress`. -/
def writeChunks : List Bytes → List (Option ℕ) → List Bool → (done : ℕ) → (moved : Bytes) →
    Bool × ℕ × Bytes
  | [], _, _, done, moved => (true, done, moved)
  | chunk :: chunks, ws, gos, done, moved =>
    match writeChunk ws chunk moved with
    | (false, moved, _) => (false, done, moved)
    | (true, moved, ws) =>
      if !gos.headD true then (false, done + chunk.length, moved)
      else writeChunks chunks ws gos.tail (done + chunk.length) moved

/-- A buffer that was written without an error was accepted whole and in order. -/
theorem writeChunk_true (ws : List (Option ℕ)) :
    ∀ left moved : Bytes, (writeChunk ws left moved).1 = true →
      (writeChunk ws left moved).2.1 = moved ++ left := by
  induction ws with
  | nil =>
    intro left moved h
    have hl : left = [] := by simpa [writeChunk] using h
    simp [writeChunk, hl]
  | cons w ws ih =>
    intro left moved h
    unfold writeChunk at h ⊢
    by_cases hl : left = []
    · simp [hl]
    · rw [if_neg hl] at h ⊢
      rcases w with _ | n
      · exact absurd h (by simp)
      · dsimp only at h ⊢
        rw [ih _ _ h, List.append_assoc, List.take_append_drop]

/-- So was the file, when the outer loop ends well. -/
theorem writeChunks_true (chunks : List Bytes) :
    ∀ (ws : List (Option ℕ)) (gos : List Bool) (done : ℕ) (moved : Bytes),
      (writeChunks chunks ws gos done moved).1 = true →
        (writeChunks chunks ws gos done moved).2.2 = moved ++ chunks.flatten := by
  induction chunks with
  | nil => intro ws gos done moved _; simp [writeChunks]
  | cons chunk chunks ih =>
    intro ws gos done moved h
    rw [writeChunks] at h ⊢
    have hchunk := writeChunk_true ws chunk moved
    rcases hw : writeChunk ws chunk moved with ⟨ok, moved', ws'⟩
    rw [hw] at h hchunk
    rcases ok with _ | _
    · exact absurd h (by simp)
    · dsimp only at h ⊢
      by_cases hg : (!gos.headD true) = true
      · rw [if_pos hg] at h
        exact absurd h (by simp)
      · rw [if_neg hg] at h ⊢
        have hm : moved' = moved ++ chunk := hchunk rfl
        rw [ih _ _ _ _ h, hm, List.flatten_cons, List.append_assoc]

/-! ## Upload -/

/-- The handle of `libssh2_sftp_open`, or why there is none. -/
inductive OpenResult
  | handle
  | noSuchFile
  | failed
  deriving DecidableEq

/-- What the environment answers during one `Upload` or `ScpUpload`. -/
structure UploadIo where
  /-- `fopen_s` can open the local file for reading. -/
  fopen : Bool
  reads : List ℕ
  /-- `ReportProgress` before the remote file is opened. -/
  start : Bool
  /-- `libssh2_sftp_open`; for SCP a handle means that `libssh2_scp_send64` succeeds. -/
  openFirst : OpenResult
  /-- `libssh2_sftp_open` once more, after `MakeDirRecursive`. -/
  openRetry : Bool
  writes : List (Option ℕ)
  gos : List Bool
  /-- The bytes that the server took and closing the handle does not get into the file. -/
  lost : ℕ
  /-- `libssh2_sftp_unlink` can remove the remote file. -/
  unlinks : Bool
  /-- The remote `scp` has stored the file when it was sent all of it. -/
  scpStores : Bool
  /-- What is at the target when the remote `scp` has not. -/
  scpRest : Option Bytes

/-- `rp.substr(0, rp.rfind('/'))` when that slash exists and is not the first character. -/
def uploadParent (remotePath : CStr) : Option CStr :=
  match remotePath.reverse.findIdx? (· == slash) with
  | none => none
  | some i =>
    let lastSlash := remotePath.length - 1 - i
    if 0 < lastSlash then some (remotePath.take lastSlash) else none

/-- `libssh2_sftp_open`, tried again when `MakeDirRecursive` may have made the parent directory. -/
def openRemote (io : UploadIo) (remotePath : CStr) : Bool :=
  match io.openFirst with
  | .handle => true
  | .noSuchFile => (uploadParent remotePath).isSome && io.openRetry
  | .failed => false

/-- The remote `scp` was told how long the file is; its final status is not read. -/
def scpUpload (io : UploadIo) (content : Bytes) (target : Option Bytes) : TransferResult :=
  if !io.fopen then .refused target
  else if !io.start then .refused target
  else if io.openFirst ≠ .handle then .refused target
  else
    let r := writeChunks (freads io.reads content) io.writes io.gos 0 []
    -- there is no removal
    .finish false 0 r.1 r.2.1 r.2.2 r.2.2
      (if r.2.2 = content ∧ io.scpStores then some content else io.scpRest)

def upload (scpMode : Bool) (io : UploadIo) (remotePath : CStr) (content : Bytes)
    (target : Option Bytes) (resumeOffset : ℕ) : TransferResult :=
  if scpMode then scpUpload io content target
  else if !io.fopen then .refused target
  else
    let total := content.length
    if !io.start then .refused target
    else
      -- resume: no LIBSSH2_FXF_TRUNC
      let resume : Bool := decide (0 < resumeOffset ∧ resumeOffset < total)
      let resumeOffset := if resume then resumeOffset else 0
      if !openRemote io remotePath then .refused target
      else
        let kept := if resume then target.getD [] else []
        let r := writeChunks (freads io.reads (content.drop resumeOffset)) io.writes io.gos
          resumeOffset []
        .finish io.unlinks resumeOffset r.1 r.2.1 r.2.2 r.2.2
          (some (writeAt kept resumeOffset (stored io.lost r.2.2)))

end SalamanderSftp
