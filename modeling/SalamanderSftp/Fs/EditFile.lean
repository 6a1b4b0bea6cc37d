import SalamanderSftp.Connection.Attempts
import SalamanderSftp.Path

/-!
# Editing a remote file

`SftpEditFile` downloads a file to a temporary one, has it opened in an editor, and uploads it when
the user says that it is saved. The temporary file is deleted at the end, whatever became of the
upload. So the edited content is kept only if all of it was read, taken and stored
(`UploadIo.Puts`), or the file cannot be deleted (`edit_kept_iff`).
-/

namespace SalamanderSftp

/-! ## What the server takes -/

/-- The local file is read to its end, the server takes every buffer, and what it took is kept: a
file is closed without a loss, and the remote `scp` stores what it was sent. -/
structure UploadIo.Puts (io : UploadIo) (scpMode : Bool) (content : Bytes) : Prop where
  reads : io.ReadsAll content
  taken : Taken (freads io.reads content) io.writes io.gos
  keeps : if scpMode then io.scpStores = true else io.lost = 0 ∨ content = []

/-- All of the file is sent exactly if it is read to its end and the server takes every buffer. -/
theorem sent_iff (io : UploadIo) (content : Bytes) :
    (writeChunks (freads io.reads content) io.writes io.gos 0 []).2.2 = content ↔
      io.ReadsAll content ∧ Taken (freads io.reads content) io.writes io.gos := by
  have hne : ∀ chunk ∈ freads io.reads content, chunk ≠ [] := fun _ => ne_nil_of_mem_freads
  rw [← writeChunks_moved_iff _ hne io.writes io.gos 0 [], List.nil_append]
  constructor
  · intro hsent
    obtain ⟨sent, hmoved, hbegins, -⟩ :=
      writeChunks_begins (freads io.reads content) io.writes io.gos 0 []
    rw [hsent, List.nil_append] at hmoved
    subst hmoved
    have hreads : io.ReadsAll content :=
      (io.prefix_given content).eq_of_length_le hbegins.length_le
    exact ⟨hreads, hsent.trans hreads.symm⟩
  · rintro ⟨hreads, hsent⟩
    exact hsent.trans hreads

theorem Taken.not_removed {io : UploadIo} {content : Bytes}
    (h : Taken (freads io.reads content) io.writes io.gos) (removes : Bool) (left : Option Bytes) :
    (let r := writeChunks (freads io.reads content) io.writes io.gos 0 []
    TransferResult.finish removes 0 r.1 r.2.1 r.2.2 r.2.2 left).target = left := by
  have hcounted := h.counted (fun _ => ne_nil_of_mem_freads) 0 []
  dsimp only [TransferResult.finish]
  refine if_neg fun hremoved => ?_
  simp only [Bool.and_eq_true, Bool.not_eq_true', beq_iff_eq] at hremoved
  rcases hcounted with hok | hpos
  · rw [hremoved.1.1.1] at hok
    cases hok
  · omega

theorem upload_target {scpMode : Bool} {io : UploadIo} {remotePath : CStr} (content : Bytes)
    (target : Option Bytes) (h : io.Opens scpMode remotePath) :
    (upload scpMode io remotePath content target 0).target = some content ↔
      io.Puts scpMode content ∨ scpMode = true ∧ io.scpRest = some content := by
  have hsent := sent_iff io content
  rw [upload_of_opens h]
  dsimp only
  rw [uploadOffset_zero, List.drop_zero]
  cases scpMode with
  | true =>
    -- nothing is removed
    have hkept : ∀ ok done moved left, (TransferResult.finish (io.unlinks && !true) 0 ok done moved
        moved left).target = left := by
      intro ok done moved left
      simp [TransferResult.finish]
    rw [hkept]
    simp only [UploadIo.leaves, if_true, true_and]
    by_cases hstored : io.ReadsAll content ∧ Taken (freads io.reads content) io.writes io.gos ∧
        io.scpStores = true
    · obtain ⟨hreads, htaken, hstores⟩ := hstored
      rw [if_pos ⟨hsent.mpr ⟨hreads, htaken⟩, hstores⟩]
      exact iff_of_true rfl (.inl ⟨hreads, htaken, hstores⟩)
    · rw [if_neg fun hall => hstored ⟨(hsent.mp hall.1).1, (hsent.mp hall.1).2, hall.2⟩]
      exact (or_iff_right fun hputs => hstored ⟨hputs.reads, hputs.taken, hputs.keeps⟩).symm
  | false =>
    simp only [Bool.false_eq_true, false_and, or_false]
    obtain ⟨sent, hmoved, hbegins, -⟩ :=
      writeChunks_begins (freads io.reads content) io.writes io.gos 0 []
    rw [List.nil_append] at hmoved
    have hstored := stored_begins (hbegins.trans (io.prefix_given content)) io.lost
    have hleaves : io.leaves false content target 0 sent = some (stored io.lost sent) := by
      simp [UploadIo.leaves, keptRemote]
    constructor
    · intro htarget
      rw [hmoved, hleaves] at htarget
      simp only [TransferResult.finish] at htarget
      split_ifs at htarget
      obtain ⟨hwhole, hlost⟩ := hstored.2.mp (Option.some.inj htarget)
      obtain ⟨hreads, htaken⟩ := hsent.mp (hmoved.trans hwhole)
      exact ⟨hreads, htaken, hlost⟩
    · intro hputs
      have hwhole := hsent.mpr ⟨hputs.reads, hputs.taken⟩
      rw [hputs.taken.not_removed, hmoved, hleaves, ← hmoved, hwhole]
      exact congrArg some (stored_eq_self_iff.mpr hputs.keeps)

/-! ## The edit -/

/-- What `SftpEditFile` meets: the connection, the download, the editor, the user's answer, the
upload, and whether `DeleteFile` succeeds. -/
structure EditIo where
  connected : Bool
  downloadIo : DownloadIo
  /-- The content of the temporary file when the user answers. -/
  edited : Bytes
  yes : Bool
  uploadIo : UploadIo
  deleted : Bool

/-- The remote file, and the temporary one. -/
structure EditState where
  remote : Option Bytes
  temp : Option Bytes

/-- What the user sees at the end: nothing, an error box, or the panel refreshed. -/
inductive EditOutcome
  | notConnected
  | cannotDownload
  | discarded
  | uploadFailed
  | uploaded (changed : CStr)
  deriving DecidableEq

/-- `SftpEditFile` on a connection in SCP mode or not. -/
def sftpEditFile (scpMode : Bool) (AssignedFSName remoteDir fileName : CStr) (io : EditIo)
    (st : EditState) : EditOutcome × EditState :=
  if !io.connected then (.notConnected, st)
  else
    let remotePath := sftpJoin remoteDir fileName MAX_PATH
    let down := download scpMode io.downloadIo st.temp 0
    if !down.ok then (.cannotDownload, { st with temp := down.target })
    else
      let temp := if io.deleted then none else some io.edited
      if !io.yes then (.discarded, { st with temp := temp })
      else
        let up := upload scpMode io.uploadIo remotePath io.edited st.remote 0
        let st := ⟨up.target, temp⟩
        if up.ok then
          (.uploaded (lstrcpyn (AssignedFSName ++ colon :: remoteDir) (MAX_PATH + 32)), st)
        else (.uploadFailed, st)

/-- The user is asked whether to upload, and answers with yes. -/
structure EditIo.AnswersYes (io : EditIo) (scpMode : Bool) (st : EditState) : Prop where
  connected : io.connected = true
  downloaded : (download scpMode io.downloadIo st.temp 0).ok = true
  yes : io.yes = true

def EditState.Keeps (st : EditState) (content : Bytes) : Prop :=
  st.remote = some content ∨ st.temp = some content

/-- The temporary file stays, or the server gets all of it, or it gets nothing and has it already.
In SCP mode it may also be what the remote `scp` leaves after a fault. -/
def EditIo.Saves (io : EditIo) (scpMode : Bool) (remotePath : CStr) (remote : Option Bytes) :
    Prop :=
  io.deleted = false ∨
    (io.uploadIo.Opens scpMode remotePath →
      io.uploadIo.Puts scpMode io.edited ∨
        scpMode = true ∧ io.uploadIo.scpRest = some io.edited) ∧
      (¬ io.uploadIo.Opens scpMode remotePath → remote = some io.edited)

theorem sftpEditFile_state {scpMode : Bool} {io : EditIo} {st : EditState}
    (h : io.AnswersYes scpMode st) (AssignedFSName remoteDir fileName : CStr) :
    (sftpEditFile scpMode AssignedFSName remoteDir fileName io st).2 =
      ⟨(upload scpMode io.uploadIo (sftpJoin remoteDir fileName MAX_PATH) io.edited
          st.remote 0).target,
        if io.deleted then none else some io.edited⟩ := by
  have hdownloaded := h.downloaded
  unfold sftpEditFile
  rw [h.connected, h.yes]
  simp only [Bool.not_true, Bool.false_eq_true, if_false, hdownloaded]
  split_ifs <;> rfl

/-- After a yes the edited content is kept exactly if the temporary file cannot be deleted, or all
of it is on the server. -/
theorem edit_kept_iff {scpMode : Bool} {io : EditIo} {st : EditState} (h : io.AnswersYes scpMode st)
    (AssignedFSName remoteDir fileName : CStr) :
    (sftpEditFile scpMode AssignedFSName remoteDir fileName io st).2.Keeps io.edited ↔
      io.Saves scpMode (sftpJoin remoteDir fileName MAX_PATH) st.remote := by
  unfold EditState.Keeps EditIo.Saves
  rw [sftpEditFile_state h]
  dsimp only
  have htemp : (if io.deleted then none else some io.edited) = some io.edited ↔
      io.deleted = false := by
    cases io.deleted <;> simp
  rw [htemp, or_comm]
  refine or_congr_right ?_
  by_cases hopens : io.uploadIo.Opens scpMode (sftpJoin remoteDir fileName MAX_PATH)
  · rw [upload_target io.edited st.remote hopens, forall_prop_of_true hopens,
      and_iff_left fun hnot => absurd hopens hnot]
  · rw [upload_of_not_opens hopens, forall_prop_of_true hopens,
      and_iff_right fun hyes => absurd hyes hopens]
    rfl

/-- An edit of which all goes well but the upload, for which the connection is lost. -/
def lostUpload : EditIo where
  connected := true
  downloadIo := ⟨true, some 0, true, true, [⟨some [], 0, true⟩], 0, true⟩
  edited := [1]
  yes := true
  uploadIo := ⟨true, [1], true, .failed, false, [], [], 0, true, true, none⟩
  deleted := true

/-- An empty file is edited, and the upload that follows is lost; the temporary file is still open
in the editor. -/
theorem edit_kept_iff_open :
    (sftpEditFile false (ascii "sftp") [slash] (ascii "f") { lostUpload with deleted := false }
      ⟨some [], none⟩).2.Keeps [1] :=
  (edit_kept_iff ⟨rfl, by decide, rfl⟩ _ _ _).mpr (.inl rfl)

/-- The temporary file is deleted all the same. -/
theorem not_edit_kept : ¬ ∀ (scpMode : Bool) (io : EditIo) (st : EditState)
    (AssignedFSName remoteDir fileName : CStr), io.AnswersYes scpMode st →
      (sftpEditFile scpMode AssignedFSName remoteDir fileName io st).2.Keeps io.edited := by
  intro h
  have hkept := h false lostUpload ⟨some [], none⟩ (ascii "sftp") [slash] (ascii "f")
    ⟨rfl, by decide, rfl⟩
  unfold EditState.Keeps at hkept
  exact absurd hkept (by decide +kernel)

end SalamanderSftp
