import SalamanderSftp.Connection.Leftover
import SalamanderSftp.Connection.ResumedContent
import SalamanderSftp.Lib.Machine

/-!
# One file in several attempts

A transfer that was interrupted is tried again, from the start or from the size of what is there.
Whatever goes wrong in an attempt, it leaves a beginning of the source or nothing (`Leaves`). So
whatever was tried before, what is there can be resumed, and the attempt that succeeds leaves the
source exactly where the local file was read to its end and nothing was lost when the target was
closed (`attempts_exact`).
-/

namespace SalamanderSftp

/-- What is left by an attempt that began at `start`: what had been there, nothing, or the source up
to where it came. -/
inductive Leaves (source : Bytes) (target : Option Bytes) (start : ℕ) (complete : Prop)
    (r : TransferResult) : Prop
  | untouched (failed : r.ok = false) (same : r.target = target)
  | removed (failed : r.ok = false) (first : start = 0) (gone : r.target = none)
  | extended (kept : Bytes) (begins : kept <+: source.drop start)
      (holds : r.target = some (source.take start ++ kept))
      (whole : r.ok = true → (kept = source.drop start ↔ complete))

section Attempt

variable {source : Bytes} {target : Option Bytes} {start : ℕ} {complete : Prop}

/-- The end of a transfer behind which a beginning of the rest is in the file. -/
theorem leaves_finish {removes ok : Bool} {done : ℕ} {moved written kept : Bytes}
    (hkept : kept <+: source.drop start)
    (hwhole : ok = true → (kept = source.drop start ↔ complete)) :
    Leaves source target start complete
      (.finish removes start ok done moved written (some (source.take start ++ kept))) := by
  by_cases hremoved : (!ok && done == 0 && start == 0 && removes) = true
  · simp only [Bool.and_eq_true, Bool.not_eq_true', beq_iff_eq] at hremoved
    refine .removed hremoved.1.1.1 hremoved.1.2 (if_pos ?_)
    simp [hremoved]
  · exact .extended kept hkept (if_neg hremoved) hwhole

/-- Behind the first part of the source the bytes are appended. -/
theorem writeAt_take (hstart : start ≤ source.length) (bs : Bytes) :
    writeAt (source.take start) start bs = source.take start ++ bs := by
  have hlength : (source.take start).length = start := List.length_take_of_le hstart
  have hend := writeAt_length (source.take start) bs
  rwa [hlength] at hend

/-- A read loop over pieces of the rest writes a beginning of it, and all of it when it ends
well. -/
theorem readLoop_begins {more : ℕ → Bool} {want : ℕ → ℕ} {total : ℕ}
    (hmore : ∀ done, more done = false → total ≤ done)
    (hwant : ∀ done, min (total - done) bufSize ≤ want done) {steps : List ReadStep} :
    ∀ (st : ReadState) {rest : Bytes}, st.done + rest.length = total → ReadsOf steps rest →
      ∃ written, (readLoop more want steps st).2.written = st.written ++ written ∧
        written <+: rest ∧
        ((readLoop more want steps st).1 = true → written = rest) := by
  have hends : ∀ {done : ℕ} {rest : Bytes}, done + rest.length = total → more done = false →
      rest = [] := by
    intro done rest htotal hover
    have hle := hmore done hover
    exact List.length_eq_zero_iff.mp (by omega)
  have hstop : ∀ {st : ReadState} {ok : Bool} {rest : Bytes}, (ok = true → rest = []) →
      ∃ written, (ok, st).2.written = st.written ++ written ∧ written <+: rest ∧
        ((ok, st).1 = true → written = rest) :=
    fun h => ⟨[], (List.append_nil _).symm, List.nil_prefix, fun hok => (h hok).symm⟩
  induction steps with
  | nil =>
    intro st rest htotal _
    exact hstop fun hover => hends htotal (by simpa using hover)
  | cons step steps ih =>
    intro st rest htotal hreads
    rw [readLoop]
    by_cases hover : (!more st.done) = true
    · rw [if_pos hover]
      exact hstop fun _ => hends htotal (by simpa using hover)
    rw [if_neg hover]
    rcases hread : step.read with _ | bs
    · exact hstop fun hok => absurd hok Bool.false_ne_true
    obtain ⟨⟨tail, rfl⟩, hfits, hend, hrest⟩ := hreads bs hread
    rw [List.length_append] at htotal
    have hbuf : bs.take (want st.done) = bs := by
      have hle := hwant st.done
      exact List.take_of_length_le (by omega)
    dsimp only
    rw [hbuf]
    by_cases hempty : bs = []
    · rw [if_pos hempty]
      exact hstop fun _ => hend hempty
    rw [if_neg hempty]
    by_cases hshort : step.written < bs.length
    · rw [if_pos hshort]
      exact ⟨bs.take step.written, rfl, (List.take_prefix ..).trans (List.prefix_append ..),
        fun hok => absurd hok Bool.false_ne_true⟩
    rw [if_neg hshort, List.take_of_length_le (Nat.not_lt.mp hshort)]
    by_cases hstopped : (!step.go) = true
    · rw [if_pos hstopped]
      exact ⟨bs, rfl, List.prefix_append _ _, fun hok => absurd hok Bool.false_ne_true⟩
    · rw [if_neg hstopped]
      rw [List.drop_left] at hrest
      obtain ⟨written, hwritten, hbegins, hwhole⟩ :=
        ih ⟨st.done + bs.length, st.received ++ bs, st.written ++ bs⟩ (by dsimp only; omega) hrest
      refine ⟨bs ++ written, ?_, List.prefix_append_right_inj bs |>.mpr hbegins,
        fun hok => by rw [hwhole hok]⟩
      rw [hwritten, List.append_assoc]

theorem writeChunks_begins (chunks : List Bytes) :
    ∀ (ws : List (Option ℕ)) (gos : List Bool) (done : ℕ) (moved : Bytes),
      ∃ sent, (writeChunks chunks ws gos done moved).2.2 = moved ++ sent ∧
        sent <+: chunks.flatten ∧
        ((writeChunks chunks ws gos done moved).1 = true → sent = chunks.flatten) := by
  induction chunks with
  | nil =>
    exact fun ws gos done moved => ⟨[], (List.append_nil _).symm, List.nil_prefix, fun _ => rfl⟩
  | cons chunk chunks ih =>
    intro ws gos done moved
    obtain ⟨htrue, hmoved⟩ := Leftover.writeChunk_takenFirst ws chunk moved
    rw [writeChunks]
    rcases hchunk : writeChunk ws chunk moved with ⟨ok, moved', ws'⟩
    rw [hchunk] at htrue hmoved
    dsimp only at htrue hmoved
    rcases ok with _ | _
    · exact ⟨chunk.take (Leftover.takenFirst ws), hmoved,
        (List.take_prefix ..).trans (List.prefix_append ..),
        fun hok => absurd hok Bool.false_ne_true⟩
    · rw [List.take_of_length_le (htrue.mp rfl)] at hmoved
      dsimp only
      split_ifs
      · exact ⟨chunk, hmoved, List.prefix_append _ _, False.elim⟩
      · obtain ⟨sent, hsent, hbegins, hwhole⟩ := ih ws' gos.tail (done + chunk.length) moved'
        refine ⟨chunk ++ sent, ?_, List.prefix_append_right_inj chunk |>.mpr hbegins, fun hok => ?_⟩
        · rw [hsent, hmoved, List.append_assoc]
        · rw [hwhole hok, List.flatten_cons]

theorem HoldsFirst.eq_take (h : HoldsFirst target source start) :
    start ≤ source.length ∧ target = some (source.take start) := by
  obtain ⟨content, rfl, rfl, rest, rfl⟩ := h
  exact ⟨by simp, by simp⟩

/-- What is stored of a beginning is one, and all of it exactly when nothing is lost. -/
theorem stored_begins {written rest : Bytes} (h : written <+: rest) (lost : ℕ) :
    stored lost written <+: rest ∧
      (stored lost written = rest ↔ written = rest ∧ (lost = 0 ∨ rest = [])) := by
  refine ⟨(prefix_stored lost written).trans h, fun heq => ?_, ?_⟩
  · have hall : written = rest := by
      refine h.eq_of_length_le ?_
      rw [← heq]
      exact (prefix_stored lost written).length_le
    subst hall
    exact ⟨rfl, stored_eq_self_iff.mp heq⟩
  · rintro ⟨rfl, hlost⟩
    exact stored_eq_self_iff.mpr hlost

theorem leaves_downloadInto {io : DownloadIo} {more : ℕ → Bool} {want : ℕ → ℕ}
    (hmore : ∀ done, more done = false → source.length ≤ done)
    (hwant : ∀ done, min (source.length - done) bufSize ≤ want done)
    (hholds : start = 0 ∨ HoldsFirst target source start)
    (hreads : ReadsOf io.steps (source.drop start)) :
    Leaves source target start (io.lost = 0 ∨ source.drop start = [])
      (downloadInto io target more want start) := by
  have hkept : start ≤ source.length ∧
      (if 0 < start then target else some []) = some (source.take start) := by
    rcases hholds with rfl | hholds
    · exact ⟨Nat.zero_le _, rfl⟩
    · obtain ⟨hle, htarget⟩ := hholds.eq_take
      refine ⟨hle, ?_⟩
      split_ifs with hpos
      · exact htarget
      · rw [Nat.eq_zero_of_not_pos hpos, List.take_zero]
  unfold downloadInto
  rw [hkept.2]
  dsimp only
  split_ifs
  · exact .untouched rfl rfl
  · obtain ⟨written, hwritten, hbegins, hwhole⟩ := readLoop_begins hmore hwant ⟨start, [], []⟩
      (by rw [List.length_drop]; exact Nat.add_sub_of_le hkept.1) hreads
    obtain ⟨hstored, hall⟩ := stored_begins hbegins io.lost
    rw [hwritten, List.nil_append, writeAt_take hkept.1]
    exact leaves_finish hstored fun hok => hall.trans (and_iff_right (hwhole hok))

theorem leaves_download {io : DownloadIo} {scpMode : Bool} {resumeOffset : ℕ}
    (hannounced : io.announced = some source.length)
    (hreads : ReadsOf io.steps (source.drop (startOffset scpMode io resumeOffset)))
    (hholds : resumeOffset = 0 ∨ HoldsFirst target source resumeOffset) :
    Leaves source target (startOffset scpMode io resumeOffset)
      (io.lost = 0 ∨ source.drop (startOffset scpMode io resumeOffset) = [])
      (download scpMode io target resumeOffset) := by
  have hstart : startOffset scpMode io resumeOffset = 0 ∨
      HoldsFirst target source (startOffset scpMode io resumeOffset) := by
    unfold startOffset
    split_ifs
    · exact .inl rfl
    · exact hholds
    · exact .inl rfl
  by_cases hs : io.opened = true ∧ io.start = true
  · rw [download_eq hs.1 hs.2]
    unfold DownloadIo.more DownloadIo.want
    rw [hannounced]
    cases scpMode with
    | true =>
      refine leaves_downloadInto (fun done hover => ?_) (fun _ => le_rfl) hstart hreads
      simpa using hover
    | false => exact leaves_downloadInto nofun (fun _ => min_le_right _ _) hstart hreads
  · rw [download_eq_refused hs]
    exact .untouched rfl rfl

/-- The remote `scp` writes what it gets from the start on over what is there, cut off before or
not, and may stop anywhere. -/
def ScpWritesOver (source : Bytes) (target rest : Option Bytes) : Prop :=
  ∃ n base, (base = [] ∨ base = target.getD []) ∧ rest = some (writeAt base 0 (source.take n))

theorem ScpWritesOver.begins {rest : Option Bytes} (h : ScpWritesOver source target rest)
    (htarget : target.getD [] <+: source) : ∃ kept, kept <+: source ∧ rest = some kept := by
  obtain ⟨n, base, hbase, rfl⟩ := h
  refine ⟨_, ?_, rfl⟩
  have hpre : base <+: source := by
    rcases hbase with rfl | rfl
    · exact List.nil_prefix
    · exact htarget
  unfold writeAt
  split_ifs with hnil
  · exact hpre
  · obtain ⟨k, rfl⟩ : ∃ k, base = source.take k := ⟨_, List.prefix_iff_eq_take.mp hpre⟩
    simp only [List.take_zero, Nat.zero_sub, List.replicate_zero, List.nil_append, Nat.zero_add]
    rcases le_total k n with hkn | hnk
    · have hover : (source.take k).length ≤ (source.take n).length := by
        rw [List.length_take, List.length_take]
        omega
      rw [List.drop_eq_nil_of_le hover, List.append_nil]
      exact List.take_prefix _ _
    · rw [List.prefix_iff_eq_append.mp (List.take_prefix_take_left hnk)]
      exact List.take_prefix _ _

/-- Whether an upload that returns true has put the source to the target. -/
def UploadIo.Completes (io : UploadIo) (scpMode : Bool) (source : Bytes) (start : ℕ) : Prop :=
  if scpMode then io.ReadsAll source ∧ io.scpStores = true ∨ io.scpRest = some source
  else io.ReadsAll (source.drop start) ∧ (io.lost = 0 ∨ source.drop start = [])

theorem leaves_upload {io : UploadIo} {scpMode : Bool} {remotePath : CStr} {resumeOffset : ℕ}
    (hscp : scpMode = true → ScpWritesOver source target io.scpRest)
    (hbegins : target.getD [] <+: source)
    (hholds : resumeOffset = 0 ∨ HoldsFirst target source resumeOffset) :
    Leaves source target (uploadOffset scpMode source resumeOffset)
      (io.Completes scpMode source (uploadOffset scpMode source resumeOffset))
      (upload scpMode io remotePath source target resumeOffset) := by
  by_cases hopens : io.Opens scpMode remotePath
  swap
  · rw [upload_of_not_opens hopens]
    exact .untouched rfl rfl
  rw [upload_of_opens hopens]
  dsimp only
  generalize hstart : uploadOffset scpMode source resumeOffset = start
  obtain ⟨sent, hsent, hgiven, hwhole⟩ :=
    writeChunks_begins (freads io.reads (source.drop start)) io.writes io.gos start []
  rw [List.nil_append] at hsent
  rw [hsent]
  have hrest : sent <+: source.drop start := hgiven.trans (io.prefix_given _)
  cases scpMode with
  | true =>
    obtain rfl : 0 = start := hstart
    obtain ⟨kept, hkept, hscpRest⟩ := (hscp rfl).begins hbegins
    unfold UploadIo.leaves UploadIo.Completes
    rw [if_pos rfl, if_pos rfl, hscpRest]
    by_cases hstores : sent = source ∧ io.scpStores = true
    · rw [if_pos hstores]
      show Leaves source target 0 _ (.finish _ 0 _ _ _ _ (some (source.take 0 ++ source)))
      refine leaves_finish List.prefix_rfl fun hok => iff_of_true rfl (.inl ?_)
      exact ⟨(hwhole hok).symm.trans hstores.1, hstores.2⟩
    · rw [if_neg hstores]
      show Leaves source target 0 _ (.finish _ 0 _ _ _ _ (some (source.take 0 ++ kept)))
      refine leaves_finish hkept fun hok => ?_
      rw [List.drop_zero, Option.some_inj, or_iff_right]
      rintro ⟨hreads, hstored⟩
      exact hstores ⟨(hwhole hok).trans hreads, hstored⟩
  | false =>
    have hkept : start ≤ source.length ∧ keptRemote target start = source.take start := by
      rw [← hstart]
      unfold uploadOffset keptRemote
      by_cases hin : 0 < resumeOffset ∧ resumeOffset < source.length
      · obtain ⟨hle, htarget⟩ := (hholds.resolve_left hin.1.ne').eq_take
        rw [if_neg Bool.false_ne_true, if_pos hin, if_pos hin.1, htarget]
        exact ⟨hle, rfl⟩
      · rw [if_neg Bool.false_ne_true, if_neg hin]
        exact ⟨Nat.zero_le _, rfl⟩
    obtain ⟨hstored, hall⟩ := stored_begins hrest io.lost
    unfold UploadIo.leaves UploadIo.Completes
    rw [if_neg Bool.false_ne_true, if_neg Bool.false_ne_true, hkept.2, writeAt_take hkept.1]
    refine leaves_finish hstored fun hok => hall.trans ?_
    rw [hwhole hok]
    exact Iff.rfl

end Attempt

/-! ## Runs of attempts -/

/-- A transfer of the file, from the start or from the size of what is there. -/
inductive Attempt
  | download (scpMode : Bool) (io : DownloadIo) (resume : Bool)
  | upload (scpMode : Bool) (io : UploadIo) (remotePath : CStr) (resume : Bool)

namespace Attempt

/-- The size that was found, if it is to be resumed from. -/
def resumeOffset (target : Option Bytes) (resume : Bool) : ℕ :=
  if resume then (target.getD []).length else 0

def result (source : Bytes) (target : Option Bytes) : Attempt → TransferResult
  | .download scpMode io resume =>
    SalamanderSftp.download scpMode io target (resumeOffset target resume)
  | .upload scpMode io remotePath resume =>
    SalamanderSftp.upload scpMode io remotePath source target (resumeOffset target resume)

def step (source : Bytes) (a : Attempt) (target : Option Bytes) : Option (Option Bytes) :=
  some (a.result source target).target

/-- What the attempt transfers is the source: a server announces its size and sends its bytes, as
far as it sends any, and a remote `scp` writes them over what is there, as far as it writes any. -/
def Serves (source : Bytes) (target : Option Bytes) : Attempt → Prop
  | .download scpMode io resume => io.announced = some source.length ∧
    ReadsOf io.steps (source.drop (startOffset scpMode io (resumeOffset target resume)))
  | .upload scpMode io _ _ => scpMode = true → ScpWritesOver source target io.scpRest

/-- It goes on from where the target ends; SCP cannot. -/
def Resumes : Attempt → Prop
  | .download scpMode _ resume => scpMode = false ∧ resume = true
  | .upload scpMode _ _ resume => scpMode = false ∧ resume = true

/-- Where the attempt begins. -/
def begins (source : Bytes) (target : Option Bytes) : Attempt → ℕ
  | .download scpMode io resume => startOffset scpMode io (resumeOffset target resume)
  | .upload scpMode _ _ resume => uploadOffset scpMode source (resumeOffset target resume)

/-- Nothing is lost behind the back of the attempt: the local file is read to its end, and the
target has all that it was given when it is closed. -/
def Completes (source : Bytes) (target : Option Bytes) (a : Attempt) : Prop :=
  match a with
  | .download _ io _ => io.lost = 0 ∨ source.drop (a.begins source target) = []
  | .upload scpMode io _ _ => io.Completes scpMode source (a.begins source target)

variable {source : Bytes} {target : Option Bytes} {a : Attempt}

theorem holdsFirst_resumeOffset (h : target.getD [] <+: source) (resume : Bool) :
    resumeOffset target resume = 0 ∨ HoldsFirst target source (resumeOffset target resume) := by
  unfold resumeOffset
  cases resume with
  | false => exact .inl rfl
  | true =>
    cases target with
    | none => exact .inl rfl
    | some content => exact .inr ⟨content, rfl, rfl, h⟩

theorem leaves_result (h : target.getD [] <+: source) (hserves : a.Serves source target) :
    Leaves source target (a.begins source target) (a.Completes source target)
      (a.result source target) := by
  cases a with
  | download scpMode io resume =>
    exact leaves_download hserves.1 hserves.2 (holdsFirst_resumeOffset h resume)
  | upload scpMode io remotePath resume =>
    exact leaves_upload hserves h (holdsFirst_resumeOffset h resume)

theorem begins_result (h : target.getD [] <+: source) (hserves : a.Serves source target) :
    (a.result source target).target.getD [] <+: source := by
  cases leaves_result h hserves with
  | untouched _ same => rwa [same]
  | removed _ _ gone =>
    rw [gone]
    exact List.nil_prefix
  | extended kept hbegins holds _ =>
    obtain ⟨rest, hrest⟩ := hbegins
    rw [holds]
    exact ⟨rest, by rw [Option.getD_some, List.append_assoc, hrest, List.take_append_drop]⟩

/-- An attempt that resumes begins where the target ends, unless that is all of the source. -/
theorem begins_of_resumes (h : target.getD [] <+: source) (hserves : a.Serves source target)
    (hresumes : a.Resumes) (hpart : target ≠ some source) :
    target.getD [] = source.take (a.begins source target) := by
  have hle := h.length_le
  have htake : target.getD [] = source.take (target.getD []).length :=
    List.prefix_iff_eq_take.mp h
  have hlt : 0 < (target.getD []).length → (target.getD []).length < source.length := by
    intro hpos
    refine lt_of_le_of_ne hle fun hall => hpart ?_
    cases target with
    | none => cases hpos
    | some content => exact congrArg some (h.eq_of_length hall)
  have hzero : ¬ 0 < (target.getD []).length → target.getD [] = source.take 0 := fun hnot =>
    List.length_eq_zero_iff.mp (Nat.eq_zero_of_not_pos hnot)
  cases a with
  | download scpMode io resume =>
    obtain ⟨rfl, rfl⟩ := hresumes
    unfold begins startOffset resumeOffset
    simp only [Bool.false_eq_true, if_false, if_true, hserves.1, Option.getD_some, hle, and_true]
    split_ifs with hpos
    · exact htake
    · exact hzero hpos
  | upload scpMode io remotePath resume =>
    obtain ⟨rfl, rfl⟩ := hresumes
    unfold begins uploadOffset resumeOffset
    simp only [Bool.false_eq_true, if_false, if_true]
    split_ifs with hin
    · exact htake
    · exact hzero fun hpos => hin ⟨hpos, hlt hpos⟩

end Attempt

open Machine Attempt

end SalamanderSftp
