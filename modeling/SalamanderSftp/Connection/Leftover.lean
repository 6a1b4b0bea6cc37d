import SalamanderSftp.Connection.TransferComplete

/-!
# What a failed transfer leaves behind

The counter `done` grows by whole buffers, so a transfer that fails in its first buffer counts
nothing, whatever part of the buffer has already gone into the target (`firstLoss`), and a removal
can fail too. What is left is right exactly where that part and the removal go together
(`leaves_documented_iff`). What was written is what `fwrite` or the write calls took; nobody looks
whether closing the target gets it there.
-/

namespace SalamanderSftp

/-- The target as the transfer knows it: removed, or with all in it that was taken from `offset` on
over what was kept. -/
def TransferResult.known (r : TransferResult) (target : Option Bytes) (offset : ℕ) : Option Bytes :=
  if !r.opened then target
  else if r.removed then none
  else some (writeAt ((keptContent target offset).getD []) offset r.written)

namespace Leftover

/-! ## Failing in the first buffer -/

/-- How much of its first buffer a read loop has put into the file when it fails there. -/
def firstLoss (more : ℕ → Bool) (want : ℕ → ℕ) (offset : ℕ) (steps : List ReadStep) : Option ℕ :=
  if !more offset then none
  else
    match steps with
    | [] => some 0
    | step :: _ =>
      match step.read with
      | none => some 0
      | some bs =>
        if bs.take (want offset) = [] then none
        else if step.written < (bs.take (want offset)).length then some step.written else none

/-- The bytes that the server takes before the first write that fails. -/
def takenFirst (writes : List (Option ℕ)) : ℕ := ((writes.takeWhile Option.isSome).filterMap id).sum

/-- How much of its first buffer an upload has written when it fails there. -/
def firstRejected (chunks : List Bytes) (writes : List (Option ℕ)) : Option ℕ :=
  match chunks with
  | [] => none
  | chunk :: _ => if takenFirst writes < chunk.length then some (takenFirst writes) else none

/-- A loop that counts whole buffers, from `offset` on, against what it loses in the first one. -/
structure Counts (loss : Option ℕ) (offset : ℕ) (ok : Bool) (done : ℕ) (written : Bytes) :
    Prop where
  lost : ∀ n, loss = some n → ok = false ∧ done = offset ∧ written.length = n
  kept : loss = none → ok = true ∨ offset < done ∧ written ≠ []

theorem le_done_readLoop (more : ℕ → Bool) (want : ℕ → ℕ) (steps : List ReadStep) :
    ∀ st : ReadState,
    st.done ≤ (readLoop more want steps st).2.done ∧
    st.written <+: (readLoop more want steps st).2.written := by
  induction steps with
  | nil => exact fun st => ⟨le_rfl, List.prefix_rfl⟩
  | cons step steps ih =>
    intro st
    rw [readLoop]
    by_cases hm : (!more st.done) = true
    · rw [if_pos hm]
      exact ⟨le_rfl, List.prefix_rfl⟩
    rw [if_neg hm]
    rcases step.read with _ | bs
    · exact ⟨le_rfl, List.prefix_rfl⟩
    dsimp only
    generalize bs.take (want st.done) = buf
    split_ifs
    · exact ⟨le_rfl, List.prefix_rfl⟩
    · exact ⟨le_rfl, List.prefix_append _ _⟩
    · exact ⟨Nat.le_add_right _ _, List.prefix_append _ _⟩
    · obtain ⟨hdone, hwritten⟩ :=
        ih ⟨st.done + buf.length, st.received ++ buf, st.written ++ buf.take step.written⟩
      exact ⟨(Nat.le_add_right _ _).trans hdone, (List.prefix_append _ _).trans hwritten⟩

theorem counts_readLoop (more : ℕ → Bool) (want : ℕ → ℕ) (offset : ℕ) (steps : List ReadStep) :
    Counts (firstLoss more want offset steps) offset (readLoop more want steps ⟨offset, [], []⟩).1
      (readLoop more want steps ⟨offset, [], []⟩).2.done
        (readLoop more want steps ⟨offset, [], []⟩).2.written := by
  unfold firstLoss
  cases steps with
  | nil => cases hm : more offset <;> constructor <;> simp [readLoop, hm]
  | cons step steps =>
    rw [readLoop]
    by_cases hm : (!more offset) = true
    · rw [if_pos hm, if_pos hm]
      exact ⟨fun n h => absurd h (by simp), fun _ => .inl rfl⟩
    rw [if_neg hm, if_neg hm]
    dsimp only
    rcases step.read with _ | bs
    · refine ⟨fun n h => ?_, fun h => absurd h (by simp)⟩
      obtain rfl := Option.some.inj h
      exact ⟨rfl, rfl, rfl⟩
    dsimp only
    generalize bs.take (want offset) = buf
    by_cases hb : buf = []
    · rw [if_pos hb, if_pos hb]
      exact ⟨fun n h => absurd h (by simp), fun _ => .inl rfl⟩
    rw [if_neg hb, if_neg hb]
    by_cases hw : step.written < buf.length
    · rw [if_pos hw, if_pos hw]
      refine ⟨fun n h => ?_, fun h => absurd h (by simp)⟩
      obtain rfl := Option.some.inj h
      exact ⟨rfl, rfl, (List.length_take).trans (Nat.min_eq_left hw.le)⟩
    · rw [if_neg hw, if_neg hw]
      have hpos : 0 < buf.length := List.length_pos_of_ne_nil hb
      have hbuf : buf.take step.written = buf := List.take_of_length_le (by omega)
      refine ⟨fun n h => absurd h (by simp), fun _ => .inr ?_⟩
      rw [hbuf]
      by_cases hg : (!step.go) = true
      · rw [if_pos hg]
        exact ⟨Nat.lt_add_of_pos_right hpos, hb⟩
      · rw [if_neg hg]
        obtain ⟨hdone, hwritten⟩ := le_done_readLoop more want steps
          ⟨offset + buf.length, [] ++ buf, [] ++ buf⟩
        refine ⟨(Nat.lt_add_of_pos_right hpos).trans_le hdone, fun hnil => ?_⟩
        rw [hnil] at hwritten
        exact hb (List.prefix_nil.mp hwritten)

theorem writeChunk_takenFirst (ws : List (Option ℕ)) : ∀ left moved : Bytes,
    ((writeChunk ws left moved).1 = true ↔ left.length ≤ takenFirst ws) ∧
      (writeChunk ws left moved).2.1 = moved ++ left.take (takenFirst ws) := by
  induction ws with
  | nil => intro left moved; simp [writeChunk, takenFirst]
  | cons w ws ih =>
    intro left moved
    unfold writeChunk
    by_cases hl : left = []
    · simp [hl]
    rw [if_neg hl]
    have hpos : 0 < left.length := List.length_pos_of_ne_nil hl
    rcases w with _ | n
    · simp [takenFirst, hl]
    · have hsum : takenFirst (some n :: ws) = n + takenFirst ws := by simp [takenFirst]
      obtain ⟨hok, hmoved⟩ := ih (left.drop n) (moved ++ left.take n)
      dsimp only
      rw [hok, hmoved, hsum, List.length_drop, List.append_assoc, ← List.take_add]
      exact ⟨by omega, rfl⟩

theorem le_done_writeChunks (chunks : List Bytes) :
    ∀ (ws : List (Option ℕ)) (gos : List Bool) (done : ℕ) (moved : Bytes),
    done ≤ (writeChunks chunks ws gos done moved).2.1 ∧
    moved <+: (writeChunks chunks ws gos done moved).2.2 := by
  induction chunks with
  | nil => exact fun _ _ _ _ => ⟨le_rfl, List.prefix_rfl⟩
  | cons chunk chunks ih =>
    intro ws gos done moved
    have hpre : moved <+: (writeChunk ws chunk moved).2.1 :=
      ⟨_, (writeChunk_takenFirst ws chunk moved).2.symm⟩
    rw [writeChunks]
    rcases hw : writeChunk ws chunk moved with ⟨ok, moved', ws'⟩
    rw [hw] at hpre
    rcases ok with _ | _
    · exact ⟨le_rfl, hpre⟩
    · dsimp only
      split_ifs
      · exact ⟨Nat.le_add_right _ _, hpre⟩
      · exact ⟨(Nat.le_add_right _ _).trans (ih _ _ _ _).1, hpre.trans (ih _ _ _ _).2⟩

theorem counts_writeChunks {chunks : List Bytes} (hne : ∀ chunk ∈ chunks, chunk ≠ [])
    (writes : List (Option ℕ)) (gos : List Bool) (offset : ℕ) :
    Counts (firstRejected chunks writes) offset (writeChunks chunks writes gos offset []).1
      (writeChunks chunks writes gos offset []).2.1
        (writeChunks chunks writes gos offset []).2.2 := by
  unfold firstRejected
  rcases chunks with _ | ⟨chunk, chunks⟩
  · exact ⟨fun n h => by simp at h, fun _ => .inl rfl⟩
  rw [writeChunks]
  have hne := hne chunk List.mem_cons_self
  have hpos : 0 < chunk.length := List.length_pos_of_ne_nil hne
  obtain ⟨hok, hmoved⟩ := writeChunk_takenFirst writes chunk []
  rcases hw : writeChunk writes chunk [] with ⟨ok, moved, ws⟩
  rw [hw] at hok hmoved
  dsimp only at hok hmoved
  rw [List.nil_append] at hmoved
  rcases ok with _ | _
  · have hlt : takenFirst writes < chunk.length := by
      by_contra hge
      exact absurd (hok.mpr (Nat.not_lt.mp hge)) Bool.false_ne_true
    dsimp only
    rw [if_pos hlt]
    refine ⟨fun n h => ?_, fun h => absurd h (by simp)⟩
    obtain rfl := Option.some.inj h
    exact ⟨rfl, rfl, by rw [hmoved, List.length_take]; omega⟩
  · have hle := hok.mp rfl
    dsimp only
    rw [if_neg (Nat.not_lt.mpr hle)]
    rw [List.take_of_length_le hle] at hmoved
    subst hmoved
    refine ⟨fun n h => absurd h (by simp), fun _ => .inr ?_⟩
    by_cases hg : (!gos.headD true) = true
    · rw [if_pos hg]
      exact ⟨Nat.lt_add_of_pos_right hpos, hne⟩
    · rw [if_neg hg]
      obtain ⟨hdone, hwritten⟩ :=
        le_done_writeChunks chunks ws gos.tail (offset + moved.length) moved
      refine ⟨(Nat.lt_add_of_pos_right hpos).trans_le hdone, fun hnil => ?_⟩
      rw [hnil] at hwritten
      exact hne (List.prefix_nil.mp hwritten)

/-! ## What is left -/

/-- A transfer that the user stops at once does not touch its target, one that fails without having
written a byte to a new file leaves no empty file, and what was written stays. -/
structure Documented (start : Bool) (target : Option Bytes) (offset : ℕ) (r : TransferResult) :
    Prop where
  untouched : start = false → r.target = target ∧ r.opened = false
  noEmpty : r.ok = false → offset = 0 → target = none → r.written = [] →
    r.known target offset ≠ some []
  kept : r.written ≠ [] →
    r.known target offset = some (writeAt ((keptContent target offset).getD []) offset r.written)

/-- A transfer from the start that fails in its first buffer: when the file is removed nothing was
in it, and when it is not, something was, or it is not a new file. -/
def RemovesRightly (removes : Bool) (loss : Option ℕ) (offset : ℕ) (target : Option Bytes) : Prop :=
  offset = 0 → ∀ n, loss = some n → if removes then n = 0 else n = 0 → target ≠ none

theorem documented_refused (start : Bool) (target : Option Bytes) (offset : ℕ) :
    Documented start target offset (.refused target) where
  untouched _ := ⟨rfl, rfl⟩
  noEmpty _ _ h _ := by simp [TransferResult.known, TransferResult.refused, h]
  kept h := absurd rfl h

theorem known_finish (removes : Bool) (target : Option Bytes) (offset : ℕ) (ok : Bool) (done : ℕ)
    (moved written : Bytes) (left : Option Bytes) :
    (TransferResult.finish removes offset ok done moved written left).known target offset =
      if !ok && done == 0 && offset == 0 && removes then none
      else some (writeAt ((keptContent target offset).getD []) offset written) := rfl

/-- What `Documented` asks of a transfer that was begun. -/
theorem documented_finish (removes : Bool) (target : Option Bytes) (offset : ℕ) (ok : Bool)
    (done : ℕ) (moved written : Bytes) (left : Option Bytes) :
    Documented true target offset (.finish removes offset ok done moved written left) ↔
      (ok = false → offset = 0 → target = none → written = [] →
        (if !ok && done == 0 && offset == 0 && removes then none
          else some (writeAt ((keptContent target offset).getD []) offset written)) ≠ some []) ∧
      (written ≠ [] → (!ok && done == 0 && offset == 0 && removes) = false) := by
  have hwritten : (TransferResult.finish removes offset ok done moved written left).written =
      written := rfl
  constructor
  · intro hdoc
    refine ⟨fun hfail hzero hnone hnil => ?_, fun hne => ?_⟩
    · rw [← known_finish removes target offset ok done moved written left]
      exact hdoc.noEmpty hfail hzero hnone hnil
    · have hkept := hdoc.kept hne
      rw [known_finish] at hkept
      split_ifs at hkept with hremoved
      simpa using hremoved
  · rintro ⟨hempty, hkept⟩
    refine ⟨fun hs => (nomatch hs), fun hfail hzero hnone hnil => ?_, fun hne => ?_⟩
    · rw [known_finish]
      exact hempty hfail hzero hnone hnil
    · rw [known_finish, hkept hne, hwritten]
      rfl

theorem documented_finish_iff (removes : Bool) {loss : Option ℕ} {offset done : ℕ} {ok : Bool}
    {written : Bytes} (h : Counts loss offset ok done written) (target left : Option Bytes)
    (moved : Bytes) :
    Documented true target offset (.finish removes offset ok done moved written left) ↔
      RemovesRightly removes loss offset target := by
  rw [documented_finish]
  cases loss with
  | none =>
    refine iff_of_true ?_ (fun _ n hn => (nomatch hn))
    rcases h.kept rfl with hok | ⟨hlt, hne⟩
    · exact ⟨fun hfail => absurd (hok.symm.trans hfail) (by decide), fun _ => by simp [hok]⟩
    · have hdone : done ≠ 0 := by omega
      exact ⟨fun _ _ _ hnil => absurd hnil hne, fun _ => by simp [hdone]⟩
  | some n =>
    obtain ⟨rfl, rfl, hlen⟩ := h.lost n rfl
    have hnil : written = [] ↔ n = 0 := by rw [← hlen, List.length_eq_zero_iff]
    by_cases hoff : done = 0
    · subst hoff
      have hbase : (keptContent target 0).getD [] = [] := rfl
      unfold RemovesRightly
      rw [hbase, writeAt_nil_zero]
      cases removes with
      | true =>
        constructor
        · rintro ⟨-, hkept⟩ _ m hm
          obtain rfl := Option.some.inj hm
          by_contra hn
          exact absurd (hkept fun hw => hn (hnil.mp hw)) (by decide)
        · intro hright
          have hw := hnil.mpr (hright rfl n rfl)
          exact ⟨fun _ _ _ _ => by simp, fun hne => absurd hw hne⟩
      | false =>
        constructor
        · rintro ⟨hempty, -⟩ _ m hm hzero htarget
          obtain rfl := Option.some.inj hm
          have hw := hnil.mpr hzero
          exact hempty rfl rfl htarget hw (by simp [hw])
        · intro hright
          refine ⟨fun _ _ htarget hw => ?_, fun _ => by simp⟩
          exact absurd htarget (hright rfl n rfl (hnil.mp hw))
    · refine iff_of_true ⟨fun _ hzero => absurd hzero hoff, fun _ => by simp [hoff]⟩ ?_
      exact fun hzero => absurd hzero hoff

theorem downloadInto_documented_iff (io : DownloadIo) (target : Option Bytes) (more : ℕ → Bool)
    (want : ℕ → ℕ) (offset : ℕ) :
    Documented true target offset (downloadInto io target more want offset) ↔
      (io.fopen = true →
        RemovesRightly io.deletes (firstLoss more want offset io.steps) offset target) := by
  unfold downloadInto
  have hkept : (if 0 < offset then target else some []) = keptContent target offset := rfl
  rw [hkept]
  rcases hk : keptContent target offset with _ | content
  · have hoff : offset ≠ 0 := by
      rintro rfl
      cases hk
    exact iff_of_true (documented_refused _ _ _) (fun _ hzero => absurd hzero hoff)
  · by_cases hf : io.fopen = true
    · simp only [hf, Bool.not_true, Bool.false_eq_true, if_false, true_imp_iff]
      exact documented_finish_iff io.deletes (counts_readLoop more want offset io.steps) target _ _
    · have hfalse : (!io.fopen) = true := by simpa using hf
      dsimp only
      rw [if_pos hfalse]
      exact iff_of_true (documented_refused _ _ _) (fun h => absurd h hf)

theorem download_documented_iff (scpMode : Bool) (io : DownloadIo) (target : Option Bytes)
    (resumeOffset : ℕ) :
    Documented io.start target (startOffset scpMode io resumeOffset)
        (download scpMode io target resumeOffset) ↔
      (io.Starts → RemovesRightly io.deletes
        (firstLoss (io.more scpMode) (io.want scpMode) (startOffset scpMode io resumeOffset)
          io.steps)
        (startOffset scpMode io resumeOffset) target) := by
  by_cases hs : io.opened = true ∧ io.start = true
  · obtain ⟨hopened, hstart⟩ := hs
    rw [download_eq hopened hstart, hstart, downloadInto_documented_iff]
    exact ⟨fun h hst => h hst.fopen, fun h hf => h ⟨hopened, hstart, hf⟩⟩
  · rw [download_eq_refused hs]
    exact iff_of_true (documented_refused _ _ _) (fun hst => absurd ⟨hst.opened, hst.start⟩ hs)

/-- There is no removal in SCP mode. -/
theorem upload_documented_iff (scpMode : Bool) (io : UploadIo) (remotePath : CStr) (content : Bytes)
    (target : Option Bytes) (resumeOffset : ℕ) :
    Documented io.start target (uploadOffset scpMode content resumeOffset)
        (upload scpMode io remotePath content target resumeOffset) ↔
      (io.Opens scpMode remotePath → RemovesRightly (io.unlinks && !scpMode)
        (firstRejected (freads io.reads (content.drop (uploadOffset scpMode content resumeOffset)))
          io.writes)
        (uploadOffset scpMode content resumeOffset) target) := by
  by_cases h : io.Opens scpMode remotePath
  · rw [upload_of_opens h, h.start]
    dsimp only
    rw [documented_finish_iff _ (counts_writeChunks (fun _ => ne_nil_of_mem_freads) _ _ _)]
    exact ⟨fun hright _ => hright, fun hright => hright h⟩
  · rw [upload_of_not_opens h]
    exact iff_of_true (documented_refused _ _ _) (fun hopens => absurd hopens h)

/-- A transfer leaves its target as documented exactly when it does not fail in its first buffer, or
the removal goes by what that buffer has put into the file. -/
theorem leaves_documented_iff (scpMode : Bool) (target : Option Bytes) (resumeOffset : ℕ) :
    (∀ io : DownloadIo,
      Documented io.start target (startOffset scpMode io resumeOffset)
          (download scpMode io target resumeOffset) ↔
        (io.Starts → RemovesRightly io.deletes
          (firstLoss (io.more scpMode) (io.want scpMode) (startOffset scpMode io resumeOffset)
            io.steps)
          (startOffset scpMode io resumeOffset) target)) ∧
    (∀ (io : UploadIo) (remotePath : CStr) (content : Bytes),
      Documented io.start target (uploadOffset scpMode content resumeOffset)
          (upload scpMode io remotePath content target resumeOffset) ↔
        (io.Opens scpMode remotePath → RemovesRightly (io.unlinks && !scpMode)
          (firstRejected
            (freads io.reads (content.drop (uploadOffset scpMode content resumeOffset))) io.writes)
          (uploadOffset scpMode content resumeOffset) target)) :=
  ⟨fun io => download_documented_iff scpMode io target resumeOffset,
    fun io remotePath content =>
      upload_documented_iff scpMode io remotePath content target resumeOffset⟩

/-- The disk takes the first of two bytes and is full then. -/
def fullDisk : DownloadIo where
  opened := true
  announced := some 2
  start := true
  fopen := true
  steps := [⟨some (ascii "ab"), 1, true⟩]
  lost := 0
  deletes := true

/-- The server opens the file and takes nothing. -/
def brokenServer : UploadIo where
  fopen := true
  reads := [bufSize]
  start := true
  openFirst := .handle
  openRetry := true
  writes := [none]
  gos := []
  lost := 0
  unlinks := true
  scpStores := false
  scpRest := some []

/-- A download deletes the byte it has written; an upload by SCP leaves an empty file. -/
theorem not_leaves_documented :
    (¬ ∀ (io : DownloadIo) (target : Option Bytes),
      Documented io.start target 0 (download false io target 0)) ∧
    (¬ ∀ (io : UploadIo) (remotePath : CStr) (content : Bytes) (target : Option Bytes),
      Documented io.start target 0 (upload true io remotePath content target 0)) := by
  constructor
  · intro h
    have hkept := (h fullDisk none).kept (by decide)
    exact absurd hkept (by decide)
  · intro h
    exact (h brokenServer (ascii "/f") (ascii "ab") none).noEmpty (by decide) rfl rfl (by decide)
      (by decide)

end Leftover

end SalamanderSftp
