import SalamanderSftp.Connection.TransferComplete

/-!
# What a resumed transfer leaves

A transfer that resumes writes the rest of the source behind a target that is already its beginning;
one that cannot resume writes the whole source into an empty target. Either way the target is the
source afterwards, however the server cuts what it sends and takes (`resume_exact`), as long as the
local file can be read and closing the target loses nothing.
-/

namespace SalamanderSftp

@[simp] theorem writeAt_length (content bs : Bytes) :
    writeAt content content.length bs = content ++ bs := by
  unfold writeAt
  by_cases h : bs = []
  · rw [if_pos h, h, List.append_nil]
  · rw [if_neg h]; simp

/-- The target is what the source begins with, up to the offset. -/
def HoldsFirst (target : Option Bytes) (source : Bytes) (offset : ℕ) : Prop :=
  ∃ content, target = some content ∧ content.length = offset ∧ content <+: source

theorem HoldsFirst.append_drop {target : Option Bytes} {source : Bytes} {offset : ℕ}
    (h : HoldsFirst target source offset) :
    offset ≤ source.length ∧ ∃ content, target = some content ∧
      writeAt content offset (source.drop offset) = source := by
  obtain ⟨content, rfl, rfl, rest, rfl⟩ := h
  refine ⟨by simp, content, rfl, ?_⟩
  rw [List.drop_left, writeAt_length]

/-! ## Downloads -/

/-- The reads give the rest of a file piece by piece, and nothing only at its end. Any of them may
fail. -/
def ReadsOf : List ReadStep → Bytes → Prop
  | [], _ => True
  | step :: steps, rest =>
    ∀ bs, step.read = some bs → bs <+: rest ∧ bs.length ≤ bufSize ∧ (bs = [] → rest = []) ∧
      ReadsOf steps (rest.drop bs.length)

/-- No read fails before the end of the file, the disk takes every piece, and the user goes on. -/
def ReadsThrough : List ReadStep → Prop
  | [] => False
  | step :: steps =>
    ∃ bs, step.read = some bs ∧
      (bs ≠ [] → bs.length ≤ step.written ∧ step.go = true ∧ ReadsThrough steps)

theorem delivered_of_readsOf {steps : List ReadStep} :
    ∀ {rest bs : Bytes} (done : ℕ), ReadsOf steps rest →
      delivered (fun _ => true) (fun _ => bufSize) steps done = some bs → bs = rest := by
  induction steps with
  | nil => intro rest bs done _ h; simp [delivered] at h
  | cons step steps ih =>
    intro rest bs done hreads h
    rw [delivered] at h
    simp only [Bool.not_true, Bool.false_eq_true, if_false] at h
    rcases hr : step.read with _ | raw
    · simp [hr] at h
    · obtain ⟨⟨tail, rfl⟩, hlen, hend, hrest⟩ := hreads raw hr
      rw [List.drop_left] at hrest
      simp only [hr] at h
      rw [List.take_of_length_le hlen] at h
      by_cases hb : raw = []
      · rw [if_pos hb] at h
        rw [hend hb]
        exact (Option.some.inj h).symm
      · rw [if_neg hb] at h
        split_ifs at h
        obtain ⟨cs, hcs, rfl⟩ := Option.map_eq_some_iff.mp h
        rw [ih _ hrest hcs]

theorem delivered_of_readsThrough {steps : List ReadStep} :
    ∀ {rest : Bytes} (done : ℕ), ReadsOf steps rest → ReadsThrough steps →
      delivered (fun _ => true) (fun _ => bufSize) steps done = some rest := by
  induction steps with
  | nil => intro rest done _ h; exact h.elim
  | cons step steps ih =>
    intro rest done hreads h
    obtain ⟨raw, hr, hgo⟩ := h
    obtain ⟨⟨tail, rfl⟩, hlen, hend, hrest⟩ := hreads raw hr
    rw [List.drop_left] at hrest
    rw [delivered]
    simp only [Bool.not_true, Bool.false_eq_true, if_false, hr]
    rw [List.take_of_length_le hlen]
    by_cases hb : raw = []
    · rw [if_pos hb, hend hb]
    · obtain ⟨hw, hg, hthrough⟩ := hgo hb
      have hnot : ¬ (step.written < raw.length ∨ step.go = false) := by
        rintro (hlt | hstop)
        · omega
        · rw [hg] at hstop; cases hstop
      rw [if_neg hb, if_neg hnot, ih _ hrest hthrough]
      rfl

/-- The position from which a download that gets the file's own size reads and writes. -/
theorem startOffset_of_announced {io : DownloadIo} {source : Bytes}
    (h : io.announced = some source.length)
    (resumeOffset : ℕ) :
    startOffset false io resumeOffset =
      if resumeOffset ≤ source.length then resumeOffset else 0 := by
  simp only [startOffset, h, Option.getD_some, Bool.false_eq_true, if_false]
  split_ifs <;> omega

/-- Over such a start the rest of the source completes the target. -/
theorem kept_download {io : DownloadIo} {source : Bytes} (ha : io.announced = some source.length)
    {target : Option Bytes} {resumeOffset : ℕ}
    (h : HoldsFirst target source resumeOffset ∨ resumeOffset = 0 ∨ source.length < resumeOffset) :
    ∃ content, keptContent target (startOffset false io resumeOffset) = some content ∧
      writeAt content (startOffset false io resumeOffset)
        (source.drop (startOffset false io resumeOffset)) = source := by
  have hempty : startOffset false io resumeOffset = 0 → ∃ content,
      keptContent target (startOffset false io resumeOffset) = some content ∧
      writeAt content (startOffset false io resumeOffset)
        (source.drop (startOffset false io resumeOffset)) = source := by
    intro hzero
    rw [hzero]
    exact ⟨[], rfl, writeAt_nil_zero source⟩
  rw [startOffset_of_announced ha] at hempty ⊢
  rcases h with h | rfl | h
  · obtain ⟨hle, content, rfl, hwrite⟩ := h.append_drop
    rw [if_pos hle] at hempty ⊢
    by_cases hpos : 0 < resumeOffset
    · exact ⟨content, if_pos hpos, hwrite⟩
    · exact hempty (Nat.eq_zero_of_not_pos hpos)
  · exact hempty (ite_self 0)
  · exact hempty (if_neg (Nat.not_le.mpr h))

theorem download_exact {io : DownloadIo} {source : Bytes} (ha : io.announced = some source.length)
    (hlost : io.lost = 0) {target : Option Bytes} {resumeOffset : ℕ}
    (hreads : ReadsOf io.steps (source.drop (startOffset false io resumeOffset)))
    (h : HoldsFirst target source resumeOffset ∨ resumeOffset = 0 ∨ source.length < resumeOffset) :
    ((download false io target resumeOffset).ok = true →
        (download false io target resumeOffset).target = some source) ∧
      (io.Starts → ReadsThrough io.steps → (download false io target resumeOffset).ok = true) := by
  obtain ⟨content, hkept, hwrite⟩ := kept_download ha h
  constructor
  · intro hok
    obtain ⟨_, content', bs, hkept', hserved, heq⟩ := download_of_ok hok
    obtain rfl : content = content' := Option.some.inj (hkept.symm.trans hkept')
    obtain rfl := delivered_of_readsOf _ hreads hserved
    rw [heq, hlost, stored_zero, hwrite]
  · intro hstarts hthrough
    rw [download_of_served false target resumeOffset hstarts hkept
      (delivered_of_readsThrough _ hreads hthrough)]

/-! ## Uploads -/

/-- Buffers that are all taken are accepted when nobody cancels. -/
theorem Taken.accepted {chunks : List Bytes} {ws : List (Option ℕ)} {gos : List Bool}
    (h : Taken chunks ws gos) : (∀ go ∈ gos, go = true) → Accepted chunks ws gos := by
  have hhead : ∀ {gos : List Bool}, (∀ go ∈ gos, go = true) → gos.headD true = true := by
    intro gos hgo
    cases gos with
    | nil => rfl
    | cons go gos => exact hgo go List.mem_cons_self
  induction h with
  | none ws gos => exact fun _ => .none ws gos
  | last hfills ws gos => exact fun hgo => .more hfills (hhead hgo) (.none ws _)
  | more hfills go _ ih =>
    exact fun hgo => .more hfills go (ih fun go hmem => hgo go (List.mem_of_mem_tail hmem))

theorem kept_upload {source : Bytes} {target : Option Bytes} {resumeOffset : ℕ}
    (h : HoldsFirst target source resumeOffset ∨ resumeOffset = 0 ∨ source.length ≤ resumeOffset) :
    writeAt (keptRemote target (uploadOffset false source resumeOffset))
      (uploadOffset false source resumeOffset)
      (source.drop (uploadOffset false source resumeOffset)) = source := by
  have hoff : uploadOffset false source resumeOffset =
      if 0 < resumeOffset ∧ resumeOffset < source.length then resumeOffset else 0 := rfl
  rw [hoff]
  split_ifs with hin
  · obtain ⟨_, content, rfl, hwrite⟩ := (h.resolve_right (by omega)).append_drop
    rw [keptRemote, if_pos hin.1]
    exact hwrite
  · exact writeAt_nil_zero source

theorem upload_exact {io : UploadIo} {source : Bytes} {target : Option Bytes} {resumeOffset : ℕ}
    (hlost : io.lost = 0)
    (hreads : io.ReadsAll (source.drop (uploadOffset false source resumeOffset)))
    (remotePath : CStr)
    (h : HoldsFirst target source resumeOffset ∨ resumeOffset = 0 ∨ source.length ≤ resumeOffset) :
    ((upload false io remotePath source target resumeOffset).ok = true →
        (upload false io remotePath source target resumeOffset).target = some source) ∧
      (io.Opens false remotePath →
        Taken (freads io.reads (source.drop (uploadOffset false source resumeOffset))) io.writes
          io.gos → (∀ go ∈ io.gos, go = true) →
        (upload false io remotePath source target resumeOffset).ok = true) := by
  constructor
  · intro hok
    rw [upload_of_ok hok]
    dsimp only
    rw [show io.given _ = _ from hreads, UploadIo.leaves, if_neg Bool.false_ne_true, hlost,
      stored_zero, kept_upload h]
  · intro hopens htaken hgo
    have haccepts : io.Accepts false remotePath source (uploadOffset false source resumeOffset) :=
      ⟨hopens.fopen, hopens.start, hopens.opened, htaken.accepted hgo⟩
    rw [upload_of_accepts haccepts]

/-! ## Both directions -/

/-- A resumed transfer that succeeds leaves the source as the target, and so does one that starts
over, where no `fread` fails and closing the target loses nothing; where nothing else fails either
it succeeds. -/
theorem resume_exact (source : Bytes) (target : Option Bytes) (resumeOffset : ℕ) :
    (∀ io : DownloadIo, io.announced = some source.length → io.lost = 0 →
      ReadsOf io.steps (source.drop (startOffset false io resumeOffset)) →
      (HoldsFirst target source resumeOffset ∨ resumeOffset = 0 ∨ source.length < resumeOffset) →
      ((download false io target resumeOffset).ok = true →
          (download false io target resumeOffset).target = some source) ∧
        (io.Starts → ReadsThrough io.steps →
          (download false io target resumeOffset).ok = true)) ∧
    (∀ (io : UploadIo) (remotePath : CStr), io.lost = 0 →
      io.ReadsAll (source.drop (uploadOffset false source resumeOffset)) →
      (HoldsFirst target source resumeOffset ∨ resumeOffset = 0 ∨ source.length ≤ resumeOffset) →
      ((upload false io remotePath source target resumeOffset).ok = true →
          (upload false io remotePath source target resumeOffset).target = some source) ∧
        (io.Opens false remotePath →
          Taken (freads io.reads (source.drop (uploadOffset false source resumeOffset))) io.writes
            io.gos → (∀ go ∈ io.gos, go = true) →
          (upload false io remotePath source target resumeOffset).ok = true)) :=
  ⟨fun _ ha hlost hreads h => download_exact ha hlost hreads h,
    fun _ remotePath hlost hreads h => upload_exact hlost hreads remotePath h⟩

/-- A download of four bytes. -/
def fourBytes (steps : List ReadStep) : DownloadIo := ⟨true, some 4, true, true, steps, 0, true⟩

/-- An upload for which the server takes two bytes. -/
def twoTaken : UploadIo :=
  ⟨true, [bufSize], true, .handle, true, [some 2], [], 0, true, true, none⟩

/-- A file of four bytes resumed at the second, in two reads and in one write. -/
theorem resume_exact_abcd :
    (download false (fourBytes [⟨some (ascii "c"), 1, true⟩, ⟨some (ascii "d"), 1, true⟩,
      ⟨some [], 0, true⟩]) (some (ascii "ab")) 2).target = some (ascii "abcd") ∧
    (upload false twoTaken (ascii "/f") (ascii "abcd") (some (ascii "ab")) 2).target =
      some (ascii "abcd") := by
  have hfirst : HoldsFirst (some (ascii "ab")) (ascii "abcd") 2 :=
    ⟨ascii "ab", rfl, rfl, ascii "cd", rfl⟩
  obtain ⟨hdown, hup⟩ := resume_exact (ascii "abcd") (some (ascii "ab")) 2
  constructor
  · refine (hdown (fourBytes _) rfl rfl ?_ (Or.inl hfirst)).1 (by decide)
    rintro bs ⟨rfl⟩
    refine ⟨⟨ascii "d", rfl⟩, by decide, by decide, ?_⟩
    rintro bs ⟨rfl⟩
    refine ⟨⟨[], rfl⟩, by decide, by decide, ?_⟩
    rintro bs ⟨rfl⟩
    exact ⟨⟨[], rfl⟩, by decide, fun _ => rfl, trivial⟩
  · have hreads : twoTaken.ReadsAll (ascii "cd") := by unfold UploadIo.ReadsAll; decide
    exact (hup twoTaken (ascii "/f") rfl hreads (Or.inl hfirst)).1 (by decide)

end SalamanderSftp
