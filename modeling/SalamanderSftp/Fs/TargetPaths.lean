import SalamanderSftp.Fs.NormalizeCalls

/-!
# The directory of a target path

`CopyOrMoveFromFS` trims the mask of its target behind the last backslash, before it takes the
scheme and the host off; `CopyOrMoveFromDiskToFS` trims it behind the last slash of the path. In a
target with slashes only, a mask is all of the text for the first of them. The two also cut the text
at different places.
-/

namespace SalamanderSftp

open Components

/-- An absolute path with slashes, with or without an address in front. -/
structure TargetText where
  address : Option CStr
  path : CStr
  plain : ∀ a ∈ address, ∀ c ∈ a, isSlash c = false
  rooted : path.head? = some slash
  slashes : backslash ∉ path
  /-- A path with two slashes in front would be read as an address. -/
  unaddressed : address = none → path.tail.head? ≠ some slash

namespace TargetText

/-- The address with the slashes in front of it. -/
def host (t : TargetText) : CStr := t.address.elim [] fun a => slash :: slash :: a

def text (t : TargetText) : CStr := ascii "sftp:" ++ (t.host ++ t.path)

/-- The path behind the address, without its last component if that is a mask. -/
def directory (t : TargetText) : CStr := absolute slash (comps (trimMask slash t.path))

def ReadAlike (t : TargetText) : Prop :=
  (parseTarget (skipScheme (copyTargetText t.text))).dir = t.directory ∧
    targetDir t.text = t.directory

/-- There is a '*' or '?' in what `CopyOrMoveFromFS` copies of the text. -/
def Masked (t : TargetText) : Prop := ∃ c ∈ t.text.take 519, c = star ∨ c = question

/-- What the buffers of `CopyOrMoveFromFS` keep of the path. -/
def kept (t : TargetText) : CStr := (t.path.take (514 - t.host.length)).take 259

/-- A mask stands for all of the root; no part of the path is lost in the buffers. -/
structure SafelyRead (t : TargetText) : Prop where
  mask : t.Masked → comps (trimMask slash t.path) = []
  kept : ¬ t.Masked → comps t.kept = comps (trimMask slash t.path)
  cut : comps (trimMask slash (t.path.take 259)) = comps (trimMask slash t.path)

theorem scheme : ascii "sftp:" = [115, 102, 116, 112, colon] := by decide +kernel

theorem backslash_notMem_host (t : TargetText) : backslash ∉ t.host := by
  unfold host
  rcases h : t.address with _ | a
  · exact List.not_mem_nil
  · intro hmem
    rw [Option.elim_some, List.mem_cons, List.mem_cons] at hmem
    rcases hmem with heq | heq | hmem
    · exact absurd heq (by decide)
    · exact absurd heq (by decide)
    · exact absurd (t.plain a h _ hmem) (by decide)

theorem backslash_notMem_text (t : TargetText) : backslash ∉ t.text := by
  unfold text
  rw [scheme, List.mem_append, List.mem_append, not_or, not_or]
  exact ⟨by decide, t.backslash_notMem_host, t.slashes⟩

/-- Without a backslash the text is trimmed to nothing or not at all. -/
theorem trimMask_of_notMem {separator : Byte} {s : CStr} (h : separator ∉ s) :
    trimMask separator s = if ∃ c ∈ s, c = star ∨ c = question then [] else s := by
  have hnone : splitLast (· == separator) s = none := by
    unfold splitLast
    have hfind : s.reverse.findIdx? (· == separator) = none := by
      rw [List.findIdx?_eq_none_iff]
      intro c hc
      rw [beq_eq_false_iff_ne]
      rintro rfl
      exact h (List.mem_reverse.mp hc)
    rw [hfind]
  have hmask : (star ∈ s ∨ question ∈ s) ↔ ∃ c ∈ s, c = star ∨ c = question := by
    constructor
    · rintro (hmem | hmem)
      · exact ⟨star, hmem, .inl rfl⟩
      · exact ⟨question, hmem, .inr rfl⟩
    · rintro ⟨c, hc, rfl | rfl⟩
      · exact .inl hc
      · exact .inr hc
  unfold trimMask
  rw [hnone]
  dsimp only [Option.getD_none]
  by_cases hs : ∃ c ∈ s, c = star ∨ c = question
  · rw [if_pos hs, if_pos (hmask.mpr hs)]
  · rw [if_neg hs, if_neg (hs ∘ hmask.mp)]

/-! ## From the panel of the server -/

theorem skipScheme_text {s : CStr} (h : s.head? = some slash) :
    skipScheme (ascii "sftp:" ++ s) = s := by
  obtain ⟨rest, rfl⟩ : ∃ rest, s = slash :: rest := by
    cases s with
    | nil => cases h
    | cons c rest => exact ⟨rest, by rw [Option.some.inj h]⟩
  have hstep : skipScheme (ascii "sftp:" ++ slash :: rest) = skipScheme (slash :: rest) := by
    rw [scheme]
    exact if_pos (by decide +kernel)
  rw [hstep, skipScheme_slash]

theorem head_take {s : CStr} (h : s.head? = some slash) (n : ℕ) :
    (s.take (n + 1)).head? = some slash := by
  cases s with
  | nil => cases h
  | cons c rest => exact h

theorem isSlash_of_mem_head {s : CStr} (h : s.head? = some slash) (n : ℕ) :
    ∀ c ∈ (s.take n).head?, isSlash c = true := by
  intro c hc
  rcases n with _ | n
  · simp at hc
  · rw [head_take h, Option.mem_some_iff] at hc
    subst hc
    decide

theorem head_located (t : TargetText) : (t.host ++ t.path).head? = some slash := by
  unfold host
  rcases t.address with _ | a
  · exact t.rooted
  · rfl

theorem copyTargetText_text (t : TargetText) [Decidable t.Masked] :
    copyTargetText t.text = if t.Masked then []
      else ascii "sftp:" ++ (t.host ++ t.path).take 514 := by
  have hcut : lstrcpyn t.text (2 * MAX_PATH) = t.text.take 519 := rfl
  have hparts : t.text.take 519 = ascii "sftp:" ++ (t.host ++ t.path).take 514 := by
    unfold text
    rw [scheme]
    rfl
  have hback : backslash ∉ t.text.take 519 :=
    fun h => t.backslash_notMem_text (List.mem_of_mem_take h)
  unfold copyTargetText
  rw [hcut, trimMask_of_notMem hback]
  by_cases hmask : t.Masked
  · rw [if_pos hmask]
    exact if_pos hmask
  · rw [if_neg hmask, ← hparts]
    exact if_neg hmask

theorem splitHost_located (t : TargetText) (n : ℕ) :
    splitHost ((t.host ++ t.path).take (n + 2)) =
      t.address.map fun a => (a.take n, t.path.take (n + 2 - t.host.length)) := by
  unfold host
  rcases haddress : t.address with _ | a
  · rw [Option.elim_none, List.nil_append, Option.map_none]
    have hsecond := t.unaddressed haddress
    have hback := t.slashes
    rcases hpath : t.path with _ | ⟨c, _ | ⟨d, rest⟩⟩
    · rfl
    · rfl
    · rw [hpath] at hsecond hback
      have hd : isSlash d = false := by
        have hslash : d ≠ slash := fun heq => hsecond (congrArg some heq)
        have hbackslash : d ≠ backslash :=
          fun heq => hback (heq ▸ List.mem_cons_of_mem _ List.mem_cons_self)
        simp [isSlash, hslash, hbackslash]
      show splitHost (c :: d :: rest.take n) = none
      rw [splitHost, hd, Bool.and_false]
      rfl
  · have hplain := t.plain a haddress
    have hcut : (slash :: slash :: a ++ t.path).take (n + 2) =
        slash :: slash :: (a.take n ++ t.path.take (n - a.length)) := by
      show slash :: slash :: (a ++ t.path).take n = _
      rw [List.take_append]
    have hroom : n + 2 - (slash :: slash :: a).length = n - a.length := by
      rw [List.length_cons, List.length_cons]
      omega
    rw [Option.elim_some, Option.map_some, hcut, hroom]
    exact splitHost_append (by decide) (by decide) (fun c hc => hplain c (List.mem_of_mem_take hc))
      (isSlash_of_mem_head t.rooted _)

theorem map_of_notMem {s : CStr} (h : backslash ∉ s) :
    (s.map fun c => if c = backslash then slash else c) = s := by
  have hid : ∀ c ∈ s, (if c = backslash then slash else c) = c := by
    intro c hc
    rw [if_neg]
    rintro rfl
    exact h hc
  rw [List.map_congr_left hid, List.map_id']

theorem copyTargetDir_masked {t : TargetText} (h : t.Masked) : copyTargetDir t.text = [] := by
  classical
  unfold copyTargetDir
  rw [copyTargetText_text, if_pos h]
  rfl

theorem copyTargetDir_kept {t : TargetText} (h : ¬ t.Masked) :
    copyTargetDir t.text = t.kept ∨ copyTargetDir t.text = [slash] ∧ t.kept = [] := by
  classical
  have hback : backslash ∉ t.kept :=
    fun hmem => t.slashes (List.mem_of_mem_take (List.mem_of_mem_take hmem))
  unfold copyTargetDir
  rw [copyTargetText_text, if_neg h, skipScheme_text (head_take t.head_located _)]
  have hsplit := t.splitHost_located 512
  rw [show 512 + 2 = 514 from rfl] at hsplit
  dsimp only
  rw [hsplit]
  rcases haddress : t.address with _ | a
  · left
    have hhost : t.host = [] := by
      unfold host
      rw [haddress]
      rfl
    have hkept : t.kept = lstrcpyn (t.path.take 514) MAX_PATH := by
      unfold kept
      rw [hhost]
      rfl
    rw [Option.map_none, hhost, List.nil_append]
    dsimp only
    rw [← hkept, map_of_notMem hback]
  · rw [Option.map_some]
    dsimp only
    by_cases hnil : t.path.take (514 - t.host.length) = []
    · right
      rw [if_pos hnil]
      refine ⟨by decide, ?_⟩
      unfold kept
      rw [hnil, List.take_nil]
    · left
      rw [if_neg hnil]
      exact map_of_notMem hback

theorem dir_copyTarget (t : TargetText) [Decidable t.Masked] :
    (parseTarget (skipScheme (copyTargetText t.text))).dir =
      absolute slash (if t.Masked then [] else comps t.kept) := by
  rw [parseTarget_dir]
  by_cases hmask : t.Masked
  · rw [if_pos hmask, copyTargetDir_masked hmask]
    decide
  · rw [if_neg hmask]
    rcases copyTargetDir_kept hmask with hdir | ⟨hdir, hnil⟩
    · have hfits : t.kept.length < MAX_PATH := by
        unfold kept
        rw [List.length_take]
        exact (min_le_left _ _).trans_lt (by decide)
      rw [hdir, sftpNormalize_of_fits hfits]
    · rw [hdir, hnil]
      decide

/-! ## From the disk -/

theorem behindColon_text (t : TargetText) : behindColon t.text = t.host ++ t.path := by
  have hsplit : t.text = [115, 102, 116, 112] ++ colon :: (t.host ++ t.path) := by
    unfold text
    rw [scheme]
    rfl
  unfold behindColon
  rw [hsplit, cutAt_append (by decide)]
  rfl

theorem sftpStripHost_located (t : TargetText) : sftpStripHost (t.host ++ t.path) = t.path := by
  have hsplit := t.splitHost_located (t.host ++ t.path).length
  rw [List.take_of_length_le (Nat.le_add_right _ 2)] at hsplit
  have hwhole : t.path.take ((t.host ++ t.path).length + 2 - t.host.length) = t.path := by
    refine List.take_of_length_le ?_
    rw [List.length_append]
    omega
  have hne : t.path ≠ [] := by
    intro hnil
    have hrooted := t.rooted
    rw [hnil] at hrooted
    cases hrooted
  unfold sftpStripHost
  rw [hsplit, hwhole]
  rcases haddress : t.address with _ | a
  · have hhost : t.host = [] := by
      unfold host
      rw [haddress]
      rfl
    rw [hhost]
    rfl
  · exact if_neg hne

theorem targetDir_text (t : TargetText) :
    targetDir t.text = absolute slash (comps (trimMask slash (t.path.take 259))) := by
  have hback : backslash ∉ t.path.take 259 := fun hmem => t.slashes (List.mem_of_mem_take hmem)
  have hcut : lstrcpyn t.path MAX_PATH = t.path.take 259 := rfl
  have hfits : (trimMask slash (t.path.take 259)).length < MAX_PATH := by
    have hlen : (t.path.take 259).length < MAX_PATH :=
      (List.length_take_le _ _).trans_lt (by decide)
    rcases trimMask_cases slash (t.path.take 259) with h | h | ⟨after, h⟩
    · rw [h]
      decide
    · rw [h]
      exact hlen
    · have hall := congrArg List.length h
      rw [List.length_append] at hall
      omega
  unfold targetDir
  rw [behindColon_text, sftpStripHost_located, hcut]
  dsimp only
  rw [map_of_notMem hback]
  exact sftpNormalize_of_fits hfits

end TargetText

/-- Both directions of a copy read the directory of a target right exactly if it has no mask or is
the root anyway, and no part of it is lost in a buffer. -/
theorem targets_read_alike_iff (t : TargetText) : t.ReadAlike ↔ t.SafelyRead := by
  classical
  have hinj : ∀ {a b : CStr}, absolute slash (comps a) = absolute slash (comps b) ↔
      comps a = comps b := by
    intro a b
    refine ⟨fun h => ?_, fun h => by rw [h]⟩
    rw [← comps_absolute (plainParts_comps a), h, comps_absolute (plainParts_comps b)]
  have hroot : absolute slash [] = absolute slash (comps (trimMask slash t.path)) ↔
      comps (trimMask slash t.path) = [] :=
    (hinj (a := [])).trans eq_comm
  unfold TargetText.ReadAlike TargetText.directory
  rw [t.dir_copyTarget, t.targetDir_text, hinj]
  by_cases hmask : t.Masked
  · rw [if_pos hmask, hroot]
    exact ⟨fun h => ⟨fun _ => h.1, fun hno => absurd hmask hno, h.2⟩,
      fun h => ⟨h.mask hmask, h.cut⟩⟩
  · rw [if_neg hmask, hinj]
    exact ⟨fun h => ⟨fun hyes => absurd hyes hmask, fun _ => h.1, h.2⟩,
      fun h => ⟨h.kept hmask, h.cut⟩⟩

/-- The mask "*.*" of a directory makes it the root. -/
theorem not_targets_read_alike : ¬ ∀ t : TargetText, t.ReadAlike := by
  intro h
  have hread :=
    (h ⟨none, ascii "/d/*.*", by simp, by decide +kernel, by decide +kernel, by decide +kernel⟩).1
  exact absurd hread (by decide +kernel)

end SalamanderSftp
