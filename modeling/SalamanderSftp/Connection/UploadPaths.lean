import SalamanderSftp.Connection.Encoding
import SalamanderSftp.Connection.Transfer
import SalamanderSftp.Path

/-!
# The paths of an upload

`Upload` converts its path and, when a directory is missing, has `MakeDirRecursive` make the
ancestors of the converted path. `MakeDir` converts each of them once more.

1. Conversion leaves the number of slashes alone, so the only ancestor it can turn a path into is
   the path itself (`eq_of_slashPrefix`).
2. An upload hands over each path converted once when it comes to no missing directory, or all
   ancestors are left as they are (`upload_encodes_once_iff`).
-/

namespace SalamanderSftp

open Utf8

/-! ## Calls of the primitives -/

/-- A path that is handed to the server. -/
inductive SftpCall
  | open_ (path : CStr)
  | mkdir (path : CStr)
  | unlink (path : CStr)
  /-- `libssh2_scp_send64`. -/
  | send (path : CStr)
  deriving DecidableEq

def SftpCall.path : SftpCall → CStr
  | .open_ path => path
  | .mkdir path => path
  | .unlink path => path
  | .send path => path

/-- The loop of `MakeDirRecursive` behind the first character: the path before each slash. -/
def makeDirLoop (before : CStr) : CStr → List CStr
  | [] => []
  | c :: rest =>
    (if c = slash ∧ before ≠ [slash] then [before] else []) ++ makeDirLoop (before ++ [c]) rest

/-- The paths that `MakeDirRecursive` hands to `MakeDir`. -/
def makeDirRecursive (remotePath : CStr) : List CStr :=
  if remotePath = [] then []
  else
    let path := remotePath.map fun c => if c = backslash then slash else c
    makeDirLoop (path.take 1) (path.drop 1) ++ [path]

/-- The upload comes to a directory that is missing. -/
def MakesParents (scpMode : Bool) (io : UploadIo) : Prop :=
  scpMode = false ∧ io.fopen = true ∧ io.start = true ∧ io.openFirst = .noSuchFile

instance (scpMode : Bool) (io : UploadIo) : Decidable (MakesParents scpMode io) := by
  unfold MakesParents
  infer_instance

def uploadCalls (encoding : ℤ) (cp : CodePage) (scpMode : Bool) (io : UploadIo)
    (remotePath : CStr) (content : Bytes)
    (resumeOffset : ℕ) : List SftpCall :=
  let remotePath := toServerEnc encoding cp remotePath
  if scpMode then if io.fopen && io.start then [.send remotePath] else []
  else if !io.fopen || !io.start then []
  else
    let retried :=
      match io.openFirst, uploadParent remotePath with
      | .noSuchFile, some parentDir =>
        (makeDirRecursive parentDir).map
          (fun d => .mkdir (toServerEnc encoding cp d)) ++ [.open_ remotePath]
      | _, _ => []
    -- the unlink is tried when nothing was counted, whether it works or not
    let tried := upload false { io with unlinks := true } remotePath content none resumeOffset
    let cleaned := if tried.removed then [.unlink remotePath] else []
    .open_ remotePath :: (retried ++ cleaned)

/-! ## Beginnings before a slash -/

/-- `q` is the text before some slash of `s`. -/
def SlashPrefix (q s : CStr) : Prop := ∃ r, s = q ++ slash :: r

theorem SlashPrefix.length_lt {q s : CStr} (h : SlashPrefix q s) : q.length < s.length := by
  obtain ⟨r, rfl⟩ := h
  simp

theorem SlashPrefix.count_lt {q s : CStr} (h : SlashPrefix q s) :
    q.count slash < s.count slash := by
  obtain ⟨r, rfl⟩ := h
  rw [List.count_append, List.count_cons_self]
  omega

/-- The number of slashes in it tells which slash that is. -/
theorem eq_of_slashPrefix {q q' s : CStr} (h : SlashPrefix q s) (h' : SlashPrefix q' s)
    (hcount : q.count slash = q'.count slash) : q = q' := by
  have hone : ∀ {q q' t : CStr} {r r' : CStr}, q' = q ++ t → slash :: r = t ++ slash :: r' →
      q.count slash = q'.count slash → q = q' := by
    intro q q' t r r' hq hr hcount
    rcases t with _ | ⟨c, t⟩
    · rw [hq, List.append_nil]
    · obtain ⟨rfl, -⟩ := List.cons.inj hr
      rw [hq, List.count_append, List.count_cons_self] at hcount
      omega
  obtain ⟨r, rfl⟩ := h
  obtain ⟨r', heq⟩ := h'
  rcases List.append_eq_append_iff.mp heq with ⟨t, hq, hr⟩ | ⟨t, hq, hr⟩
  · exact hone hq hr hcount
  · exact (hone hq hr hcount.symm).symm

/-! ## The directories that are made -/

/-- Backslashes turned into slashes. -/
def forward (s : CStr) : CStr := s.map fun c => if c = backslash then slash else c

theorem forward_append (s t : CStr) : forward (s ++ t) = forward s ++ forward t := List.map_append

theorem backslash_notMem_forward (s : CStr) : backslash ∉ forward s := by
  intro h
  obtain ⟨c, -, hc⟩ := List.mem_map.mp h
  split_ifs at hc with hb
  · exact absurd hc (by decide)
  · exact hb hc

theorem forward_eq_self {s : CStr} (h : backslash ∉ s) : forward s = s := by
  unfold forward
  refine (List.map_congr_left fun c hc => ?_).trans (List.map_id _)
  refine if_neg ?_
  rintro rfl
  exact h hc

theorem slashPrefix_of_mem_makeDirLoop (rest : CStr) :
    ∀ {before d : CStr}, d ∈ makeDirLoop before rest → SlashPrefix d (before ++ rest) := by
  induction rest with
  | nil => intro before d h; simp [makeDirLoop] at h
  | cons c rest ih =>
    intro before d h
    rw [makeDirLoop, List.mem_append] at h
    rcases h with h | h
    · split_ifs at h with hc
      · obtain rfl := List.mem_singleton.mp h
        obtain ⟨rfl, -⟩ := hc
        exact ⟨rest, rfl⟩
      · simp at h
    · have hrec := ih h
      rwa [List.append_assoc, List.singleton_append] at hrec

/-- Each directory made ends before a slash of the path with a slash behind it, backslashes
included. -/
theorem slashPrefix_of_mem_makeDirRecursive {parent d : CStr}
    (h : d ∈ makeDirRecursive parent) (name : CStr) :
    SlashPrefix d (forward (parent ++ slash :: name)) := by
  have hsplit : forward (parent ++ slash :: name) = forward parent ++ slash :: forward name := by
    rw [forward_append]
    rfl
  rw [hsplit]
  unfold makeDirRecursive at h
  split_ifs at h
  · simp at h
  · rcases List.mem_append.mp h with h | h
    · obtain ⟨r, hr⟩ := slashPrefix_of_mem_makeDirLoop _ h
      rw [List.take_append_drop] at hr
      refine ⟨r ++ slash :: forward name, ?_⟩
      show List.map _ parent ++ _ = _
      rw [hr, List.append_assoc, List.cons_append]
    · obtain rfl := List.mem_singleton.mp h
      exact ⟨_, rfl⟩

/-! ## Converting twice -/

/-- The conversion for the server does not fit its buffer of 1040 bytes. -/
def Overflows (encoding : ℤ) (cp : CodePage) (s : CStr) : Prop :=
  encoding ≠ 2 ∧ s.length < 520 ∧ 1040 ≤ (encode (s.map cp.toUnicode)).length

instance (encoding : ℤ) (cp : CodePage) (s : CStr) : Decidable (Overflows encoding cp s) := by
  unfold Overflows
  infer_instance

section Convert

variable {encoding : ℤ} {cp : CodePage} {s e d : CStr}

theorem toServerEnc_of_overflows (h : Overflows encoding cp s) :
    toServerEnc encoding cp s = cp.overflow s := by
  obtain ⟨henc, hlen, hout⟩ := h
  have hne : s ≠ [] := by
    rintro rfl
    simp at hout
  unfold toServerEnc
  rw [if_neg (by simp [henc, hne]), if_neg (by omega)]
  exact if_pos hout

theorem toServerEnc_of_fits (h : ¬ Overflows encoding cp s) :
    toServerEnc encoding cp s = if encoding = 2 ∨
    520 ≤ s.length then s else encode (s.map cp.toUnicode) := by
  unfold toServerEnc
  by_cases henc : encoding = 2
  · rw [if_pos (Or.inl henc), if_pos (Or.inl henc)]
  by_cases hnil : s = []
  · subst hnil
    rw [if_pos (Or.inr rfl), if_neg (by simp [henc])]
    rfl
  rw [if_neg (by simp [henc, hnil])]
  by_cases hlong : 520 ≤ s.length
  · rw [if_pos hlong, if_pos (Or.inr hlong)]
  · have hkept : ¬ (encoding = 2 ∨ 520 ≤ s.length) := not_or.mpr ⟨henc, hlong⟩
    rw [if_neg hlong, if_neg hkept]
    exact if_neg fun hout => h ⟨henc, not_le.mp hlong, hout⟩

theorem count_toServerEnc (h : ¬ Overflows encoding cp s) {x : Byte} (hx : x < 128) :
    (toServerEnc encoding cp s).count x = s.count x := by
  rw [toServerEnc_of_fits h]
  split_ifs
  · rfl
  · exact cp.count_encode hx s

theorem toServerEnc_eq_self_iff (h : ¬ Overflows encoding cp s) :
    toServerEnc encoding cp s = s ↔ encoding = 2 ∨ 520 ≤ s.length ∨ ∀ b ∈ s, b < 128 := by
  rw [toServerEnc_of_fits h]
  split_ifs with hkept
  · exact iff_of_true rfl (hkept.imp_right Or.inl)
  · rw [cp.encode_eq_self_iff]
    rw [not_or] at hkept
    simp only [hkept.1, hkept.2, false_or]

/-- The path is what the upload's path is converted to, or an ancestor of that. -/
def ConvertedOnce (e path : CStr) : Prop := path = e ∨ SlashPrefix path e

/-- The directory is an ancestor already and stays as it is. Where its conversion does not fit, what
is left in the buffer has to be one. -/
def StaysAncestor (encoding : ℤ) (cp : CodePage) (e d : CStr) : Prop :=
  if Overflows encoding cp d then ConvertedOnce e (cp.overflow d)
  else SlashPrefix d e ∧ (encoding = 2 ∨ 520 ≤ d.length ∨ ∀ b ∈ d, b < 128)

/-- A directory that is converted again is an ancestor only when that changes nothing. -/
theorem convertedOnce_toServerEnc_iff (hd : SlashPrefix d (forward e)) (hback : backslash ∉ d) :
    ConvertedOnce e (toServerEnc encoding cp d) ↔ StaysAncestor encoding cp e d := by
  unfold StaysAncestor
  by_cases hfit : Overflows encoding cp d
  · rw [if_pos hfit, toServerEnc_of_overflows hfit]
  rw [if_neg hfit, ← toServerEnc_eq_self_iff hfit]
  have hcount : (toServerEnc encoding cp d).count slash = d.count slash :=
    count_toServerEnc hfit (by decide)
  have hback' : backslash ∉ toServerEnc encoding cp d := by
    rw [← List.count_eq_zero, count_toServerEnc hfit (by decide)]
    exact List.count_eq_zero_of_not_mem hback
  constructor
  · rintro (heq | hpre)
    · have hlt := hd.count_lt
      rw [← heq, forward_eq_self hback', hcount] at hlt
      exact absurd hlt (lt_irrefl _)
    · have hforward : SlashPrefix (toServerEnc encoding cp d) (forward e) := by
        obtain ⟨r, hr⟩ := hpre
        refine ⟨forward r, ?_⟩
        conv_lhs => rw [hr]
        rw [forward_append, forward_eq_self hback']
        rfl
      have hsame := eq_of_slashPrefix hforward hd hcount
      rw [hsame] at hpre
      exact ⟨hpre, hsame⟩
  · rintro ⟨hpre, hsame⟩
    rw [hsame]
    exact Or.inr hpre

end Convert

/-! ## Uploads -/

theorem eq_of_uploadParent {e parent : CStr} (h : uploadParent e = some parent) :
    parent ≠ [] ∧ ∃ name, e = parent ++ slash :: name := by
  have hsplit : ∃ after, splitLast (· == slash) e = some (parent, after) ∧ parent ≠ [] := by
    unfold uploadParent at h
    unfold splitLast
    rcases hi : e.reverse.findIdx? (· == slash) with _ | i
    · simp [hi] at h
    · rw [hi] at h
      dsimp only at h
      split_ifs at h with hpos
      obtain rfl := Option.some.inj h
      refine ⟨_, rfl, ?_⟩
      intro hnil
      have hlen := congrArg List.length hnil
      rw [List.length_take, List.length_nil] at hlen
      omega
  obtain ⟨after, hsplit, hne⟩ := hsplit
  obtain ⟨c, heq, hc⟩ := eq_of_splitLast hsplit
  obtain rfl := beq_iff_eq.mp hc
  exact ⟨hne, after, heq⟩

section Calls

variable {encoding : ℤ} {cp : CodePage} {scpMode : Bool} {io : UploadIo}
  {remotePath : CStr} {content : Bytes}
  {resumeOffset : ℕ}

/-- Only the directories are converted again. -/
theorem path_of_mem_uploadCalls {call : SftpCall}
    (h : call ∈ uploadCalls encoding cp scpMode io remotePath content resumeOffset) :
    call.path = toServerEnc encoding cp remotePath ∨ (MakesParents scpMode io ∧
      ∃ parentDir ∈ uploadParent (toServerEnc encoding cp remotePath),
        ∃ d ∈ makeDirRecursive parentDir,
        call.path = toServerEnc encoding cp d) := by
  unfold uploadCalls at h
  dsimp only at h
  rcases scpMode with _ | _
  · rw [if_neg (by simp)] at h
    by_cases hstop : (!io.fopen || !io.start) = true
    · simp [hstop] at h
    rw [if_neg hstop] at h
    simp only [Bool.or_eq_true, Bool.not_eq_true', not_or, Bool.not_eq_false] at hstop
    rcases List.mem_cons.mp h with rfl | h
    · exact Or.inl rfl
    rcases List.mem_append.mp h with h | h
    · split at h
      · next parentDir hopen hparent =>
        rcases List.mem_append.mp h with h | h
        · obtain ⟨d, hd, rfl⟩ := List.mem_map.mp h
          exact Or.inr ⟨⟨rfl, hstop.1, hstop.2, hopen⟩, parentDir, hparent, d, hd, rfl⟩
        · obtain rfl := List.mem_singleton.mp h
          exact Or.inl rfl
      · simp at h
    · split_ifs at h
      · obtain rfl := List.mem_singleton.mp h
        exact Or.inl rfl
      · simp at h
  · rw [if_pos rfl] at h
    split_ifs at h
    · obtain rfl := List.mem_singleton.mp h
      exact Or.inl rfl
    · simp at h

theorem mkdir_mem_uploadCalls (h : MakesParents scpMode io) {parentDir d : CStr}
    (hparent : parentDir ∈ uploadParent (toServerEnc encoding cp remotePath))
    (hd : d ∈ makeDirRecursive parentDir) :
    .mkdir (toServerEnc encoding cp d) ∈
      uploadCalls encoding cp scpMode io remotePath content resumeOffset := by
  obtain ⟨rfl, hfopen, hstart, hopen⟩ := h
  unfold uploadCalls
  dsimp only
  rw [if_neg (by simp), if_neg (by simp [hfopen, hstart]), hopen, Option.mem_def.mp hparent]
  refine List.mem_cons_of_mem _ (List.mem_append_left _ (List.mem_append_left _ ?_))
  exact List.mem_map_of_mem hd

end Calls

/-- Every path of an upload is converted once unless it comes to make directories, and then when
each of these stays an ancestor of the converted path. -/
theorem upload_encodes_once_iff (encoding : ℤ) (cp : CodePage) (scpMode : Bool)
    (io : UploadIo) (remotePath : CStr)
    (content : Bytes) (resumeOffset : ℕ) :
    (∀ call ∈ uploadCalls encoding cp scpMode io remotePath content resumeOffset,
      ConvertedOnce (toServerEnc encoding cp remotePath) call.path) ↔
      (MakesParents scpMode io → ∀ parentDir ∈ uploadParent (toServerEnc encoding cp remotePath),
        ∀ d ∈ makeDirRecursive parentDir,
          StaysAncestor encoding cp (toServerEnc encoding cp remotePath) d) := by
  have honce : ∀ parentDir ∈ uploadParent (toServerEnc encoding cp remotePath),
      ∀ d ∈ makeDirRecursive parentDir,
      (ConvertedOnce (toServerEnc encoding cp remotePath) (toServerEnc encoding cp d) ↔
        StaysAncestor encoding cp (toServerEnc encoding cp remotePath) d) := by
    intro parentDir hparent d hd
    obtain ⟨-, name, hname⟩ := eq_of_uploadParent hparent
    have hpre := slashPrefix_of_mem_makeDirRecursive hd name
    rw [← hname] at hpre
    refine convertedOnce_toServerEnc_iff hpre fun hmem => ?_
    obtain ⟨r, hr⟩ := hpre
    exact backslash_notMem_forward (toServerEnc encoding cp remotePath)
      (hr ▸ List.mem_append_left _ hmem)
  constructor
  · intro h hmakes parentDir hparent d hd
    exact (honce parentDir hparent d hd).mp (h _ (mkdir_mem_uploadCalls hmakes hparent hd))
  · intro h call hcall
    rcases path_of_mem_uploadCalls hcall with hpath | ⟨hmakes, parentDir, hparent, d, hd, hpath⟩
    · exact Or.inl hpath
    · rw [hpath]
      exact (honce parentDir hparent d hd).mpr (h hmakes parentDir hparent d hd)

/-- The first open fails for a missing directory. -/
def UploadIo.missingParent : UploadIo :=
  ⟨true, [], true, .noSuchFile, true, [], [], 0, true, true, none⟩

/-- The directory of `/é/f` is converted twice. -/
theorem not_upload_encodes_once :
    ¬ ∀ (encoding : ℤ) (cp : CodePage) (scpMode : Bool) (io : UploadIo)
      (remotePath : CStr) (content : Bytes)
      (resumeOffset : ℕ),
        ∀ call ∈ uploadCalls encoding cp scpMode io remotePath content resumeOffset,
        ConvertedOnce (toServerEnc encoding cp remotePath) call.path := by
  intro h
  have honce := h 0 .latin1 false .missingParent [slash, 233, slash,
      102] [] 0 (.mkdir [slash, 195, 131, 194, 169])
    (by decide +kernel)
  rcases honce with heq | hpre
  · exact absurd heq (by decide +kernel)
  · exact absurd hpre.length_lt (by decide +kernel)

end SalamanderSftp
