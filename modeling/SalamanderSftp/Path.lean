import SalamanderSftp.Lib.Components
import SalamanderSftp.Text

/-!
# Remote path helpers

`SftpNormalize` and `SftpJoin` of `sftpglue.cpp`, working in `MAX_PATH` buffers. Both are the
component reduction of the text that fits the buffer (`sftpNormalize_eq`, `sftpJoin_eq`), with
either slash as separator.
-/

namespace SalamanderSftp

open Components

/-- `'/'` or `'\\'`. -/
def isSlash (c : Byte) : Bool := c == slash || c == backslash

/-- The components a path has after `SftpNormalize`. -/
def comps (s : CStr) : List CStr := reduce dot dotdot (tokens isSlash s)

/-- The part before and the part after the last character satisfying `p`. -/
def splitLast (p : Byte → Bool) (s : CStr) : Option (CStr × CStr) :=
  match s.reverse.findIdx? p with
  | none => none
  | some i => some (s.take (s.length - 1 - i), s.drop (s.length - i))

theorem eq_of_splitLast {p : Byte → Bool} {s before after : CStr}
    (h : splitLast p s = some (before, after)) :
    ∃ c, s = before ++ c :: after ∧ p c = true := by
  unfold splitLast at h
  rcases hi : s.reverse.findIdx? p with _ | i
  · simp [hi] at h
  · rw [hi] at h
    obtain ⟨rfl, rfl⟩ := Prod.mk.inj (Option.some.inj h)
    obtain ⟨hlt, hp, -⟩ := List.findIdx?_eq_some_iff_getElem.mp hi
    rw [List.length_reverse] at hlt
    rw [List.getElem_reverse] at hp
    refine ⟨_, ?_, hp⟩
    rw [show s.length - i =
      s.length - 1 - i + 1 by omega, ← List.drop_eq_getElem_cons, List.take_append_drop]

theorem length_splitLast {p : Byte → Bool} {s before after : CStr}
    (h : splitLast p s = some (before, after)) :
    before.length < s.length := by
  obtain ⟨c, rfl, -⟩ := eq_of_splitLast h
  simp

/-! ## SftpNormalize -/

/-- The `strtok_s` loop, which stops when all 256 entries of `parts` are in use. -/
def normalizeLoop : List CStr → List CStr → List CStr
  | [], parts => parts
  | tok :: toks, parts =>
    if parts.length < 256 then
      if tok = dot then normalizeLoop toks parts
      else if tok = dotdot then normalizeLoop toks parts.dropLast
      else normalizeLoop toks (parts ++ [tok])
    else parts

def sftpNormalize (path : CStr) : CStr :=
  let tmp := lstrcpyn (if path = [] then [slash] else path) MAX_PATH
  let tmp := tmp.map fun c => if c = backslash then slash else c
  absolute slash (normalizeLoop (tokens (· == slash) tmp) [])

/-- Below the limit of 256 parts the loop is the component reduction. -/
theorem normalizeLoop_eq (toks : List CStr) :
    ∀ parts : List CStr, parts.length + toks.length ≤ 256 →
      normalizeLoop toks parts = reduceFrom dot dotdot parts toks := by
  induction toks with
  | nil => intro parts _; rfl
  | cons tok toks ih =>
    intro parts h
    rw [List.length_cons] at h
    have hstep : reduceFrom dot dotdot parts (tok :: toks) =
        reduceFrom dot dotdot (push dot dotdot parts tok) toks := rfl
    rw [hstep, normalizeLoop, if_pos (by omega)]
    unfold push
    by_cases h1 : tok = dot
    · rw [if_pos h1, if_pos h1, ih _ (by omega)]
    · by_cases h2 : tok = dotdot
      · rw [if_neg h1, if_pos h2, if_neg h1, if_pos h2, ih _ (by rw [List.length_dropLast]; omega)]
      · rw [if_neg h1, if_neg h2, if_neg h1, if_neg h2, ih _ (by simp; omega)]

/-- Turning backslashes into slashes makes both of them separators. -/
theorem tokens_forward (s : CStr) :
    tokens (· == slash) (s.map fun c => if c = backslash then slash else c) = tokens isSlash s := by
  rw [tokens_map isSlash _ s]
  · refine (List.map_congr_left fun t ht => ?_).trans (List.map_id _)
    have hns := not_sep_of_mem_tokens ht
    refine (List.map_congr_left fun c hc => ?_).trans (List.map_id _)
    have : c ≠ backslash := by
      rintro rfl
      exact absurd (hns _ hc) (by decide)
    simp [this]
  · intro c _
    unfold isSlash
    by_cases hc : c = backslash
    · subst hc; decide
    · simp [hc]

/-- `SftpNormalize` prints the reduced components of the first `MAX_PATH - 1` bytes. -/
theorem sftpNormalize_eq (path : CStr) :
    sftpNormalize path = absolute slash (comps (lstrcpyn path MAX_PATH)) := by
  have hlen : ∀ s : CStr, (tokens isSlash (lstrcpyn s MAX_PATH)).length ≤ 256 := by
    intro s
    have h1 := two_mul_length_tokens_le isSlash (lstrcpyn s MAX_PATH)
    have h2 := length_lstrcpyn_le s MAX_PATH
    unfold MAX_PATH at h1 h2 ⊢
    omega
  have hloop : ∀ s : CStr, normalizeLoop (tokens isSlash (lstrcpyn s MAX_PATH)) [] =
      comps (lstrcpyn s MAX_PATH) := by
    intro s
    rw [normalizeLoop_eq _ _ (by simpa using hlen s)]
    rfl
  unfold sftpNormalize
  dsimp only
  rw [tokens_forward, hloop]
  by_cases h : path = []
  · subst h; rfl
  · rw [if_neg h]

/-! ## SftpJoin -/

/-- The base directory without a trailing slash, as `SftpJoin` copies it. -/
def joinBase (base : CStr) : CStr :=
  let b := lstrcpyn (if base = [] then [slash] else base) MAX_PATH
  if b.getLast? = some slash then b.dropLast else b

def sftpJoin (base name : CStr) (outSize : ℕ) : CStr :=
  sftpNormalize (lstrcpyn (joinBase base ++ slash :: name) outSize)

theorem sftpJoin_eq (base name : CStr) :
    sftpJoin base name MAX_PATH =
      absolute slash (comps (lstrcpyn (joinBase base ++ slash :: name) MAX_PATH)) := by
  unfold sftpJoin
  rw [sftpNormalize_eq, lstrcpyn_lstrcpyn]

/-! ## Parents and comparisons -/

def sftpParent (path : CStr) (outSize : ℕ) : CStr :=
  let out := lstrcpyn (if path = [] then [slash] else path) outSize
  match splitLast (· == slash) out with
  | none => out
  | some (before, _) => if before = [] then [slash] else before

def sftpIsSamePath (a b : CStr) :
    Bool := sftpNormalize (lstrcpyn a MAX_PATH) = sftpNormalize (lstrcpyn b MAX_PATH)

def sftpIsRoot (path : CStr) : Bool := sftpNormalize (lstrcpyn path MAX_PATH) = [slash]

/-! ## Plain paths -/

/-- Components that `SftpNormalize` leaves alone: not empty, without slashes of either kind, and
neither "." nor "..". -/
structure PlainParts (cs : List CStr) : Prop where
  whole : Whole isSlash cs
  clean : Clean dot dotdot cs

theorem plainParts_nil : PlainParts [] := ⟨fun _ h => by simp at h, clean_nil⟩

theorem PlainParts.append {cs ds : List CStr} (hc : PlainParts cs) (hd : PlainParts ds) :
    PlainParts (cs ++ ds) :=
  ⟨hc.whole.append hd.whole, hc.clean.append hd.clean⟩

theorem PlainParts.mono {cs ds : List CStr} (h : PlainParts cs) (hsub : ds ⊆ cs) : PlainParts ds :=
  ⟨fun t ht => h.whole t (hsub ht), fun t ht => h.clean t (hsub ht)⟩

theorem plainParts_comps (s : CStr) : PlainParts (comps s) :=
  ⟨fun _ ht => whole_tokens isSlash s _ (mem_of_mem_reduce ht), clean_reduce _⟩

theorem comps_absolute {cs : List CStr} (h : PlainParts cs) : comps (absolute slash cs) = cs := by
  unfold comps
  rw [tokens_absolute (by decide) h.whole, reduce_eq_self h.clean]

theorem sftpIsSamePath_iff (a b : CStr) :
    sftpIsSamePath a b = true ↔ comps (lstrcpyn a MAX_PATH) = comps (lstrcpyn b MAX_PATH) := by
  unfold sftpIsSamePath
  rw [decide_eq_true_iff, sftpNormalize_eq, sftpNormalize_eq, lstrcpyn_lstrcpyn, lstrcpyn_lstrcpyn]
  constructor
  · intro h
    rw [← comps_absolute (plainParts_comps (lstrcpyn a MAX_PATH)), h,
      comps_absolute (plainParts_comps _)]
  · intro h
    rw [h]

theorem joinBase_absolute {cs : List CStr} (h : PlainParts cs)
    (hlen : (absolute slash cs).length < MAX_PATH) :
    joinBase (absolute slash cs) = if cs = [] then [] else absolute slash cs := by
  have hne : absolute slash cs ≠ [] := by simp [absolute]
  unfold joinBase
  dsimp only
  rw [if_neg hne, lstrcpyn_eq_self hlen]
  rcases List.eq_nil_or_concat' cs with rfl | ⟨ds, t, rfl⟩
  · rfl
  · have ht := h.whole t (by simp)
    have hlast : (absolute slash (ds ++ [t])).getLast? = t.getLast? := by
      by_cases hnil : ds = []
      · rw [hnil, List.nil_append, absolute_singleton, List.getLast?_cons_of_ne_nil ht.1]
      · rw [absolute_concat slash hnil t, List.getLast?_append_of_ne_nil _ (by simp),
          List.getLast?_cons_of_ne_nil ht.1]
    rw [hlast, if_neg, if_neg (by simp)]
    intro hs
    have := ht.2 slash (List.mem_of_getLast? hs)
    exact absurd this (by decide)

/-- A plain name below a plain path is joined literally when the result fits. -/
theorem sftpJoin_absolute {cs : List CStr} {name : CStr} (h : PlainParts (cs ++ [name]))
    (hlen : (absolute slash (cs ++ [name])).length < MAX_PATH) :
    sftpJoin (absolute slash cs) name MAX_PATH = absolute slash (cs ++ [name]) := by
  have hcs : PlainParts cs := h.mono (List.subset_append_left _ _)
  have hle : (absolute slash cs).length < MAX_PATH := by
    by_cases hnil : cs = []
    · subst hnil; rw [absolute_nil]; decide
    · rw [absolute_concat slash hnil] at hlen
      simp only [List.length_append, List.length_cons] at hlen
      omega
  have hbase : joinBase (absolute slash cs) ++ slash :: name = absolute slash (cs ++ [name]) := by
    rw [joinBase_absolute hcs hle]
    by_cases hnil : cs = []
    · subst hnil; rw [if_pos rfl, List.nil_append, List.nil_append, absolute_singleton]
    · rw [if_neg hnil, absolute_concat slash hnil]
  rw [sftpJoin_eq, hbase, lstrcpyn_eq_self hlen, comps_absolute h]

end SalamanderSftp
