import SalamanderSftp.Lib.ComponentLength
import SalamanderSftp.Path

/-!
# Laws of the path helpers

1. `SftpNormalize` is the component reduction of what it is given, and its limit of 256 components
   is never met (`sftpNormalize_reference`). Where a path starts with a separator the result is no
   longer than the path, and normalizing it again changes nothing.
2. `SftpJoin` and `SftpParent` are inverse for the names without a backslash whose path fits its
   buffer, and for no others (`child_parent_iff`).
-/

namespace SalamanderSftp

open Components

/-! ## The last separator -/

theorem exists_last {p : Byte → Bool} {s : CStr} (h : ∃ c ∈ s, p c = true) :
    ∃ before c after, s = before ++ c :: after ∧ p c = true ∧ ∀ d ∈ after, p d = false := by
  induction s with
  | nil =>
    obtain ⟨c, hc, -⟩ := h
    cases hc
  | cons c s ih =>
    by_cases hrest : ∃ d ∈ s, p d = true
    · obtain ⟨before, d, after, rfl, hd, hafter⟩ := ih hrest
      exact ⟨c :: before, d, after, rfl, hd, hafter⟩
    · have hfree : ∀ d ∈ s, p d = false := by
        intro d hd
        by_contra hp
        exact hrest ⟨d, hd, by simpa using hp⟩
      obtain ⟨d, hd, hp⟩ := h
      rcases List.mem_cons.mp hd with rfl | hd
      · exact ⟨[], d, s, rfl, hp, hfree⟩
      · exact absurd ⟨d, hd, hp⟩ hrest

/-- The last occurrence is behind everything that is no separator. -/
theorem splitLast_append {p : Byte → Bool} {c : Byte} (hc : p c = true)
    (before : CStr) {after : CStr}
    (hafter : ∀ d ∈ after, p d = false) :
    splitLast p (before ++ c :: after) = some (before, after) := by
  have hfind : (before ++ c :: after).reverse.findIdx? p = some after.length := by
    have hrev : (before ++ c :: after).reverse = after.reverse ++ c :: before.reverse := by simp
    rw [hrev, List.findIdx?_append,
      List.findIdx?_eq_none_iff.mpr fun d hd => hafter d (List.mem_reverse.mp hd),
      Option.none_or, List.findIdx?_cons, if_pos hc]
    simp
  unfold splitLast
  rw [hfind]
  have htake : (before ++ c :: after).length - 1 - after.length = before.length := by
    simp
  have hdrop : (before ++ c :: after).length - after.length = (before ++ [c]).length := by
    simp only [List.length_append, List.length_cons, List.length_nil]
    omega
  have hwhole : before ++ c :: after = (before ++ [c]) ++ after := by simp
  dsimp only
  rw [htake, hdrop, List.take_left]
  conv_lhs => rw [hwhole]
  rw [List.drop_left]

theorem eq_false_of_splitLast {p : Byte → Bool} {s before after : CStr}
    (h : splitLast p s = some (before, after)) :
    ∀ d ∈ after, p d = false := by
  obtain ⟨c, hs, hc⟩ := eq_of_splitLast h
  obtain ⟨before', c', after', hs', hc', hafter⟩ :=
    exists_last ⟨c, hs ▸ List.mem_append_right _ List.mem_cons_self, hc⟩
  rw [hs', splitLast_append hc' before' hafter] at h
  obtain ⟨-, rfl⟩ := Prod.mk.inj (Option.some.inj h)
  exact hafter

/-! ## Normal forms -/

/-- A path that starts with a separator, as it stands in a `MAX_PATH` buffer. -/
structure SeparatedPath where
  text : CStr
  fits : text.length < MAX_PATH
  separated : ∃ c ∈ text.head?, isSlash c = true

/-- A text that starts with a separator has an empty component. -/
theorem not_unreduced_of_separated {s : CStr} (h : ∃ c ∈ s.head?, isSlash c = true) :
    ¬ Unreduced isSlash dot dotdot s := by
  obtain ⟨c, hc, hsep⟩ := h
  obtain ⟨rest, rfl⟩ : ∃ rest, s = c :: rest := by
    cases s with
    | nil => cases hc
    | cons d rest => exact ⟨rest, by rw [Option.some.inj hc]⟩
  intro hunreduced
  refine (hunreduced [] ?_).1 rfl
  rw [List.splitOnP_cons_eq_if_modifyHead, if_pos hsep]
  exact List.mem_cons_self

theorem length_sftpNormalize_of_separated {s : CStr} (h : ∃ c ∈ s.head?, isSlash c = true) :
    (sftpNormalize s).length ≤ (lstrcpyn s MAX_PATH).length := by
  obtain ⟨c, hc, hsep⟩ := h
  have hhead : ∃ c ∈ (lstrcpyn s MAX_PATH).head?, isSlash c = true := by
    refine ⟨c, ?_, hsep⟩
    cases s with
    | nil => cases hc
    | cons d rest => exact hc
  have hpos : 0 < (lstrcpyn s MAX_PATH).length := by
    obtain ⟨d, hd, -⟩ := hhead
    exact List.length_pos_of_mem (List.mem_of_mem_head? hd)
  have hle := cost_reduce_tokens_le dot dotdot isSlash (lstrcpyn s MAX_PATH)
  have hne :=
    mt (cost_reduce_tokens_eq_iff dot dotdot isSlash _).mp (not_unreduced_of_separated hhead)
  rw [sftpNormalize_eq]
  exact (length_absolute_le slash _).trans (max_le hpos (by unfold comps; omega))

theorem sftpNormalize_of_fits {s : CStr} (h : s.length < MAX_PATH) :
    sftpNormalize s = absolute slash (comps s) := by
  rw [sftpNormalize_eq, lstrcpyn_eq_self h]

/-- What is printed of plain components is left alone. -/
theorem sftpNormalize_absolute {cs : List CStr} (h : PlainParts cs)
    (hfits : (absolute slash cs).length < MAX_PATH) :
    sftpNormalize (absolute slash cs) = absolute slash cs := by
  rw [sftpNormalize_of_fits hfits, comps_absolute h]

theorem sftpNormalize_idempotent (p : SeparatedPath) :
    sftpNormalize (sftpNormalize p.text) = sftpNormalize p.text := by
  have hfits := length_sftpNormalize_of_separated p.separated
  rw [lstrcpyn_eq_self p.fits] at hfits
  have hshort := hfits.trans_lt p.fits
  rw [sftpNormalize_of_fits p.fits] at hshort ⊢
  exact sftpNormalize_absolute (plainParts_comps _) hshort

/-- The loop has room for every component of a path that fits. -/
theorem length_normalizeLoop_lt {path : CStr} (h : path.length < MAX_PATH)
    {before after : List CStr} {tok : CStr}
    (hsplit : tokens isSlash path = before ++ tok :: after) :
    (normalizeLoop before []).length < 256 := by
  have hcount := two_mul_length_tokens_le isSlash path
  rw [hsplit, List.length_append, List.length_cons] at hcount
  have hgrow :
      ∀ toks parts : List CStr, (normalizeLoop toks parts).length ≤ parts.length + toks.length := by
    intro toks
    induction toks with
    | nil => exact fun parts => le_rfl
    | cons t toks ih =>
      intro parts
      rw [normalizeLoop, List.length_cons]
      split_ifs
      · exact (ih parts).trans (by omega)
      · exact (ih parts.dropLast).trans (by rw [List.length_dropLast]; omega)
      · exact (ih (parts ++ [t])).trans (by rw [List.length_append, List.length_singleton]; omega)
      · omega
  have hloop := hgrow before []
  unfold MAX_PATH at h
  rw [List.length_nil] at hloop
  omega

/-- `SftpNormalize` prints the components that remain, its array of parts has an entry free for each
of them, and on paths that start with a separator it is idempotent, and `SftpIsSamePath` the
equality of the components. -/
theorem sftpNormalize_reference :
    (∀ path : CStr, path.length < MAX_PATH →
      sftpNormalize path = absolute slash (reduce dot dotdot (tokens isSlash path))) ∧
    (∀ path : CStr, path.length < MAX_PATH →
      ∀ before tok after, tokens isSlash path = before ++ tok :: after →
      (normalizeLoop before []).length < 256) ∧
    (∀ p : SeparatedPath, sftpNormalize (sftpNormalize p.text) = sftpNormalize p.text) ∧
    (∀ a b : SeparatedPath, sftpIsSamePath a.text b.text = true ↔
      reduce dot dotdot (tokens isSlash a.text) = reduce dot dotdot (tokens isSlash b.text)) ∧
    Equivalence fun a b : SeparatedPath => sftpIsSamePath a.text b.text = true := by
  have hsame : ∀ a b : SeparatedPath, sftpIsSamePath a.text b.text = true ↔
      comps a.text = comps b.text := by
    intro a b
    rw [sftpIsSamePath_iff, lstrcpyn_eq_self a.fits, lstrcpyn_eq_self b.fits]
  refine ⟨fun path h => sftpNormalize_of_fits h,
    fun path h before tok after => length_normalizeLoop_lt h,
    sftpNormalize_idempotent, hsame, ⟨fun a => (hsame a a).mpr rfl, ?_, ?_⟩⟩
  · intro a b h
    exact (hsame b a).mpr ((hsame a b).mp h).symm
  · intro a b c h h'
    exact (hsame a c).mpr (((hsame a b).mp h).trans ((hsame b c).mp h'))

/-- The laws for one path, with its components "a", "..", "b" and ".". -/
theorem sftpNormalize_reference_dots : sftpNormalize (ascii "\\a\\../b/./") = ascii "/b" := by
  have hfits : (ascii "\\a\\../b/./").length < MAX_PATH := by decide
  rw [sftpNormalize_reference.1 _ hfits]
  decide +kernel

/-! ## Children and parents -/

/-- A name as a POSIX server can have it in a directory. -/
structure EntryName (name : CStr) : Prop where
  ne_nil : name ≠ []
  noSlash : slash ∉ name
  ne_dot : name ≠ dot
  ne_dotdot : name ≠ dotdot

/-- The directory, a slash and the name. -/
def childPath (dir name : CStr) :
    CStr := if dir = [slash] then slash :: name else dir ++ slash :: name

/-- `SftpJoin` makes the path of the child, its last component is the name, and `SftpParent` takes
it back. -/
structure JoinedRight (dir name : CStr) : Prop where
  text : sftpJoin dir name MAX_PATH = childPath dir name
  last : (splitLast (· == slash) (sftpJoin dir name MAX_PATH)).map Prod.snd = some name
  parent : sftpParent (sftpJoin dir name MAX_PATH) MAX_PATH = dir

/-- The name has no backslash, and the path of the child fits. -/
structure Joinable (dir name : CStr) : Prop where
  noBackslash : backslash ∉ name
  fits : (childPath dir name).length < MAX_PATH

/-- A path that `SftpNormalize` leaves alone is the print of its components. -/
theorem exists_parts_of_canonical {dir : CStr} (h : sftpNormalize dir = dir) :
    ∃ cs, PlainParts cs ∧ dir = absolute slash cs ∧ dir.length < MAX_PATH := by
  have heq := sftpNormalize_eq dir
  rw [h] at heq
  refine ⟨_, plainParts_comps _, heq, ?_⟩
  have hsep : ∃ c ∈ dir.head?, isSlash c = true := by
    rw [heq]
    exact ⟨slash, rfl, by decide⟩
  have hle := length_sftpNormalize_of_separated hsep
  have hcut := length_lstrcpyn_le dir MAX_PATH
  rw [h] at hle
  unfold MAX_PATH at *
  omega

theorem backslash_notMem_sftpNormalize (s : CStr) : backslash ∉ sftpNormalize s := by
  rw [sftpNormalize_eq]
  have hwhole := (plainParts_comps (lstrcpyn s MAX_PATH)).whole
  generalize comps (lstrcpyn s MAX_PATH) = cs at hwhole
  induction cs using List.reverseRecOn with
  | nil =>
    rw [absolute_nil]
    decide
  | append_singleton cs t ih =>
    have ht : backslash ∉ t :=
      fun hmem => absurd ((hwhole t (by simp)).2 backslash hmem) (by decide)
    have hcons : backslash ∉ slash :: t := by
      rw [List.mem_cons, not_or]
      exact ⟨by decide, ht⟩
    by_cases hnil : cs = []
    · subst hnil
      rw [List.nil_append, absolute_singleton]
      exact hcons
    · rw [absolute_concat slash hnil, List.mem_append, not_or]
      exact ⟨ih fun u hu => hwhole u (by simp [hu]), hcons⟩

theorem length_sftpJoin_lt {cs : List CStr} (h : PlainParts cs)
    (hfits : (absolute slash cs).length < MAX_PATH)
    (name : CStr) : (sftpJoin (absolute slash cs) name MAX_PATH).length < MAX_PATH := by
  have hsep : ∃ c ∈ (lstrcpyn (joinBase (absolute slash cs) ++ slash :: name) MAX_PATH).head?,
      isSlash c = true := by
    refine ⟨slash, ?_, by decide⟩
    rw [joinBase_absolute h hfits]
    split_ifs <;> rfl
  unfold sftpJoin
  refine (length_sftpNormalize_of_separated hsep).trans_lt ?_
  rw [lstrcpyn_lstrcpyn]
  exact (length_lstrcpyn_le _ _).trans_lt (by decide)

theorem EntryName.plainParts {name : CStr} (h : EntryName name) (hback : backslash ∉ name) :
    PlainParts [name] := by
  refine ⟨whole_singleton.mpr ⟨h.ne_nil, fun c hc => ?_⟩,
    clean_singleton.mpr ⟨h.ne_dot, h.ne_dotdot⟩⟩
  unfold isSlash
  rw [Bool.or_eq_false_iff, beq_eq_false_iff_ne, beq_eq_false_iff_ne]
  exact ⟨fun heq => h.noSlash (heq ▸ hc), fun heq => hback (heq ▸ hc)⟩

theorem childPath_absolute {cs : List CStr} (h : PlainParts cs) (name : CStr) :
    childPath (absolute slash cs) name = absolute slash (cs ++ [name]) := by
  unfold childPath
  by_cases hnil : cs = []
  · subst hnil
    rw [absolute_nil, if_pos rfl, List.nil_append, absolute_singleton]
  · rw [absolute_concat slash hnil, if_neg]
    intro hroot
    have hcs := comps_absolute h
    rw [hroot, ← absolute_nil slash, comps_absolute plainParts_nil] at hcs
    exact hnil hcs.symm

/-- The parent of a child is its directory. -/
theorem sftpParent_absolute {cs : List CStr} {name : CStr} (hname : slash ∉ name)
    (hfits : (absolute slash (cs ++ [name])).length < MAX_PATH) :
    splitLast (· == slash) (absolute slash (cs ++ [name])) =
      some (if cs = [] then [] else absolute slash cs, name) ∧
      sftpParent (absolute slash (cs ++ [name])) MAX_PATH = absolute slash cs := by
  have hafter : ∀ d ∈ name, (d == slash) = false :=
    fun d hd => beq_eq_false_iff_ne.mpr fun heq => hname (heq ▸ hd)
  have hsplit : splitLast (· == slash) (absolute slash (cs ++ [name])) =
      some (if cs = [] then [] else absolute slash cs, name) := by
    split_ifs with hnil
    · subst hnil
      rw [List.nil_append, absolute_singleton]
      exact splitLast_append (by decide) [] hafter
    · rw [absolute_concat slash hnil]
      exact splitLast_append (by decide) _ hafter
  refine ⟨hsplit, ?_⟩
  have hne : absolute slash (cs ++ [name]) ≠ [] := by simp [absolute]
  unfold sftpParent
  rw [if_neg hne, lstrcpyn_eq_self hfits]
  dsimp only
  rw [hsplit]
  dsimp only
  split_ifs with hnil hempty
  · rw [hnil, absolute_nil]
  · exact absurd rfl hempty
  · next habs => simp [absolute] at habs
  · rfl

theorem joinedRight_iff {dir name : CStr} (hdir : sftpNormalize dir = dir)
    (hname : EntryName name) :
    JoinedRight dir name ↔ Joinable dir name := by
  obtain ⟨cs, hcs, rfl, hfits⟩ := exists_parts_of_canonical hdir
  constructor
  · intro h
    refine ⟨fun hback => ?_, ?_⟩
    · refine backslash_notMem_sftpNormalize
        (lstrcpyn (joinBase (absolute slash cs) ++ slash :: name) MAX_PATH) ?_
      have htext : sftpNormalize
          (lstrcpyn (joinBase (absolute slash cs) ++ slash :: name) MAX_PATH) = _ := h.text
      rw [htext]
      unfold childPath
      split_ifs <;> simp [hback]
    · rw [← h.text]
      exact length_sftpJoin_lt hcs hfits name
  · intro h
    have hlen := h.fits
    rw [childPath_absolute hcs] at hlen
    have hjoin := sftpJoin_absolute (hcs.append (hname.plainParts h.noBackslash)) hlen
    obtain ⟨hsplit, hparent⟩ := sftpParent_absolute hname.noSlash hlen
    refine ⟨?_, ?_, ?_⟩
    · rw [hjoin, childPath_absolute hcs]
    · rw [hjoin, hsplit]
      rfl
    · rw [hjoin, hparent]

/-- Child and parent are inverse, and children distinct, exactly for names without a backslash whose
paths fit. -/
theorem child_parent_iff {dir name₁ name₂ : CStr}
    (hdir : sftpNormalize dir = dir) (h₁ : EntryName name₁)
    (h₂ : EntryName name₂) :
    (JoinedRight dir name₁ ∧ JoinedRight dir name₂ ∧
      (name₁ ≠ name₂ → sftpJoin dir name₁ MAX_PATH ≠ sftpJoin dir name₂ MAX_PATH)) ↔
      Joinable dir name₁ ∧ Joinable dir name₂ := by
  rw [joinedRight_iff hdir h₁, joinedRight_iff hdir h₂]
  refine ⟨fun h => ⟨h.1, h.2.1⟩, fun h => ⟨h.1, h.2, fun hne heq => hne ?_⟩⟩
  have hlast₁ := ((joinedRight_iff hdir h₁).mpr h.1).last
  have hlast₂ := ((joinedRight_iff hdir h₂).mpr h.2).last
  rw [heq, hlast₂] at hlast₁
  exact (Option.some.inj hlast₁).symm

theorem child_parent_iff_plain :
    JoinedRight (ascii "/home") (ascii "a") ∧ JoinedRight (ascii "/home") (ascii "b") ∧
    (ascii "a" ≠ ascii "b" → sftpJoin (ascii "/home") (ascii "a") MAX_PATH ≠
      sftpJoin (ascii "/home") (ascii "b") MAX_PATH) :=
  (child_parent_iff (by decide +kernel) ⟨by decide, by decide, by decide, by decide⟩
    ⟨by decide, by decide, by decide, by decide⟩).mpr
    ⟨⟨by decide, by decide⟩, ⟨by decide, by decide⟩⟩

/-- A name with a backslash becomes two components. -/
theorem not_child_parent :
    ¬ ∀ dir name₁ name₂ : CStr, sftpNormalize dir = dir → EntryName name₁ → EntryName name₂ →
    JoinedRight dir name₁ ∧ JoinedRight dir name₂ ∧
      (name₁ ≠ name₂ → sftpJoin dir name₁ MAX_PATH ≠ sftpJoin dir name₂ MAX_PATH) := by
  intro h
  have hname : EntryName (ascii "a\\b") := ⟨by decide, by decide, by decide, by decide⟩
  have hjoined := (h (ascii "/home") _ _ (by decide +kernel) hname hname).1
  exact absurd hjoined.text (by decide +kernel)

end SalamanderSftp
