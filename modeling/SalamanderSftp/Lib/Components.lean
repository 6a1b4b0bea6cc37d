import Mathlib

/-!
# Path components

A text over an arbitrary alphabet is cut at separators into non-empty components (`tokens`).
A component list is reduced (`reduce`) by dropping the *self* component and letting the
*parent* component remove the one before it, never going above the root. `absolute` prints
components behind one separator each; on clean lists it is inverted by `tokens`.
-/

namespace Components

variable {α : Type*}

/-! ## Cutting at separators -/

/-- The maximal non-empty runs of non-separators, in order. -/
def tokens (sep : α → Bool) (s : List α) : List (List α) :=
  (s.splitOnP sep).filter (· ≠ [])

@[simp] theorem tokens_nil (sep : α → Bool) : tokens sep ([] : List α) = [] := by
  simp [tokens, List.splitOnP_nil]

theorem tokens_append_cons {sep : α → Bool} (s t : List α) {c : α} (hc : sep c = true) :
    tokens sep (s ++ c :: t) = tokens sep s ++ tokens sep t := by
  unfold tokens
  rw [List.splitOnP_append_cons s t hc, List.filter_append]

theorem tokens_cons {sep : α → Bool} (t : List α) {c : α} (hc : sep c = true) :
    tokens sep (c :: t) = tokens sep t := by
  simpa using tokens_append_cons [] t hc

theorem tokens_eq_singleton {sep : α → Bool} {s : List α} (hne : s ≠ [])
    (hs : ∀ c ∈ s, sep c = false) : tokens sep s = [s] := by
  unfold tokens
  rw [List.splitOnP_eq_singleton hs]
  simp [hne]

theorem not_sep_of_mem_splitOnP {sep : α → Bool} :
    ∀ {s : List α}, ∀ t ∈ s.splitOnP sep, ∀ c ∈ t, sep c = false := by
  intro s
  induction s with
  | nil => simp [List.splitOnP_nil]
  | cons x xs ih =>
    intro t ht c hc
    rw [List.splitOnP_cons_eq_if_modifyHead] at ht
    by_cases hx : sep x = true
    · rw [if_pos hx] at ht
      rcases List.mem_cons.mp ht with rfl | ht
      · simp at hc
      · exact ih t ht c hc
    · rw [if_neg hx] at ht
      obtain ⟨u, us, hus⟩ := List.exists_cons_of_ne_nil (List.splitOnP_ne_nil sep xs)
      rw [hus, List.modifyHead_cons] at ht
      rcases List.mem_cons.mp ht with rfl | ht
      · rcases List.mem_cons.mp hc with rfl | hc
        · simpa using hx
        · exact ih u (by simp [hus]) c hc
      · exact ih t (by simp [hus, ht]) c hc

theorem ne_nil_of_mem_tokens {sep : α → Bool} {s t : List α} (ht : t ∈ tokens sep s) : t ≠ [] := by
  simpa using (List.mem_filter.mp ht).2

theorem not_sep_of_mem_tokens {sep : α → Bool} {s t : List α} (ht : t ∈ tokens sep s) :
    ∀ c ∈ t, sep c = false :=
  not_sep_of_mem_splitOnP t (List.mem_filter.mp ht).1

theorem tokens_dropWhile (sep : α → Bool) (s : List α) :
    tokens sep (s.dropWhile sep) = tokens sep s := by
  induction s with
  | nil => rfl
  | cons c s ih =>
    by_cases hc : sep c = true
    · rw [List.dropWhile_cons_of_pos hc, ih, tokens_cons s hc]
    · rw [List.dropWhile_cons_of_neg hc]

/-- A text that starts with a component: cut it off. -/
theorem tokens_eq_cons {sep : α → Bool} {s : List α} (h : s.takeWhile (!sep ·) ≠ []) :
    tokens sep s = s.takeWhile (!sep ·) :: tokens sep (s.dropWhile (!sep ·)) := by
  have hfirst : tokens sep (s.takeWhile (!sep ·)) = [s.takeWhile (!sep ·)] :=
    tokens_eq_singleton h fun c hc => by simpa using List.mem_takeWhile_imp hc
  conv_lhs => rw [← List.takeWhile_append_dropWhile (p := (!sep ·)) (l := s)]
  rcases hd : s.dropWhile (!sep ·) with _ | ⟨c, t⟩
  · rw [List.append_nil, hfirst, tokens_nil]
  · have hc : sep c = true := by
      have := List.head_dropWhile_not (p := (!sep ·)) (l := s) (by simp [hd])
      simpa [hd] using this
    rw [tokens_append_cons _ _ hc, hfirst, tokens_cons t hc, List.singleton_append]

theorem tokens_eq_nil {sep : α → Bool} {s : List α}
    (h : (s.dropWhile sep).takeWhile (!sep ·) = []) :
    tokens sep s = [] := by
  rw [← tokens_dropWhile]
  rcases hd : s.dropWhile sep with _ | ⟨c, t⟩
  · exact tokens_nil sep
  · have hc : sep c = false := by
      have := List.head_dropWhile_not (p := sep) (l := s) (by simp [hd])
      simpa [hd] using this
    simp [hd, hc] at h

theorem length_splitOnP_add_sum (sep : α → Bool) (s : List α) :
    ((s.splitOnP sep).map List.length).sum + (s.splitOnP sep).length = s.length + 1 := by
  induction s with
  | nil => simp [List.splitOnP_nil]
  | cons x xs ih =>
    rw [List.splitOnP_cons_eq_if_modifyHead]
    obtain ⟨u, us, hus⟩ := List.exists_cons_of_ne_nil (List.splitOnP_ne_nil sep xs)
    rw [hus] at ih ⊢
    split_ifs <;> simp at ih ⊢ <;> omega

/-- What stands in front without a separator joins the first piece. -/
theorem splitOnP_append_of_forall {sep : α → Bool} {s : List α} (h : ∀ d ∈ s, sep d = false)
    (t : List α) : (s ++ t).splitOnP sep = (t.splitOnP sep).modifyHead (s ++ ·) := by
  induction s with
  | nil =>
    obtain ⟨u, us, hus⟩ := List.exists_cons_of_ne_nil (List.splitOnP_ne_nil sep t)
    rw [List.nil_append, hus, List.modifyHead_cons, List.nil_append]
  | cons d s ih =>
    have hd : ¬ sep d = true := by rw [h d List.mem_cons_self]; exact Bool.false_ne_true
    rw [List.cons_append, List.splitOnP_cons_eq_if_modifyHead, if_neg hd,
      ih fun e he => h e (List.mem_cons_of_mem _ he), List.modifyHead_modifyHead]
    rfl

/-- Every component costs at least one character, and all but one a separator too. -/
theorem two_mul_length_tokens_le (sep : α → Bool) (s : List α) :
    2 * (tokens sep s).length ≤ s.length + 1 := by
  have hsum :
      ∀ l : List (List α), 2 * (l.filter (· ≠ [])).length ≤ (l.map List.length).sum + l.length := by
    intro l
    induction l with
    | nil => simp
    | cons t l ih =>
      by_cases ht : t = []
      · subst ht; simp at ih ⊢; omega
      · have hpos : 0 < t.length := List.length_pos_of_ne_nil ht
        simp [ht] at ih ⊢; omega
  exact (hsum _).trans (length_splitOnP_add_sum sep s).le

/-- Characters may be renamed as long as separators stay separators. -/
theorem tokens_map {β : Type*} (sep : α → Bool) {sep' : β → Bool} (f : α → β) (s : List α)
    (h : ∀ c ∈ s, sep' (f c) = sep c) :
    tokens sep' (s.map f) = (tokens sep s).map (List.map f) := by
  have hsplit : (s.map f).splitOnP sep' = (s.splitOnP sep).map (List.map f) := by
    induction s with
    | nil => simp [List.splitOnP_nil]
    | cons x xs ih =>
      have hxs := ih fun c hc => h c (List.mem_cons_of_mem _ hc)
      rw [List.map_cons, List.splitOnP_cons_eq_if_modifyHead, List.splitOnP_cons_eq_if_modifyHead,
        h x (by simp), hxs]
      obtain ⟨u, us, hus⟩ := List.exists_cons_of_ne_nil (List.splitOnP_ne_nil sep xs)
      rw [hus]
      split_ifs <;> simp
  unfold tokens
  rw [hsplit, List.filter_map]
  congr 1
  exact List.filter_congr fun t _ => by simp

/-! ## Cutting at the first occurrence -/

/-- The text before the first `c`, and the text behind it when there is one. -/
def cutAt [BEq α] (c : α) (s : List α) : List α × Option (List α) :=
  (s.takeWhile (· != c), (s.dropWhile (· != c)).tail?)

section CutAt

variable [BEq α] [LawfulBEq α] {c : α} {s : List α}

theorem cutAt_of_notMem (h : c ∉ s) : cutAt c s = (s, none) := by
  have hall : ∀ d ∈ s, (d != c) = true := fun d hd => bne_iff_ne.mpr fun heq => h (heq ▸ hd)
  unfold cutAt
  rw [List.takeWhile_eq_self_iff.mpr hall, List.dropWhile_eq_nil_iff.mpr hall]
  rfl

theorem cutAt_append (h : c ∉ s) (t : List α) : cutAt c (s ++ c :: t) = (s, some t) := by
  have hall : ∀ d ∈ s, (d != c) = true := fun d hd => bne_iff_ne.mpr fun heq => h (heq ▸ hd)
  unfold cutAt
  rw [List.takeWhile_append_of_pos hall, List.dropWhile_append_of_pos hall,
    List.takeWhile_cons_of_neg (by simp),
    List.dropWhile_cons_of_neg (by simp), List.append_nil]
  rfl

/-- The last `c` splits a list in one way. -/
theorem append_cons_inj_last {xs ys xs' ys' : List α} (h : c ∉ ys) (h' : c ∉ ys')
    (heq : xs ++ c :: ys = xs' ++ c :: ys') : xs = xs' ∧ ys = ys' := by
  have hrev : ∀ xs ys : List α, (xs ++ c :: ys).reverse = ys.reverse ++ c :: xs.reverse :=
    fun xs ys => by simp
  have hcut := cutAt_append (by simpa using h : c ∉ ys.reverse) xs.reverse
  rw [← hrev, heq, hrev, cutAt_append (by simpa using h')] at hcut
  obtain ⟨hys, hxs⟩ := Prod.mk.inj hcut
  exact ⟨List.reverse_injective (Option.some.inj hxs).symm, List.reverse_injective hys.symm⟩

end CutAt

/-! ## Cutting at the first occurrence of a text -/

section FindText

variable [DecidableEq α] {pat s t before after : List α}

/-- The text before the first occurrence of `pat`, and the text from there on. -/
def findText (pat : List α) : List α → Option (List α × List α)
  | [] => if pat = [] then some ([], []) else none
  | c :: s => if pat <+: c :: s then some ([], c :: s) else (findText pat s).map fun r =>
    (c :: r.1, r.2)

theorem findText_of_prefix (h : pat <+: s) : findText pat s = some ([], s) := by
  rcases s with _ | ⟨c, s⟩
  · rw [findText, if_pos (List.prefix_nil.mp h)]
  · rw [findText, if_pos h]

/-- What is found lies no later than any other occurrence. -/
theorem exists_findText (h : pat <+: t) : ∃ before after,
    findText pat (s ++ t) = some (before, after) ∧ before <+: s := by
  induction s with
  | nil => exact ⟨[], t, findText_of_prefix h, List.prefix_rfl⟩
  | cons c s ih =>
    rw [List.cons_append, findText]
    by_cases hc : pat <+: c :: (s ++ t)
    · exact ⟨[], _, if_pos hc, List.nil_prefix⟩
    · obtain ⟨before, after, hfind, hbefore⟩ := ih
      refine ⟨c :: before, after, ?_, (List.cons_prefix_cons).mpr ⟨rfl, hbefore⟩⟩
      rw [if_neg hc, hfind]
      rfl

theorem findText_eq_none (h : ¬ pat <:+: s) : findText pat s = none := by
  induction s with
  | nil =>
    rw [findText, if_neg]
    rintro rfl
    exact h List.infix_rfl
  | cons c s ih =>
    rw [findText, if_neg fun hc => h hc.isInfix,
      ih fun hs => h (hs.trans (List.suffix_cons c s).isInfix)]
    rfl

theorem findText_isNone_iff : (findText pat s).isNone = true ↔ ¬ pat <:+: s := by
  constructor
  · rintro hnone ⟨before, after, rfl⟩
    obtain ⟨_, _, hfind, -⟩ := exists_findText (s := before) (List.prefix_append pat after)
    rw [List.append_assoc, hfind] at hnone
    cases hnone
  · intro h
    rw [findText_eq_none h]
    rfl

omit [DecidableEq α] in
/-- An occurrence is not in what has none of its characters. -/
theorem infix_append_iff (hne : pat ≠ []) {u : List α} (h : ∀ c ∈ pat, c ∉ u) :
    pat <:+: u ++ s ↔ pat <:+: s := by
  induction u with
  | nil => rfl
  | cons d u ih =>
    rw [List.cons_append, List.infix_cons_iff,
      ih fun c hc hmem => h c hc (List.mem_cons_of_mem _ hmem)]
    refine or_iff_right fun hpre => ?_
    obtain ⟨c, pat, rfl⟩ := List.exists_cons_of_ne_nil hne
    exact h c List.mem_cons_self ((List.cons_prefix_cons.mp hpre).1 ▸ List.mem_cons_self)

omit [DecidableEq α] in
theorem infix_append_iff_left (hne : pat ≠ []) {u : List α} (h : ∀ c ∈ pat, c ∉ u) :
    pat <:+: s ++ u ↔ pat <:+: s := by
  rw [← List.reverse_infix, List.reverse_append,
    infix_append_iff (mt List.reverse_eq_nil_iff.mp hne),
    List.reverse_infix]
  exact fun c hc hmem => h c (List.mem_reverse.mp hc) (List.mem_reverse.mp hmem)

omit [DecidableEq α] in
/-- An occurrence does not go over a character that it does not have. -/
theorem prefix_of_prefix_append_cons {c : α} (hc : c ∉ pat) (h : pat <+: s ++ c :: t) :
    pat <+: s := by
  induction s generalizing pat with
  | nil =>
    rcases pat with _ | ⟨d, pat⟩
    · exact List.nil_prefix
    · obtain ⟨rfl, -⟩ := List.cons_prefix_cons.mp h
      exact absurd List.mem_cons_self hc
  | cons d s ih =>
    rcases pat with _ | ⟨e, pat⟩
    · exact List.nil_prefix
    · obtain ⟨rfl, hrest⟩ := List.cons_prefix_cons.mp h
      exact List.cons_prefix_cons.mpr ⟨rfl, ih (fun hmem => hc (List.mem_cons_of_mem _ hmem)) hrest⟩

/-- A part without an occurrence is passed over, with the separator behind it. -/
theorem findText_append_cons {c : α} (hc : c ∉ pat) (h : ¬ pat <:+: s) (t : List α) :
    findText pat (s ++ c :: t) = (findText pat t).map fun r => (s ++ c :: r.1, r.2) := by
  induction s with
  | nil =>
    have hfirst : ¬ pat <+: c :: t := fun hpre =>
      h (prefix_of_prefix_append_cons (s := []) hc hpre).isInfix
    rw [List.nil_append, findText, if_neg hfirst]
    rfl
  | cons d s ih =>
    have hfirst : ¬ pat <+: d :: (s ++ c :: t) := fun hpre =>
      h (prefix_of_prefix_append_cons (s := d :: s) hc hpre).isInfix
    have hrest : ¬ pat <:+: s := fun hs => h (hs.trans (List.suffix_cons d s).isInfix)
    rw [List.cons_append, findText, if_neg hfirst, ih hrest, Option.map_map]
    rfl

end FindText

/-! ## Reducing self and parent components -/

section Reduce

variable [DecidableEq α] (self parent : List α)

/-- One component met on the way down: skip *self*, go up at *parent*, descend otherwise. -/
def push (st : List (List α)) (t : List α) : List (List α) :=
  if t = self then st else if t = parent then st.dropLast else st ++ [t]

/-- The components that remain, starting from `st`. -/
def reduceFrom (st ts : List (List α)) : List (List α) := ts.foldl (push self parent) st

/-- The components that remain, starting from the root. -/
def reduce (ts : List (List α)) : List (List α) := reduceFrom self parent [] ts

/-- A component list without *self* and *parent*. -/
def Clean (ts : List (List α)) : Prop := ∀ t ∈ ts, t ≠ self ∧ t ≠ parent

variable {self parent}

omit [DecidableEq α] in
theorem Clean.append {xs ys : List (List α)} (hx : Clean self parent xs)
    (hy : Clean self parent ys) :
    Clean self parent (xs ++ ys) := by
  intro t ht
  rcases List.mem_append.mp ht with h | h
  · exact hx t h
  · exact hy t h

omit [DecidableEq α] in
theorem clean_nil : Clean self parent ([] : List (List α)) := by
  intro t ht; simp at ht

omit [DecidableEq α] in
theorem clean_singleton {t : List α} : Clean self parent [t] ↔ t ≠ self ∧ t ≠ parent := by
  simp [Clean]

theorem reduceFrom_eq_append {ts : List (List α)} (h : Clean self parent ts) (st : List (List α)) :
    reduceFrom self parent st ts = st ++ ts := by
  induction ts generalizing st with
  | nil => simp [reduceFrom]
  | cons t ts ih =>
    have ht := h t (by simp)
    have hrest : Clean self parent ts := fun u hu => h u (List.mem_cons_of_mem _ hu)
    have hstep : reduceFrom self parent st (t :: ts) = reduceFrom self parent (st ++ [t]) ts := by
      simp [reduceFrom, push, ht.1, ht.2]
    rw [hstep, ih hrest, List.append_assoc, List.singleton_append]

theorem reduce_eq_self {ts : List (List α)} (h : Clean self parent ts) :
    reduce self parent ts = ts :=
  reduceFrom_eq_append h []

theorem clean_push {st : List (List α)} (h : Clean self parent st) (t : List α) :
    Clean self parent (push self parent st t) := by
  unfold push
  split_ifs with h1 h2
  · exact h
  · exact fun u hu => h u (List.dropLast_subset st hu)
  · exact h.append (clean_singleton.mpr ⟨h1, h2⟩)

theorem clean_reduceFrom {st : List (List α)} (h : Clean self parent st) (ts : List (List α)) :
    Clean self parent (reduceFrom self parent st ts) := by
  induction ts generalizing st with
  | nil => exact h
  | cons t ts ih => exact ih (clean_push h t)

/-- Nothing is left to reduce. -/
theorem clean_reduce (ts : List (List α)) : Clean self parent (reduce self parent ts) :=
  clean_reduceFrom clean_nil ts

theorem mem_reduceFrom {st ts : List (List α)} {t : List α} (h : t ∈ reduceFrom self parent st ts) :
    t ∈ st ∨ t ∈ ts := by
  induction ts generalizing st with
  | nil => exact Or.inl h
  | cons u ts ih =>
    rcases ih h with h | h
    · unfold push at h
      split_ifs at h
      · exact Or.inl h
      · exact Or.inl (List.dropLast_subset st h)
      · rcases List.mem_append.mp h with h | h
        · exact Or.inl h
        · exact Or.inr (by simp at h; simp [h])
    · exact Or.inr (List.mem_cons_of_mem _ h)

theorem mem_of_mem_reduce {ts : List (List α)} {t : List α} (h : t ∈ reduce self parent ts) :
    t ∈ ts := by
  simpa using mem_reduceFrom h

end Reduce

/-! ## Printing -/

/-- Each component behind one separator; the root is a single separator. -/
def absolute (c : α) (ts : List (List α)) : List α := c :: [c].intercalate ts

theorem absolute_nil (c : α) : absolute c ([] : List (List α)) = [c] := by
  simp [absolute]

theorem absolute_singleton (c : α) (t : List α) : absolute c [t] = c :: t := by
  simp [absolute]

theorem absolute_concat (c : α) {ts : List (List α)} (h : ts ≠ []) (t : List α) :
    absolute c (ts ++ [t]) = absolute c ts ++ c :: t := by
  induction ts with
  | nil => exact absurd rfl h
  | cons u us ih =>
    rcases us with _ | ⟨v, vs⟩
    · simp [absolute, List.intercalate]
    · have := ih (by simp)
      simp only [absolute, List.cons_append, List.cons.injEq, true_and, List.intercalate] at this ⊢
      simp [this]

/-- Components as `tokens` returns them: not empty and free of separators. -/
def Whole (sep : α → Bool) (ts : List (List α)) : Prop := ∀ t ∈ ts, t ≠ [] ∧ ∀ c ∈ t, sep c = false

theorem whole_tokens (sep : α → Bool) (s : List α) : Whole sep (tokens sep s) :=
  fun _ ht => ⟨ne_nil_of_mem_tokens ht, not_sep_of_mem_tokens ht⟩

theorem Whole.append {sep : α → Bool} {xs ys : List (List α)}
    (hx : Whole sep xs) (hy : Whole sep ys) :
    Whole sep (xs ++ ys) := by
  intro t ht
  rcases List.mem_append.mp ht with h | h
  · exact hx t h
  · exact hy t h

theorem whole_singleton {sep : α → Bool} {t : List α} :
    Whole sep [t] ↔ t ≠ [] ∧ ∀ c ∈ t, sep c = false := by
  simp [Whole]

/-- Printed components are read back. -/
theorem tokens_absolute {sep : α → Bool} {c : α} (hc : sep c = true) {ts : List (List α)}
    (h : Whole sep ts) : tokens sep (absolute c ts) = ts := by
  induction ts using List.reverseRecOn with
  | nil => rw [absolute_nil, tokens_cons _ hc, tokens_nil]
  | append_singleton ts t ih =>
    have ht := h t (by simp)
    have hts : Whole sep ts := fun u hu => h u (by simp [hu])
    by_cases hnil : ts = []
    · subst hnil
      rw [List.nil_append, absolute_singleton, tokens_cons _ hc, tokens_eq_singleton ht.1 ht.2]
    · rw [absolute_concat c hnil, tokens_append_cons _ _ hc, ih hts, tokens_eq_singleton ht.1 ht.2]

end Components
