import SalamanderSftp.Lib.Components

/-!
# The length of a reduced path

A component costs its characters and one separator. Cutting a text keeps its cost; dropping empty
components and reducing lower it. So what is printed of a text is at most one character longer than
the text, and it is longer only if nothing was dropped (`cost_reduce_tokens_eq_iff`).
-/

namespace Components

variable {α : Type*}

/-- The characters of the components, and a separator for each. -/
def cost (ts : List (List α)) : ℕ := (ts.map fun t => t.length + 1).sum

@[simp] theorem cost_nil : cost ([] : List (List α)) = 0 := rfl

@[simp] theorem cost_cons (t : List α) (ts : List (List α)) :
    cost (t :: ts) = t.length + 1 + cost ts := by
  simp [cost]

@[simp] theorem cost_append (xs ys : List (List α)) : cost (xs ++ ys) = cost xs + cost ys := by
  simp [cost]

theorem cost_eq (ts : List (List α)) : cost ts = (ts.map List.length).sum + ts.length := by
  induction ts with
  | nil => rfl
  | cons t ts ih =>
    rw [cost_cons, ih, List.map_cons, List.sum_cons, List.length_cons]
    omega

theorem cost_splitOnP (sep : α → Bool) (s : List α) : cost (s.splitOnP sep) = s.length + 1 := by
  rw [cost_eq, length_splitOnP_add_sum]

theorem length_absolute (c : α) {ts : List (List α)} (h : ts ≠ []) :
    (absolute c ts).length = cost ts := by
  induction ts using List.reverseRecOn with
  | nil => exact absurd rfl h
  | append_singleton ts t ih =>
    by_cases hnil : ts = []
    · subst hnil
      simp [absolute_singleton]
    · rw [absolute_concat c hnil, List.length_append, ih hnil, List.length_cons]
      simp

theorem length_absolute_le (c : α) (ts : List (List α)) :
    (absolute c ts).length ≤ max 1 (cost ts) := by
  by_cases h : ts = []
  · rw [h, absolute_nil]
    simp
  · rw [length_absolute c h]
    exact le_max_right _ _

/-! ## What is dropped -/

theorem cost_dropLast_le (ts : List (List α)) : cost ts.dropLast ≤ cost ts := by
  induction ts using List.reverseRecOn with
  | nil => simp
  | append_singleton ts t _ => simp

theorem cost_filter_le (ts : List (List α)) : cost (ts.filter (· ≠ [])) ≤ cost ts := by
  induction ts with
  | nil => simp
  | cons t ts ih =>
    by_cases ht : t = []
    · subst ht
      simp only [ne_eq, not_true_eq_false, decide_false, Bool.false_eq_true, not_false_eq_true,
        List.filter_cons_of_neg,
        cost_cons, List.length_nil]
      simp only [ne_eq] at ih
      omega
    · rw [List.filter_cons_of_pos (by simp [ht]), cost_cons, cost_cons]
      omega

theorem cost_filter_eq_iff (ts : List (List α)) :
    cost (ts.filter (· ≠ [])) = cost ts ↔ [] ∉ ts := by
  induction ts with
  | nil => simp
  | cons t ts ih =>
    by_cases ht : t = []
    · subst ht
      have hle := cost_filter_le ts
      rw [List.filter_cons_of_neg (by simp), cost_cons, List.length_nil]
      refine ⟨fun h => by omega, fun h => absurd List.mem_cons_self h⟩
    · rw [List.filter_cons_of_pos (by simp [ht]), cost_cons, cost_cons, Nat.add_left_cancel_iff, ih]
      simp [Ne.symm ht]

section Reduce

variable [DecidableEq α] (self parent : List α)

theorem cost_push_le (st : List (List α)) (t : List α) :
    cost (push self parent st t) ≤ cost st + (t.length + 1) := by
  unfold push
  split_ifs
  · omega
  · have := cost_dropLast_le st
    omega
  · simp

theorem cost_push_eq_iff (st : List (List α)) (t : List α) :
    cost (push self parent st t) = cost st + (t.length + 1) ↔ t ≠ self ∧ t ≠ parent := by
  unfold push
  split_ifs with hself hparent
  · simp [hself]
  · have hle := cost_dropLast_le st
    exact ⟨fun h => by omega, fun h => absurd hparent h.2⟩
  · simp [hself, hparent]

theorem cost_reduceFrom_le (st ts : List (List α)) :
    cost (reduceFrom self parent st ts) ≤ cost st + cost ts := by
  induction ts generalizing st with
  | nil => simp [reduceFrom]
  | cons t ts ih =>
    have hpush := cost_push_le self parent st t
    have hrest := ih (push self parent st t)
    rw [cost_cons]
    exact hrest.trans (by omega)

theorem cost_reduceFrom_eq_iff (st ts : List (List α)) :
    cost (reduceFrom self parent st ts) = cost st + cost ts ↔ Clean self parent ts := by
  induction ts generalizing st with
  | nil => simp [reduceFrom, Clean]
  | cons t ts ih =>
    have hstep : reduceFrom self parent st (t :: ts) =
        reduceFrom self parent (push self parent st t) ts := rfl
    have hpush := cost_push_le self parent st t
    have hrest := cost_reduceFrom_le self parent (push self parent st t) ts
    have hclean : Clean self parent (t :: ts) ↔ (t ≠ self ∧ t ≠ parent) ∧ Clean self parent ts :=
      List.forall_mem_cons
    rw [hstep, cost_cons, hclean, ← ih (push self parent st t), ← cost_push_eq_iff self parent st t]
    omega

/-- Nothing of the text is empty, *self* or *parent*. -/
def Unreduced (sep : α → Bool) (self parent : List α) (s : List α) : Prop :=
  ∀ t ∈ s.splitOnP sep, t ≠ [] ∧ t ≠ self ∧ t ≠ parent

theorem cost_reduce_tokens_le (sep : α → Bool) (s : List α) :
    cost (reduce self parent (tokens sep s)) ≤ s.length + 1 := by
  have hreduce := cost_reduceFrom_le self parent [] (tokens sep s)
  have htokens := cost_filter_le (s.splitOnP sep)
  rw [cost_splitOnP] at htokens
  unfold reduce tokens at *
  simpa using hreduce.trans (by simpa using htokens)

/-- The print of a text costs as much as the text exactly if nothing is dropped. -/
theorem cost_reduce_tokens_eq_iff (sep : α → Bool) (s : List α) :
    cost (reduce self parent (tokens sep s)) = s.length + 1 ↔ Unreduced sep self parent s := by
  have hle := cost_reduceFrom_le self parent [] (tokens sep s)
  have htokens := cost_filter_le (s.splitOnP sep)
  have hiff := cost_reduceFrom_eq_iff self parent [] (tokens sep s)
  have hfilter := cost_filter_eq_iff (s.splitOnP sep)
  rw [cost_splitOnP] at htokens hfilter
  rw [cost_nil, Nat.zero_add] at hle hiff
  have hcut : tokens sep s = (s.splitOnP sep).filter (· ≠ []) := rfl
  rw [← hcut] at htokens hfilter
  unfold reduce
  constructor
  · intro h
    have hclean := hiff.mp (by omega)
    have hnil := hfilter.mp (by omega)
    intro t ht
    have hne : t ≠ [] := fun heq => hnil (heq ▸ ht)
    exact ⟨hne, hclean t (List.mem_filter.mpr ⟨ht, by simp [hne]⟩)⟩
  · intro h
    rw [hiff.mpr fun t ht => (h t (List.mem_filter.mp ht).1).2,
      hfilter.mpr fun hnil => (h [] hnil).1 rfl]

end Reduce

end Components
