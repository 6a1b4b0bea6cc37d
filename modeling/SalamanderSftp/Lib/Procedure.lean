import Mathlib

/-!
# Recursive procedures that report success

A procedure takes an argument and a state; it answers `some ok` when it returns and `none` while
it is still running. `forEach` runs a body over a list and stops at the first answer other than
`some true`. `recurse F n` unfolds the recursive procedure with body `F` to depth `n`: a call that
needs more than `n` nested activations has not returned.

Two kinds of rules: what every run keeps (`forEach_invariant`, `recurse_invariant`), at every
depth and so for runs that never return too, and when a run returns (`forEach_returns`,
`recurse_returns`).
-/

namespace Procedure

variable {ι κ σ : Type*}

/-- A procedure with arguments `ι` on states `σ`. -/
abbrev Proc (ι σ : Type*) := ι → σ → Option Bool × σ

/-- Run `body` on the items in order while it answers `some true`. -/
def forEach (body : Proc ι σ) : List ι → σ → Option Bool × σ
  | [], s => (some true, s)
  | i :: is, s =>
    match body i s with
    | (some true, s') => forEach body is s'
    | r => r

/-- The procedure with body `F`, unfolded `n` activations deep. -/
def recurse (F : Proc ι σ → Proc ι σ) : ℕ → Proc ι σ
  | 0 => fun _ s => (none, s)
  | n + 1 => F (recurse F n)

/-! ## Loops -/

@[simp] theorem forEach_nil (body : Proc ι σ) (s : σ) : forEach body [] s = (some true, s) := rfl

theorem forEach_cons_true {body : Proc ι σ} {i : ι} {s : σ} (h : (body i s).1 = some true)
    (is : List ι) : forEach body (i :: is) s = forEach body is (body i s).2 := by
  rw [forEach]
  rcases hb : body i s with ⟨r, s'⟩
  rw [hb] at h
  subst h
  rfl

theorem forEach_cons_stop {body : Proc ι σ} {i : ι} {s : σ} (h : (body i s).1 ≠ some true)
    (is : List ι) : forEach body (i :: is) s = body i s := by
  rw [forEach]
  rcases hb : body i s with ⟨r, s'⟩
  rw [hb] at h
  rcases r with _ | _ | _
  · rfl
  · rfl
  · exact absurd rfl h

theorem forEach_singleton (body : Proc ι σ) (i : ι) (s : σ) : forEach body [i] s = body i s := by
  rw [forEach]
  rcases hb : body i s with ⟨_ | _ | _, s'⟩ <;> simp

theorem forEach_map {α : Type*} (body : Proc ι σ) (f : α → ι) (is : List α) (s : σ) :
    forEach body (is.map f) s = forEach (fun i => body (f i)) is s := by
  induction is generalizing s with
  | nil => rfl
  | cons i is ih =>
    rw [List.map_cons, forEach, forEach]
    rcases body (f i) s with ⟨_ | _ | _, s'⟩
    · rfl
    · rfl
    · exact ih s'

/-- Items for which the body does nothing can be left out. -/
theorem forEach_filter (body : Proc ι σ) (p : ι → Prop) [DecidablePred p] (is : List ι) (s : σ) :
    forEach (fun i s => if p i then (some true, s) else body i s) is s =
      forEach body (is.filter fun i => ¬ p i) s := by
  induction is generalizing s with
  | nil => rfl
  | cons i is ih =>
    by_cases hp : p i
    · rw [List.filter_cons_of_neg (by simpa using hp), ← ih,
        forEach_cons_true (by rw [if_pos hp]), if_pos hp]
    · rw [List.filter_cons_of_pos (by simpa using hp)]
      by_cases hb : (body i s).1 = some true
      · rw [forEach_cons_true hb, forEach_cons_true (by rw [if_neg hp]; exact hb), if_neg hp, ih]
      · rw [forEach_cons_stop hb, forEach_cons_stop (by rw [if_neg hp]; exact hb), if_neg hp]

/-- The items, each with the state in which its turn starts when every turn before it answers `some
true`. -/
def turns (body : Proc ι σ) : List ι → σ → List (ι × σ)
  | [], _ => []
  | i :: is, s => (i, s) :: turns body is (body i s).2

theorem map_fst_turns (body : Proc ι σ) (is : List ι) (s : σ) :
    (turns body is s).map Prod.fst = is := by
  induction is generalizing s with
  | nil => rfl
  | cons i is ih => rw [turns, List.map_cons, ih]

theorem forEach_true {body : Proc ι σ} {is : List ι} {s : σ}
    (h : (forEach body is s).1 = some true) :
    ∀ a ∈ turns body is s, (body a.1 a.2).1 = some true := by
  induction is generalizing s with
  | nil => simp [turns]
  | cons i is ih =>
    have hi : (body i s).1 = some true := by
      by_contra hb
      rw [forEach_cons_stop hb] at h
      exact hb h
    rw [forEach_cons_true hi] at h
    rw [turns, List.forall_mem_cons]
    exact ⟨hi, ih h⟩

/-- What each turn adds to a list that is read off the state, the loop adds in order. -/
theorem forEach_reads {α : Type*} {body : Proc ι σ} (read : σ → List α)
    (new : ι × σ → List α) {is : List ι} {s : σ}
    (h : (forEach body is s).1 = some true)
    (hturn : ∀ a ∈ turns body is s, (body a.1 a.2).1 = some true →
      read (body a.1 a.2).2 = read a.2 ++ new a) :
    read (forEach body is s).2 = read s ++ (turns body is s).flatMap new := by
  induction is generalizing s with
  | nil => simp [turns]
  | cons i is ih =>
    rw [turns, List.forall_mem_cons] at hturn
    have hi := forEach_true h (i, s) (by rw [turns]; exact List.mem_cons_self)
    rw [forEach_cons_true hi] at h ⊢
    rw [ih h hturn.2, hturn.1 hi, turns, List.flatMap_cons, List.append_assoc]

/-- What each turn keeps, the loop keeps. -/
theorem forEach_invariant {I : σ → Prop} {body : Proc ι σ} {is : List ι}
    (h : ∀ i ∈ is, ∀ s, I s → I (body i s).2) : ∀ s, I s → I (forEach body is s).2 := by
  induction is with
  | nil => intro s hs; exact hs
  | cons i is ih =>
    intro s hs
    have hi := h i (by simp) s hs
    by_cases hb : (body i s).1 = some true
    · rw [forEach_cons_true hb]
      exact ih (fun j hj => h j (by simp [hj])) _ hi
    · rw [forEach_cons_stop hb]
      exact hi

/-- A loop keeps what each turn keeps, and returns when each turn does. -/
theorem forEach_returns {A : Prop} {I : σ → Prop} {body : Proc ι σ} {is : List ι}
    (h : ∀ i ∈ is, ∀ s, I s → I (body i s).2 ∧ (A → (body i s).1 ≠ none)) (s : σ) (hs : I s) :
    I (forEach body is s).2 ∧ (A → (forEach body is s).1 ≠ none) := by
  refine ⟨forEach_invariant (fun i hi s hs => (h i hi s hs).1) s hs, fun hA => ?_⟩
  induction is generalizing s with
  | nil => simp
  | cons i is ih =>
    have hi := h i (by simp) s hs
    by_cases hb : (body i s).1 = some true
    · rw [forEach_cons_true hb]
      exact ih (fun j hj => h j (by simp [hj])) _ hi.1
    · rw [forEach_cons_stop hb]
      exact hi.2 hA

/-! ## Recursion -/

@[simp] theorem recurse_zero (F : Proc ι σ → Proc ι σ) (i : ι) (s : σ) :
    recurse F 0 i s = (none, s) := rfl

theorem recurse_succ (F : Proc ι σ → Proc ι σ) (n : ℕ) (i : ι) (s : σ) :
    recurse F (n + 1) i s = F (recurse F n) i s := rfl

/-- A contract between states before and results after a call holds at every depth once the body
keeps it under the assumption that the inner calls do. -/
theorem recurse_spec {P : ι → σ → Prop} {Q : ι → σ → Option Bool × σ → Prop}
    {F : Proc ι σ → Proc ι σ} (h0 : ∀ i s, P i s → Q i s (none, s))
    (hF : ∀ rec : Proc ι σ, (∀ i s, P i s → Q i s (rec i s)) → ∀ i s, P i s → Q i s (F rec i s)) :
    ∀ n i s, P i s → Q i s (recurse F n i s) := by
  intro n
  induction n with
  | zero => exact h0
  | succ n ih => exact hF _ ih

/-- An invariant of the states, for the arguments satisfying `P`. -/
theorem recurse_invariant {P : ι → Prop} {I : σ → Prop} {F : Proc ι σ → Proc ι σ}
    (hF : ∀ rec : Proc ι σ, (∀ i s, P i → I s → I (rec i s).2) → ∀ i s, P i → I s → I (F rec i s).2)
    (n : ℕ) {i : ι} {s : σ} (hi : P i) (hs : I s) : I (recurse F n i s).2 :=
  recurse_spec (P := fun i s => P i ∧ I s) (Q := fun _ _ r => I r.2) (fun _ _ h => h.2)
    (fun rec hrec i s h => hF rec (fun j t hj ht => hrec j t ⟨hj, ht⟩) i s h.1 h.2) n i s ⟨hi, hs⟩

/-- When every inner call is on an argument of smaller measure, the recursion returns; `A` stands
for the assumption that the inner calls do. -/
theorem recurse_returns {P : ι → Prop} {I : σ → Prop} {F : Proc ι σ → Proc ι σ} (μ : ι → ℕ)
    (hF : ∀ (A : Prop) (rec : Proc ι σ) (i : ι) (s : σ), P i → I s →
      (∀ j t, P j → μ j < μ i → I t → I (rec j t).2 ∧ (A → (rec j t).1 ≠ none)) →
        I (F rec i s).2 ∧ (A → (F rec i s).1 ≠ none)) :
    ∀ n i s, P i → I s → I (recurse F n i s).2 ∧ (μ i < n → (recurse F n i s).1 ≠ none) := by
  intro n
  induction n with
  | zero => exact fun i s _ hs => ⟨hs, fun hlt => absurd hlt (Nat.not_lt_zero _)⟩
  | succ n ih =>
    intro i s hi hs
    refine hF (μ i < n + 1) _ i s hi hs fun j t hj hji ht => ?_
    obtain ⟨hkept, hreturns⟩ := ih j t hj ht
    exact ⟨hkept, fun hlt => hreturns (by omega)⟩

end Procedure
