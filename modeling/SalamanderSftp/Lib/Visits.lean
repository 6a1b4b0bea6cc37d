import SalamanderSftp.Lib.Procedure

/-!
# What a run comes to

Beside a procedure, the list of the things that its run comes to, in order: for a loop
(`forEachVisits`) and for a recursion (`recurseVisits`). Something is read off the state, in a
preorder, before and after each visit. Where nothing of it is lost between the visits they are
`Chained`: what a visit leaves, and no later one destroys, is there at the end
(`Chained.holds_last`). Where no visit loses anything either they are `Linked`, and none finds less
than any visit before it has left (`Linked.pairwise`).
-/

namespace Procedure

variable {ι σ α β : Type*}

/-- What the turns of a loop come to, while they answer `some true`. -/
def forEachVisits (body : Proc ι σ) (visits : ι → σ → List α) : List ι → σ → List α
  | [], _ => []
  | i :: is, s =>
    visits i s ++ if (body i s).1 = some true then forEachVisits body visits is (body i s).2 else []

/-- What a recursion comes to; `V` says it of the body `F`, from the recursive call and what that
comes to. -/
def recurseVisits (F : Proc ι σ → Proc ι σ) (V : Proc ι σ → (ι → σ → List α) → ι → σ → List α) :
    ℕ → ι → σ → List α
  | 0 => fun _ _ => []
  | n + 1 => V (recurse F n) (recurseVisits F V n)

/-! ## Every visit -/

section Every

variable {P : α → Prop} {body : Proc ι σ} {visits : ι → σ → List α}

theorem forall_forEachVisits {is : List ι} (h : ∀ i ∈ is, ∀ s, ∀ x ∈ visits i s, P x) :
    ∀ s, ∀ x ∈ forEachVisits body visits is s, P x := by
  induction is with
  | nil => exact fun _ _ hx => absurd hx List.not_mem_nil
  | cons i is ih =>
    intro s x hx
    rcases List.mem_append.mp hx with hx | hx
    · exact h i List.mem_cons_self s x hx
    · split_ifs at hx
      · exact ih (fun j hj => h j (List.mem_cons_of_mem i hj)) _ x hx
      · cases hx

theorem forall_recurseVisits {F : Proc ι σ → Proc ι σ}
    {V : Proc ι σ → (ι → σ → List α) → ι → σ → List α}
    (hV : ∀ rec visits, (∀ i s, ∀ x ∈ visits i s, P x) → ∀ i s, ∀ x ∈ V rec visits i s, P x) :
    ∀ n i s, ∀ x ∈ recurseVisits F V n i s, P x := by
  intro n
  induction n with
  | zero => exact fun _ _ _ hx => absurd hx List.not_mem_nil
  | succ n ih => exact hV _ _ ih

end Every

/-- `x` is visited, and no later visit is `p`. -/
def LastIn (xs : List α) (p : α → Prop) (x : α) : Prop :=
  ∃ before after, xs = before ++ x :: after ∧ ∀ y ∈ after, ¬ p y

theorem LastIn.mem {xs : List α} {p : α → Prop} {x : α} (h : LastIn xs p x) : x ∈ xs := by
  obtain ⟨before, after, rfl, -⟩ := h
  exact List.mem_append_right before List.mem_cons_self

/-- What the turns of a loop come to, its run comes to. -/
theorem mem_forEachVisits {body : Proc ι σ} {visits : ι → σ → List α} {is : List ι} {s : σ}
    {a : ι × σ} (ha : a ∈ forEachVisits body (fun i s => [(i, s)]) is s) {x : α}
    (hx : x ∈ visits a.1 a.2) : x ∈ forEachVisits body visits is s := by
  induction is generalizing s with
  | nil => cases ha
  | cons i is ih =>
    rcases List.mem_cons.mp ha with rfl | ha
    · exact List.mem_append_left _ hx
    · split_ifs at ha with hb
      · refine List.mem_append_right _ ?_
        rw [if_pos hb]
        exact ih ha
      · cases ha

theorem fst_mem_of_mem_forEachVisits {body : Proc ι σ} {is : List ι} {s : σ} {a : ι × σ}
    (ha : a ∈ forEachVisits body (fun i s => [(i, s)]) is s) : a.1 ∈ is := by
  refine forall_forEachVisits (P := fun a : ι × σ => a.1 ∈ is) (fun i hi s x hx => ?_) s a ha
  rw [List.mem_singleton.mp hx]
  exact hi

/-! ## From visit to visit -/

section Chained

variable [Preorder β] {ok : α → Prop} {before after : α → β} {b b' c : β} {xs ys : List α}

/-- From `b` over the visits to `c`: nothing is lost between them, and each of them is as it
should. -/
def Chained (ok : α → Prop) (before after : α → β) : β → List α → β → Prop
  | b, [], c => b ≤ c
  | b, x :: xs, c => b ≤ before x ∧ ok x ∧ Chained ok before after (after x) xs c

theorem Chained.of_le (h : b ≤ b') (hchained : Chained ok before after b' xs c) :
    Chained ok before after b xs c := by
  cases xs with
  | nil => exact h.trans hchained
  | cons x xs => exact ⟨h.trans hchained.1, hchained.2⟩

theorem Chained.append (h : Chained ok before after b xs b')
    (h' : Chained ok before after b' ys c) : Chained ok before after b (xs ++ ys) c := by
  induction xs generalizing b with
  | nil => exact h'.of_le h
  | cons x xs ih => exact ⟨h.1, h.2.1, ih h.2.2⟩

/-- What no visit destroys is found by every visit, and is there at the end. -/
theorem Chained.holds {P : β → Prop} (hP : ∀ b c, b ≤ c → P b → P c)
    (h : Chained ok before after b xs c)
    (hkeep : ∀ x ∈ xs, ok x → P (before x) → P (after x)) (hb : P b) :
    (∀ x ∈ xs, P (before x)) ∧ P c := by
  induction xs generalizing b with
  | nil => exact ⟨fun _ hx => absurd hx List.not_mem_nil, hP _ _ h hb⟩
  | cons x xs ih =>
    rw [List.forall_mem_cons] at hkeep ⊢
    have hx := hP _ _ h.1 hb
    obtain ⟨hall, hc⟩ := ih h.2.2 hkeep.2 (hkeep.1 h.2.1 hx)
    exact ⟨⟨hx, hall⟩, hc⟩

/-- What a visit leaves is there at the end, when no later visit destroys it. -/
theorem Chained.holds_last {P : β → Prop} (hP : ∀ b c, b ≤ c → P b → P c) {p : α → Prop} {x : α}
    (h : Chained ok before after b xs c) (hlast : LastIn xs p x) (hx : ok x → P (after x))
    (hkeep : ∀ y ∈ xs, ok y → ¬ p y → P (before y) → P (after y)) : P c := by
  obtain ⟨front, rest, rfl, hrest⟩ := hlast
  induction front generalizing b with
  | nil =>
    refine (h.2.2.holds hP (fun y hy hok => ?_) (hx h.2.1)).2
    exact hkeep y (List.mem_cons_of_mem x hy) hok (hrest y hy)
  | cons y front ih =>
    rw [List.cons_append] at h hkeep
    exact ih h.2.2 fun z hz => hkeep z (List.mem_cons_of_mem y hz)

/-- What each visit leaves is found after every later one, when none of these destroys it. -/
theorem Chained.pairwise {P : α → β → Prop} (hP : ∀ x b c, b ≤ c → P x b → P x c)
    (h : Chained ok before after b xs c) (hown : ∀ x ∈ xs, P x (after x))
    (hkeep : xs.Pairwise fun x y => P x (before y) → P x (after y)) :
    xs.Pairwise fun x y => P x (after y) := by
  induction xs generalizing b with
  | nil => exact List.Pairwise.nil
  | cons x xs ih =>
    rw [List.pairwise_cons] at hkeep ⊢
    rw [List.forall_mem_cons] at hown
    have hfound := (h.2.2.holds (hP x) (fun y hy _ => hkeep.1 y hy) hown.1).1
    exact ⟨fun y hy => hkeep.1 y hy (hfound y hy), ih h.2.2 hown.2 hkeep.2⟩

variable (read : σ → β) {G : Option Bool → Prop}

/-- The loop goes from visit to visit if its turns do, both for the answers in `G`. -/
theorem chained_forEach (hG : G (some true)) {body : Proc ι σ} {visits : ι → σ → List α}
    (h : ∀ i s, G (body i s).1 →
      Chained ok before after (read s) (visits i s) (read (body i s).2)) :
    ∀ is s, G (forEach body is s).1 →
      Chained ok before after (read s) (forEachVisits body visits is s)
        (read (forEach body is s).2) := by
  intro is
  induction is with
  | nil => exact fun s _ => le_refl (read s)
  | cons i is ih =>
    intro s hs
    by_cases hb : (body i s).1 = some true
    · rw [forEach_cons_true hb] at hs ⊢
      rw [forEachVisits, if_pos hb]
      exact (h i s (hb ▸ hG)).append (ih _ hs)
    · rw [forEach_cons_stop hb] at hs ⊢
      rw [forEachVisits, if_neg hb, List.append_nil]
      exact h i s hs

theorem chained_recurse {F : Proc ι σ → Proc ι σ}
    {V : Proc ι σ → (ι → σ → List α) → ι → σ → List α}
    (hV : ∀ rec visits,
      (∀ i s, G (rec i s).1 →
        Chained ok before after (read s) (visits i s) (read (rec i s).2)) →
      ∀ i s, G (F rec i s).1 →
        Chained ok before after (read s) (V rec visits i s) (read (F rec i s).2)) :
    ∀ n i s, G (recurse F n i s).1 →
      Chained ok before after (read s) (recurseVisits F V n i s) (read (recurse F n i s).2) := by
  intro n
  induction n with
  | zero => exact fun _ s _ => le_refl (read s)
  | succ n ih => exact hV _ _ ih

end Chained

/-! ## Going up -/

section Linked

variable [Preorder β] {before after : α → β} {b c : β} {xs : List α}

/-- From `b` over the visits to `c`; each of them finds what is there before it, and leaves no
less. -/
abbrev Linked (before after : α → β) : β → List α → β → Prop :=
  Chained (fun x => before x ≤ after x) before after

theorem Linked.le_before (h : Linked before after b xs c) : ∀ x ∈ xs, b ≤ before x :=
  (h.holds (P := (b ≤ ·)) (fun _ _ hle hb => hb.trans hle)
    (fun _ _ hok hx => hx.trans hok) (le_refl b)).1

/-- What a visit leaves, every later one finds. -/
theorem Linked.pairwise (h : Linked before after b xs c) :
    xs.Pairwise fun x y => after x ≤ before y := by
  induction xs generalizing b with
  | nil => exact List.Pairwise.nil
  | cons x xs ih => exact List.pairwise_cons.mpr ⟨Linked.le_before h.2.2, ih h.2.2⟩

end Linked

end Procedure
