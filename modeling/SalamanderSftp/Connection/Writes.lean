import SalamanderSftp.Connection.Transfer

/-!
# What the server takes

The write loops read backwards: which results of the writes mean that a buffer was taken
(`writeChunk_iff`), that the loop ends well (`writeChunks_ok_iff`), and that all buffers were taken
(`writeChunks_moved_iff`).
-/

namespace SalamanderSftp

/-- The results of the writes of `n` bytes: the last of them is the first to reach `n`. -/
structure Fills (taken : List ℕ) (n : ℕ) : Prop where
  reaches : n ≤ taken.sum
  first : ∀ before last after, taken = before ++ last :: after → before.sum < n

/-- Every buffer is taken, and the user does not cancel behind any of them. -/
inductive Accepted : List Bytes → List (Option ℕ) → List Bool → Prop
  | none (ws : List (Option ℕ)) (gos : List Bool) : Accepted [] ws gos
  | more {chunk : Bytes} {chunks : List Bytes} {taken : List ℕ} {ws : List (Option ℕ)}
    {gos : List Bool} (h : Fills taken chunk.length) (go : gos.headD true = true)
    (rest : Accepted chunks ws gos.tail) : Accepted (chunk :: chunks) (taken.map some ++ ws) gos

/-- Every buffer is taken, and the user does not cancel before the last one. -/
inductive Taken : List Bytes → List (Option ℕ) → List Bool → Prop
  | none (ws : List (Option ℕ)) (gos : List Bool) : Taken [] ws gos
  | last {chunk : Bytes} {taken : List ℕ} (h : Fills taken chunk.length) (ws : List (Option ℕ))
    (gos : List Bool) : Taken [chunk] (taken.map some ++ ws) gos
  | more {chunk : Bytes} {chunks : List Bytes} {taken : List ℕ} {ws : List (Option ℕ)}
    {gos : List Bool} (h : Fills taken chunk.length) (go : gos.headD true = true)
    (rest : Taken chunks ws gos.tail) : Taken (chunk :: chunks) (taken.map some ++ ws) gos

theorem fills_nil {n : ℕ} : Fills [] n ↔ n = 0 := by
  constructor
  · intro h
    have hreaches := h.reaches
    rw [List.sum_nil] at hreaches
    omega
  · rintro rfl
    exact ⟨le_rfl, fun before last after heq => by simp at heq⟩

theorem fills_zero {taken : List ℕ} : Fills taken 0 ↔ taken = [] := by
  constructor
  · intro h
    cases taken with
    | nil => rfl
    | cons n taken => exact absurd (h.first [] n taken rfl) (by simp)
  · rintro rfl
    exact fills_nil.mpr rfl

theorem fills_cons {m n : ℕ} {taken : List ℕ} (hn : 0 < n) :
    Fills (m :: taken) n ↔ Fills taken (n - m) := by
  constructor
  · intro h
    have hreaches := h.reaches
    rw [List.sum_cons] at hreaches
    refine ⟨by omega, fun before last after heq => ?_⟩
    have hfirst := h.first (m :: before) last after (by rw [heq, List.cons_append])
    rw [List.sum_cons] at hfirst
    omega
  · intro h
    have hreaches := h.reaches
    refine ⟨by rw [List.sum_cons]; omega, fun before last after heq => ?_⟩
    cases before with
    | nil => exact hn
    | cons k before =>
      rw [List.cons_append] at heq
      obtain ⟨rfl, hrest⟩ := List.cons.inj heq
      have hfirst := h.first before last after hrest
      rw [List.sum_cons]
      omega

/-- One buffer is written exactly by writes that fill it. -/
theorem writeChunk_iff (ws : List (Option ℕ)) : ∀ (left moved : Bytes) (rest : List (Option ℕ)),
    writeChunk ws left moved = (true, moved ++ left, rest) ↔
      ∃ taken, ws = taken.map some ++ rest ∧ Fills taken left.length := by
  induction ws with
  | nil =>
    intro left moved rest
    unfold writeChunk
    rw [Prod.mk.injEq, Prod.mk.injEq, List.isEmpty_iff]
    constructor
    · rintro ⟨rfl, -, rfl⟩
      exact ⟨[], rfl, fills_nil.mpr rfl⟩
    · rintro ⟨taken, htaken, hfills⟩
      obtain ⟨hnil, rfl⟩ := List.append_eq_nil_iff.mp htaken.symm
      obtain rfl := List.map_eq_nil_iff.mp hnil
      obtain rfl := List.length_eq_zero_iff.mp (fills_nil.mp hfills)
      exact ⟨rfl, (List.append_nil moved).symm, rfl⟩
  | cons w ws ih =>
    intro left moved rest
    unfold writeChunk
    by_cases hleft : left = []
    · subst hleft
      rw [if_pos rfl, List.append_nil, Prod.mk.injEq, Prod.mk.injEq]
      constructor
      · rintro ⟨-, -, rfl⟩
        exact ⟨[], rfl, fills_nil.mpr rfl⟩
      · rintro ⟨taken, htaken, hfills⟩
        obtain rfl := fills_zero.mp hfills
        exact ⟨rfl, rfl, htaken⟩
    · have hpos : 0 < left.length := List.length_pos_of_ne_nil hleft
      rw [if_neg hleft]
      cases w with
      | none =>
        refine iff_of_false (by simp) ?_
        rintro ⟨taken, htaken, hfills⟩
        cases taken with
        | nil =>
          have hreaches := hfills.reaches
          rw [List.sum_nil] at hreaches
          omega
        | cons n taken => cases (List.cons.inj htaken).1
      | some n =>
        have hmoved : moved ++ left = moved ++ left.take n ++ left.drop n := by
          rw [List.append_assoc, List.take_append_drop]
        dsimp only
        rw [hmoved, ih]
        constructor
        · rintro ⟨taken, rfl, hfills⟩
          rw [List.length_drop] at hfills
          exact ⟨n :: taken, rfl, (fills_cons hpos).mpr hfills⟩
        · rintro ⟨taken, htaken, hfills⟩
          cases taken with
          | nil =>
            have hreaches := hfills.reaches
            rw [List.sum_nil] at hreaches
            omega
          | cons m taken =>
            obtain ⟨hm, hrest⟩ := List.cons.inj htaken
            obtain rfl := Option.some.inj hm
            rw [List.length_drop]
            exact ⟨taken, hrest, (fills_cons hpos).mp hfills⟩

theorem writeChunk_false (ws : List (Option ℕ)) :
    ∀ left moved : Bytes, (writeChunk ws left moved).1 = false →
    (writeChunk ws left moved).2.1.length < moved.length + left.length := by
  induction ws with
  | nil =>
    intro left moved h
    unfold writeChunk at h ⊢
    have hpos : 0 < left.length := by
      refine List.length_pos_of_ne_nil fun hnil => ?_
      rw [hnil] at h
      cases h
    exact Nat.lt_add_of_pos_right hpos
  | cons w ws ih =>
    intro left moved h
    unfold writeChunk at h ⊢
    by_cases hleft : left = []
    · rw [if_pos hleft] at h
      cases h
    · have hpos : 0 < left.length := List.length_pos_of_ne_nil hleft
      rw [if_neg hleft] at h ⊢
      cases w with
      | none => exact Nat.lt_add_of_pos_right hpos
      | some n =>
        have hrest := ih _ _ h
        rw [List.length_append, List.length_take, List.length_drop] at hrest
        dsimp only
        omega

/-- A buffer is taken in one way at most. -/
theorem eq_of_fills {ws ws' ws'' : List (Option ℕ)} {chunk moved moved' : Bytes} {taken : List ℕ}
    (hwrite : writeChunk ws chunk moved = (true, moved', ws')) (hfills : Fills taken chunk.length)
    (heq : ws = taken.map some ++ ws'') : ws'' = ws' := by
  rw [(writeChunk_iff ws chunk moved ws'').mpr ⟨taken, heq, hfills⟩] at hwrite
  exact (Prod.mk.inj (Prod.mk.inj hwrite).2).2

theorem ne_of_fills {ws ws' : List (Option ℕ)} {chunk moved moved' : Bytes} {taken : List ℕ}
    (hwrite : writeChunk ws chunk moved = (false, moved', ws')) (hfills : Fills taken chunk.length)
    (ws'' : List (Option ℕ)) : ws ≠ taken.map some ++ ws'' := by
  intro heq
  rw [(writeChunk_iff ws chunk moved ws'').mpr ⟨taken, heq, hfills⟩] at hwrite
  cases hwrite

/-- The loop ends well exactly if the server takes every buffer and nobody cancels. -/
theorem writeChunks_ok_iff (chunks : List Bytes) : ∀ (ws : List (Option ℕ)) (gos : List Bool)
    (done : ℕ) (moved : Bytes),
    (writeChunks chunks ws gos done moved).1 = true ↔ Accepted chunks ws gos := by
  induction chunks with
  | nil => exact fun ws gos _ _ => iff_of_true rfl (.none ws gos)
  | cons chunk chunks ih =>
    intro ws gos done moved
    rw [writeChunks]
    rcases hwrite : writeChunk ws chunk moved with ⟨ok, moved', ws'⟩
    rcases ok with _ | _
    · refine iff_of_false (fun h => Bool.false_ne_true h) fun haccepted => ?_
      cases haccepted with
      | more hfills => exact ne_of_fills hwrite hfills _ rfl
    · have hmoved := writeChunk_true ws chunk moved (by rw [hwrite])
      rw [hwrite] at hmoved
      dsimp only at hmoved ⊢
      subst hmoved
      obtain ⟨taken, hws, hfills⟩ := (writeChunk_iff ws chunk moved ws').mp hwrite
      by_cases hgo : gos.headD true = true
      · have hnot : ¬ (!gos.headD true) = true := by rw [hgo]; decide
        rw [if_neg hnot, ih]
        constructor
        · intro haccepted
          rw [hws]
          exact .more hfills hgo haccepted
        · intro haccepted
          cases haccepted with
          | more hfills' _ rest => exact eq_of_fills hwrite hfills' rfl ▸ rest
      · have hstop : (!gos.headD true) = true := by simpa using hgo
        rw [if_pos hstop]
        refine iff_of_false (fun h => Bool.false_ne_true h) fun haccepted => ?_
        cases haccepted with
        | more _ go => exact hgo go

/-- All bytes are written exactly if the server takes every buffer. -/
theorem writeChunks_moved_iff (chunks : List Bytes) : (∀ chunk ∈ chunks, chunk ≠ []) →
    ∀ (ws : List (Option ℕ)) (gos : List Bool) (done : ℕ) (moved : Bytes),
    (writeChunks chunks ws gos done moved).2.2 = moved ++ chunks.flatten ↔ Taken chunks ws gos := by
  induction chunks with
  | nil =>
    intro _ ws gos done moved
    exact iff_of_true (List.append_nil moved).symm (.none ws gos)
  | cons chunk chunks ih =>
    intro hne ws gos done moved
    have hrest := fun c hc => hne c (List.mem_cons_of_mem _ hc)
    rw [writeChunks, List.flatten_cons]
    rcases hwrite : writeChunk ws chunk moved with ⟨ok, moved', ws'⟩
    rcases ok with _ | _
    · have hshort := writeChunk_false ws chunk moved (by rw [hwrite])
      rw [hwrite] at hshort
      refine iff_of_false (fun heq => ?_) (fun htaken => ?_)
      · have hlen := congrArg List.length heq
        rw [List.length_append, List.length_append] at hlen
        dsimp only at hshort hlen
        omega
      · cases htaken with
        | last hfills => exact ne_of_fills hwrite hfills _ rfl
        | more hfills => exact ne_of_fills hwrite hfills _ rfl
    · have hmoved := writeChunk_true ws chunk moved (by rw [hwrite])
      rw [hwrite] at hmoved
      dsimp only at hmoved ⊢
      subst hmoved
      obtain ⟨taken, hws, hfills⟩ := (writeChunk_iff ws chunk moved ws').mp hwrite
      by_cases hgo : (!gos.headD true) = true
      · rw [if_pos hgo]
        have hgo : gos.headD true = false := by simpa using hgo
        constructor
        · intro heq
          have hnil : chunks = [] := by
            rw [← List.append_assoc, List.self_eq_append_right, List.flatten_eq_nil_iff] at heq
            cases chunks with
            | nil => rfl
            | cons c cs => exact absurd (heq c List.mem_cons_self) (hrest c List.mem_cons_self)
          rw [hnil, hws]
          exact .last hfills ws' gos
        · intro htaken
          cases htaken with
          | last _ => simp
          | more _ go => rw [hgo] at go; cases go
      · rw [if_neg hgo, ← List.append_assoc, ih hrest]
        have hgo : gos.headD true = true := by simpa using hgo
        constructor
        · intro htaken
          rw [hws]
          exact .more hfills hgo htaken
        · intro htaken
          cases htaken with
          | last _ => exact .none _ _
          | more hfills' _ rest => exact eq_of_fills hwrite hfills' rfl ▸ rest

/-- When the user cancels at the last of them, something has been counted. -/
theorem Taken.counted {chunks : List Bytes} {ws : List (Option ℕ)}
    {gos : List Bool} (h : Taken chunks ws gos)
    (hne : ∀ chunk ∈ chunks, chunk ≠ []) : ∀ (done : ℕ) (moved : Bytes),
    (writeChunks chunks ws gos done moved).1 = true ∨
    done < (writeChunks chunks ws gos done moved).2.1 := by
  induction h with
  | none ws gos => exact fun _ _ => .inl rfl
  | last hfills ws gos =>
    intro done moved
    rw [writeChunks, (writeChunk_iff _ _ moved ws).mpr ⟨_, rfl, hfills⟩]
    have hpos := List.length_pos_of_ne_nil (hne _ List.mem_cons_self)
    dsimp only
    split_ifs
    · exact .inr (Nat.lt_add_of_pos_right hpos)
    · exact .inl rfl
  | @more chunk chunks taken ws gos hfills go rest ih =>
    intro done moved
    rw [writeChunks, (writeChunk_iff _ _ moved ws).mpr ⟨_, rfl, hfills⟩]
    dsimp only
    rw [go]
    exact (ih (fun c hc => hne c (List.mem_cons_of_mem _ hc)) (done + chunk.length)
      (moved ++ chunk)).imp_right
      (Nat.le_add_right _ _).trans_lt

end SalamanderSftp
