import Mathlib

/-!
# Tables of limited room, without two entries of one key

`add` appends what has a new key, as long as there is room. What stands in the table after many such
calls is said once (`exists_added`). From it follows for which entries each of them can be counted
on to stand there exactly once (`count_addAll_iff`): those that have their key to themselves and fit
in.
-/

namespace KeyedTable

variable {α κ : Type*} [DecidableEq α] [DecidableEq κ] (key : α → κ) (room : ℕ)

/-- The entry is appended, unless its key is there or the table is full. -/
def add (table : List α) (x : α) : List α :=
  if key x ∉ table.map key ∧ table.length < room then table ++ [x] else table

def addAll (table xs : List α) : List α := xs.foldl (add key room) table

/-- What is behind the entries that were there before. -/
structure Added (table xs added : List α) : Prop where
  mem : ∀ x ∈ added, x ∈ xs
  new : ∀ x ∈ added, key x ∉ table.map key
  distinct : (added.map key).Nodup
  fits : added = [] ∨ table.length + added.length ≤ room
  full : ∀ x ∈ xs, key x ∈ (table ++ added).map key ∨ room ≤ (table ++ added).length

variable {key room} {table xs added : List α} {x : α}

omit [DecidableEq α] [DecidableEq κ] in
theorem Added.nil (table : List α) : Added key room table [] [] where
  mem _ h := h
  new _ h := by cases h
  distinct := List.nodup_nil
  fits := .inl rfl
  full _ h := by cases h

omit [DecidableEq α] in
theorem Added.add (h : Added key room table xs added) (x : α) :
    ∃ added', KeyedTable.add key room (table ++ added) x = table ++ added' ∧
    Added key room table (xs ++ [x]) added' := by
  unfold KeyedTable.add
  split_ifs with hadd
  · obtain ⟨hnew, hroom⟩ := hadd
    rw [List.map_append, List.mem_append, not_or] at hnew
    rw [List.length_append] at hroom
    refine ⟨added ++ [x], List.append_assoc _ _ _, ?_, ?_, ?_, ?_, ?_⟩
    · intro y hy
      rcases List.mem_append.mp hy with hy | hy
      · exact List.mem_append_left _ (h.mem y hy)
      · exact List.mem_append_right _ hy
    · intro y hy
      rcases List.mem_append.mp hy with hy | hy
      · exact h.new y hy
      · rw [List.mem_singleton.mp hy]
        exact hnew.1
    · rw [List.map_append, List.map_singleton]
      exact h.distinct.append (List.nodup_singleton _) (List.disjoint_singleton.mpr hnew.2)
    · refine .inr ?_
      rw [List.length_append, List.length_singleton]
      omega
    · intro y hy
      rw [← List.append_assoc]
      rcases List.mem_append.mp hy with hy | hy
      · rcases h.full y hy with hkey | hfull
        · refine .inl ?_
          rw [List.map_append]
          exact List.mem_append_left _ hkey
        · rw [List.length_append] at hfull
          omega
      · rw [List.mem_singleton.mp hy]
        exact .inl (List.mem_map_of_mem (List.mem_append_right _ List.mem_cons_self))
  · refine ⟨added, rfl, fun y hy => List.mem_append_left _ (h.mem y hy),
      h.new, h.distinct, h.fits, ?_⟩
    intro y hy
    rcases List.mem_append.mp hy with hy | hy
    · exact h.full y hy
    · rw [List.mem_singleton.mp hy]
      by_cases hkey : key x ∈ (table ++ added).map key
      · exact .inl hkey
      · exact .inr (Nat.le_of_not_lt fun hroom => hadd ⟨hkey, hroom⟩)

omit [DecidableEq α] in
theorem exists_added (key : α → κ) (room : ℕ) (table xs : List α) :
    ∃ added, addAll key room table xs = table ++ added ∧ Added key room table xs added := by
  induction xs using List.reverseRecOn with
  | nil => exact ⟨[], (List.append_nil table).symm, .nil table⟩
  | append_singleton xs x ih =>
    obtain ⟨added, heq, hadded⟩ := ih
    unfold addAll at heq ⊢
    rw [List.foldl_concat, heq]
    exact hadded.add x

/-! ## Entries with a key of their own -/

/-- The entry stands in the table once, or its key is new and no other entry has it. -/
def Alone (key : α → κ) (table xs : List α) (x : α) : Prop :=
  table.count x = 1 ∨ (key x ∉ table.map key ∧ ∀ y ∈ xs, key y = key x → y = x)

/-- The entries that are not in the table yet. -/
def missing (table xs : List α) : List α := (xs.filter (· ∉ table)).dedup

theorem mem_missing : x ∈ missing table xs ↔ x ∈ xs ∧ x ∉ table := by
  unfold missing
  rw [List.mem_dedup, List.mem_filter, decide_eq_true_eq]

theorem nodup_missing (table xs : List α) : (missing table xs).Nodup := List.nodup_dedup _

omit [DecidableEq α] [DecidableEq κ] in
theorem Added.notMem (h : Added key room table xs added) (hx : x ∈ added) : x ∉ table :=
  fun hmem => h.new x hx (List.mem_map_of_mem hmem)

omit [DecidableEq κ] in
theorem Added.subset_missing (h : Added key room table xs added) : added ⊆ missing table xs :=
  fun x hx => mem_missing.mpr ⟨h.mem x hx, h.notMem hx⟩

omit [DecidableEq α] [DecidableEq κ] in
theorem Added.nodup (h : Added key room table xs added) : added.Nodup := .of_map key h.distinct

omit [DecidableEq κ] in
/-- What has its key to itself and finds room is added. -/
theorem Added.mem_of_alone (h : Added key room table xs added)
    (hroom : table.length + (missing table xs).length ≤ room)
    (hx : x ∈ xs) (hnew : key x ∉ table.map key) (halone : ∀ y ∈ xs, key y = key x → y = x) :
    x ∈ added := by
  by_contra hnot
  have hmissing : x ∈ missing table xs :=
    mem_missing.mpr ⟨hx, fun hmem => hnew (List.mem_map_of_mem hmem)⟩
  have hless : added.length < (missing table xs).length := by
    have hcons : x :: added ⊆ missing table xs := List.cons_subset.mpr ⟨hmissing, h.subset_missing⟩
    exact (List.nodup_cons.mpr ⟨hnot, h.nodup⟩).length_le_of_subset hcons
  rcases h.full x hx with hkey | hfull
  · obtain ⟨y, hy, hykey⟩ := List.mem_map.mp hkey
    rcases List.mem_append.mp hy with hy | hy
    · exact hnew (hykey ▸ List.mem_map_of_mem hy)
    · exact hnot (halone y (h.mem y hy) hykey ▸ hy)
  · rw [List.length_append] at hfull
    omega

/-- Each of the entries stands exactly once in the table, in the end. -/
theorem count_addAll_iff (hroom : table.length ≤ room) :
    (∀ x ∈ xs, (addAll key room table xs).count x = 1) ↔
    (∀ x ∈ xs, Alone key table xs x) ∧ table.length + (missing table xs).length ≤ room := by
  obtain ⟨added, heq, h⟩ := exists_added key room table xs
  rw [heq]
  constructor
  · intro honce
    have hadded : ∀ x ∈ xs, x ∉ table → x ∈ added := by
      intro x hx hnot
      have hcount := honce x hx
      rw [List.count_append, List.count_eq_zero_of_not_mem hnot, Nat.zero_add] at hcount
      exact List.count_pos_iff.mp (hcount ▸ Nat.one_pos)
    refine ⟨fun x hx => ?_, ?_⟩
    · by_cases hmem : x ∈ table
      · have hcount := honce x hx
        rw [List.count_append, List.count_eq_zero_of_not_mem fun hx' => h.notMem hx' hmem] at hcount
        exact .inl hcount
      · have hnew := h.new x (hadded x hx hmem)
        refine .inr ⟨hnew, fun y hy hkey => ?_⟩
        have hy' : y ∉ table := fun hy' => hnew (hkey ▸ List.mem_map_of_mem hy')
        exact List.inj_on_of_nodup_map h.distinct (hadded y hy hy') (hadded x hx hmem) hkey
    · have hsub : missing table xs ⊆ added := fun x hx =>
        hadded x (mem_missing.mp hx).1 (mem_missing.mp hx).2
      have hle := (nodup_missing table xs).length_le_of_subset hsub
      rcases h.fits with hnil | hfits
      · rw [hnil, List.length_nil] at hle
        omega
      · omega
  · rintro ⟨halone, hfits⟩ x hx
    rw [List.count_append]
    rcases halone x hx with hcount | ⟨hnew, hown⟩
    · have hmem : x ∈ table := List.count_pos_iff.mp (hcount ▸ Nat.one_pos)
      rw [hcount, List.count_eq_zero_of_not_mem fun hx' => h.notMem hx' hmem]
    · have hmem := h.mem_of_alone hfits hx hnew hown
      rw [List.count_eq_zero_of_not_mem (h.notMem hmem), List.count_eq_one_of_mem h.nodup hmem]

end KeyedTable
