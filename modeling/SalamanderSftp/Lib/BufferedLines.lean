import Mathlib

/-!
# Reading a text line by line into a buffer

A read takes everything up to and including the next newline, and at most `limit` characters:
a longer line comes in several pieces.
-/

namespace BufferedLines

variable {α : Type*} [DecidableEq α] (nl : α) (limit : ℕ)

/-- The loop; `cur` is what the buffer holds. -/
def piecesFrom : List α → List α → List (List α)
  | cur, [] => if cur = [] then [] else [cur]
  | cur, c :: s =>
    if c = nl ∨
      limit ≤ cur.length + 1 then (cur ++ [c]) :: piecesFrom [] s else piecesFrom (cur ++ [c]) s

/-- The results of the reads up to the end of the text. -/
def pieces (s : List α) : List (List α) := piecesFrom nl limit [] s

variable {nl limit}

theorem piecesFrom_line {cur text rest : List α} (hnl : nl ∉ text)
    (hfits : cur.length + text.length < limit) :
    piecesFrom nl limit cur (text ++ nl :: rest) =
      (cur ++ text ++ [nl]) :: piecesFrom nl limit [] rest := by
  induction text generalizing cur with
  | nil => rw [List.nil_append, piecesFrom, if_pos (.inl rfl), List.append_nil]
  | cons c text ih =>
    rw [List.length_cons] at hfits
    have hc : ¬ (c = nl ∨ limit ≤ cur.length + 1) := by
      rintro (rfl | hlimit)
      · exact hnl List.mem_cons_self
      · omega
    rw [List.cons_append, piecesFrom, if_neg hc,
      ih (fun hmem => hnl (List.mem_cons_of_mem c hmem)) (by simp; omega)]
    simp

/-- Lines that fit the buffer are read one by one. -/
theorem pieces_flatten {lines : List (List α)}
    (h : ∀ line ∈ lines, ∃ text, line = text ++ [nl] ∧ nl ∉ text ∧ text.length < limit) :
    pieces nl limit lines.flatten = lines := by
  unfold pieces
  induction lines with
  | nil => rfl
  | cons line lines ih =>
    obtain ⟨⟨text, rfl, hnl, hfits⟩, hrest⟩ := List.forall_mem_cons.mp h
    rw [List.flatten_cons, List.append_assoc, List.singleton_append,
      piecesFrom_line hnl (by simpa using hfits), ih hrest]
    rfl

/-- A newline stands only at the end of what a read gives, which is text that was there. -/
theorem mem_piecesFrom {s cur piece : List α} (hcur : nl ∉ cur)
    (h : piece ∈ piecesFrom nl limit cur s) :
    nl ∉ piece.dropLast ∧ ∀ c ∈ piece, c ∈ cur ∨ c ∈ s := by
  induction s generalizing cur with
  | nil =>
    rw [piecesFrom] at h
    split_ifs at h
    · cases h
    · obtain rfl := List.mem_singleton.mp h
      exact ⟨fun hmem => hcur (List.mem_of_mem_dropLast hmem), fun c hc => .inl hc⟩
  | cons d s ih =>
    rw [piecesFrom] at h
    split_ifs at h with hend
    · rcases List.mem_cons.mp h with rfl | h
      · rw [List.dropLast_concat]
        refine ⟨hcur, fun c hc => ?_⟩
        rcases List.mem_append.mp hc with hc | hc
        · exact .inl hc
        · exact .inr (List.mem_singleton.mp hc ▸ List.mem_cons_self)
      · obtain ⟨hlast, hfrom⟩ := ih List.not_mem_nil h
        exact ⟨hlast,
          fun c hc => .inr (List.mem_cons_of_mem d ((hfrom c hc).resolve_left List.not_mem_nil))⟩
    · have hd : nl ∉ cur ++ [d] := by
        rw [List.mem_append, List.mem_singleton]
        rintro (hmem | rfl)
        · exact hcur hmem
        · exact hend (.inl rfl)
      obtain ⟨hlast, hfrom⟩ := ih hd h
      refine ⟨hlast, fun c hc => ?_⟩
      rcases hfrom c hc with hc | hc
      · rcases List.mem_append.mp hc with hc | hc
        · exact .inl hc
        · exact .inr (List.mem_singleton.mp hc ▸ List.mem_cons_self)
      · exact .inr (List.mem_cons_of_mem d hc)

theorem mem_pieces {s piece : List α} (h : piece ∈ pieces nl limit s) :
    nl ∉ piece.dropLast ∧ ∀ c ∈ piece, c ∈ s := by
  obtain ⟨hlast, hfrom⟩ := mem_piecesFrom List.not_mem_nil h
  exact ⟨hlast, fun c hc => (hfrom c hc).resolve_left List.not_mem_nil⟩

end BufferedLines
