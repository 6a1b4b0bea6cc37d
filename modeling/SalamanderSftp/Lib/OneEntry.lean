import Mathlib.Data.List.Basic

/-!
# Lists of which one entry changes

A new list may differ from the old one in one entry, which has another content or is gone; the
others stay as they are and in their order. A predicate says which entries may.
-/

namespace OneEntry

variable {α : Type*} {may : ℕ → Prop} {l : List α} {a : α} {i : ℕ}

/-- At most one entry is modified or removed, and it is one that may. -/
def ChangesOnly (may : ℕ → Prop) (l l' : List α) : Prop :=
  l' = l ∨ ∃ i, may i ∧ ((∃ a, l' = l.set i a) ∨ l' = l.eraseIdx i)

namespace ChangesOnly

theorem refl (may : ℕ → Prop) (l : List α) : ChangesOnly may l l := .inl rfl

theorem set (h : may i) (l : List α) (a : α) :
    ChangesOnly may l (l.set i a) := .inr ⟨i, h, .inl ⟨a, rfl⟩⟩

theorem eraseIdx (h : may i) (l : List α) :
    ChangesOnly may l (l.eraseIdx i) := .inr ⟨i, h, .inr rfl⟩

/-- One entry is written: it may change, or is as it was. -/
theorem set_iff (hi : l[i]? = some a) {b : α} : ChangesOnly may l (l.set i b) ↔ may i ∨ a = b := by
  obtain ⟨hlt, hget⟩ := List.getElem?_eq_some_iff.mp hi
  have hnew : (l.set i b)[i]? = some b := List.getElem?_set_self hlt
  constructor
  · rintro (heq | ⟨j, hj, ⟨c, heq⟩ | heq⟩)
    · rw [heq, hi] at hnew
      exact .inr (Option.some.inj hnew)
    · by_cases hne : j = i
      · exact .inl (hne ▸ hj)
      · rw [heq, List.getElem?_set_ne hne, hi] at hnew
        exact .inr (Option.some.inj hnew)
    · by_cases hjl : j < l.length
      · have hlen := congrArg List.length heq
        rw [List.length_set, List.length_eraseIdx_of_lt hjl] at hlen
        omega
      · rw [heq, List.eraseIdx_of_length_le (Nat.le_of_not_lt hjl), hi] at hnew
        exact .inr (Option.some.inj hnew)
  · rintro (h | rfl)
    · exact set h l b
    · rw [← hget, List.set_getElem_self hlt]
      exact refl may l

/-- An entry that is added is none of the old ones. -/
theorem not_append (may : ℕ → Prop) (l : List α) (a : α) : ¬ ChangesOnly may l (l ++ [a]) := by
  have hlong : (l ++ [a]).length = l.length + 1 := List.length_append
  rintro (heq | ⟨j, -, ⟨b, heq⟩ | heq⟩)
  · rw [heq] at hlong
    omega
  · rw [heq, List.length_set] at hlong
    omega
  · have hle := List.length_eraseIdx_le l j
    rw [heq] at hlong
    omega

end ChangesOnly

end OneEntry
