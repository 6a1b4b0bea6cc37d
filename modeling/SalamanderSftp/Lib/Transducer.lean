import Mathlib.Data.List.Basic

/-!
# Transducers

A machine that reads a word and gives a piece of output at each letter. Started afresh at each part
of a word it gives what it gives for the word itself, unless a start afresh can be told from the
state it has come to.
-/

namespace Transducer

variable {σ α β : Type*} (step : σ → α → σ) (emit : σ → α → List β)

/-- The output for a word that is read from a state on. -/
def output : σ → List α → List β
  | _, [] => []
  | s, a :: as => emit s a ++ output (step s a) as

@[simp] theorem output_nil (s : σ) : output step emit s [] = [] := rfl

theorem output_append (s : σ) (as bs : List α) :
    output step emit s (as ++ bs) =
      output step emit s as ++ output step emit (as.foldl step s) bs := by
  induction as generalizing s with
  | nil => rfl
  | cons a as ih => rw [List.cons_append, output, output, ih, List.append_assoc, List.foldl_cons]

/-- The output for the parts of a word, each of them read from the start. -/
def outputEach (start : σ) (parts : List (List α)) :
    List β := parts.flatMap (output step emit start)

variable {step emit} {start : σ}

/-- Where a start afresh never shortens the output, it makes no difference exactly if it makes none
at any of the parts. -/
theorem outputEach_eq_iff
    (h : ∀ s as, (output step emit s as).length ≤ (output step emit start as).length)
    (parts : List (List α)) : ∀ s : σ,
    (output step emit s parts.flatten).length ≤ (outputEach step emit start parts).length ∧
      (outputEach step emit start parts = output step emit s parts.flatten ↔
        ∀ before part after, parts = before ++ part :: after →
          output step emit start part = output step emit (before.flatten.foldl step s) part) := by
  induction parts with
  | nil => exact fun s => ⟨Nat.le_refl _, iff_of_true rfl fun before part after h => by simp at h⟩
  | cons part parts ih =>
    intro s
    obtain ⟨hle, hiff⟩ := ih (part.foldl step s)
    have hpart := h s part
    have heach : outputEach step emit start (part :: parts) =
        output step emit start part ++ outputEach step emit start parts := rfl
    rw [heach, List.flatten_cons, output_append, List.length_append, List.length_append]
    refine ⟨Nat.add_le_add hpart hle, ?_⟩
    constructor
    · intro heq before part' after hsplit
      have hlen := congrArg List.length heq
      rw [List.length_append, List.length_append] at hlen
      obtain ⟨hfirst, hrest⟩ := List.append_inj heq (by omega)
      cases before with
      | nil =>
        obtain ⟨rfl, -⟩ := List.cons.inj hsplit
        exact hfirst
      | cons first before =>
        obtain ⟨rfl, htail⟩ := List.cons.inj hsplit
        rw [List.flatten_cons, List.foldl_append]
        exact hiff.mp hrest before part' after htail
    · intro hall
      have hfirst := hall [] part parts rfl
      have hrest := hiff.mpr fun before part' after hsplit => by
        have hnext := hall (part :: before) part' after (by rw [hsplit, List.cons_append])
        rwa [List.flatten_cons, List.foldl_append] at hnext
      rw [hfirst, hrest]
      rfl

end Transducer
