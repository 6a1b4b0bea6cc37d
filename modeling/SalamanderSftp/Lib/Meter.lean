import SalamanderSftp.Lib.Machine
import Mathlib.Data.List.Basic

/-!
# Meters

A meter has a reading and a total, and adds each increase of the reading to the total; a lower
reading than before adds nothing. The total has room for the numbers below a modulus. `gained` is
what a list of readings adds up to: where the readings rise it is the way from the first to the
last, whatever lies between (`gained_of_rises`).
-/

structure Meter where
  reading : ℕ
  total : ℕ

namespace Meter

open Machine

/-- A new reading. -/
def note (modulus : ℕ) (m : Meter) (d : ℕ) : Meter :=
  ⟨d, if m.reading ≤ d then (m.total + (d - m.reading)) % modulus else m.total⟩

/-- The sum of the increases. -/
def gained : ℕ → List ℕ → ℕ
  | _, [] => 0
  | prev, d :: ds => (d - prev) + gained d ds

/-- Readings that rise from a first one to a last one. -/
def Rises : ℕ → List ℕ → ℕ → Prop
  | first, [], last => first = last
  | first, d :: ds, last => first ≤ d ∧ Rises d ds last

theorem Rises.le {first last : ℕ} {ds : List ℕ} (h : Rises first ds last) : first ≤ last := by
  induction ds generalizing first with
  | nil => exact Nat.le_of_eq h
  | cons d ds ih => exact Nat.le_trans h.1 (ih h.2)

theorem gained_of_rises {first last : ℕ} {ds : List ℕ} (h : Rises first ds last) :
    gained first ds = last - first := by
  induction ds generalizing first with
  | nil => exact (Nat.sub_eq_zero_of_le (Nat.le_of_eq h.symm)).symm
  | cons d ds ih =>
    have hle := h.2.le
    have hfirst := h.1
    rw [gained, ih h.2]
    omega

theorem note_total {modulus : ℕ} {m : Meter} (h : m.total < modulus) (d : ℕ) :
    (note modulus m d).total = (m.total + (d - m.reading)) % modulus := by
  unfold note
  dsimp only
  split_ifs with hle
  · rfl
  · rw [Nat.sub_eq_zero_of_le (by omega), Nat.add_zero, Nat.mod_eq_of_lt h]

theorem note_total_lt {modulus : ℕ} {m : Meter} (h : m.total < modulus) (d : ℕ) :
    (note modulus m d).total < modulus := by
  rw [note_total h]
  exact Nat.mod_lt _ (by omega)

/-- The readings count for what they gain. -/
theorem foldl_total {modulus : ℕ} (ds : List ℕ) : ∀ {m : Meter}, m.total < modulus →
    (ds.foldl (note modulus) m).total = (m.total + gained m.reading ds) % modulus := by
  induction ds with
  | nil => exact fun h => (Nat.mod_eq_of_lt h).symm
  | cons d ds ih =>
    intro m h
    rw [List.foldl_cons, ih (note_total_lt h d), note_total h, gained,
      Nat.mod_add_mod, Nat.add_assoc]
    rfl

/-- The total never goes down exactly when it has room for all that is gained. -/
theorem along_le_iff {modulus : ℕ} (ds : List ℕ) :
    (∀ d ∈ ds, d < modulus) → ∀ {m : Meter}, m.total < modulus →
    (Along (note modulus) (fun m d => m.total ≤ (note modulus m d).total) m ds ↔
      m.total + gained m.reading ds < modulus) := by
  induction ds with
  | nil => exact fun _ m h => iff_of_true trivial h
  | cons d ds ih =>
    intro hsmall m h
    have hd := hsmall d List.mem_cons_self
    have hrest := ih (fun d' hd' => hsmall d' (List.mem_cons_of_mem d hd')) (note_total_lt h d)
    have htotal := note_total h d
    have hstep : m.total ≤ (note modulus m d).total ↔ m.total + (d - m.reading) < modulus := by
      rw [htotal]
      constructor
      · intro hle
        by_contra hover
        rw [Nat.mod_eq_sub_mod (by omega), Nat.mod_eq_of_lt (by omega)] at hle
        omega
      · intro hlt
        rw [Nat.mod_eq_of_lt hlt]
        omega
    rw [Along, hstep, hrest, gained]
    constructor
    · rintro ⟨hlt, hall⟩
      rw [htotal, Nat.mod_eq_of_lt hlt] at hall
      exact Nat.add_assoc _ _ _ ▸ hall
    · intro hall
      have hlt : m.total + (d - m.reading) < modulus := by omega
      refine ⟨hlt, ?_⟩
      rw [htotal, Nat.mod_eq_of_lt hlt, Nat.add_assoc]
      exact hall

end Meter
