import Mathlib.Data.List.Flatten
import Mathlib.Data.List.Perm.Basic

/-!
# Walks of bounded depth

A walk lists a place, and goes on in the places that some of the items there lead to, some levels
deep and no deeper. `found` has all items in the order in which the walk comes to them, `visits` the
places that it lists. The items found are those of the places visited (`found_perm`), so that it is
enough to know how often each place is visited.
-/

namespace BoundedWalk

variable {π ι : Type*} (list : π → List ι) (into : π → ι → Option π)

/-- The items that a walk of some levels comes to. -/
def found : ℕ → π → List ι
  | 0, _ => []
  | levels + 1, p => (list p).flatMap fun e => e :: (into p e).elim [] (found levels)

/-- The places that it lists. -/
def visits : ℕ → π → List π
  | 0, _ => []
  | levels + 1, p => p :: (list p).flatMap fun e => (into p e).elim [] (visits levels)

theorem found_succ (levels : ℕ) (p : π) :
    found list into (levels + 1) p = (list p).flatMap fun e =>
      e :: (into p e).elim [] (found list into levels) := rfl

theorem visits_succ (levels : ℕ) (p : π) :
    visits list into (levels + 1) p = p :: (list p).flatMap fun e =>
      (into p e).elim [] (visits list into levels) := rfl

/-- The walk finds what there is at the places it visits. -/
theorem found_perm (levels : ℕ) :
    ∀ p, (found list into levels p).Perm ((visits list into levels p).flatMap list) := by
  induction levels with
  | zero => exact fun p => .refl _
  | succ levels ih =>
    intro p
    have hbelow : ∀ e ∈ list p, ((into p e).elim [] (found list into levels)).Perm
        (((into p e).elim [] (visits list into levels)).flatMap list) := by
      intro e _
      cases into p e with
      | none => exact .refl _
      | some p' => exact ih p'
    have hsplit := (List.flatMap_append_perm (list p) (fun e => [e])
      fun e => (into p e).elim [] (found list into levels)).symm
    rw [List.flatMap_singleton'] at hsplit
    rw [found_succ, visits_succ, List.flatMap_cons, List.flatMap_assoc]
    exact hsplit.trans ((List.Perm.flatMap (.refl _) hbelow).append_left (list p))

/-- A walk that does the same under other names, from the places on that `good` has. -/
theorem visits_map {π' κ : Type*} {list : π → List ι}
    {into : π → ι → Option π} {list' : π' → List κ}
    {into' : π' → κ → Option π'} {good : π → Prop} {g : π → π'} {f : π → ι → κ}
    (hlist : ∀ p, good p → list' (g p) = (list p).map (f p))
    (hinto : ∀ p, good p → ∀ e ∈ list p, into' (g p) (f p e) = (into p e).map g)
    (hgood : ∀ p, good p → ∀ e ∈ list p, ∀ p', into p e = some p' → good p') (levels : ℕ) :
    ∀ p, good p → visits list' into' levels (g p) = (visits list into levels p).map g := by
  induction levels with
  | zero => exact fun p _ => rfl
  | succ levels ih =>
    intro p hp
    rw [visits_succ, visits_succ, hlist p hp, List.flatMap_map, List.map_cons, List.map_flatMap]
    refine congrArg (g p :: ·) (List.flatMap_congr fun e he => ?_)
    rw [hinto p hp e he]
    cases hp' : into p e with
    | none => rfl
    | some p' => exact ih p' (hgood p hp e he p' hp')

end BoundedWalk
