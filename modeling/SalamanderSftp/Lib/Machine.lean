import Mathlib.Logic.Relation

/-!
# Runs of a machine

A machine is a partial step function: each action is possible in some states, and leads to one state
from there. A condition on the steps selects the runs whose steps all meet it.
-/

namespace Machine

open Relation

variable {σ α : Type*} {step : α → σ → Option σ} {ok ok' : σ → α → Prop} {s t : σ}

/-- A step with an action that meets the condition. -/
def Next (step : α → σ → Option σ) (ok : σ → α → Prop) (s t : σ) :
    Prop := ∃ a, ok s a ∧ step a s = some t

/-- The states of the runs whose steps meet the condition. -/
def Reaches (step : α → σ → Option σ) (ok : σ → α → Prop) :
    σ → σ → Prop := ReflTransGen (Next step ok)

/-- What holds at first and is kept by each step holds in every state that is reached. -/
theorem Reaches.invariant {I : σ → Prop} (h : Reaches step ok s t)
    (hstep : ∀ s a t, I s → ok s a → step a s = some t → I t) (hs : I s) : I t := by
  induction h with
  | refl => exact hs
  | tail _ hnext ih =>
    obtain ⟨a, ha, ht⟩ := hnext
    exact hstep _ a _ ih ha ht

theorem Reaches.mono (h : Reaches step ok s t) (hok : ∀ s a, ok s a → ok' s a) :
    Reaches step ok' s t :=
  ReflTransGen.mono (fun _ _ ⟨a, ha, ht⟩ => ⟨a, hok _ a ha, ht⟩) _ _ h

theorem Reaches.next (h : Reaches step ok s t) {a : α} {u : σ} (ha : ok t a)
    (hu : step a t = some u) :
    Reaches step ok s u :=
  ReflTransGen.tail h ⟨a, ha, hu⟩

/-! ## Runs of given actions -/

/-- The state after the actions, when each can be made and meets the condition. -/
def run (step : α → σ → Option σ) (ok : σ → α → Prop) [∀ s a, Decidable (ok s a)] :
    List α → σ → Option σ
  | [], s => some s
  | a :: as, s => if ok s a then (step a s).bind (run step ok as) else none

theorem reaches_of_run [∀ s a, Decidable (ok s a)] :
    ∀ {as : List α} {s t : σ}, run step ok as s = some t → Reaches step ok s t
  | [], s, t, h => by
    obtain rfl := Option.some.inj h
    exact .refl
  | a :: as, s, t, h => by
    rw [run] at h
    by_cases ha : ok s a
    · rw [if_pos ha] at h
      obtain ⟨u, hu, hrest⟩ := Option.bind_eq_some_iff.mp h
      exact .head ⟨a, ha, hu⟩ (reaches_of_run hrest)
    · rw [if_neg ha] at h
      cases h

theorem reaches_run [∀ s a, Decidable (ok s a)] {as : List α} (h : (run step ok as s).isSome) :
    Reaches step ok s ((run step ok as s).get h) :=
  reaches_of_run (Option.some_get h).symm

/-! ## Machines that can always step -/

section Total

variable {act : σ → α → σ} {P Q : σ → α → Prop} {I : σ → Prop}

/-- Every step of the run with these actions meets the condition. -/
def Along (act : σ → α → σ) (P : σ → α → Prop) : σ → List α → Prop
  | _, [] => True
  | s, a :: as => P s a ∧ Along act P (act s a) as

/-- Conditions that agree under an invariant select the same runs. -/
theorem along_congr (hkeep : ∀ s a, I s → I (act s a)) (hiff : ∀ s a, I s → (P s a ↔ Q s a)) :
    ∀ (as : List α) {s : σ}, I s → (Along act P s as ↔ Along act Q s as)
  | [], _, _ => Iff.rfl
  | a :: as, s, hs => and_congr (hiff s a hs) (along_congr hkeep hiff as (hkeep s a hs))

/-- A condition under which an invariant is kept, and another one follows from it there. -/
theorem Along.imp (hkeep : ∀ s a, I s → P s a → I (act s a)) (himp : ∀ s a, I s → P s a → Q s a) :
    ∀ {as : List α} {s : σ}, Along act P s as → I s → Along act Q s as
  | [], _, _, _ => trivial
  | a :: _, s, ⟨ha, has⟩, hs => ⟨himp s a hs ha, Along.imp hkeep himp has (hkeep s a hs ha)⟩

/-- A condition in which the state plays no part. -/
theorem along_iff_each {R : α → Prop} : ∀ {as : List α}, (∀ s, ∀ a ∈ as, P s a ↔ R a) → ∀ s : σ,
    (Along act P s as ↔ ∀ a ∈ as, R a)
  | [], _, _ => by simp [Along]
  | a :: as, h, s => by
    rw [List.forall_mem_cons, Along, h s a List.mem_cons_self]
    exact and_congr_right fun _ =>
      along_iff_each (fun s b hb => h s b (List.mem_cons_of_mem a hb)) _

/-- In a state that the steps meeting the condition keep, each action is judged by itself. -/
theorem along_iff_forall {R : α → Prop} (hkeep : ∀ a, R a → act s a = s) (hiff : ∀ a, P s a ↔ R a) :
    ∀ as : List α, Along act P s as ↔ ∀ a ∈ as, R a
  | [] => by simp [Along]
  | a :: as => by
    have ih := along_iff_forall hkeep hiff as
    rw [List.forall_mem_cons, Along]
    constructor
    · rintro ⟨ha, has⟩
      have hR := (hiff a).mp ha
      rw [hkeep a hR] at has
      exact ⟨hR, ih.mp has⟩
    · rintro ⟨hR, has⟩
      rw [hkeep a hR]
      exact ⟨(hiff a).mpr hR, ih.mpr has⟩

end Total

end Machine
