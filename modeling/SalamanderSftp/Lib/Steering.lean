import SalamanderSftp.Lib.Procedure

/-!
# Steering a recursive walk

A recursive walk lists the items of a call and makes one call for each. Which items it is shown is
up to its environment, at every tick anew. If a quiet environment that shows a single item leads the
walk to the call for that item (`Steerable.single`), then every call that can be reached from a call
is reached in some run of it: the environment shows just the items on the way
(`Steerable.exists_run_to`).
-/

namespace Procedure

open Relation

variable {ι κ ρ σ ε : Type*}

/-- A walk with body `F env`. Two ticks pass between a call and the call for its only item; `made i
j s` records in the state that `i` has called `j`, and `sub` compares what states record. -/
structure Steerable (F : ε → Proc ι σ → Proc ι σ) (key : ι → ρ) (items : ρ → κ → Prop)
    (calls : ι → κ → ι → Prop) (list : ε → ℕ → ρ → Option (List κ))
    (tick : σ → ℕ) (quiet : ε → Prop)
    (ok : σ → Prop) (sub : σ → σ → Prop) (made : ι → ι → σ → Prop)
    (withList : ε → (ℕ → ρ → Option (List κ)) → ε) : Prop where
  sub_refl : ∀ s, sub s s
  sub_trans : ∀ {s t u}, sub s t → sub t u → sub s u
  single : ∀ {env i e j s}, quiet env → ok s → list env (tick s) (key i) = some [e] →
    items (key i) e → calls i e j →
    ∃ s', ok s' ∧ tick s' = tick s + 2 ∧ made i j s' ∧
      ∀ rec : Proc ι σ, sub (rec j s').2 (F env rec i s).2
  quiet_withList : ∀ {env f}, quiet env → quiet (withList env f)
  list_some : ∀ {env f s r e}, f s r = some [e] → items r e → list (withList env f) s r = some [e]
  list_none : ∀ {env f s r}, f s r = none → list (withList env f) s r = none

namespace Steerable

variable {F : ε → Proc ι σ → Proc ι σ} {key : ι → ρ}
  {items : ρ → κ → Prop} {calls : ι → κ → ι → Prop}
  {list : ε → ℕ → ρ → Option (List κ)} {tick : σ → ℕ} {quiet : ε → Prop} {ok : σ → Prop}
  {sub : σ → σ → Prop} {made : ι → ι → σ → Prop} {withList : ε → (ℕ → ρ → Option (List κ)) → ε}
  (h : Steerable F key items calls list tick quiet ok sub made withList)

include h

open Classical in
/-- The items to show on the way, from any tick on. -/
theorem exists_guide {i i' : ι}
    (hr : ReflTransGen (fun i j => ∃ e, items (key i) e ∧ calls i e j) i i') :
    ∀ t : ℕ, ∃ (f : ℕ → ρ → Option κ) (k : ℕ), (∀ s r e, f s r = some e → items r e) ∧
      ∀ env, quiet env →
      (∀ s r e, t ≤ s → s < t + 2 * k → f s r = some e → list env s r = some [e]) →
        ∀ s, tick s = t → ok s → ∃ s', ok s' ∧ tick s' = t + 2 * k ∧
          ∀ m, sub (recurse (F env) m i' s').2 (recurse (F env) (m + k) i s).2 := by
  induction hr using ReflTransGen.head_induction_on with
  | refl =>
    intro t
    exact ⟨fun _ _ => none, 0,
      by simp, fun env _ _ s ht hok => ⟨s, hok, by simpa using ht, fun m => h.sub_refl _⟩⟩
  | @head i₀ j hstep _ ih =>
    intro t
    obtain ⟨e, he, hcall⟩ := hstep
    obtain ⟨f, k, hf, hrun⟩ := ih (t + 2)
    refine ⟨fun s r => if s = t then if r = key i₀ then some e else none else f s r, k + 1, ?_, ?_⟩
    · intro s r e' hs
      dsimp only at hs
      split_ifs at hs with hst hr
      · obtain rfl := Option.some.inj hs
        rw [hr]
        exact he
      · exact hf s r e' hs
    · intro env hq hlist s ht hok
      have hl : list env (tick s) (key i₀) = some [e] := by
        rw [ht]
        exact hlist t (key i₀) e le_rfl (by omega) (by simp)
      obtain ⟨s₁, hok₁, htick₁, -, hsub₁⟩ := h.single hq hok hl he hcall
      obtain ⟨s', hok', htick', hsub'⟩ := hrun env hq
        (fun u r e' hu hu' hue => hlist u r e' (by omega) (by omega) (by
          dsimp only
          rwa [if_neg (by omega)]))
        s₁ (by rw [htick₁, ht]) hok₁
      refine ⟨s', hok', by omega, fun m => ?_⟩
      rw [← Nat.add_assoc, recurse_succ]
      exact h.sub_trans (hsub' m) (hsub₁ _)

open Classical in
/-- In some run the call for a given item of a reachable call is made, and nothing is listed
after. -/
theorem exists_run_to {i i' j : ι}
    (hr : ReflTransGen (fun i j => ∃ e, items (key i) e ∧ calls i e j) i i')
    {e : κ} (he : items (key i') e) (hcall : calls i' e j) (base : ε) (hq : quiet base) :
    ∃ (f : ℕ → ρ → Option (List κ)) (k : ℕ), (∀ s r es, f s r = some es → ∀ e ∈ es, items r e) ∧
      (∀ s, 2 * k + 2 ≤ s → ∀ r, list (withList base f) s r = none) ∧
      ∀ s, tick s = 0 → ok s → ∃ s', ok s' ∧ tick s' = 2 * k + 2 ∧ made i' j s' ∧
        ∀ m, sub (recurse (F (withList base f)) m j s').2
          (recurse (F (withList base f)) (m + 1 + k) i s).2 := by
  obtain ⟨f, k, hf, hrun⟩ := h.exists_guide hr 0
  set g : ℕ → ρ → Option (List κ) := fun s r =>
    if s < 2 * k then (f s r).map ([·]) else if s = 2 * k ∧
      r = key i' then some [e] else none with hg
  have hitems : ∀ s r es, g s r = some es → ∀ e ∈ es, items r e := by
    intro s r es hs
    simp only [hg] at hs
    split_ifs at hs with h1 h2
    · obtain ⟨e', he', rfl⟩ := Option.map_eq_some_iff.mp hs
      simpa using hf s r e' he'
    · obtain rfl := Option.some.inj hs
      rw [h2.2]
      simpa using he
  refine ⟨g, k, hitems, ?_, ?_⟩
  · intro s hs r
    refine h.list_none ?_
    simp only [hg]
    rw [if_neg (by omega), if_neg (by omega)]
  · intro s ht hok
    obtain ⟨s₁, hok₁, htick₁, hsub₁⟩ :=
      hrun (withList base g) (h.quiet_withList hq) (fun u r e' _ hu hue => by
      refine h.list_some ?_ (hf u r e' hue)
      simp only [hg]
      rw [if_pos (by omega), hue]
      rfl) s ht hok
    have hl : list (withList base g) (tick s₁) (key i') = some [e] := by
      refine h.list_some ?_ he
      simp only [hg]
      rw [if_neg (by omega), if_pos ⟨by omega, trivial⟩]
    obtain ⟨s', hok', htick', hmade, hsub'⟩ := h.single (h.quiet_withList hq) hok₁ hl he hcall
    refine ⟨s', hok', by omega, hmade, fun m => h.sub_trans (hsub' _) ?_⟩
    exact hsub₁ (m + 1)

end Steerable

end Procedure
