import Mathlib.Data.Finset.Basic
import Mathlib.Data.Finset.Prod

/-!
# Handles

A handle is given by the outside, used, and given back; one handle may rest on another, which has to
stay until then. `track` follows a history of such events, and has no state behind one that breaks
these rules.

1. In a history that can be followed, a handle is given back as often as it was given, less the one
   that is held (`count_release`).
2. Where several owners act in turns, with handles that nobody held when they were given, the whole
   history can be followed if that of each owner can (`follow_interleaved`).
-/

namespace Handles

variable {η ι : Type*} [DecidableEq η]

inductive Event (η : Type*)
  | acquire (h : η)
  /-- From now on a handle works on another. -/
  | rest (h base : η)
  | use (h : η)
  | release (h : η)
  deriving DecidableEq

/-- The handle that is given, if one is. -/
def Event.given {η : Type*} : Event η → Option η
  | acquire h => some h
  | _ => none

/-- What is held, and what rests on what. -/
structure Held (η : Type*) where
  live : Finset η
  rests : Finset (η × η)

namespace Held

def none : Held η := ⟨∅, ∅⟩

def track (s : Held η) : Event η → Option (Held η)
  | .acquire h => if h ∈ s.live then .none else some { s with live := insert h s.live }
  | .rest h base =>
    if h ∈ s.live ∧ base ∈ s.live then some { s with rests := insert (h, base) s.rests } else .none
  | .use h => if h ∈ s.live then some s else .none
  | .release h =>
    if h ∈ s.live ∧
      ∀ p ∈ s.rests, p.2 ≠ h then some ⟨s.live.erase h, s.rests.filter (·.1 ≠ h)⟩ else .none

/-- The state behind a history. -/
def follow (s : Held η) (log : List (Event η)) : Option (Held η) := log.foldlM track s

/-- What rests on something is held, and so is what it rests on. -/
structure Sound (s : Held η) : Prop where
  upper : ∀ p ∈ s.rests, p.1 ∈ s.live
  base : ∀ p ∈ s.rests, p.2 ∈ s.live

variable {s t u : Held η} {e : Event η} {h base : η} {log more : List (Event η)}

/-! ## One event -/

theorem track_acquire :
    s.track (.acquire h) = some t ↔ h ∉ s.live ∧ t = { s with live := insert h s.live } := by
  rw [track]
  split_ifs with hlive
  · simp [hlive]
  · simp [hlive, eq_comm]

theorem track_rest : s.track (.rest h base) = some t ↔
    (h ∈ s.live ∧ base ∈ s.live) ∧ t = { s with rests := insert (h, base) s.rests } := by
  rw [track]
  split_ifs with hlive
  · simp [hlive, eq_comm]
  · simp [hlive]

theorem track_use : s.track (.use h) = some t ↔ h ∈ s.live ∧ t = s := by
  rw [track]
  split_ifs with hlive
  · simp [hlive, eq_comm]
  · simp [hlive]

theorem track_release : s.track (.release h) = some t ↔
    (h ∈ s.live ∧ ∀ p ∈ s.rests, p.2 ≠ h) ∧ t = ⟨s.live.erase h, s.rests.filter (·.1 ≠ h)⟩ := by
  rw [track]
  split_ifs with hlive
  · exact ⟨fun heq => ⟨hlive, (Option.some.inj heq).symm⟩, fun heq => congrArg some heq.2.symm⟩
  · exact ⟨fun heq => (nomatch heq), fun heq => absurd heq.1 hlive⟩

omit [DecidableEq η] in
theorem sound_none : (none : Held η).Sound where
  upper p hp := absurd hp (Finset.notMem_empty p)
  base p hp := absurd hp (Finset.notMem_empty p)

theorem Sound.track (hs : s.Sound) (ht : s.track e = some t) : t.Sound := by
  cases e with
  | acquire h =>
    obtain ⟨-, rfl⟩ := track_acquire.mp ht
    exact ⟨fun p hp => Finset.mem_insert_of_mem (hs.upper p hp),
      fun p hp => Finset.mem_insert_of_mem (hs.base p hp)⟩
  | rest h base =>
    obtain ⟨⟨hlive, hbase⟩, rfl⟩ := track_rest.mp ht
    constructor
    · intro p hp
      rcases Finset.mem_insert.mp hp with rfl | hp
      · exact hlive
      · exact hs.upper p hp
    · intro p hp
      rcases Finset.mem_insert.mp hp with rfl | hp
      · exact hbase
      · exact hs.base p hp
  | use h =>
    obtain ⟨-, rfl⟩ := track_use.mp ht
    exact hs
  | release h =>
    obtain ⟨⟨-, hfree⟩, rfl⟩ := track_release.mp ht
    constructor
    · intro p hp
      obtain ⟨hp, hne⟩ := Finset.mem_filter.mp hp
      exact Finset.mem_erase.mpr ⟨hne, hs.upper p hp⟩
    · intro p hp
      have hp := (Finset.mem_filter.mp hp).1
      exact Finset.mem_erase.mpr ⟨hfree p hp, hs.base p hp⟩

/-! ## A history -/

@[simp] theorem follow_nil : s.follow [] = some s := rfl

theorem follow_cons : s.follow (e :: log) = (s.track e).bind fun t => t.follow log := rfl

theorem follow_singleton (s : Held η) (e : Event η) : s.follow [e] = s.track e := by
  show (s.track e).bind some = s.track e
  cases s.track e <;> rfl

theorem follow_append :
    s.follow (log ++ more) = (s.follow log).bind fun t => t.follow more := List.foldlM_append ..

/-- A history that can be followed can be followed up to each of its events. -/
theorem exists_follow_of_append (h : s.follow (log ++ more) = some u) :
    ∃ t, s.follow log = some t ∧ t.follow more = some u := by
  rw [follow_append] at h
  exact Option.bind_eq_some_iff.mp h

theorem Sound.follow : ∀ {s : Held η}, s.Sound → s.follow log = some t → t.Sound := by
  induction log with
  | nil =>
    intro s hs ht
    exact Option.some.inj ht ▸ hs
  | cons e log ih =>
    intro s hs ht
    rw [follow_cons] at ht
    obtain ⟨u, hu, ht⟩ := Option.bind_eq_some_iff.mp ht
    exact ih (hs.track hu) ht

/-- Each handle is given back as often as it was given, less the one that is held. -/
theorem count_release (hfollow : (none : Held η).follow log = some t) (h : η) :
    log.count (.acquire h) = log.count (.release h) + if h ∈ t.live then 1 else 0 := by
  induction log using List.reverseRecOn generalizing t with
  | nil =>
    obtain rfl := Option.some.inj hfollow
    simp [none]
  | append_singleton log e ih =>
    obtain ⟨u, hu, ht⟩ := exists_follow_of_append hfollow
    rw [follow_singleton] at ht
    have hcount := ih hu
    cases e with
    | acquire k =>
      obtain ⟨hk, rfl⟩ := track_acquire.mp ht
      by_cases hkh : k = h
      · subst hkh
        rw [if_neg hk] at hcount
        simp [hcount]
      · have hne : h ≠ k := fun heq => hkh heq.symm
        simp [hcount, hkh, hne]
    | rest k base =>
      obtain ⟨-, rfl⟩ := track_rest.mp ht
      simpa using hcount
    | use k =>
      obtain ⟨-, rfl⟩ := track_use.mp ht
      simpa using hcount
    | release k =>
      obtain ⟨⟨hk, -⟩, rfl⟩ := track_release.mp ht
      by_cases hkh : k = h
      · subst hkh
        rw [if_pos hk] at hcount
        simp [hcount]
      · have hne : h ≠ k := fun heq => hkh heq.symm
        simp [hcount, hkh, hne]

/-! ## Several owners -/

section Owners

variable [DecidableEq ι] {S : ι → Held η} {i : ι} {all : List (ι × Event η)}

/-- The events of one owner. -/
def own (i : ι) (log : List (ι × Event η)) : List (Event η) := (log.filter (·.1 = i)).map Prod.snd

/-- The state of all, where no handle is held by two owners. -/
structure Together (S : ι → Held η) (t : Held η) : Prop where
  live : ∀ h, h ∈ t.live ↔ ∃ i, h ∈ (S i).live
  rests : ∀ p, p ∈ t.rests ↔ ∃ i, p ∈ (S i).rests
  apart : ∀ i j h, h ∈ (S i).live → h ∈ (S j).live → i = j

/-- Each handle that is given is one that no owner holds. -/
def Fresh (log : List (ι × Event η)) : Prop :=
  ∀ before i h, before ++ [(i, .acquire h)] <+: log →
    ∀ j t, none.follow (own j before) = some t → h ∉ t.live

omit [DecidableEq η] in
/-- One owner's state apart from those of the others. -/
theorem exists_owner (P : Held η → Prop) (S : ι → Held η) (i : ι) :
    (∃ j, P (S j)) ↔ P (S i) ∨ ∃ j ≠ i, P (S j) := by
  conv_lhs => rw [← Function.update_eq_self i S]
  exact Function.exists_update_iff S fun _ s => P s

omit [DecidableEq η] in
/-- No handle comes to be held by two owners where what is new to one was held by nobody. -/
theorem Together.apart_update (ht : Together S t)
    (hs : ∀ h ∈ s.live, h ∈ (S i).live ∨ ∀ j, h ∉ (S j).live) :
    ∀ j k h, h ∈ (Function.update S i s j).live → h ∈ (Function.update S i s k).live → j = k := by
  have hone : ∀ k h, h ∈ s.live → k ≠ i → h ∉ (S k).live := by
    intro k h hh hk hkh
    rcases hs h hh with hi | hnone
    · exact hk (ht.apart k i h hkh hi)
    · exact hnone k hkh
  intro j k h hj hk
  rcases eq_or_ne j i with rfl | hji
  · rcases eq_or_ne k j with rfl | hkj
    · rfl
    · rw [Function.update_self] at hj
      rw [Function.update_of_ne hkj] at hk
      exact absurd hk (hone k h hj hkj)
  · rw [Function.update_of_ne hji] at hj
    rcases eq_or_ne k i with rfl | hki
    · rw [Function.update_self] at hk
      exact absurd hj (hone j h hk hji)
    · rw [Function.update_of_ne hki] at hk
      exact ht.apart j k h hj hk

theorem Together.step (ht : Together S t) (hS : ∀ j, (S j).Sound) (he : (S i).track e = some s)
    (hfresh : ∀ h, e = .acquire h → ∀ j, h ∉ (S j).live) :
    ∃ t', t.track e = some t' ∧ Together (Function.update S i s) t' := by
  have hlive : ∀ {h}, h ∈ (S i).live → h ∈ t.live := fun {h} hh => (ht.live h).mpr ⟨i, hh⟩
  cases e with
  | acquire h =>
    obtain ⟨-, rfl⟩ := track_acquire.mp he
    have hnew : h ∉ t.live := by
      intro hh
      obtain ⟨j, hj⟩ := (ht.live h).mp hh
      exact hfresh h rfl j hj
    refine ⟨_, track_acquire.mpr ⟨hnew, rfl⟩, ?_, ?_, ?_⟩
    · intro k
      rw [Function.exists_update_iff S fun _ s => k ∈ s.live, Finset.mem_insert,
        Finset.mem_insert, ht.live,
        exists_owner (k ∈ ·.live) S i, or_assoc]
    · intro p
      rw [Function.exists_update_iff S fun _ s => p ∈ s.rests, ht.rests,
        exists_owner (p ∈ ·.rests) S i]
    · apply ht.apart_update
      intro k hk
      rcases Finset.mem_insert.mp hk with rfl | hk
      · exact .inr (hfresh k rfl)
      · exact .inl hk
  | rest h base =>
    obtain ⟨⟨hh, hbase⟩, rfl⟩ := track_rest.mp he
    refine ⟨_, track_rest.mpr ⟨⟨hlive hh, hlive hbase⟩, rfl⟩, ?_, ?_, ?_⟩
    · intro k
      rw [Function.exists_update_iff S fun _ s => k ∈ s.live, ht.live,
        exists_owner (k ∈ ·.live) S i]
    · intro p
      rw [Function.exists_update_iff S fun _ s => p ∈ s.rests, Finset.mem_insert,
        Finset.mem_insert, ht.rests,
        exists_owner (p ∈ ·.rests) S i, or_assoc]
    · exact ht.apart_update fun k hk => .inl hk
  | use h =>
    obtain ⟨hh, rfl⟩ := track_use.mp he
    rw [Function.update_eq_self]
    exact ⟨_, track_use.mpr ⟨hlive hh, rfl⟩, ht⟩
  | release h =>
    obtain ⟨⟨hh, hfree⟩, rfl⟩ := track_release.mp he
    -- what rests on the handle would be held by its owner
    have hother : ∀ j ≠ i, h ∉ (S j).live := fun j hj hjh => hj (ht.apart j i h hjh hh)
    have hfree' : ∀ p ∈ t.rests, p.2 ≠ h := by
      intro p hp heq
      obtain ⟨j, hj⟩ := (ht.rests p).mp hp
      rcases eq_or_ne j i with rfl | hne
      · exact hfree p hj heq
      · exact hother j hne (heq ▸ (hS j).base p hj)
    refine ⟨_, track_release.mpr ⟨⟨hlive hh, hfree'⟩, rfl⟩, ?_, ?_, ?_⟩
    · intro k
      rw [Function.exists_update_iff S fun _ s => k ∈ s.live, Finset.mem_erase,
        Finset.mem_erase, ht.live,
        exists_owner (k ∈ ·.live) S i, and_or_left]
      refine or_congr_right ⟨fun hk => hk.2, ?_⟩
      rintro ⟨j, hj, hk⟩
      exact ⟨fun heq => hother j hj (heq ▸ hk), j, hj, hk⟩
    · intro p
      rw [Function.exists_update_iff S fun _ s => p ∈ s.rests, Finset.mem_filter,
        Finset.mem_filter, ht.rests,
        exists_owner (p ∈ ·.rests) S i, or_and_right]
      refine or_congr_right ⟨And.left, ?_⟩
      rintro ⟨j, hj, hp⟩
      exact ⟨⟨j, hj, hp⟩, fun heq => hother j hj (heq ▸ (hS j).upper p hp)⟩
    · exact ht.apart_update fun k hk => .inl (Finset.mem_of_mem_erase hk)

omit [DecidableEq η] in
theorem own_concat_self (i : ι) (log : List (ι × Event η)) (e : Event η) :
    own i (log ++ [(i, e)]) = own i log ++ [e] := by
  simp [own]

omit [DecidableEq η] in
theorem own_concat_of_ne {i j : ι} (hij : j ≠ i) (log : List (ι × Event η)) (e : Event η) :
    own j (log ++ [(i, e)]) = own j log := by
  have hne : i ≠ j := fun heq => hij heq.symm
  simp [own, hne]

theorem Fresh.of_append {more : List (ι × Event η)} (h : Fresh (all ++ more)) : Fresh all :=
  fun before i k hpre => h before i k (hpre.trans (List.prefix_append all more))

/-- Where no handle is given twice, none is given that is held. -/
theorem fresh_of_nodup {log : List (ι × Event η)}
    (hnodup : ((log.map Prod.snd).filterMap Event.given).Nodup) :
    Fresh log := by
  rintro before i h ⟨after, rfl⟩ j t hfollow hlive
  have hcount := count_release hfollow h
  rw [if_pos hlive] at hcount
  have hmem : .acquire h ∈ own j before := List.count_pos_iff.mp (by omega)
  have hbefore : h ∈ (before.map Prod.snd).filterMap Event.given := by
    obtain ⟨call, hcall, heq⟩ := List.mem_map.mp hmem
    exact List.mem_filterMap.mpr
      ⟨_, List.mem_map.mpr ⟨call, List.mem_of_mem_filter hcall, heq⟩, rfl⟩
  rw [List.map_append, List.filterMap_append, List.map_append, List.filterMap_append] at hnodup
  have hapart := (List.nodup_append.mp (List.nodup_append.mp hnodup).1).2.2
  exact hapart h hbefore h (List.mem_singleton_self h) rfl

/-- What each owner can do alone they can all do in turns. -/
theorem follow_interleaved (hown : ∀ i, none.follow (own i all) = some (S i)) (hfresh : Fresh all) :
    ∃ t, none.follow (all.map Prod.snd) = some t ∧ Together S t := by
  induction all using List.reverseRecOn generalizing S with
  | nil =>
    have hS : ∀ i, S i = none := fun i => (Option.some.inj (hown i)).symm
    refine ⟨none, rfl, ?_, ?_, ?_⟩
    · simp [hS, none]
    · simp [hS, none]
    · simp [hS, none]
  | append_singleton all e ih =>
    obtain ⟨i, e⟩ := e
    have hbefore := hown i
    rw [own_concat_self] at hbefore
    obtain ⟨s, hs, he⟩ := exists_follow_of_append hbefore
    have hstates : ∀ j, none.follow (own j all) = some (Function.update S i s j) := by
      intro j
      rcases eq_or_ne j i with rfl | hj
      · rw [Function.update_self, hs]
      · rw [Function.update_of_ne hj, ← hown j, own_concat_of_ne hj]
    obtain ⟨t, ht, htogether⟩ := ih hstates hfresh.of_append
    have hsound : ∀ j, (Function.update S i s j).Sound :=
      fun j => Sound.follow sound_none (hstates j)
    rw [follow_singleton, ← Function.update_self i s S] at he
    obtain ⟨t', ht', hnext⟩ := htogether.step hsound he fun h heq j =>
      hfresh all i h (heq ▸ List.prefix_rfl) j _ (hstates j)
    refine ⟨t', ?_, ?_⟩
    · rw [List.map_append, follow_append, ht]
      exact (follow_singleton t e).trans ht'
    · rwa [Function.update_idem, Function.update_eq_self] at hnext

end Owners

end Held

end Handles
