import Mathlib

/-!
# Journals

The journal of a run lists its events, the newest last. `AtEach P` says that every event satisfies
`P` together with the events before it. It grows one event at a time (`atEach_concat`), so a
property of runs is checked where an event is written.
-/

namespace Journal

variable {ε : Type*} {P Q : List ε → ε → Prop}

/-- Every event, with the events before it, satisfies `P`. -/
def AtEach (P : List ε → ε → Prop) (log : List ε) : Prop := ∀ pre e, pre ++ [e] <+: log → P pre e

theorem atEach_nil : AtEach P [] := by
  intro pre e h
  simpa using h.length_le

theorem atEach_concat {log : List ε} {e : ε} : AtEach P (log ++ [e]) ↔ AtEach P log ∧ P log e := by
  constructor
  · intro h
    exact ⟨fun pre d hd => h pre d (hd.trans (List.prefix_append log [e])), h log e List.prefix_rfl⟩
  · rintro ⟨hlog, he⟩ pre d hd
    rcases List.prefix_concat_iff.mp hd with heq | hd
    · obtain ⟨rfl, hde⟩ := List.append_inj' heq rfl
      obtain rfl : d = e := by simpa using hde
      exact he
    · exact hlog pre d hd

/-- Events that the property always allows can be added freely. -/
theorem atEach_append_of {new : List ε} (h : ∀ e ∈ new, ∀ pre, P pre e) (log : List ε) :
    AtEach P (log ++ new) ↔ AtEach P log := by
  induction new using List.reverseRecOn with
  | nil => rw [List.append_nil]
  | append_singleton new e ih =>
    rw [← List.append_assoc, atEach_concat, ih fun d hd => h d (by simp [hd]),
      and_iff_left (h e (by simp) _)]

end Journal
