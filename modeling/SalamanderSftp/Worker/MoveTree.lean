import SalamanderSftp.Lib.FileTree
import SalamanderSftp.Worker.TreeWalk

/-!
# Moving a directory

The walk copies a tree and removes nothing of it; after it `ExecuteTask` asks for the removal of the
root, as of a directory that is empty. So nothing is left of the source exactly when it had been
empty.
-/

namespace SalamanderSftp

open Procedure FileTree

/-- The tree stands on the side: its locations are objects of their own. -/
structure Stands (s : Store) (T : Tree CStr Bytes) (place : List CStr → CStr) : Prop where
  node : ∀ q, (T.lookup q).isSome = true → (s (place q)).isSome = true
  apart : ∀ q q', (T.lookup q).isSome = true → (T.lookup q').isSome = true →
    place q = place q' → q = q'

/-- No file or directory of the tree remains. -/
def NothingLeft (s : Store) (T : Tree CStr Bytes) (place : List CStr → CStr) : Prop :=
  ∀ q, (T.lookup q).isSome = true → s (place q) = none

/-- A tree without names in its root has no location but the root. -/
theorem eq_nil_of_names {T : Tree CStr Bytes} (h : T.names [] = []) {q : List CStr}
    (hq : (T.lookup q).isSome = true) :
    q = [] := by
  rcases q with _ | ⟨n, q⟩
  · rfl
  have hfirst : (T.lookup [n]).isSome = true := Tree.isSome_lookup_of_prefix ⟨q, rfl⟩ hq
  have hmem : n ∈ T.names [] := Tree.mem_names.mpr hfirst
  rw [h] at hmem
  cases hmem

theorem taskRemoval_source (host : Host) (type : TaskType) (c : WalkCall) (w : WorkerState) :
    (taskRemoval host type c.remote c.local_ w).store type.source =
      if host.removeSource w.tick = true then
        Function.update (w.store type.source) (host.key type.source (c.sourcePath type)) none
      else w.store type.source := by
  cases type
  · simp only [taskRemoval, removeRemote]
    split_ifs <;> rfl
  · simp only [taskRemoval, removeLocal]
    split_ifs <;> rfl

/-- A directory task that moves returns what its walk does, and asks for the removal of the root. -/
theorem executeTask_moveDir {host : Host} {depth : ℕ} {type : TaskType}
    {remote local_ : CStr} {w : WorkerState}
    (h : (executeTask host depth ⟨type, remote, local_, true, true⟩ w).1 = some true) :
    (executeTask host depth ⟨type, remote, local_, true, true⟩ w).2 =
      taskRemoval host type remote local_ (walk host type depth ⟨remote, local_, true⟩ w).2 := by
  rw [executeTask_eq] at h ⊢
  dsimp only at h ⊢
  split_ifs at h ⊢ with hr
  · rfl
  · exact absurd ⟨h, rfl⟩ hr

/-- A directory task with `DeleteSourceOnSuccess` that returns true leaves nothing of the source
exactly when the source directory has no entries. The removal of an empty directory succeeds; of
another one it may do anything. -/
theorem move_leaves_nothing_iff {host : Host} {depth : ℕ} {type : TaskType}
    {remote local_ : CStr} {w : WorkerState}
    {T : Tree CStr Bytes} {place : List CStr → CStr}
    (hstands : Stands (w.store type.source) T place)
    (hroot : place [] = host.key type.source (WalkCall.sourcePath ⟨remote, local_, true⟩ type))
    (hremoves : T.names [] = [] → ∀ t, host.removeSource t = true)
    (htrue : (executeTask host depth ⟨type, remote, local_, true, true⟩ w).1 = some true) :
    NothingLeft
      ((executeTask host depth ⟨type, remote, local_, true, true⟩ w).2.store type.source) T place ↔
      T.names [] = [] := by
  rw [executeTask_moveDir htrue, taskRemoval_source host type ⟨remote, local_, true⟩, walk_source,
    ← hroot]
  constructor
  · intro hnothing
    refine List.eq_nil_iff_forall_not_mem.mpr fun n hn => ?_
    have hn' : (T.lookup [n]).isSome = true := Tree.mem_names.mp hn
    have hne : place [n] ≠ place [] :=
      fun heq => absurd (hstands.apart _ _ hn' (by simp) heq) (by simp)
    have hgone := hnothing [n] hn'
    have hthere := hstands.node [n] hn'
    split_ifs at hgone
    · rw [Function.update_of_ne hne] at hgone
      simp [hgone] at hthere
    · simp [hgone] at hthere
  · intro hempty q hq
    obtain rfl := eq_nil_of_names hempty hq
    rw [if_pos (hremoves hempty _), Function.update_self]

/-! ## A directory with one file -/

/-- The server has the directory `/d` with the file `f`, and everything succeeds; what the removal
of `/d` answers is left open. -/
def oneFileHost (removes : Bool) : Host :=
  { Host.plain with
    listDir := fun _ path =>
      some (if path = ascii "/d" then [⟨ascii "f", false, false, 1, 0, 0, [], []⟩] else [])
    downloadIo :=
      fun _ => ⟨true, some 1, true, true, [⟨some [1], 1, true⟩, ⟨some [], 0, true⟩], 0, true⟩
    removeSource := fun _ => removes }

def oneFile : WorkerState :=
  .start (.ofFiles []) fun key =>
    if key = ascii "/d" then some .dir else if key = ascii "/d/f" then some (.file [1]) else none

def oneFileTree : Tree CStr Bytes := ⟨[([ascii "f"], .file [1])], by decide +kernel⟩

def oneFilePlace (q : List CStr) : CStr := if q = [] then ascii "/d" else ascii "/d/f"

def moveDir : TransferTask := ⟨.download, ascii "/d", ascii "d", true, true⟩

/-- The task returns true, the copy is complete, and something of the source is left. -/
structure LeavesSource (removes : Bool) : Prop where
  stands : Stands oneFile.server oneFileTree oneFilePlace
  returned : (executeTask (oneFileHost removes) 2 moveDir oneFile).1 = some true
  copied : (executeTask (oneFileHost removes) 2 moveDir oneFile).2.disk (ascii "d\\f") =
    some (.file [1])
  left : ¬ NothingLeft
    (executeTask (oneFileHost removes) 2 moveDir oneFile).2.server oneFileTree oneFilePlace

theorem oneFileTree_locations {q : List CStr} (h : (oneFileTree.lookup q).isSome = true) :
    q = [] ∨ q = [ascii "f"] := by
  by_cases hq : q = []
  · exact .inl hq
  · obtain ⟨x, hx⟩ := Option.isSome_iff_exists.mp h
    have hmem := Tree.exists_mem_of_lookup hq hx
    exact .inr (Prod.mk.inj (List.mem_singleton.mp hmem)).1

theorem oneFile_stands : Stands oneFile.server oneFileTree oneFilePlace where
  node q hq := by
    rcases oneFileTree_locations hq with rfl | rfl <;> decide +kernel
  apart q q' hq hq' heq := by
    have hne : ascii "/d" ≠ ascii "/d/f" := by decide +kernel
    rcases oneFileTree_locations hq with rfl | rfl
      <;> rcases oneFileTree_locations hq' with rfl | rfl
    · rfl
    · exact absurd heq hne
    · exact absurd heq.symm hne
    · rfl

/-- Whether or not the server removes the directory, the file stays. -/
theorem not_move_leaves_nothing : LeavesSource false ∧ LeavesSource true := by
  have hfile : (oneFileTree.lookup [ascii "f"]).isSome = true := by decide +kernel
  have hstays :
      ∀ removes, (executeTask (oneFileHost removes) 2 moveDir oneFile).2.server (ascii "/d/f") =
      some (.file [1]) := by
    rintro (_ | _) <;> decide +kernel
  have hleft : ∀ removes,
      ¬ NothingLeft (executeTask (oneFileHost removes) 2 moveDir oneFile).2.server oneFileTree
      oneFilePlace := fun removes hnothing => by
    have hgone := hnothing _ hfile
    rw [show oneFilePlace [ascii "f"] = ascii "/d/f" from rfl, hstays removes] at hgone
    cases hgone
  exact ⟨⟨oneFile_stands, by decide +kernel, by decide +kernel, hleft false⟩,
    oneFile_stands, by decide +kernel, by decide +kernel, hleft true⟩

theorem move_leaves_nothing_iff_oneFile :
    NothingLeft
      (executeTask (oneFileHost false) 2 moveDir oneFile).2.server oneFileTree oneFilePlace ↔
      oneFileTree.names [] = [] := by
  refine @move_leaves_nothing_iff _ _ .download _ _ _ _ _ oneFile_stands ?_ ?_ ?_
  · decide +kernel
  · intro hempty
    exact absurd hempty (by decide +kernel)
  · decide +kernel

end SalamanderSftp
