import Mathlib

/-!
# Keys with values and subkeys

A key has values and subkeys under names, as in a registry. A record is saved as one value for each
of its `Field`s, and read back from them, whatever else the key holds (`loadFields_saveFields`); a
list is saved as numbered subkeys (`loadItems_saveItems`).
-/

namespace Registry

variable {α β σ : Type*}

/-- Names are of type `α`, and values of type `β`. -/
inductive Key (α β : Type*)
  | mk (values : α → Option β) (subkeys : α → Option (Key α β))

namespace Key

def getValue (k : Key α β) (n : α) : Option β :=
  match k with
  | mk values _ => values n

def openKey (k : Key α β) (n : α) : Option (Key α β) :=
  match k with
  | mk _ subkeys => subkeys n

def empty : Key α β := mk (fun _ => none) fun _ => none

variable [DecidableEq α]

def setValue (k : Key α β) (n : α) (v : β) :
    Key α β := mk (Function.update k.getValue n (some v)) k.openKey

/-- A subkey, which is made if there is none, after it was written to. -/
def createKey (k : Key α β) (n : α) (write : Key α β → Key α β) : Key α β :=
  mk k.getValue (Function.update k.openKey n (some (write ((k.openKey n).getD empty))))

@[simp] theorem getValue_setValue (k : Key α β) (n : α) (v : β) :
    (k.setValue n v).getValue n = some v :=
  Function.update_self n _ k.getValue

theorem getValue_setValue_of_ne {n m : α} (h : m ≠ n) (k : Key α β) (v : β) :
    (k.setValue n v).getValue m = k.getValue m :=
  Function.update_of_ne h _ k.getValue

@[simp] theorem openKey_setValue (k : Key α β) (n m : α) (v : β) :
    (k.setValue n v).openKey m = k.openKey m := rfl

@[simp] theorem getValue_createKey (k : Key α β) (n m : α) (write : Key α β → Key α β) :
    (k.createKey n write).getValue m = k.getValue m := rfl

theorem openKey_createKey (k : Key α β) (n : α) (write : Key α β → Key α β) :
    (k.createKey n write).openKey n = some (write ((k.openKey n).getD empty)) :=
  Function.update_self n _ k.openKey

theorem openKey_createKey_of_ne {n m : α} (h : m ≠ n) (k : Key α β) (write : Key α β → Key α β) :
    (k.createKey n write).openKey m = k.openKey m :=
  Function.update_of_ne h _ k.openKey

end Key

/-! ## Records -/

/-- A value of a key that holds a part of a record. -/
structure Field (α β σ : Type*) where
  name : α
  write : σ → β
  read : β → σ → σ

/-- The record with the part that is there, if it is. -/
def Field.load (f : Field α β σ) (k : Key α β) (s : σ) : σ :=
  match k.getValue f.name with
  | some v => f.read v s
  | none => s

def loadFields (fs : List (Field α β σ)) (k : Key α β) (s : σ) :
    σ := fs.foldl (fun s f => f.load k s) s

/-- What is there under the names of the fields is read back field by field. -/
theorem loadFields_eq {s : σ} {k : Key α β} :
    ∀ {fs : List (Field α β σ)}, (∀ f ∈ fs, k.getValue f.name = some (f.write s)) →
    ∀ t : σ, loadFields fs k t = fs.foldl (fun t f => f.read (f.write s) t) t
  | [], _, _ => rfl
  | f :: fs, h, t => by
    have hf : f.load k t = f.read (f.write s) t := by
      unfold Field.load
      rw [h f List.mem_cons_self]
    unfold loadFields
    rw [List.foldl_cons, List.foldl_cons, hf]
    exact loadFields_eq (fun g hg => h g (List.mem_cons_of_mem _ hg)) _

section Fields

variable [DecidableEq α]

def Field.save (f : Field α β σ) (s : σ) (k : Key α β) : Key α β := k.setValue f.name (f.write s)

def saveFields (fs : List (Field α β σ)) (s : σ) (k : Key α β) :
    Key α β := fs.foldl (fun k f => f.save s k) k

/-- What is not a field's name keeps its value. -/
theorem getValue_saveFields_of_notMem {n : α} {s : σ} :
    ∀ {fs : List (Field α β σ)}, n ∉ fs.map Field.name →
    ∀ k : Key α β, (saveFields fs s k).getValue n = k.getValue n
  | [], _, _ => rfl
  | f :: fs, h, k => by
    rw [List.map_cons, List.mem_cons, not_or] at h
    have hrest := getValue_saveFields_of_notMem (s := s) h.2 (f.save s k)
    exact hrest.trans (Key.getValue_setValue_of_ne h.1 k _)

theorem getValue_saveFields {s : σ} : ∀ {fs : List (Field α β σ)}, (fs.map Field.name).Nodup →
    ∀ (k : Key α β), ∀ f ∈ fs, (saveFields fs s k).getValue f.name = some (f.write s)
  | [], _, _, f, hf => absurd hf List.not_mem_nil
  | g :: fs, h, k, f, hf => by
    rw [List.map_cons, List.nodup_cons] at h
    rcases List.mem_cons.mp hf with rfl | hf
    · exact (getValue_saveFields_of_notMem h.1 _).trans (Key.getValue_setValue k _ _)
    · exact getValue_saveFields h.2 (g.save s k) f hf

@[simp] theorem openKey_saveFields {s : σ} {n : α} : ∀ (fs : List (Field α β σ)) (k : Key α β),
    (saveFields fs s k).openKey n = k.openKey n
  | [], _ => rfl
  | f :: fs, k => openKey_saveFields fs (f.save s k)

theorem loadFields_saveFields {fs : List (Field α β σ)}
    (h : (fs.map Field.name).Nodup) (s t : σ) (k : Key α β) :
    loadFields fs (saveFields fs s k) t = fs.foldl (fun t f => f.read (f.write s) t) t :=
  loadFields_eq (getValue_saveFields h k) t

end Fields

/-! ## Lists -/

section Items

variable [DecidableEq α] (name : ℕ → α) (save : σ → Key α β → Key α β) (load : Key α β → σ)

/-- The items as subkeys, numbered from `i` on. -/
def saveItems : ℕ → List σ → Key α β → Key α β
  | _, [], k => k
  | i, s :: ss, k => saveItems (i + 1) ss (k.createKey (name i) (save s))

/-- The first `n` numbers, those that have a subkey. -/
def loadItems (n : ℕ) (k : Key α β) :
    List σ := (List.range n).filterMap fun i => (k.openKey (name i)).map load

variable {name}

@[simp] theorem getValue_saveItems (n : α) : ∀ (ss : List σ) (i : ℕ) (k : Key α β),
    (saveItems name save i ss k).getValue n = k.getValue n
  | [], _, _ => rfl
  | _ :: ss, i, k => getValue_saveItems n ss (i + 1) (k.createKey (name i) _)

theorem openKey_saveItems_of_lt (hname : Function.Injective name) {j : ℕ} :
    ∀ (ss : List σ) {i : ℕ} (_ : j < i)
    (k : Key α β), (saveItems name save i ss k).openKey (name j) = k.openKey (name j)
  | [], _, _, _ => rfl
  | s :: ss, i, hj, k => by
    have hrest :=
      openKey_saveItems_of_lt hname ss (Nat.lt_succ_of_lt hj) (k.createKey (name i) (save s))
    exact hrest.trans (Key.openKey_createKey_of_ne (fun h => hj.ne (hname h)) k _)

/-- Every item is in the subkey of its number, over what was there before. -/
theorem openKey_saveItems (hname : Function.Injective name) :
    ∀ (ss : List σ) (i : ℕ) (k : Key α β) (j : ℕ)
    (hj : j < ss.length), ∃ stale,
      (saveItems name save i ss k).openKey (name (i + j)) = some (save ss[j] stale)
  | [], _, _, _, hj => absurd hj (Nat.not_lt_zero _)
  | s :: ss, i, k, 0, _ =>
    ⟨_, (openKey_saveItems_of_lt save hname ss (Nat.lt_succ_self i) _).trans
      (Key.openKey_createKey k (name i) (save s))⟩
  | s :: ss, i, k, j + 1, hj => by
    obtain ⟨stale, h⟩ := openKey_saveItems hname ss (i + 1) (k.createKey (name i) (save s)) j
        (Nat.lt_of_succ_lt_succ hj)
    rw [Nat.add_right_comm i 1 j] at h
    exact ⟨stale, h⟩

theorem filterMap_getElem?_range :
    ∀ ss : List σ, ((List.range ss.length).filterMap fun i => ss[i]?) = ss
  | [] => rfl
  | s :: ss => by
    have hrest := filterMap_getElem?_range ss
    rw [List.length_cons, List.range_succ_eq_map, List.filterMap_cons, List.filterMap_map]
    exact congrArg (s :: ·) hrest

/-- Subkeys of a longer list saved before make no difference, since the number of items is known. -/
theorem loadItems_saveItems (hname : Function.Injective name) {ss : List σ}
    (h : ∀ s ∈ ss, ∀ stale, load (save s stale) = s) (k : Key α β) :
    loadItems name load ss.length (saveItems name save 0 ss k) = ss := by
  have hitem :
      ∀ i < ss.length, ((saveItems name save 0 ss k).openKey (name i)).map load = ss[i]? := by
    intro i hi
    obtain ⟨stale, hopen⟩ := openKey_saveItems save hname ss 0 k i hi
    rw [Nat.zero_add] at hopen
    rw [hopen, Option.map_some, h _ (List.getElem_mem hi), List.getElem?_eq_getElem hi]
  unfold loadItems
  rw [List.filterMap_congr fun i hi => hitem i (List.mem_range.mp hi)]
  exact filterMap_getElem?_range ss

end Items

end Registry
