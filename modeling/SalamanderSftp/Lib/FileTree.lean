import Mathlib

/-!
# File trees with symbolic links

A file tree assigns nodes to locations, which are lists of names below the root; what lies below a
location lies in a directory (`Tree`). A path is a list of steps. `resolve` walks it from a
directory on and expands the symbolic links it meets, `links` of them at most.

A path leads to the same place in every tree that keeps the way there (`resolve_way`). So resolution
is monotone (`resolve_mono`): a tree that keeps every node of another, whatever its files hold,
resolves paths as the other one does.
-/

namespace FileTree

/-- A step of a path: stay, go up, or enter a name. -/
inductive Step (ν : Type*)
  | self
  | up
  | name (n : ν)
  deriving DecidableEq

inductive Node (ν β : Type*)
  | file (content : β)
  | dir
  | link (rooted : Bool) (target : List (Step ν))
  deriving DecidableEq

variable {ν β : Type*} [DecidableEq ν]

/-- The node at a location; the root is a directory. -/
def lookupIn (entries : List (List ν × Node ν β)) (q : List ν) : Option (Node ν β) :=
  if q = [] then some .dir else (entries.find? (·.1 = q)).map Prod.snd

/-- Entries at and below `q` are not seen elsewhere. -/
theorem lookupIn_filter {q p : List ν} (h : ¬ q <+: p) (entries : List (List ν × Node ν β)) :
    lookupIn (entries.filter fun e => ¬ q <+: e.1) p = lookupIn entries p := by
  unfold lookupIn
  rw [List.find?_filter]
  congr 2
  refine List.find?_congr fun e _ => ?_
  by_cases he : e.1 = p
  · simp [he, h]
  · simp [he]

/-- A finite tree: every entry lies in a directory. -/
structure Tree (ν β : Type*) [DecidableEq ν] where
  entries : List (List ν × Node ν β)
  closed : ∀ e ∈ entries, lookupIn entries e.1.dropLast = some .dir

namespace Tree

variable {t t' : Tree ν β} {q s : List ν} {n : ν} {x : Node ν β}

def lookup (t : Tree ν β) : List ν → Option (Node ν β) := lookupIn t.entries

@[simp] theorem lookup_nil (t : Tree ν β) : t.lookup [] = some .dir := by
  rw [lookup, lookupIn, if_pos rfl]

theorem lookup_eq_find (t : Tree ν β) (h : q ≠ []) :
    t.lookup q = (t.entries.find? (·.1 = q)).map Prod.snd :=
  if_neg h

theorem exists_mem_of_lookup (hq : q ≠ []) (h : t.lookup q = some x) : (q, x) ∈ t.entries := by
  rw [lookup_eq_find t hq] at h
  obtain ⟨⟨q', y⟩, hfind, rfl⟩ := Option.map_eq_some_iff.mp h
  have hq' : q' = q := by simpa using List.find?_some hfind
  rw [← hq']
  exact List.mem_of_find?_eq_some hfind

theorem isSome_lookup_of_mem {e : List ν × Node ν β} (h : e ∈ t.entries) :
    (t.lookup e.1).isSome = true := by
  by_cases hq : e.1 = []
  · rw [hq, lookup_nil]
    rfl
  · rw [lookup_eq_find t hq, Option.isSome_map, List.find?_isSome]
    exact ⟨e, h, by simp⟩

/-- What lies in `q` makes `q` a directory. -/
theorem lookup_parent (h : t.lookup (q ++ [n]) = some x) : t.lookup q = some .dir := by
  have := t.closed _ (exists_mem_of_lookup (by simp) h)
  rwa [List.dropLast_concat] at this

theorem lookup_dir_of_below (hs : s ≠ []) (h : t.lookup (q ++ s) = some x) :
    t.lookup q = some .dir := by
  induction s using List.reverseRecOn generalizing x with
  | nil => exact absurd rfl hs
  | append_singleton s n ih =>
    rw [← List.append_assoc] at h
    have hparent := lookup_parent h
    by_cases hnil : s = []
    · rwa [hnil, List.append_nil] at hparent
    · exact ih hnil hparent

theorem isSome_lookup_of_prefix (hpre : q <+: s) (h : (t.lookup s).isSome = true) :
    (t.lookup q).isSome = true := by
  obtain ⟨r, rfl⟩ := hpre
  by_cases hr : r = []
  · rwa [hr, List.append_nil] at h
  · obtain ⟨x, hx⟩ := Option.isSome_iff_exists.mp h
    rw [lookup_dir_of_below hr hx]
    rfl

theorem lookup_dropLast (h : t.lookup q = some .dir) : t.lookup q.dropLast = some .dir := by
  rcases List.eq_nil_or_concat' q with rfl | ⟨q, n, rfl⟩
  · exact h
  · rw [List.dropLast_concat]
    exact lookup_parent h

/-! ## Listing -/

def names (t : Tree ν β) (q : List ν) : List ν :=
  t.entries.filterMap fun e => if e.1.dropLast = q then e.1.getLast? else none

theorem mem_names : n ∈ t.names q ↔ (t.lookup (q ++ [n])).isSome = true := by
  constructor
  · intro h
    obtain ⟨e, he, hn⟩ := List.mem_filterMap.mp h
    split_ifs at hn with hq
    have hloc : e.1 = q ++ [n] := by rw [← hq, List.dropLast_append_getLast? n hn]
    rw [← hloc]
    exact isSome_lookup_of_mem he
  · intro h
    obtain ⟨x, hx⟩ := Option.isSome_iff_exists.mp h
    refine List.mem_filterMap.mpr ⟨_, exists_mem_of_lookup (by simp) hx, ?_⟩
    simp

theorem map_names (t : Tree ν β) (q : List ν) : (t.names q).map (q ++ [·]) =
    (t.entries.map Prod.fst).filter fun p => p ≠ [] ∧ p.dropLast = q := by
  unfold names
  induction t.entries with
  | nil => rfl
  | cons e entries ih =>
    rcases List.eq_nil_or_concat' e.1 with hnil | ⟨p, n, hconcat⟩
    · rw [List.filterMap_cons_none (by simp [hnil]), ih, List.map_cons,
        List.filter_cons_of_neg (by simp [hnil])]
    · by_cases hq : p = q
      · rw [List.filterMap_cons_some (by simp [hconcat, hq] : _ = some n),
        List.map_cons, ih, List.map_cons,
          List.filter_cons_of_pos (by simp [hconcat, hq]), hconcat, hq]
      · rw [List.filterMap_cons_none (by simp [hconcat, hq]), ih, List.map_cons,
          List.filter_cons_of_neg (by simp [hconcat, hq])]

/-- The locations below a directory. -/
def below (t : Tree ν β) (q : List ν) :
    List (List ν) := (t.entries.map Prod.fst).filter fun p => q <+: p ∧ p ≠ q

theorem count_names [BEq (List ν)] [LawfulBEq (List ν)] (t : Tree ν β) (q p : List ν) (n : ν) :
    ((t.names q).map (q ++ [·])).count (p ++ [n]) = if p =
      q then (t.entries.map Prod.fst).count (p ++ [n]) else 0 := by
  rw [map_names]
  split_ifs with h
  · exact List.count_filter (by simp [h])
  · exact List.count_eq_zero_of_not_mem fun hmem => h (by simpa using (List.mem_filter.mp hmem).2)

theorem count_below [BEq (List ν)] [LawfulBEq (List ν)] (t : Tree ν β) (q p : List ν) (n : ν) :
    (t.below q).count (p ++ [n]) =
      if q <+: p then (t.entries.map Prod.fst).count (p ++ [n]) else 0 := by
  unfold below
  split_ifs with h
  · have hne : p ++ [n] ≠ q := by
      rintro rfl
      simpa using h.length_le
    exact List.count_filter (by simp [h.trans (List.prefix_append p [n]), hne])
  · refine List.count_eq_zero_of_not_mem fun hmem => ?_
    obtain ⟨hpre, hne⟩ := of_decide_eq_true (List.mem_filter.mp hmem).2
    rcases List.prefix_concat_iff.mp hpre with heq | hpre
    · exact hne heq.symm
    · exact h hpre

theorem nil_notMem_below (t : Tree ν β) (q : List ν) : [] ∉ t.below q := by
  intro hmem
  obtain ⟨hpre, hne⟩ := of_decide_eq_true (List.mem_filter.mp hmem).2
  exact hne (List.prefix_nil.mp hpre).symm

/-- No location is deeper than this. -/
def height (t : Tree ν β) : ℕ := (t.entries.map fun e => e.1.length).sum

theorem length_le_height (h : t.lookup q = some x) : q.length ≤ t.height := by
  by_cases hq : q = []
  · rw [hq]
    exact Nat.zero_le _
  · exact List.le_sum_of_mem (List.mem_map_of_mem (exists_mem_of_lookup hq h))

/-! ## Removing -/

/-- Take away a location, with all below it. -/
def remove (t : Tree ν β) (q : List ν) : Tree ν β where
  entries := t.entries.filter fun e => ¬ q <+: e.1
  closed := by
    intro e he
    obtain ⟨he, hq⟩ := List.mem_filter.mp he
    have hparent : ¬ q <+: e.1.dropLast :=
      fun h => of_decide_eq_true hq (h.trans (List.dropLast_prefix _))
    rw [lookupIn_filter hparent]
    exact t.closed e he

theorem lookup_remove (hq : q ≠ []) (p : List ν) :
    (t.remove q).lookup p = if q <+: p then none else t.lookup p := by
  by_cases hp : q <+: p
  · have hne : p ≠ [] := fun h => hq (List.prefix_nil.mp (h ▸ hp))
    rw [if_pos hp, lookup_eq_find _ hne, Option.map_eq_none_iff, List.find?_eq_none]
    intro e he heq
    have hnot := (List.mem_filter.mp he).2
    rw [of_decide_eq_true heq] at hnot
    exact of_decide_eq_true hnot hp
  · rw [if_neg hp]
    exact lookupIn_filter hp t.entries

end Tree

/-! ## Resolving paths -/

/-- What becomes of the last component: a symbolic link is kept or followed. -/
inductive Last
  | keep
  | follow
  deriving DecidableEq

/-- Follow the steps from the directory `cwd`; `expand` goes on behind a symbolic link. -/
def walk (t : Tree ν β) (last : Last) (expand : List ν → List (Step ν) → Option (List ν)) :
    List ν → List (Step ν) → Option (List ν)
  | cwd, [] => some cwd
  | cwd, .self :: rest => walk t last expand cwd rest
  | cwd, .up :: rest => walk t last expand cwd.dropLast rest
  | cwd, .name n :: rest =>
    match t.lookup (cwd ++ [n]) with
    | none => none
    | some (.file _) => if rest = [] then some (cwd ++ [n]) else none
    | some .dir => walk t last expand (cwd ++ [n]) rest
    | some (.link rooted target) =>
      if rest = [] ∧ last = .keep then some (cwd ++ [n])
        else expand (if rooted then [] else cwd) (target ++ rest)

/-- The location that a path from `cwd` denotes. -/
def resolve (t : Tree ν β) (last : Last) : (links : ℕ) → List ν → List (Step ν) → Option (List ν)
  | 0 => walk t last fun _ _ => none
  | links + 1 => walk t last (resolve t last links)

/-- A node without the content of its file. -/
def Node.kind : Node ν β → Node ν Unit
  | .file _ => .file ()
  | .dir => .dir
  | .link rooted target => .link rooted target

/-- `t'` has a node of the same kind wherever `t` has one. -/
def Tree.Keeps (t t' : Tree ν β) : Prop :=
  ∀ q x, t.lookup q = some x → ∃ y, t'.lookup q = some y ∧ y.kind = x.kind

/-- `t'` has what may lie on the way to `q` in `t`: the directories and links, and what is at
`q`. -/
def Tree.KeepsWay (t t' : Tree ν β) (q : List ν) : Prop :=
  ∀ p x, t.lookup p = some x → (∀ c, x = .file c → p = q) →
    ∃ y, t'.lookup p = some y ∧ y.kind = x.kind

section Resolve

variable {t t' : Tree ν β} {last : Last} {links : ℕ} {cwd q : List ν} {path : List (Step ν)}

theorem walk_way (h : t.KeepsWay t' q) {expand expand' : List ν → List (Step ν) → Option (List ν)}
    (he : ∀ cwd path, expand cwd path = some q → expand' cwd path = some q) :
    ∀ cwd, walk t last expand cwd path = some q → walk t' last expand' cwd path = some q := by
  induction path with
  | nil => exact fun _ hq => hq
  | cons s rest ih =>
    intro cwd hq
    cases s with
    | self => exact ih _ hq
    | up => exact ih _ hq
    | name n =>
      rw [walk] at hq ⊢
      rcases hx : t.lookup (cwd ++ [n]) with _ | x
      · rw [hx] at hq
        exact absurd hq (by simp)
      rw [hx] at hq
      have hway : ∀ c, x = .file c → cwd ++ [n] = q := by
        rintro c rfl
        dsimp only at hq
        split_ifs at hq
        exact Option.some.inj hq
      obtain ⟨y, hy, hkind⟩ := h _ _ hx hway
      rw [hy]
      rcases x with c | _ | ⟨rooted, target⟩ <;> rcases y with c' | _ | ⟨rooted', target'⟩ <;>
        simp only [Node.kind, reduceCtorEq, Node.link.injEq] at hkind
      · exact hq
      · exact ih _ hq
      · obtain ⟨rfl, rfl⟩ := hkind
        dsimp only at hq ⊢
        split_ifs at hq ⊢
        · exact hq
        · exact he _ _ hq
        · exact he _ _ hq

/-- A path leads to the same place in a tree that keeps the way there. -/
theorem resolve_way (h : t.KeepsWay t' q) :
    ∀ cwd path, resolve t last links cwd path = some q →
    resolve t' last links cwd path = some q := by
  induction links with
  | zero => exact fun cwd _ hq => walk_way h (fun _ _ hn => by simp at hn) cwd hq
  | succ links ih => exact fun cwd _ hq => walk_way h ih cwd hq

theorem resolve_mono (h : t.Keeps t') (cwd : List ν) (path : List (Step ν))
    (hq : resolve t last links cwd path = some q) : resolve t' last links cwd path = some q :=
  resolve_way (fun p x hx _ => h p x hx) cwd path hq

/-- A node where a resolved path may end. -/
def Last.Allows (last : Last) (x : Node ν β) :
    Prop := last = .follow → ∀ rooted target, x ≠ .link rooted target

theorem walk_exists {expand : List ν → List (Step ν) → Option (List ν)}
    (he : ∀ cwd path, t.lookup cwd = some .dir → expand cwd path = some q →
      ∃ x, t.lookup q = some x ∧ last.Allows x) :
    ∀ cwd, t.lookup cwd = some .dir → walk t last expand cwd path = some q →
      ∃ x, t.lookup q = some x ∧ last.Allows x := by
  induction path with
  | nil =>
    intro cwd hcwd hq
    obtain rfl := Option.some.inj hq
    exact ⟨_, hcwd, fun _ => by simp⟩
  | cons s rest ih =>
    intro cwd hcwd hq
    cases s with
    | self => exact ih _ hcwd hq
    | up => exact ih _ (Tree.lookup_dropLast hcwd) hq
    | name n =>
      rw [walk] at hq
      rcases hx : t.lookup (cwd ++ [n]) with _ | _ | _ | ⟨rooted, target⟩
        <;> rw [hx] at hq <;> dsimp only at hq
      · exact absurd hq (by simp)
      · split_ifs at hq
        obtain rfl := Option.some.inj hq
        exact ⟨_, hx, fun _ => by simp⟩
      · exact ih _ hx hq
      · split_ifs at hq with hkeep hrooted
        · obtain rfl := Option.some.inj hq
          exact ⟨_, hx, fun hf => absurd (hkeep.2.symm.trans hf) (by simp)⟩
        · exact he _ _ t.lookup_nil hq
        · exact he _ _ hcwd hq

/-- A path resolves to an existing node, and to a symbolic link only where the last one is kept. -/
theorem resolve_exists :
    ∀ cwd path, t.lookup cwd = some .dir → resolve t last links cwd path = some q →
    ∃ x, t.lookup q = some x ∧ last.Allows x := by
  induction links with
  | zero => exact fun cwd _ => walk_exists (fun _ _ _ hn => by simp at hn) cwd
  | succ links ih => exact fun cwd _ => walk_exists ih cwd

theorem walk_append (expand : Last → List ν → List (Step ν) → Option (List ν)) (links : ℕ)
    (hq : t.lookup q = some .dir)
    (he : ∀ cwd path, expand .follow cwd path = some q → ∃ k ≤ links, ∀ last more, more ≠ [] →
      expand last cwd (path ++ more) = resolve t last k q more) :
    ∀ cwd, walk t .follow (expand .follow) cwd path = some q →
      (∀ last more, more ≠ [] →
        walk t last (expand last) cwd (path ++ more) = walk t last (expand last) q more) ∨
        ∃ k ≤ links, ∀ last more, more ≠ [] →
          walk t last (expand last) cwd (path ++ more) = resolve t last k q more := by
  induction path with
  | nil =>
    intro cwd h
    obtain rfl := Option.some.inj h
    exact Or.inl fun _ _ _ => rfl
  | cons s rest ih =>
    intro cwd h
    cases s with
    | self => exact ih _ h
    | up => exact ih _ h
    | name n =>
      rw [walk] at h
      rcases hx : t.lookup (cwd ++ [n]) with _ | _ | _ | ⟨rooted, target⟩
        <;> rw [hx] at h <;> dsimp only at h
      · exact absurd h (by simp)
      · split_ifs at h
        obtain rfl := Option.some.inj h
        rw [hx] at hq
        exact absurd hq (by simp)
      · simpa only [List.cons_append, walk, hx] using ih _ h
      · rw [if_neg (by simp)] at h
        obtain ⟨k, hk, hall⟩ := he _ _ h
        refine Or.inr ⟨k, hk, fun last more hmore => ?_⟩
        rw [← hall last more hmore, List.cons_append, walk, hx]
        dsimp only
        rw [if_neg (by simp [hmore]), List.append_assoc]

/-- Behind a path to the directory `q` the walk goes on from there. -/
theorem resolve_append (hq : t.lookup q = some .dir) :
    ∀ cwd path, resolve t .follow links cwd path = some q →
    ∃ k ≤ links, ∀ last more, more ≠ [] →
    resolve t last links cwd (path ++ more) = resolve t last k q more := by
  induction links with
  | zero =>
    intro cwd path h
    rcases walk_append (fun _ _ _ => none) 0 hq (fun _ _ hn => by simp at hn) cwd h with
      hsame | ⟨k, hk, hall⟩
    · exact ⟨0, le_rfl, hsame⟩
    · exact ⟨k, hk, hall⟩
  | succ links ih =>
    intro cwd path h
    rcases walk_append (fun last => resolve t last links) links hq ih cwd h
      with hsame | ⟨k, hk, hall⟩
    · exact ⟨links + 1, le_rfl, hsame⟩
    · exact ⟨k, by omega, hall⟩

theorem resolve_concat {n : ν} {x : Node ν β} (h : resolve t .follow links cwd path = some q)
    (hx : t.lookup (q ++ [n]) = some x) (hlast : last.Allows x) :
    resolve t last links cwd (path ++ [.name n]) = some (q ++ [n]) := by
  obtain ⟨k, -, hall⟩ := resolve_append (Tree.lookup_parent hx) cwd path h
  rw [hall last _ (by simp)]
  have hstep : ∀ expand, walk t last expand q [.name n] = some (q ++ [n]) := by
    intro expand
    rw [walk, hx]
    rcases x with _ | _ | ⟨rooted, target⟩
    · exact if_pos rfl
    · rfl
    · refine if_pos ⟨rfl, ?_⟩
      cases last with
      | keep => rfl
      | follow => exact absurd rfl (hlast rfl rooted target)
  cases k with
  | zero => exact hstep _
  | succ k => exact hstep _

end Resolve

end FileTree
