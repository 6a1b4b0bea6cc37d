import SalamanderSftp.Lib.FileTree

/-!
# Making directories in a file tree

When `mkdir` is called for paths each of which is the one before with at most one step more, all of
them are directories afterwards exactly when none was anything else when its turn came
(`isDir_mkdirAll_iff`).
-/

namespace FileTree

variable {ν β : Type*} [DecidableEq ν]

/-! ## A new directory -/

namespace Tree

/-- An empty directory in a directory. -/
def addDir (t : Tree ν β) (q : List ν) (n : ν) (h : t.lookup q = some .dir) : Tree ν β where
  entries := t.entries ++ [(q ++ [n], .dir)]
  closed := by
    have hkeep : ∀ p, t.lookup p = some .dir →
        lookupIn (t.entries ++ [(q ++ [n], Node.dir)]) p = some .dir := by
      intro p hp
      unfold lookupIn
      by_cases hnil : p = []
      · rw [if_pos hnil]
      · rw [lookup_eq_find t hnil] at hp
        rw [if_neg hnil, List.find?_append]
        obtain ⟨e, he, hdir⟩ := Option.map_eq_some_iff.mp hp
        rw [he, Option.some_or, Option.map_some, hdir]
    intro e he
    rcases List.mem_append.mp he with he | he
    · exact hkeep _ (t.closed e he)
    · obtain rfl := List.mem_singleton.mp he
      dsimp only
      rw [List.dropLast_concat]
      exact hkeep q h

variable {t : Tree ν β} {q : List ν} {n : ν}

theorem lookup_addDir_of_some (h : t.lookup q = some .dir) {p : List ν} {x : Node ν β}
    (hp : t.lookup p = some x) :
    (t.addDir q n h).lookup p = some x := by
  by_cases hnil : p = []
  · rw [hnil, lookup_nil] at hp ⊢
    exact hp
  · rw [lookup_eq_find _ hnil] at hp ⊢
    show ((t.entries ++ [(q ++ [n], Node.dir)]).find? _).map _ = _
    obtain ⟨e, he, hx⟩ := Option.map_eq_some_iff.mp hp
    rw [List.find?_append, he, Option.some_or, Option.map_some, hx]

theorem lookup_addDir_self (h : t.lookup q = some .dir) (hnone : t.lookup (q ++ [n]) = none) :
    (t.addDir q n h).lookup (q ++ [n]) = some .dir := by
  rw [lookup_eq_find _ (by simp)] at hnone ⊢
  show ((t.entries ++ [(q ++ [n], Node.dir)]).find? _).map _ = _
  rw [List.find?_append, Option.map_eq_none_iff.mp hnone, Option.none_or]
  simp

theorem keeps_addDir (h : t.lookup q = some .dir) : t.Keeps (t.addDir q n h) :=
  fun _ x hx => ⟨x, lookup_addDir_of_some h hx, rfl⟩

theorem Keeps.refl (t : Tree ν β) : t.Keeps t := fun _ x hx => ⟨x, hx, rfl⟩

theorem Keeps.trans {t' t'' : Tree ν β} (h : t.Keeps t') (h' : t'.Keeps t'') : t.Keeps t'' := by
  intro q x hx
  obtain ⟨y, hy, hkind⟩ := h q x hx
  obtain ⟨z, hz, hkind'⟩ := h' q y hy
  exact ⟨z, hz, hkind'.trans hkind⟩

theorem Keeps.lookup_dir {t' : Tree ν β} (h : t.Keeps t') (hq : t.lookup q = some .dir) :
    t'.lookup q = some .dir := by
  obtain ⟨y, hy, hkind⟩ := h q _ hq
  cases y with
  | dir => exact hy
  | file => cases hkind
  | link => cases hkind

end Tree

/-! ## Paths -/

section Paths

variable {t t' : Tree ν β} {links : ℕ} {cwd q : List ν} {path : List (Step ν)}

/-- Where a path with its last link followed leads, there is something. -/
theorem walk_keep_of_follow {expand expand' : List ν → List (Step ν) → Option (List ν)}
    (he : ∀ cwd path, (expand cwd path).isSome = true → (expand' cwd path).isSome = true) :
    ∀ cwd, (walk t .follow expand cwd path).isSome = true →
    (walk t .keep expand' cwd path).isSome = true := by
  induction path with
  | nil => exact fun _ _ => rfl
  | cons s rest ih =>
    intro cwd h
    cases s with
    | self => exact ih _ h
    | up => exact ih _ h
    | name n =>
      rw [walk] at h ⊢
      rcases hx : t.lookup (cwd ++ [n]) with _ | _ | _ | ⟨rooted, target⟩
        <;> rw [hx] at h <;> dsimp only at h ⊢
      · exact h
      · exact h
      · exact ih _ h
      · rw [if_neg (by simp)] at h
        by_cases hrest : rest = []
        · rw [if_pos ⟨hrest, rfl⟩]
          rfl
        · rw [if_neg fun hlast => hrest hlast.1]
          exact he _ _ h

theorem resolve_keep_of_follow : ∀ cwd path, (resolve t .follow links cwd path).isSome = true →
    (resolve t .keep links cwd path).isSome = true := by
  induction links with
  | zero => exact fun cwd _ => walk_keep_of_follow (fun _ _ h => h) cwd
  | succ links ih => exact fun cwd _ => walk_keep_of_follow ih cwd

/-- The path leads to a directory. -/
def IsDir (t : Tree ν β) (links : ℕ) (cwd : List ν) (path : List (Step ν)) : Prop :=
  ∃ q, resolve t .follow links cwd path = some q ∧ t.lookup q = some .dir

/-- There is something at the path. -/
def Found (t : Tree ν β) (links : ℕ) (cwd : List ν) (path : List (Step ν)) : Prop :=
  (resolve t .keep links cwd path).isSome = true

theorem IsDir.mono (hkeeps : t.Keeps t') (h : IsDir t links cwd path) :
    IsDir t' links cwd path := by
  obtain ⟨q, hq, hdir⟩ := h
  exact ⟨q, resolve_mono hkeeps _ _ hq, hkeeps.lookup_dir hdir⟩

/-- Only a directory is gone through. -/
theorem walk_front {last : Last} {more : List (Step ν)} (hmore : more ≠ [])
    {expand expand' : List ν → List (Step ν) → Option (List ν)}
    (he : ∀ cwd path q, t.lookup cwd = some .dir → expand cwd (path ++ more) = some q →
      ∃ q', expand' cwd path = some q' ∧ t.lookup q' = some .dir) :
    ∀ cwd, t.lookup cwd = some .dir → walk t last expand cwd (path ++ more) = some q →
      ∃ q', walk t .follow expand' cwd path = some q' ∧ t.lookup q' = some .dir := by
  induction path with
  | nil => exact fun cwd hcwd _ => ⟨cwd, rfl, hcwd⟩
  | cons s rest ih =>
    intro cwd hcwd h
    have hrest : ¬ rest ++ more = [] := List.append_ne_nil_of_right_ne_nil _ hmore
    cases s with
    | self => exact ih _ hcwd h
    | up => exact ih _ (Tree.lookup_dropLast hcwd) h
    | name n =>
      rw [List.cons_append, walk] at h
      rw [walk]
      rcases hx : t.lookup (cwd ++ [n]) with _ | _ | _ | ⟨rooted, target⟩
        <;> rw [hx] at h <;> dsimp only at h ⊢
      · cases h
      · rw [if_neg hrest] at h
        cases h
      · exact ih _ hx h
      · rw [if_neg fun hlast => hrest hlast.1, ← List.append_assoc] at h
        rw [if_neg (by simp)]
        refine he _ _ _ ?_ h
        split_ifs
        · exact t.lookup_nil
        · exact hcwd

theorem isDir_of_resolve {last : Last} {more : List (Step ν)} (hmore : more ≠ []) : ∀ cwd path,
    t.lookup cwd = some .dir → resolve t last links cwd (path ++ more) = some q →
    IsDir t links cwd path := by
  induction links generalizing q with
  | zero => exact fun cwd path hcwd h =>
    walk_front hmore (fun _ _ _ _ hnone => by cases hnone) cwd hcwd h
  | succ links ih =>
    exact fun cwd path hcwd h => walk_front hmore (fun cwd path q => ih cwd path) cwd hcwd h

/-- A directory is in itself and in its parent. -/
theorem found_concat (h : IsDir t links cwd path) {s : Step ν} (hs : ∀ n, s ≠ .name n) :
    Found t links cwd (path ++ [s]) := by
  obtain ⟨q, hq, hdir⟩ := h
  obtain ⟨k, -, hall⟩ := resolve_append hdir cwd path hq
  unfold Found
  rw [hall .keep [s] (List.cons_ne_nil _ _)]
  cases s with
  | self => cases k <;> rfl
  | up => cases k <;> rfl
  | name n => exact absurd rfl (hs n)

theorem found_of_isDir (h : IsDir t links cwd path) : Found t links cwd path := by
  obtain ⟨q, hq, -⟩ := h
  exact resolve_keep_of_follow _ _ (Option.isSome_of_eq_some hq)

/-! ## One call -/

variable [DecidableEq β]

/-- The result of `mkdir` and the tree after it. -/
def mkdir (t : Tree ν β) (links : ℕ) (cwd : List ν) (path : List (Step ν)) : Bool × Tree ν β :=
  if (resolve t .keep links cwd path).isSome then (false, t)
  else
    match path.getLast?, resolve t .follow links cwd path.dropLast with
    | some (.name n), some q =>
      if h : t.lookup q = some .dir then (true, t.addDir q n h) else (false, t)
    | _, _ => (false, t)

theorem mkdir_of_exists (h : Found t links cwd path) :
    mkdir t links cwd path = (false, t) := if_pos h

theorem mkdir_of_isDir {n : ν} (hnone : ¬ Found t links cwd (path ++ [.name n]))
    (hq : resolve t .follow links cwd path = some q) (hdir : t.lookup q = some .dir) :
    mkdir t links cwd (path ++ [.name n]) = (true, t.addDir q n hdir) := by
  refine (if_neg hnone).trans ?_
  rw [List.getLast?_concat, List.dropLast_concat, hq]
  exact dif_pos hdir

theorem mkdir_of_not_isDir {s : Step ν} (h : ¬ IsDir t links cwd path) :
    mkdir t links cwd (path ++ [s]) = (false, t) := by
  unfold mkdir
  rw [List.getLast?_concat, List.dropLast_concat]
  split_ifs
  · rfl
  · split
    · next n q _ hq => exact dif_neg fun hdir => h ⟨q, hq, hdir⟩
    · rfl

theorem keeps_mkdir : t.Keeps (mkdir t links cwd path).2 := by
  unfold mkdir
  split_ifs
  · exact Tree.Keeps.refl t
  · split
    · split_ifs with hdir
      · exact Tree.keeps_addDir hdir
      · exact Tree.Keeps.refl t
    · exact Tree.Keeps.refl t

/-! ## A chain of calls -/

/-- The tree after calls for the paths, whatever they return. -/
def mkdirAll (links : ℕ) (cwd : List ν) (paths : List (List (Step ν))) (t : Tree ν β) : Tree ν β :=
  paths.foldl (fun t path => (mkdir t links cwd path).2) t

/-- What there is at a path when its turn comes is a directory. -/
def Unobstructed (links : ℕ) (cwd : List ν) : List (List (Step ν)) → Tree ν β → Prop
  | [], _ => True
  | path :: paths, t =>
    (Found t links cwd path → IsDir t links cwd path) ∧
      Unobstructed links cwd paths (mkdir t links cwd path).2

/-- At most one step more. -/
def Extends (path path' : List (Step ν)) : Prop := path' = path ∨ ∃ s, path' = path ++ [s]

variable {path' : List (Step ν)} {paths : List (List (Step ν))}

theorem keeps_mkdirAll (paths : List (List (Step ν))) :
    ∀ t : Tree ν β, t.Keeps (mkdirAll links cwd paths t) := by
  induction paths with
  | nil => exact Tree.Keeps.refl
  | cons path paths ih => exact fun t => keeps_mkdir.trans (ih _)

/-- The next directory is there after its call, unless something else is. -/
theorem isDir_mkdir (hpath : IsDir t links cwd path) (hext : Extends path path')
    (hfree : Found t links cwd path' → IsDir t links cwd path') :
    IsDir (mkdir t links cwd path').2 links cwd path' := by
  by_cases hfound : Found t links cwd path'
  · exact (hfree hfound).mono keeps_mkdir
  rcases hext with rfl | ⟨s, rfl⟩
  · exact absurd (found_of_isDir hpath) hfound
  cases s with
  | self => exact absurd (found_concat hpath fun _ => by simp) hfound
  | up => exact absurd (found_concat hpath fun _ => by simp) hfound
  | name n =>
    obtain ⟨q, hq, hdir⟩ := hpath
    have hnone : t.lookup (q ++ [n]) = none := by
      rw [Option.eq_none_iff_forall_ne_some]
      intro x hx
      exact hfound (Option.isSome_of_eq_some (resolve_concat hq hx fun h => by cases h))
    rw [mkdir_of_isDir hfound hq hdir]
    have hnew := Tree.lookup_addDir_self hdir hnone
    exact ⟨q ++ [n],
      resolve_concat (resolve_mono (Tree.keeps_addDir hdir) _ _ hq) hnew fun _ => by simp, hnew⟩

/-- Behind something that is no directory nothing is made. -/
theorem mkdirAll_of_not_isDir (hcwd : t.lookup cwd = some .dir)
    (hpaths : List.IsChain Extends (path :: paths))
    (hpath : ¬ IsDir t links cwd path) (hfound : (mkdir t links cwd path).2 = t) :
    mkdirAll links cwd paths t = t := by
  induction paths generalizing path with
  | nil => rfl
  | cons path' paths ih =>
    obtain ⟨hext, hchain⟩ := List.isChain_cons_cons.mp hpaths
    have hnext : ¬ IsDir t links cwd path' ∧ (mkdir t links cwd path').2 = t := by
      rcases hext with rfl | ⟨s, rfl⟩
      · exact ⟨hpath, hfound⟩
      · refine ⟨?_, congrArg Prod.snd (mkdir_of_not_isDir hpath)⟩
        rintro ⟨q, hq, -⟩
        exact hpath (isDir_of_resolve (List.cons_ne_nil _ _) _ _ hcwd hq)
    show mkdirAll links cwd paths (mkdir t links cwd path').2 = t
    rw [hnext.2]
    exact ih hchain hnext.1 hnext.2

/-- All paths of a chain are directories after the calls exactly when none was anything else before
its call. -/
theorem isDir_mkdirAll_iff (hcwd : t.lookup cwd = some .dir)
    (hpaths : List.IsChain Extends (path :: paths))
    (hpath : IsDir t links cwd path) :
    (∀ p ∈ paths, IsDir (mkdirAll links cwd paths t) links cwd p) ↔
    Unobstructed links cwd paths t := by
  induction paths generalizing path t with
  | nil => simp [Unobstructed]
  | cons path' paths ih =>
    obtain ⟨hext, hchain⟩ := List.isChain_cons_cons.mp hpaths
    have hkeeps : t.Keeps (mkdir t links cwd path').2 := keeps_mkdir
    have hcwd' := hkeeps.lookup_dir hcwd
    show (∀ p ∈ path' :: paths,
        IsDir (mkdirAll links cwd paths (mkdir t links cwd path').2) links cwd p) ↔ _ ∧ _
    constructor
    · intro h
      have hfree : Found t links cwd path' → IsDir t links cwd path' := by
        intro hfound
        by_contra hnot
        have hsame := congrArg Prod.snd (mkdir_of_exists hfound)
        have hend := h path' List.mem_cons_self
        rw [hsame, mkdirAll_of_not_isDir hcwd hchain hnot hsame] at hend
        exact hnot hend
      exact ⟨hfree, (ih hcwd' hchain (isDir_mkdir hpath hext hfree)).mp fun p hp =>
        h p (List.mem_cons_of_mem _ hp)⟩
    · rintro ⟨hfree, hrest⟩ p hp
      have hmade := isDir_mkdir hpath hext hfree
      rcases List.mem_cons.mp hp with rfl | hp
      · exact hmade.mono (keeps_mkdirAll _ _)
      · exact (ih hcwd' hchain hmade).mpr hrest p hp

end Paths

end FileTree
