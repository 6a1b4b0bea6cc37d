import SalamanderSftp.Lib.Procedure

/-!
# Synchronizing a tree

A walk over a tree that transfers the files that are not to be skipped. The tree does not change;
what is done depends on a state. A walk that has returned true has done every file below its start
(`done_of_sync`). A walk for which every file is to be skipped transfers none (`idle_of_sync`),
whatever it returns.

A `Mirror` is a state in which every file has a place. If a file is skipped as soon as the object at
its place fits and is current, a walk after one that returned true transfers nothing
(`Mirror.idle_again`).
-/

namespace TreeSync

open Procedure Relation

variable {ι ε σ : Type*}

/-- What is walked over, and stays the same. -/
structure Walk (ι ε : Type*) where
  isDir : ι → Bool
  /-- `none` where a directory cannot be listed. -/
  entries : ι → Option (List ε)
  ignored : ε → Bool
  child : ι → ε → ι
  /-- The result for a directory that cannot be listed. -/
  unlisted : Bool

/-- What is done on the way. -/
structure Actions (ι σ : Type*) where
  /-- Whether the walk is to stop. -/
  stop : σ → Bool × σ
  /-- The directory is made on the other side. -/
  enter : ι → σ → σ
  skip : ι → σ → Bool
  transfer : ι → σ → Option Bool × σ

section Body

variable (W : Walk ι ε) (A : Actions ι σ)

def turn (rec : Proc ι σ) (c : ι) : Proc ε σ := fun e s =>
  let (stop, s) := A.stop s
  if stop then (some false, s) else if W.ignored e then (some true, s) else rec (W.child c e) s

/-- The walk from a file or directory; `rec` is the recursive call. -/
def body (rec : Proc ι σ) : Proc ι σ := fun c s =>
  let (stop, s) := A.stop s
  if stop then (some false, s)
  else if !W.isDir c then
    if A.skip c s then (some true, s)
    else
      let (stop, s) := A.stop s
      if stop then (some false, s) else A.transfer c s
  else
    let (stop, s) := A.stop s
    if stop then (some false, s)
    else
      let s := A.enter c s
      match W.entries c with
      | none => (some W.unlisted, s)
      | some entries => forEach (turn W A rec c) entries s

/-- The synchronization, at most `depth` activations deep. -/
def sync (depth : ℕ) : Proc ι σ := recurse (body W A) depth

/-- One level down. -/
def Walk.Enters (c d : ι) : Prop :=
  W.isDir c = true ∧ ∃ entries, W.entries c = some entries ∧
    ∃ e ∈ entries, W.ignored e = false ∧ d = W.child c e

/-- A file at or below a call. -/
structure Walk.Holds (c f : ι) : Prop where
  below : ReflTransGen W.Enters c f
  file : W.isDir f = false

end Body

section Rules

variable {W : Walk ι ε} {A : Actions ι σ} {root c f : ι} {s : σ}

/-- A file has nothing below it. -/
theorem Walk.Holds.eq_of_file (hc : W.isDir c = false) (hf : W.Holds c f) : f = c := by
  rcases ReflTransGen.cases_head hf.below with heq | ⟨d, ⟨hdir, -⟩, -⟩
  · exact heq.symm
  · rw [hc] at hdir
    cases hdir

/-- A file below a directory is below one of its entries. -/
theorem Walk.Holds.exists_child (hc : W.isDir c = true) (hf : W.Holds c f) :
    ∃ entries, W.entries c = some entries ∧
    ∃ e ∈ entries, W.ignored e = false ∧ W.Holds (W.child c e) f := by
  rcases ReflTransGen.cases_head hf.below with rfl
    | ⟨d, ⟨-, entries, hentries, e, he, hshown, rfl⟩, hbelow⟩
  · have hfile := hf.file
    rw [hc] at hfile
    cases hfile
  · exact ⟨entries, hentries, e, he, hshown, hbelow, hf.file⟩

theorem Walk.Holds.of_files (hc : W.isDir c = true) {es : List ε} (hes : W.entries c = some es)
    (hfiles : ∀ e ∈ es, W.ignored e = false → W.isDir (W.child c e) = false) (hf : W.Holds c f) :
    ∃ e ∈ es, W.ignored e = false ∧ f = W.child c e := by
  obtain ⟨es', hes', e, he, hshown, hf⟩ := hf.exists_child hc
  obtain rfl := Option.some.inj (hes.symm.trans hes')
  exact ⟨e, he, hshown, hf.eq_of_file (hfiles e he hshown)⟩

/-- What the actions keep, as far as they come to directories and files below the root. -/
structure Keeps (W : Walk ι ε) (A : Actions ι σ) (root : ι) (I : σ → Prop) : Prop where
  stop : ∀ s, I s → I (A.stop s).2
  enter : ∀ c s, ReflTransGen W.Enters root c → W.isDir c = true → I s → I (A.enter c s)
  transfer : ∀ f s, W.Holds root f → (A.transfer f s).1 = some true → I s → I (A.transfer f s).2

/-- A loop that returned true has kept what its turns keep if they return true. -/
theorem keeps_forEach {I : σ → Prop} {loop : Proc ε σ} {es : List ε}
    (h : ∀ e ∈ es, ∀ s, (loop e s).1 = some true → I s → I (loop e s).2) :
    ∀ s, (forEach loop es s).1 = some true → I s → I (forEach loop es s).2 := by
  induction es with
  | nil => exact fun _ _ hs => hs
  | cons e es ih =>
    intro s hok hs
    by_cases hturn : (loop e s).1 = some true
    · rw [forEach_cons_true hturn] at hok ⊢
      exact ih (fun d hd => h d (List.mem_cons_of_mem e hd)) _ hok
        (h e List.mem_cons_self s hturn hs)
    · rw [forEach_cons_stop hturn] at hok
      exact absurd hok hturn

/-- How a call can return true. -/
inductive Succeeds (W : Walk ι ε) (A : Actions ι σ) (rec : Proc ι σ) (c : ι) (s : σ) : σ → Prop
  | skipped (file : W.isDir c = false) (skip : A.skip c (A.stop s).2 = true) :
      Succeeds W A rec c s (A.stop s).2
  | transferred (file : W.isDir c = false)
      (ok : (A.transfer c (A.stop (A.stop s).2).2).1 = some true) :
    Succeeds W A rec c s (A.transfer c (A.stop (A.stop s).2).2).2
  | unlisted (dir : W.isDir c = true) (entries : W.entries c = none) :
    Succeeds W A rec c s (A.enter c (A.stop (A.stop s).2).2)
  | listed (dir : W.isDir c = true) {es : List ε} (entries : W.entries c = some es)
    (ok : (forEach (turn W A rec c) es (A.enter c (A.stop (A.stop s).2).2)).1 = some true) :
    Succeeds W A rec c s (forEach (turn W A rec c) es (A.enter c (A.stop (A.stop s).2).2)).2

theorem body_succeeds {rec : Proc ι σ} (h : (body W A rec c s).1 = some true) :
    Succeeds W A rec c s (body W A rec c s).2 := by
  unfold body at h ⊢
  dsimp only at h ⊢
  by_cases hstop : (A.stop s).1 = true
  · rw [if_pos hstop] at h
    cases h
  rw [if_neg hstop] at h ⊢
  by_cases hdir : W.isDir c = true
  · have hnot : ¬ (!W.isDir c) = true := by simp [hdir]
    rw [if_neg hnot] at h ⊢
    by_cases hagain : (A.stop (A.stop s).2).1 = true
    · rw [if_pos hagain] at h
      cases h
    rw [if_neg hagain] at h ⊢
    rcases hentries : W.entries c with _ | es
    · exact .unlisted hdir hentries
    · rw [hentries] at h
      exact .listed hdir hentries h
  · have hfile : W.isDir c = false := by simpa using hdir
    have hnot : (!W.isDir c) = true := by simp [hfile]
    rw [if_pos hnot] at h ⊢
    by_cases hskip : A.skip c (A.stop s).2 = true
    · rw [if_pos hskip]
      exact .skipped hfile hskip
    rw [if_neg hskip] at h ⊢
    by_cases hagain : (A.stop (A.stop s).2).1 = true
    · rw [if_pos hagain] at h
      cases h
    rw [if_neg hagain] at h ⊢
    exact .transferred hfile h

theorem turn_succeeds {rec : Proc ι σ} {e : ε} (h : (turn W A rec c e s).1 = some true) :
    (W.ignored e = true ∧ (turn W A rec c e s).2 = (A.stop s).2) ∨
      (W.ignored e = false ∧ turn W A rec c e s = rec (W.child c e) (A.stop s).2) := by
  unfold turn at h ⊢
  dsimp only at h ⊢
  by_cases hstop : (A.stop s).1 = true
  · rw [if_pos hstop] at h
    cases h
  rw [if_neg hstop]
  by_cases hignored : W.ignored e = true
  · rw [if_pos hignored]
    exact .inl ⟨hignored, rfl⟩
  · rw [if_neg hignored]
    exact .inr ⟨by simpa using hignored, rfl⟩

theorem keeps_turn {I : σ → Prop} {rec : Proc ι σ} {e : ε} (hstop : ∀ s, I s → I (A.stop s).2)
    (hrec : W.ignored e = false → ∀ s, (rec (W.child c e) s).1 = some true → I s →
      I (rec (W.child c e) s).2)
    (s : σ) (hok : (turn W A rec c e s).1 = some true) (hs : I s) : I (turn W A rec c e s).2 := by
  rcases turn_succeeds hok with ⟨-, heq⟩ | ⟨hshown, heq⟩
  · rw [heq]
    exact hstop _ hs
  · rw [heq] at hok ⊢
    exact hrec hshown _ hok (hstop _ hs)

/-- A walk that returned true has kept what transfers that return true keep. -/
theorem keeps_of_sync {I : σ → Prop} (h : Keeps W A root I) (depth : ℕ) :
    ∀ c s, ReflTransGen W.Enters root c →
    (sync W A depth c s).1 = some true → I s → I (sync W A depth c s).2 := by
  refine recurse_spec (P := fun c _ => ReflTransGen W.Enters root c)
    (Q := fun _ s r => r.1 = some true → I s → I r.2) (fun _ _ _ _ hs => hs)
    (fun rec hrec c s hc hok hs => ?_) depth
  have hcases := body_succeeds hok
  generalize (body W A rec c s).2 = t at hcases ⊢
  cases hcases with
  | skipped file skip => exact h.stop _ hs
  | transferred file ok => exact h.transfer c _ ⟨hc, file⟩ ok (h.stop _ (h.stop _ hs))
  | unlisted dir entries => exact h.enter c _ hc dir (h.stop _ (h.stop _ hs))
  | listed dir entries ok =>
    refine keeps_forEach (fun e he => keeps_turn h.stop fun hshown s => ?_) _ ok
      (h.enter c _ hc dir (h.stop _ (h.stop _ hs)))
    exact hrec _ s (hc.tail ⟨dir, _, entries, e, he, hshown, rfl⟩)

theorem done_of_forEach {I : σ → Prop} {D : ε → σ → Prop} {loop : Proc ε σ} {es : List ε}
    (hinv : ∀ e ∈ es, ∀ s, (loop e s).1 = some true → I s → I (loop e s).2)
    (hkept : ∀ d e, e ∈ es → ∀ s, (loop e s).1 = some true → D d s → D d (loop e s).2)
    (hdone : ∀ e ∈ es, ∀ s, (loop e s).1 = some true → I s → D e (loop e s).2) :
    ∀ s, (forEach loop es s).1 = some true → I s → ∀ e ∈ es, D e (forEach loop es s).2 := by
  induction es with
  | nil => exact fun _ _ _ _ he => absurd he List.not_mem_nil
  | cons e es ih =>
    intro s hok hs d hd
    have hturn : (loop e s).1 = some true := by
      by_contra hnot
      rw [forEach_cons_stop hnot] at hok
      exact hnot hok
    have hnext : I (loop e s).2 := hinv e List.mem_cons_self s hturn hs
    rw [forEach_cons_true hturn] at hok ⊢
    rcases List.mem_cons.mp hd with rfl | hd
    · exact keeps_forEach (fun e he => hkept d e (List.mem_cons_of_mem d he)) _ hok
        (hdone d List.mem_cons_self s hturn hs)
    · exact ih (fun e he => hinv e (List.mem_cons_of_mem _ he))
        (fun d e he => hkept d e (List.mem_cons_of_mem _ he))
        (fun e he => hdone e (List.mem_cons_of_mem _ he)) _ hok hnext d hd

/-- When a file counts as done, in states with an invariant. -/
structure Settles (W : Walk ι ε) (A : Actions ι σ) (root : ι) (I : σ → Prop) (Done : ι → σ → Prop) :
    Prop where
  inv : Keeps W A root I
  keeps : ∀ f, W.Holds root f → Keeps W A root (Done f)
  skipped : ∀ f s, W.Holds root f → A.skip f s = true → I s → Done f s
  transferred : ∀ f s, W.Holds root f → (A.transfer f s).1 = some true →
    I s → Done f (A.transfer f s).2

/-- A walk that returned true has done every file below its start. -/
theorem done_of_sync {I : σ → Prop} {Done : ι → σ → Prop}
    (h : Settles W A root I Done) (depth : ℕ) : ∀ c s,
    ReflTransGen W.Enters root c → (sync W A depth c s).1 = some true → I s →
      ∀ f, W.Holds c f → Done f (sync W A depth c s).2 := by
  induction depth with
  | zero => exact fun _ _ _ hok => by cases hok
  | succ depth ih =>
    intro c s hc hok hs f hf
    have hroot : W.Holds root f := ⟨hc.trans hf.below, hf.file⟩
    have hlooked : I (A.stop (A.stop s).2).2 := h.inv.stop _ (h.inv.stop _ hs)
    have hcases : Succeeds W A (sync W A depth) c s (sync W A (depth + 1) c s).2 :=
      body_succeeds hok
    generalize (sync W A (depth + 1) c s).2 = t at hcases ⊢
    cases hcases with
    | skipped file skip =>
      obtain rfl := hf.eq_of_file file
      exact h.skipped _ _ hroot skip (h.inv.stop _ hs)
    | transferred file ok =>
      obtain rfl := hf.eq_of_file file
      exact h.transferred _ _ hroot ok hlooked
    | unlisted dir entries =>
      obtain ⟨es, hes, -⟩ := hf.exists_child dir
      rw [entries] at hes
      cases hes
    | @listed dir es entries ok =>
      obtain ⟨es', hes, e, he, hshown, hf⟩ := hf.exists_child dir
      obtain rfl : es = es' := Option.some.inj (entries.symm.trans hes)
      have hchild : ∀ e ∈ es, W.ignored e = false → ReflTransGen W.Enters root (W.child c e) :=
        fun e he hshown =>
        hc.tail ⟨dir, es, entries, e, he, hshown, rfl⟩
      have hturns : ∀ {J : σ → Prop}, Keeps W A root J → ∀ e ∈ es, ∀ s,
          (turn W A (sync W A depth) c e s).1 = some true → J s →
            J (turn W A (sync W A depth) c e s).2 :=
        fun hJ e he => keeps_turn hJ.stop fun hshown s =>
          keeps_of_sync hJ depth _ s (hchild e he hshown)
      -- of an entry that is shown, the files below are done
      refine done_of_forEach (D := fun e s => W.ignored e = false → ∀ f, W.Holds root f →
        W.Holds (W.child c e) f →
          Done f s) (hturns h.inv) (fun d e he s hturn hd hshown f hroot hf => ?_)
        (fun e he s hturn hs hshown f hroot hf => ?_) _ ok
          (h.inv.enter c _ hc dir hlooked) e he hshown f hroot hf
      · exact hturns (h.keeps f hroot) e he s hturn (hd hshown f hroot hf)
      · rcases turn_succeeds hturn with ⟨hignored, -⟩ | ⟨-, heq⟩
        · rw [hshown] at hignored
          cases hignored
        · rw [heq] at hturn ⊢
          exact ih _ _ (hchild e he hshown) hturn (h.inv.stop _ hs) f hf

/-! ## Nothing to do -/

/-- The files are up to date, and remain so. -/
structure Settled (W : Walk ι ε) (A : Actions ι σ) (root : ι) (I : σ → Prop) : Prop where
  stop : ∀ s, I s → I (A.stop s).2
  enter : ∀ c s, I s → I (A.enter c s)
  skip : ∀ f s, W.Holds root f → I s → A.skip f s = true

/-- A walk for which every file is up to date keeps what looking around and making directories
keep. -/
theorem idle_of_sync {I : σ → Prop} (h : Settled W A root I) (depth : ℕ) {s : σ} (hs : I s) :
    I (sync W A depth root s).2 := by
  refine recurse_invariant (P := fun c => ReflTransGen W.Enters root c) (I := I)
    (fun rec hrec c s hc hs => ?_)
    depth .refl hs
  have hstop := h.stop _ hs
  have hagain := h.stop _ hstop
  unfold body
  dsimp only
  split_ifs with h1 hfile hskip
  · exact hstop
  · exact hstop
  · exact absurd (h.skip c _ ⟨hc, by simpa using hfile⟩ hstop) hskip
  · exact absurd (h.skip c _ ⟨hc, by simpa using hfile⟩ hstop) hskip
  · exact hagain
  · rcases hentries : W.entries c with _ | es
    · exact h.enter c _ hagain
    · refine forEach_invariant (fun e he s hs => ?_) _ (h.enter c _ hagain)
      unfold turn
      dsimp only
      split_ifs with _ hignored
      · exact h.stop _ hs
      · exact h.stop _ hs
      · have hdir : W.isDir c = true := by simpa using hfile
        have hshown : W.ignored e = false := by simpa using hignored
        exact hrec _ _ (hc.tail ⟨hdir, es, hentries, e, he, hshown, rfl⟩) (h.stop _ hs)

end Rules

/-! ## Once more -/

/-- How a state shows what lies at places of the other side, and which files were transferred. -/
structure Mirror (ι κ ο σ : Type*) where
  target : ι → κ
  objects : σ → κ → Option ο
  transfers : σ → List ι
  /-- The object may be a copy of the file. -/
  fits : ι → ο → Prop
  /-- The object is not older than the file. -/
  current : ι → ο → Prop

namespace Mirror

variable {κ ο : Type*} (M : Mirror ι κ ο σ) (W : Walk ι ε) (A : Actions ι σ) (root : ι)

/-- A current copy of the file is at its place. -/
def UpToDate (f : ι) (s : σ) :
    Prop := ∃ o, M.objects s (M.target f) = some o ∧ M.fits f o ∧ M.current f o

/-- A transfer was made to this place. -/
def WrittenTo (s : σ) (k : κ) : Prop := ∃ f ∈ M.transfers s, M.target f = k

/-- Only transfers write, and they are made unless a current copy is there. -/
structure Looks : Prop where
  stop_objects : ∀ s, M.objects (A.stop s).2 = M.objects s
  stop_transfers : ∀ s, M.transfers (A.stop s).2 = M.transfers s
  enter_objects : ∀ c s k o, M.objects s k = some o → M.objects (A.enter c s) k = some o
  enter_transfers : ∀ c s, M.transfers (A.enter c s) = M.transfers s
  skip_iff : ∀ f s, W.Holds root f → (A.skip f s = true ↔ M.UpToDate f s)

/-- What a transfer that returned true has done. -/
structure Stores (f : ι) (s s' : σ) : Prop where
  copy : ∃ o, M.objects s' (M.target f) = some o ∧ M.fits f o
  others : ∀ k o, k ≠ M.target f → M.objects s k = some o → M.objects s' k = some o
  transfers : M.transfers s' = M.transfers s ++ [f]

/-- Nothing changed but what was written, and that not to an older object. -/
structure Unchanged (s s' : σ) : Prop where
  same : ∀ k, ¬ M.WrittenTo s k → M.objects s' k = M.objects s k
  fits : ∀ k o, M.WrittenTo s k → M.objects s k = some o → ∃ o', M.objects s' k = some o' ∧
    ∀ f, M.fits f o → M.fits f o'
  current : ∀ f, W.Holds root f → M.WrittenTo s (M.target f) →
    ∀ o, M.objects s' (M.target f) = some o → M.current f o

/-- Files with one place have the same copies. -/
def Agree : Prop :=
  ∀ f g, W.Holds root f → W.Holds root g → M.target f = M.target g → ∀ o, M.fits f o → M.fits g o

/-- A file that was done: what is written to its place later is a copy, too. -/
def Done (f : ι) (s : σ) : Prop :=
  ∃ o, M.objects s (M.target f) = some o ∧ M.fits f o ∧ (M.WrittenTo s (M.target f) ∨ M.current f o)

variable {M W A root}

theorem Stores.writtenTo {f : ι} {s s' : σ} {k : κ} (h : M.Stores f s s') :
    M.WrittenTo s' k ↔ M.WrittenTo s k ∨ k = M.target f := by
  unfold WrittenTo
  rw [h.transfers]
  simp [or_and_right, exists_or, eq_comm]

theorem Done.of_eq {f : ι} {s s' : σ} (h : M.Done f s)
    (hobjects : ∀ k o, M.objects s k = some o → M.objects s' k = some o)
    (htransfers : M.transfers s' = M.transfers s) :
    M.Done f s' := by
  obtain ⟨o, hobject, hfits, hdone⟩ := h
  exact ⟨o, hobjects _ o hobject, hfits, by rwa [WrittenTo, htransfers]⟩

theorem Done.of_stores {f g : ι} {s s' : σ} (h : M.Done f s)
    (hagree : M.Agree W root) (hf : W.Holds root f)
    (hg : W.Holds root g) (hstores : M.Stores g s s') : M.Done f s' := by
  obtain ⟨o, hobject, hfits, hdone⟩ := h
  by_cases heq : M.target f = M.target g
  · obtain ⟨copy, hcopy, hfitsg⟩ := hstores.copy
    refine ⟨copy, by rw [heq]; exact hcopy, hagree g f hg hf heq.symm copy hfitsg, .inl ?_⟩
    exact hstores.writtenTo.mpr (.inr heq)
  · refine ⟨o, hstores.others _ o heq hobject, hfits, ?_⟩
    rcases hdone with hwritten | hcurrent
    · exact .inl (hstores.writtenTo.mpr (.inl hwritten))
    · exact .inr hcurrent

theorem settles {I : σ → Prop} (hlooks : M.Looks W A root)
    (hinv : Keeps W A root I) (hagree : M.Agree W root)
    (hstores : ∀ f s, W.Holds root f → (A.transfer f s).1 = some true → I s →
      M.Stores f s (A.transfer f s).2) :
    Settles W A root I fun f s => I s ∧ M.Done f s where
  inv := hinv
  keeps f hf :=
    { stop := fun s hs => ⟨hinv.stop s hs.1,
        hs.2.of_eq (fun k o ho => by rw [hlooks.stop_objects]; exact ho) (hlooks.stop_transfers s)⟩
      enter := fun c s hc hdir hs => ⟨hinv.enter c s hc hdir hs.1,
        hs.2.of_eq (hlooks.enter_objects c s) (hlooks.enter_transfers c s)⟩
      transfer := fun g s hg hok hs => ⟨hinv.transfer g s hg hok hs.1,
        hs.2.of_stores hagree hf hg (hstores g s hg hok hs.1)⟩ }
  skipped f s hf hskip hs := by
    obtain ⟨o, hobject, hfits, hcurrent⟩ := (hlooks.skip_iff f s hf).mp hskip
    exact ⟨hs, o, hobject, hfits, .inr hcurrent⟩
  transferred f s hf hok hs := by
    have hstored := hstores f s hf hok hs
    obtain ⟨o, hobject, hfits⟩ := hstored.copy
    exact ⟨hinv.transfer f s hf hok hs, o, hobject, hfits, .inl (hstored.writtenTo.mpr (.inr rfl))⟩

/-- What was done is up to date if nothing changed. -/
theorem Unchanged.upToDate {f : ι} {s s' : σ} (h : M.Unchanged W root s s')
    (hf : W.Holds root f) (hdone : M.Done f s) :
    M.UpToDate f s' := by
  obtain ⟨o, hobject, hfits, hdone⟩ := hdone
  by_cases hwritten : M.WrittenTo s (M.target f)
  · obtain ⟨o', hobject', hfits'⟩ := h.fits _ o hwritten hobject
    exact ⟨o', hobject', hfits' f hfits, h.current f hf hwritten o' hobject'⟩
  · exact ⟨o, (h.same _ hwritten).trans hobject, hfits, hdone.resolve_left hwritten⟩

/-- While every file is up to date nothing is transferred. -/
theorem settled (hlooks : M.Looks W A root) (transfers : List ι) :
    Settled W A root fun s => M.transfers s = transfers ∧ ∀ f, W.Holds root f → M.UpToDate f s where
  stop s hs := by
    refine ⟨(hlooks.stop_transfers s).trans hs.1, fun f hf => ?_⟩
    unfold UpToDate
    rw [hlooks.stop_objects]
    exact hs.2 f hf
  enter c s hs := by
    refine ⟨(hlooks.enter_transfers c s).trans hs.1, fun f hf => ?_⟩
    obtain ⟨o, hobject, hfits, hcurrent⟩ := hs.2 f hf
    exact ⟨o, hlooks.enter_objects c s _ o hobject, hfits, hcurrent⟩
  skip f s hf hs := (hlooks.skip_iff f s hf).mpr (hs.2 f hf)

/-- After a walk that returned true, another one transfers nothing if nothing changed. -/
theorem idle_again {I : σ → Prop} {B : Actions ι σ}
    (hlooks : M.Looks W A root) (hinv : Keeps W A root I)
    (hagree : M.Agree W root)
    (hstores : ∀ f s, W.Holds root f → (A.transfer f s).1 = some true → I s →
      M.Stores f s (A.transfer f s).2)
    (hagain : M.Looks W B root) {depth depth' : ℕ} {s s' : σ} (hs : I s)
    (hok : (sync W A depth root s).1 = some true)
    (hunchanged : M.Unchanged W root (sync W A depth root s).2 s') :
    M.transfers (sync W B depth' root s').2 = M.transfers s' := by
  have hdone := done_of_sync (settles hlooks hinv hagree hstores) depth root s .refl hok hs
  exact (idle_of_sync (settled hagain (M.transfers s')) depth'
    ⟨rfl, fun f hf => hunchanged.upToDate hf (hdone f hf).2⟩).1

end Mirror

end TreeSync
