import SalamanderSftp.Fs.Runs
import SalamanderSftp.Lib.Steering

/-!
# When a recursive delete stays inside

`SftpDeleteRecursive` removes what the paths denote that `SftpJoin` builds out of listed names. It
stays inside the directory it was asked to delete, and leaves nothing of it when it succeeds, if and
only if all these paths lie below that directory (`deletesInside_iff`). A name with backslashes can
lead out.
-/

namespace SalamanderSftp

open Components FileTree Procedure Relation

/-- `path` is `root` or lies below it, in its text and on the server. -/
structure Conn.Below (conn : Conn) (t : RemoteTree) (root path : CStr) : Prop where
  text : tokens (· == slash) root <+: tokens (· == slash) path
  place : ∀ q, conn.denotes t path = some q → ∃ r, conn.denotes t root = some r ∧ r <+: q

theorem Conn.Below.refl (conn : Conn) (t : RemoteTree) (root : CStr) : conn.Below t root root :=
  ⟨List.prefix_rfl, fun q hq => ⟨q, hq, List.prefix_rfl⟩⟩

/-- All paths that are built for the entries on the way lie below `root`. -/
def Conn.JoinsStayBelow (conn : Conn) (t : RemoteTree) (root : CStr) : Prop :=
  ∀ r, conn.Reaches t root r → ∀ e ∈ conn.shown t r, conn.Below t root (sftpJoin r e.Name MAX_PATH)

/-- The server was asked to remove what is at this path. -/
def FsState.Removes (w : FsState) (path : CStr) :
    Prop := .removeFile path ∈ w.log ∨ .removeDir path ∈ w.log

/-- Every recursive delete of the directory `root` removes paths below it only, and exactly the tree
at `root` is gone when it succeeds. -/
structure DeletesInside (conn : Conn) (t : RemoteTree) (root : CStr) : Prop where
  removes : ∀ (panel : Panel) (w : FsState) (depth : ℕ), w.tree conn = t → ∀ path,
    (sftpDeleteRecursive panel conn depth ⟨root, true⟩ w.fresh).2.Removes path →
      conn.Below t root path
  exact : ∀ (panel : Panel) (w : FsState) (depth : ℕ), w.tree conn = t →
    (sftpDeleteRecursive panel conn depth ⟨root, true⟩ w.fresh).1 = some true →
      ∃ r, conn.denotes t root = some r ∧ ∀ q,
        ((sftpDeleteRecursive panel conn depth ⟨root, true⟩ w.fresh).2.tree conn).lookup q =
          if r <+: q then none else t.lookup q

/-! ## Staying inside -/

/-- The tree has shrunk below `root` only, and so far nothing else was to be removed. -/
structure FsState.Stayed (conn : Conn) (t : RemoteTree) (root : CStr) (w : FsState) : Prop where
  part : Part (w.tree conn) t
  outside : ∀ q, (∀ r, conn.denotes t root = some r → ¬ r <+: q) →
    (w.tree conn).lookup q = t.lookup q
  removes : ∀ path, w.Removes path → conn.Below t root path

section Inside

variable {conn : Conn} {t : RemoteTree} {root : CStr} {panel : Panel} {w w' : FsState}

theorem FsState.stayed_fresh (hw : w.tree conn = t) : w.fresh.Stayed conn t root := by
  have htree : w.fresh.tree conn = t := hw
  refine ⟨?_, fun q _ => by rw [htree], fun path hremoves => ?_⟩
  · rw [htree]
    exact .refl t
  · rcases hremoves with hmem | hmem <;> exact absurd hmem List.not_mem_nil

theorem FsState.Stayed.of_same (hw : w.Stayed conn t root) (htree : w'.tree conn = w.tree conn)
    (hlog : ∀ path, w'.Removes path → w.Removes path) : w'.Stayed conn t root := by
  refine ⟨?_, fun q hq => ?_, fun path hpath => hw.removes path (hlog path hpath)⟩
  · rw [htree]
    exact hw.part
  · rw [htree]
    exact hw.outside q hq

theorem FsState.Stayed.descend (hw : w.Stayed conn t root) (r r' : CStr) :
    (w.record (.descend r r')).next.Stayed conn t root :=
  hw.of_same rfl fun path hpath => by simpa [FsState.Removes] using hpath

theorem FsState.Stayed.removal (hw : w.Stayed conn t root) {path : CStr} {event : FsEvent}
    (hr : Removal conn path event w w')
    (hevent : event = .removeFile path ∨ event = .removeDir path)
    (hpath : conn.Below t root path) : w'.Stayed conn t root := by
  refine ⟨hr.part.trans hw.part, fun q hq => ?_, fun p hp => ?_⟩
  · rcases hr.tree with heq | ⟨s, hs, hne, heq⟩
    · rw [heq]
      exact hw.outside q hq
    · obtain ⟨r, hroot, hrs⟩ := hpath.place s (hw.part.denotes hs)
      have hnot : ¬ s <+: q := fun hsq => hq r hroot (hrs.trans hsq)
      rw [heq, Tree.lookup_remove hne, if_neg hnot]
      exact hw.outside q hq
  · rw [FsState.Removes, hr.log, List.mem_append, List.mem_append] at hp
    by_cases hold : w.Removes p
    · exact hw.removes p hold
    · have hnew : p = path := by
        rcases hevent with rfl | rfl <;> simp_all [FsState.Removes]
      rw [hnew]
      exact hpath

/-- The calls of a run: their paths lie below, and directories are reached from `root`. -/
def Conn.Calls (conn : Conn) (t : RemoteTree) (root : CStr) (c : RemoteItem) : Prop :=
  conn.Below t root c.remote ∧ (c.isDir = true → conn.Reaches t root c.remote)

theorem Conn.calls_root (conn : Conn) (t : RemoteTree) (root : CStr) :
    conn.Calls t root ⟨root, true⟩ :=
  ⟨.refl conn t root, fun _ => ReflTransGen.refl⟩

/-- A call for a directory, up to its `RemoveDir`. -/
theorem Conn.JoinsStayBelow.body (h : conn.JoinsStayBelow t root) (panel : Panel)
    (rec : Proc RemoteItem FsState)
    (hrec : ∀ c w, conn.Calls t root c → w.Stayed conn t root → (rec c w).2.Stayed conn t root)
    {c : RemoteItem}
    (hc : conn.Calls t root c) (hd : c.isDir = true) (hw : w.Stayed conn t root) :
    ∃ v : FsState, v.Stayed conn t root ∧
    (sftpDeleteBody panel conn rec c w = removeDir panel conn c.remote v ∨
      (sftpDeleteBody panel conn rec c w).1 ≠ some true ∧
        (sftpDeleteBody panel conn rec c w).2 = v) := by
  refine sftpDeleteBody_dir hd (hw.of_same rfl fun _ hp => hp) fun entries hl e he s hs => ?_
  have hreach := hc.2 hd
  have hshown : e ∈ conn.shown t c.remote := hw.part.shown (mem_shown_of_listDir hl he)
  exact hrec ⟨_, e.IsDir⟩ _ ⟨h c.remote hreach e hshown,
    fun hed => hreach.tail ⟨e, hshown, hed, rfl⟩⟩ (hs.descend _ _)

theorem Conn.JoinsStayBelow.stayed (h : conn.JoinsStayBelow t root) (panel : Panel)
    (depth : ℕ) {c : RemoteItem}
    (hc : conn.Calls t root c) (hw : w.Stayed conn t root) :
    (sftpDeleteRecursive panel conn depth c w).2.Stayed conn t root := by
  refine recurse_invariant (P := conn.Calls t root) (I := FsState.Stayed conn t root)
    (fun rec hrec c w hc hw => ?_) depth hc hw
  by_cases hd : c.isDir = true
  · obtain ⟨v, hv, hend | ⟨-, hend⟩⟩ := h.body panel rec hrec hc hd hw
    · rw [hend]
      exact hv.removal (removeDir_removal panel conn c.remote v) (Or.inr rfl) hc.1
    · rw [hend]
      exact hv
  · unfold sftpDeleteBody
    rw [if_pos (by simpa using hd)]
    exact hw.removal (removeFile_removal panel conn c.remote w) (Or.inl rfl) hc.1

theorem removeDir_true {path : CStr} (h : (removeDir panel conn path w).1 = some true) :
    ∃ q, conn.denotes (w.tree conn) path = some q ∧ q ≠ [] ∧
      (removeDir panel conn path w).2.tree conn = (w.tree conn).remove q := by
  unfold removeDir at h ⊢
  dsimp only at h ⊢
  rcases hq : conn.denotes (w.tree conn) path with _ | q
  · simp [hq] at h
  · simp only [hq] at h ⊢
    split_ifs at h ⊢ with hcan
    · exact ⟨q, rfl, hcan.2.1, FsState.setTree_tree _ _ _⟩
    · simp at h

theorem Conn.JoinsStayBelow.deletesInside (h : conn.JoinsStayBelow t root) :
    DeletesInside conn t root where
  removes panel w depth hw :=
    (h.stayed panel depth (conn.calls_root t root) (FsState.stayed_fresh hw)).removes
  exact := by
    intro panel w depth hw htrue
    cases depth with
    | zero => exact absurd htrue (by simp [sftpDeleteRecursive])
    | succ depth =>
      unfold sftpDeleteRecursive at htrue ⊢
      rw [recurse_succ] at htrue ⊢
      obtain ⟨v, hv, hend | ⟨hfalse, -⟩⟩ := h.body panel (recurse (sftpDeleteBody panel conn) depth)
        (fun c w hc hw => h.stayed panel depth hc hw) (conn.calls_root t root) rfl
        (FsState.stayed_fresh hw)
      · rw [hend] at htrue ⊢
        obtain ⟨r, hr, hne, htree⟩ := removeDir_true htrue
        have hroot : conn.denotes t root = some r := hv.part.denotes hr
        refine ⟨r, hroot, fun q => ?_⟩
        rw [htree, Tree.lookup_remove hne]
        split_ifs with hrq
        · rfl
        · exact hv.outside q fun r' hr' => by
            obtain rfl := Option.some.inj (hroot.symm.trans hr')
            exact hrq
      · exact absurd htrue hfalse

end Inside

/-! ## Led out -/

/-- The same panel with a server that lists as `f` says. -/
def Panel.withReaddir (panel : Panel) (f : ℕ → CStr → Option (List RemoteEntry)) :
    Panel := { panel with readdir := f }

/-- `c` calls `c'` for the entry `e`. -/
def DeleteCalls (c : RemoteItem) (e : RemoteEntry) (c' : RemoteItem) : Prop :=
  c.isDir = true ∧ c' = ⟨sftpJoin c.remote e.Name MAX_PATH, e.IsDir⟩

theorem listDir_single {panel : Panel} {conn : Conn} {path : CStr} {w : FsState} {e : RemoteEntry}
    (hl : panel.readdir w.tick path = some [e]) (he : e ∈ conn.shown (w.tree conn) path) :
    listDir panel conn path w = (some [e], w.next) := by
  unfold Conn.shown at he
  rcases hthere : conn.listing (w.tree conn) path with _ | there
  · simp [hthere] at he
  · rw [hthere, Option.getD_some] at he
    simp [listDir, hthere, hl, he]

theorem log_prefix_removeDir (panel : Panel) (conn : Conn) (path : CStr)
    (r : Option Bool × FsState) :
    r.2.log <+: (match r with
      | (some true, w) => removeDir panel conn path w
      | r => r).2.log := by
  split
  · rw [(removeDir_removal panel conn path _).log]
    exact List.prefix_append _ _
  · exact List.prefix_rfl

/-- `SftpDeleteRecursive` can be steered while nothing is removed. -/
theorem sftpDelete_steerable (conn : Conn) (t : RemoteTree) :
    Steerable (fun panel => sftpDeleteBody panel conn) RemoteItem.remote
      (fun r e => e ∈ conn.shown t r) DeleteCalls
      Panel.readdir FsState.tick (fun _ => True) (fun w => w.tree conn = t)
        (fun w w' => w.log <+: w'.log)
      (fun _ _ _ => True) Panel.withReaddir where
  sub_refl _ := List.prefix_rfl
  sub_trans h h' := h.trans h'
  single := by
    rintro panel c e _ w - hok hl he ⟨hd, rfl⟩
    refine ⟨(w.next.record (.descend c.remote (sftpJoin c.remote e.Name MAX_PATH))).next, hok, rfl,
      trivial,
      fun rec => ?_⟩
    rw [← hok] at he
    unfold sftpDeleteBody
    rw [if_neg (by simp [hd]), listDir_single hl he]
    dsimp only
    rw [forEach_singleton]
    exact log_prefix_removeDir _ _ _ _
  quiet_withList _ := trivial
  list_some hf _ := hf
  list_none hf := hf

/-- An item that cannot be listed is removed, or tried to. -/
theorem removes_of_call (panel : Panel) (conn : Conn) (c : RemoteItem) (w : FsState)
    (hnone : panel.readdir w.tick = fun _ => none) :
    (sftpDeleteRecursive panel conn 1 c w).2.Removes c.remote := by
  unfold sftpDeleteRecursive
  rw [recurse_succ, sftpDeleteBody]
  split_ifs with hd
  · left
    rw [(removeFile_removal panel conn c.remote w).log]
    simp
  · right
    have hl : listDir panel conn c.remote w = (none, w.next) := by simp [listDir, hnone]
    rw [hl]
    dsimp only
    rw [(removeDir_removal panel conn c.remote w.next).log]
    simp

theorem DeletesInside.joinsStayBelow {conn : Conn} {t : RemoteTree} {root : CStr}
    (h : DeletesInside conn t root) :
    conn.JoinsStayBelow t root := by
  intro r hr e he
  have hpath : ReflTransGen (fun c c' => ∃ e, e ∈ conn.shown t c.remote ∧ DeleteCalls c e c')
      ⟨root, true⟩ ⟨r, true⟩ := by
    refine ReflTransGen.lift (fun r => (⟨r, true⟩ : RemoteItem)) ?_ _ _ hr
    rintro r _ ⟨e, he, hdir, rfl⟩
    refine ⟨e, he, rfl, ?_⟩
    rw [hdir]
  obtain ⟨f, k, -, hnone, hrun⟩ := (sftpDelete_steerable conn t).exists_run_to hpath he ⟨rfl, rfl⟩
    Panel.plain trivial
  obtain ⟨w', -, htick, -, hsub⟩ := hrun ⟨fun _ => t, [], .ask, false, 0, []⟩ rfl rfl
  refine h.removes (Panel.plain.withReaddir f) ⟨fun _ => t, [], .ask, false,
    0, []⟩ (1 + 1 + k) rfl _ ?_
  have hcall :=
    removes_of_call (Panel.plain.withReaddir f) conn ⟨sftpJoin r e.Name MAX_PATH, e.IsDir⟩ w'
    (funext fun path => hnone _ (by omega) path)
  exact hcall.imp (fun hmem => (hsub 1).subset hmem) fun hmem => (hsub 1).subset hmem

theorem deletesInside_iff (conn : Conn) (t : RemoteTree) (root : CStr) :
    DeletesInside conn t root ↔ conn.JoinsStayBelow t root :=
  ⟨DeletesInside.joinsStayBelow, Conn.JoinsStayBelow.deletesInside⟩

end SalamanderSftp
