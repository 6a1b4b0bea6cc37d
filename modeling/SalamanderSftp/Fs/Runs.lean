import SalamanderSftp.Fs.Recursion

/-!
# Runs of the panel operations

What the pieces of the recursive operations leave alone (`FsState.Aside`), and what a removal does
to a tree.
-/

namespace SalamanderSftp

open Procedure FileTree

namespace FsState

@[simp] theorem next_log (w : FsState) : w.next.log = w.log := rfl
@[simp] theorem record_log (w : FsState) (e : FsEvent) : (w.record e).log = w.log ++ [e] := rfl
@[simp] theorem next_tree (w : FsState) (conn : Conn) : w.next.tree conn = w.tree conn := rfl
@[simp] theorem record_tree (w : FsState) (e : FsEvent) (conn : Conn) :
    (w.record e).tree conn = w.tree conn := rfl
@[simp] theorem setTree_log (w : FsState) (conn : Conn) (t : RemoteTree) :
    (w.setTree conn t).log = w.log := rfl
@[simp] theorem setTree_tree (w : FsState) (conn : Conn) (t : RemoteTree) :
    (w.setTree conn t).tree conn = t := by
  simp [setTree, tree]

/-- The state at the start of a run: nothing is logged yet. -/
def fresh (w : FsState) : FsState := { w with log := [] }

/-- From `w` to `w'` no server has changed and nothing was logged. -/
structure Aside (w w' : FsState) : Prop where
  servers : w'.servers = w.servers
  log : w'.log = w.log

theorem Aside.refl (w : FsState) : w.Aside w := ⟨rfl, rfl⟩

theorem Aside.trans {u v w : FsState} (h : u.Aside v) (h' : v.Aside w) : u.Aside w :=
  ⟨h'.servers.trans h.servers, h'.log.trans h.log⟩

theorem Aside.tree {w w' : FsState} (h : w.Aside w') (conn : Conn) : w'.tree conn = w.tree conn :=
  congrFun h.servers conn.server

theorem aside_next (w : FsState) : w.Aside w.next := ⟨rfl, rfl⟩

end FsState

section Aside

variable (panel : Panel) (conn : Conn) (remote local_ : CStr) (w : FsState)

theorem aside_sftpIsCancelled : w.Aside (sftpIsCancelled panel w).2 := by
  unfold sftpIsCancelled
  split_ifs
  · exact .refl w
  · exact ⟨rfl, rfl⟩
  · exact ⟨rfl, rfl⟩

theorem aside_sftpAskOverwrite : w.Aside (sftpAskOverwrite panel w).2 := by
  unfold sftpAskOverwrite
  cases w.ovrMode with
  | overwriteAll => exact .refl w
  | skipAll => exact .refl w
  | ask => cases panel.overwrite w.tick <;> exact ⟨rfl, rfl⟩

theorem aside_statSize : w.Aside (statSize panel conn remote w).2 := ⟨rfl, rfl⟩

theorem aside_listDir : w.Aside (listDir panel conn remote w).2 := ⟨rfl, rfl⟩

theorem aside_fsCreateDirectory : w.Aside (fsCreateDirectory panel local_ w) := by
  unfold fsCreateDirectory
  split_ifs <;> exact ⟨rfl, rfl⟩

theorem aside_fsDownload (resumeOffset : ℕ) :
    w.Aside (fsDownload panel conn remote local_ resumeOffset w).2 := by
  unfold fsDownload
  dsimp only
  split_ifs
  · split <;> exact ⟨rfl, rfl⟩
  · exact ⟨rfl, rfl⟩

theorem fsDownload_returns (resumeOffset : ℕ) :
    (fsDownload panel conn remote local_ resumeOffset w).1 ≠ none := by
  unfold fsDownload
  dsimp only
  split_ifs
  · split <;> simp
  · simp

theorem aside_downloadUnlessCancelled (resumeOffset : ℕ) :
    w.Aside (downloadUnlessCancelled panel conn remote local_ resumeOffset w).2 := by
  unfold downloadUnlessCancelled
  dsimp only
  split_ifs
  · exact aside_sftpIsCancelled panel w
  · exact (aside_sftpIsCancelled panel w).trans (aside_fsDownload ..)

theorem downloadUnlessCancelled_returns (resumeOffset : ℕ) :
    (downloadUnlessCancelled panel conn remote local_ resumeOffset w).1 ≠ none := by
  unfold downloadUnlessCancelled
  dsimp only
  split_ifs
  · simp
  · apply fsDownload_returns

theorem aside_syncSkipDownload : w.Aside (syncSkipDownload panel conn remote local_ w).2 := by
  unfold syncSkipDownload
  cases w.disk.node panel.diskKey local_ with
  | none => exact .refl w
  | some node =>
    dsimp only
    split_ifs
    · exact aside_statSize panel conn remote w
    · exact (aside_statSize panel conn remote w).trans (FsState.aside_next _)

theorem aside_askDownload (localSize : ℕ) (remoteSize : Option ℕ) :
    w.Aside (askDownload panel localSize remoteSize w).2 := by
  unfold askDownload
  split_ifs
  · cases panel.resume w.tick with
    | yes => exact FsState.aside_next w
    | no => exact (FsState.aside_next w).trans (aside_sftpIsCancelled panel w.next)
    | cancel => exact ⟨rfl, rfl⟩
  · have hask := aside_sftpAskOverwrite panel w
    dsimp only
    split_ifs
    · exact hask
    · exact ⟨hask.servers, hask.log⟩
    · exact hask

theorem aside_resumableSize (localSize : ℕ) :
    w.Aside (resumableSize panel conn remote localSize w).2 := by
  unfold resumableSize
  split_ifs
  · exact aside_statSize ..
  · exact .refl w

theorem aside_sftpDownloadFile : w.Aside (sftpDownloadFile panel conn remote local_ w).2 := by
  unfold sftpDownloadFile
  split_ifs with hsync
  · have hskip := aside_syncSkipDownload panel conn remote local_ w
    dsimp only
    split_ifs
    · exact hskip
    · exact hskip.trans (aside_downloadUnlessCancelled ..)
  · cases w.disk.node panel.diskKey local_ with
    | none => exact aside_downloadUnlessCancelled ..
    | some node =>
      dsimp only
      have hstat := aside_resumableSize panel conn remote w node.size
      generalize resumableSize panel conn remote node.size w = size at hstat
      have hask := hstat.trans (aside_askDownload panel size.2 node.size size.1)
      rcases hv : askDownload panel node.size size.1 size.2 with ⟨_ | _ | offset, w'⟩
        <;> rw [hv] at hask
      · exact hask
      · exact hask
      · exact hask.trans (aside_downloadUnlessCancelled ..)

theorem sftpDownloadFile_returns : (sftpDownloadFile panel conn remote local_ w).1 ≠ none := by
  unfold sftpDownloadFile
  split_ifs
  · dsimp only
    split_ifs
    · simp
    · apply downloadUnlessCancelled_returns
  · split
    · apply downloadUnlessCancelled_returns
    · dsimp only
      split
      · simp
      · simp
      · apply downloadUnlessCancelled_returns

end Aside

/-! ## Listing and removing -/

section Steps

variable {panel : Panel} {conn : Conn} {path : CStr} {w : FsState}

/-- A listing shows entries that are there. -/
theorem mem_shown_of_listDir {entries : List RemoteEntry}
    (h : (listDir panel conn path w).1 = some entries)
    {e : RemoteEntry} (he : e ∈ entries) : e ∈ conn.shown (w.tree conn) path := by
  unfold listDir at h
  obtain ⟨there, hthere, h⟩ := Option.bind_eq_some_iff.mp h
  obtain ⟨given, -, rfl⟩ := Option.map_eq_some_iff.mp h
  rw [Conn.shown, hthere]
  exact of_decide_eq_true (List.mem_filter.mp he).2

/-- `RemoveFile` and `RemoveDir` log the path; when they remove something it is what the path
denotes, and nothing lies below it. -/
structure Removal (conn : Conn) (path : CStr) (event : FsEvent) (w w' : FsState) : Prop where
  log : w'.log = w.log ++ [event]
  tree : w'.tree conn = w.tree conn ∨
    ∃ q, conn.denotes (w.tree conn) path = some q ∧ q ≠ [] ∧ w'.tree conn = (w.tree conn).remove q

theorem removeFile_removal (panel : Panel) (conn : Conn) (path : CStr) (w : FsState) :
    Removal conn path (.removeFile path) w (removeFile panel conn path w).2 := by
  unfold removeFile
  dsimp only
  rcases hq : conn.denotes (w.tree conn) path with _ | q
  · exact ⟨rfl, Or.inl rfl⟩
  · dsimp only
    split_ifs with h
    · have hne : q ≠ [] := fun hnil => h.1 (by rw [hnil]; exact Tree.lookup_nil _)
      exact ⟨rfl, Or.inr ⟨q, hq, hne, FsState.setTree_tree _ _ _⟩⟩
    · exact ⟨rfl, Or.inl rfl⟩

theorem removeDir_removal (panel : Panel) (conn : Conn) (path : CStr) (w : FsState) :
    Removal conn path (.removeDir path) w (removeDir panel conn path w).2 := by
  unfold removeDir
  dsimp only
  rcases hq : conn.denotes (w.tree conn) path with _ | q
  · exact ⟨rfl, Or.inl rfl⟩
  · dsimp only
    split_ifs with h
    · exact ⟨rfl, Or.inr ⟨q, hq, h.2.1, FsState.setTree_tree _ _ _⟩⟩
    · exact ⟨rfl, Or.inl rfl⟩

theorem removeFile_returns (panel : Panel) (conn : Conn) (path : CStr) (w : FsState) :
    (removeFile panel conn path w).1 ≠ none := by
  unfold removeFile
  dsimp only
  split
  · simp
  · split_ifs <;> simp

theorem removeDir_returns (panel : Panel) (conn : Conn) (path : CStr) (w : FsState) :
    (removeDir panel conn path w).1 ≠ none := by
  unfold removeDir
  dsimp only
  split
  · simp
  · split_ifs <;> simp

theorem Removal.part {event : FsEvent} {w' : FsState} (h : Removal conn path event w w') :
    Part (w'.tree conn) (w.tree conn) := by
  rcases h.tree with heq | ⟨q, -, hne, heq⟩
  · rw [heq]
    exact .refl _
  · rw [heq]
    exact part_remove _ hne

/-- A call for a directory ends with `RemoveDir`, unless a recursive call fails. -/
theorem sftpDeleteBody_dir {I : FsState → Prop} {rec : Proc RemoteItem FsState} {c : RemoteItem}
    (hd : c.isDir = true) (hlist : I (listDir panel conn c.remote w).2)
    (hrec : ∀ entries, (listDir panel conn c.remote w).1 = some entries → ∀ e ∈ entries, ∀ s, I s →
      I (rec ⟨sftpJoin c.remote e.Name MAX_PATH, e.IsDir⟩
        (s.record (.descend c.remote (sftpJoin c.remote e.Name MAX_PATH))).next).2) :
    ∃ v, I v ∧ (sftpDeleteBody panel conn rec c w = removeDir panel conn c.remote v ∨
      (sftpDeleteBody panel conn rec c w).1 ≠ some true ∧
        (sftpDeleteBody panel conn rec c w).2 = v) := by
  unfold sftpDeleteBody
  rw [if_neg (by simp [hd])]
  rcases hl : listDir panel conn c.remote w with ⟨_ | entries, v⟩
  · rw [hl] at hlist
    exact ⟨v, hlist, Or.inl rfl⟩
  · rw [hl] at hlist hrec
    have hloop := forEach_invariant (I := I) (hrec entries rfl) v hlist
    dsimp only
    split
    · next hres =>
      rw [hres] at hloop
      exact ⟨_, hloop, Or.inl rfl⟩
    · next hres => exact ⟨_, hloop, Or.inr ⟨fun htrue => hres _ (Prod.ext htrue rfl), rfl⟩⟩

end Steps

end SalamanderSftp
