import SalamanderSftp.Fs.Runs
import SalamanderSftp.Worker.Steering

/-!
# When the recursive walks terminate

A recursive walk goes down when each of its calls is on a path that denotes a strictly deeper entry
of the tree than the path of its caller. That depends on the paths `SftpJoin` builds for the entries
of the directories the walk can get to, and on nothing else (`walksTerminate_iff`). Cut off at
`MAX_PATH`, or with a backslash in it, a name can lead back to where the walk is.
-/

namespace SalamanderSftp

open Procedure Relation

/-- The second path denotes a strictly deeper entry of the tree than the first. -/
def Conn.Deeper (conn : Conn) (t : RemoteTree) (path path' : CStr) : Prop :=
  ∃ q q', conn.denotes t path = some q ∧ conn.denotes t path' = some q' ∧ q.length < q'.length

/-- Every path that is built for an entry on the way denotes a strictly deeper entry. -/
def Conn.JoinsDeepen (conn : Conn) (t : RemoteTree) (root : CStr) : Prop :=
  ∀ r, conn.Reaches t root r → ∀ e ∈ conn.shown t r, conn.Deeper t r (sftpJoin r e.Name MAX_PATH)

/-- A walk, unfolded to any depth: it returns, and all its recursive calls go deeper. -/
structure GoesDown {σ : Type*} (run : ℕ → Option Bool × σ) (calls : σ → CStr → CStr → Prop)
    (deeper : CStr → CStr → Prop) : Prop where
  returns : ∃ depth, (run depth).1 ≠ none
  descends : ∀ depth r r', calls (run depth).2 r r' → deeper r r'

/-- The recursive calls of the worker, by their remote paths. -/
def WorkerState.Calls (w : WorkerState) (r r' : CStr) : Prop :=
  ∃ c c', Event.descend c c' ∈ w.log ∧ c.remote = r ∧ c'.remote = r'

def FsState.Calls (w : FsState) (r r' : CStr) : Prop := FsEvent.descend r r' ∈ w.log

/-- The worker is shown entries of this tree. -/
def Host.ListsTree (host : Host) (conn : Conn) (t : RemoteTree) : Prop :=
  ∀ tick remote entries, host.listDir tick remote = some entries → ∀ e ∈ entries,
    ⟨e.Name, e.IsDir⟩ ∈ conn.shown t remote

/-- The three walks over a remote directory go down, whatever fails and whoever cancels. -/
structure WalksTerminate (conn : Conn) (t : RemoteTree) (root : CStr) : Prop where
  doDownload : ∀ host : Host, host.ListsTree conn t → ∀ (local_ : CStr) (w : WorkerState),
    GoesDown (fun depth => doDownloadRecursive host depth ⟨root, local_, true⟩ w.fresh)
      WorkerState.Calls (conn.Deeper t)
  sftpDownload : ∀ (panel : Panel) (local_ : CStr) (w : FsState), w.tree conn = t →
    GoesDown (fun depth =>
      sftpDownloadRecursive panel conn depth ⟨root, local_, true⟩ w.fresh) FsState.Calls
      (conn.Deeper t)
  sftpDelete : ∀ (panel : Panel) (w : FsState), w.tree conn = t →
    GoesDown (fun depth => sftpDeleteRecursive panel conn depth ⟨root, true⟩ w.fresh) FsState.Calls
      (conn.Deeper t)

/-! ## Going down -/

/-- The levels of the tree below a path. -/
def Conn.levelsBelow (conn : Conn) (t : RemoteTree) (path : CStr) : ℕ :=
  match conn.denotes t path with
  | none => 0
  | some q => t.height + 1 - q.length

theorem Conn.Deeper.levelsBelow_lt {conn : Conn} {t : RemoteTree} {path path' : CStr}
    (h : conn.Deeper t path path') :
    conn.levelsBelow t path' < conn.levelsBelow t path := by
  obtain ⟨q, q', hq, hq', hlt⟩ := h
  obtain ⟨x, hx⟩ := Conn.denotes_exists hq'
  have hheight := FileTree.Tree.length_le_height hx
  unfold Conn.levelsBelow
  rw [hq, hq']
  dsimp only
  omega

theorem fileBranch_returns (host : Host) (b : Branch) (w : WorkerState) :
    (fileBranch host b w).1 ≠ none := by
  have htransfer : ∀ target resumeOffset w, (transferTo host b target resumeOffset w).1 ≠ none := by
    intro target resumeOffset w
    unfold transferTo
    dsimp only
    split_ifs <;> simp
  unfold fileBranch
  dsimp only
  split
  · apply htransfer
  · split
    · simp
    · simp
    · apply htransfer

/-- Branches call nothing. -/
theorem descend_mem_fileBranch {host : Host} {b : Branch} {w : WorkerState}
    (hw : w.cancelled = false)
    (hs : b.store = w.store b.side) {c c' : WalkCall}
    (h : Event.descend c c' ∈ (fileBranch host b w).2.log) :
    Event.descend c c' ∈ w.log := by
  have hanswers : Event.descend c c' ∉ b.answers host w := by
    intro hmem
    rcases Branch.eq_of_mem_answers hmem with heq | heq <;> exact absurd heq (by simp)
  by_cases hidle : b.aim host = none ∨ host.cancelBeforeTransfer b.tick = true
  · rw [fileBranch_log_idle hidle] at h
    simpa [hanswers] using h
  · rw [not_or] at hidle
    obtain ⟨⟨target, resumeOffset⟩, haim⟩ := Option.ne_none_iff_exists'.mp hidle.1
    rw [fileBranch_log_aim haim (by simpa using hidle.2) hw hs] at h
    simp only [List.mem_append, List.mem_cons, reduceCtorEq, hanswers,
      List.not_mem_nil, or_false] at h
    rcases h with h | h
    · exact h
    · split_ifs at h <;> simp at h

theorem doDownloadBody_returns {host : Host} {A : Prop}
    {rec : Proc WalkCall WorkerState} {c : WalkCall}
    (h : c.isDir = true → ∀ tick entries, host.listDir tick c.remote = some entries →
      ∀ e ∈ entries, ∀ w,
      A → (rec (childCall host c e.Name e.IsDir) w).1 ≠ none) (w : WorkerState) (hA : A) :
    (doDownloadBody host rec c w).1 ≠ none := by
  unfold doDownloadBody
  dsimp only
  split_ifs with hcan hd
  · simp
  · apply fileBranch_returns
  · rcases hl : host.listDir w.tick c.remote with _ | entries
    · simp
    · refine (forEach_returns (A := A) (I := fun _ => True)
        (fun e he s _ => ⟨trivial, fun hA => ?_⟩) _ trivial).2 hA
      split_ifs
      · simp
      · exact h (by simpa using hd) _ _ hl e he _ hA

section Down

variable {conn : Conn} {t : RemoteTree} {root : CStr} (h : conn.JoinsDeepen t root)

include h

theorem Conn.JoinsDeepen.doDownload {host : Host} (hlists : host.ListsTree conn t)
    (local_ : CStr) (w : WorkerState) :
    GoesDown
      (fun depth => doDownloadRecursive host depth ⟨root, local_, true⟩ w.fresh) WorkerState.Calls
      (conn.Deeper t) := by
  set P : WalkCall → Prop := fun c => c.isDir = true → conn.Reaches t root c.remote with hP
  have hchild : ∀ {c tick entries e}, P c → c.isDir = true →
      host.listDir tick c.remote = some entries → e ∈ entries →
      P (childCall host c e.Name e.IsDir) ∧
        conn.Deeper t c.remote (childCall host c e.Name e.IsDir).remote := by
    intro c tick entries e hc hd hl he
    have hshown := hlists tick c.remote entries hl e he
    refine ⟨fun hdir => ?_, ?_⟩
    · rw [childCall_isDir] at hdir
      rw [childCall_remote]
      exact (hc hd).tail ⟨⟨e.Name, e.IsDir⟩, hshown, hdir, rfl⟩
    · rw [childCall_remote]
      exact h c.remote (hc hd) ⟨e.Name, e.IsDir⟩ hshown
  have hroot : P ⟨root, local_, true⟩ := fun _ => ReflTransGen.refl
  refine ⟨⟨conn.levelsBelow t root + 1, ?_⟩, ?_⟩
  · have hreturns := recurse_returns (F := doDownloadBody host) (P := P) (I := fun _ => True)
      (fun c => conn.levelsBelow t c.remote) (fun A rec c w hc _ hrec => ⟨trivial, ?_⟩)
      (conn.levelsBelow t root + 1) ⟨root, local_, true⟩ w.fresh hroot trivial
    · exact hreturns.2 (Nat.lt_succ_self _)
    · refine doDownloadBody_returns (fun hd tick entries hl e he w => ?_) w
      obtain ⟨hc', hdeeper⟩ := hchild hc hd hl he
      exact (hrec _ w hc' hdeeper.levelsBelow_lt trivial).2
  · intro depth r r' hcalls
    have hinv : ∀ c c', Event.descend c c' ∈
        (doDownloadRecursive host depth ⟨root, local_, true⟩ w.fresh).2.log →
          conn.Deeper t c.remote c'.remote := by
      refine doDownloadRecursive_rule (P := P)
        (I := fun w => ∀ c c', Event.descend c c' ∈ w.log → conn.Deeper t c.remote c'.remote)
        (fun hw => hw) ?_ ?_ ?_ depth hroot (by simp [WorkerState.fresh])
      · intro c w tick _ _ hw hcan c₁ c₂ hmem
        exact hw c₁ c₂ (descend_mem_fileBranch hcan rfl hmem)
      · intro c w tick _ _ hw c₁ c₂ hmem
        rw [createDirectory_log] at hmem
        exact hw c₁ c₂ (by simpa using hmem)
      · intro c w tick entries e hc hd hl he hw
        obtain ⟨hc', hdeeper⟩ := hchild hc hd hl he
        refine ⟨hc', fun c₁ c₂ hmem => ?_⟩
        rcases List.mem_append.mp hmem with hmem | hmem
        · exact hw c₁ c₂ hmem
        · obtain ⟨rfl, rfl⟩ := Event.descend.inj (List.mem_singleton.mp hmem)
          exact hdeeper
    obtain ⟨c, c', hmem, rfl, rfl⟩ := hcalls
    exact hinv c c' hmem

/-- What holds of the panel's walks: the tree only shrinks, and all calls so far go deeper. -/
structure FsState.WentDown (conn : Conn) (t : RemoteTree) (w : FsState) : Prop where
  part : Part (w.tree conn) t
  calls : ∀ r r', w.Calls r r' → conn.Deeper t r r'

omit h in
theorem FsState.WentDown.aside {w w' : FsState} (hw : w.WentDown conn t) (haside : w.Aside w') :
    w'.WentDown conn t :=
  ⟨by rw [haside.tree]; exact hw.part,
    fun r r' hcalls => hw.calls r r' (by rwa [FsState.Calls, haside.log] at hcalls)⟩

omit h in
theorem FsState.WentDown.removal {w w' : FsState} (hw : w.WentDown conn t)
    {path : CStr} {event : FsEvent}
    (hr : Removal conn path event w w') (hevent : ∀ r r', event ≠ .descend r r') :
    w'.WentDown conn t := by
  refine ⟨hr.part.trans hw.part, fun r r' hcalls => hw.calls r r' ?_⟩
  rw [FsState.Calls, hr.log] at hcalls
  rcases List.mem_append.mp hcalls with hmem | hmem
  · exact hmem
  · exact absurd (List.mem_singleton.mp hmem).symm (hevent r r')

omit h in
theorem FsState.WentDown.record {w : FsState} (hw : w.WentDown conn t) {r r' : CStr}
    (hd : conn.Deeper t r r') :
    (w.record (.descend r r')).WentDown conn t := by
  refine ⟨hw.part, fun r₁ r₂ hcalls => ?_⟩
  rw [FsState.Calls, FsState.record_log] at hcalls
  rcases List.mem_append.mp hcalls with hmem | hmem
  · exact hw.calls r₁ r₂ hmem
  · obtain ⟨rfl, rfl⟩ := FsEvent.descend.inj (List.mem_singleton.mp hmem)
    exact hd

omit h in
theorem FsState.wentDown_fresh {w : FsState} (hw : w.tree conn = t) : w.fresh.WentDown conn t := by
  refine ⟨?_, fun r r' hcalls => ?_⟩
  · rw [← hw]
    exact .refl _
  · exact absurd hcalls List.not_mem_nil

theorem Conn.JoinsDeepen.sftpDownload (panel : Panel) (local_ : CStr)
    {w : FsState} (hw : w.tree conn = t) :
    GoesDown (fun depth =>
      sftpDownloadRecursive panel conn depth ⟨root, local_, true⟩ w.fresh) FsState.Calls
      (conn.Deeper t) := by
  have hrun := recurse_returns (F := sftpDownloadBody panel conn) (I := FsState.WentDown conn t)
    (P := fun c => c.isDir = true → conn.Reaches t root c.remote)
    (fun c => conn.levelsBelow t c.remote) ?_
  · have hroot : (⟨root, local_, true⟩ : WalkCall).isDir = true → conn.Reaches t root root :=
      fun _ => ReflTransGen.refl
    exact ⟨⟨_, (hrun _ _ _ hroot (FsState.wentDown_fresh hw)).2 (Nat.lt_succ_self _)⟩,
      fun depth => (hrun depth _ _ hroot (FsState.wentDown_fresh hw)).1.calls⟩
  intro A rec c w hc hw hrec
  have hstart := hw.aside (aside_sftpIsCancelled panel w)
  unfold sftpDownloadBody
  dsimp only
  split_ifs with hcan hd hcan'
  · exact ⟨hstart, fun _ => by simp⟩
  · exact ⟨hstart.aside (aside_sftpDownloadFile ..), fun _ => by apply sftpDownloadFile_returns⟩
  · exact ⟨hstart.aside (aside_sftpIsCancelled panel _), fun _ => by simp⟩
  · have hmade := (hstart.aside (aside_sftpIsCancelled panel _)).aside
        (aside_fsCreateDirectory panel c.local_ _)
    generalize fsCreateDirectory panel c.local_ _ = v at hmade
    have hlisted := hmade.aside (aside_listDir panel conn c.remote v)
    rcases hl : listDir panel conn c.remote v with ⟨_ | entries, v'⟩ <;> rw [hl] at hlisted
    · exact ⟨hlisted, fun _ => by simp⟩
    · refine forEach_returns (fun e he s hs => ?_) v' hlisted
      have hturn := hs.aside (aside_sftpIsCancelled panel s)
      split_ifs
      · exact ⟨hturn, fun _ => by simp⟩
      · have hentries : (listDir panel conn c.remote v).1 = some entries := by rw [hl]
        have hshown : e ∈ conn.shown t c.remote :=
          hmade.part.shown (mem_shown_of_listDir hentries he)
        have hreach := hc (by simpa using hd)
        have hdeeper := h c.remote hreach e hshown
        exact hrec (downloadChild panel c e) _
          (fun hdir => hreach.tail ⟨e, hshown, hdir, rfl⟩) hdeeper.levelsBelow_lt
          (hturn.record hdeeper)

theorem Conn.JoinsDeepen.sftpDelete (panel : Panel) {w : FsState} (hw : w.tree conn = t) :
    GoesDown (fun depth => sftpDeleteRecursive panel conn depth ⟨root, true⟩ w.fresh) FsState.Calls
      (conn.Deeper t) := by
  have hrun := recurse_returns (F := sftpDeleteBody panel conn) (I := FsState.WentDown conn t)
    (P := fun c => c.isDir = true → conn.Reaches t root c.remote)
    (fun c => conn.levelsBelow t c.remote) ?_
  · have hroot : (⟨root, true⟩ : RemoteItem).isDir = true → conn.Reaches t root root :=
      fun _ => ReflTransGen.refl
    exact ⟨⟨_, (hrun _ _ _ hroot (FsState.wentDown_fresh hw)).2 (Nat.lt_succ_self _)⟩,
      fun depth => (hrun depth _ _ hroot (FsState.wentDown_fresh hw)).1.calls⟩
  intro A rec c w hc hw hrec
  have hremove : ∀ {v : FsState}, v.WentDown conn t →
      (removeDir panel conn c.remote v).2.WentDown conn t ∧
      (A → (removeDir panel conn c.remote v).1 ≠ none) := fun hv =>
    ⟨hv.removal (removeDir_removal panel conn c.remote _) (by simp),
      fun _ => by apply removeDir_returns⟩
  unfold sftpDeleteBody
  split_ifs with hd
  · exact ⟨hw.removal (removeFile_removal panel conn c.remote w) (by simp),
      fun _ => by apply removeFile_returns⟩
  · have hlisted := hw.aside (aside_listDir panel conn c.remote w)
    rcases hl : listDir panel conn c.remote w with ⟨_ | entries, v⟩ <;> rw [hl] at hlisted
    · exact hremove hlisted
    · dsimp only
      have hloop := @forEach_returns _ _ A (FsState.WentDown conn t)
        (fun e w => rec ⟨sftpJoin c.remote e.Name MAX_PATH, e.IsDir⟩
          (w.record (.descend c.remote (sftpJoin c.remote e.Name MAX_PATH))).next) entries
            (fun e he s hs => ?_) v hlisted
      · split
        · next hres =>
          rw [hres] at hloop
          exact hremove hloop.1
        · exact hloop
      have hentries : (listDir panel conn c.remote w).1 = some entries := by rw [hl]
      have hshown : e ∈ conn.shown t c.remote := hw.part.shown (mem_shown_of_listDir hentries he)
      have hreach := hc (by simpa using hd)
      have hdeeper := h c.remote hreach e hshown
      exact hrec ⟨_, e.IsDir⟩ _
        (fun hdir => hreach.tail ⟨e, hshown, hdir, rfl⟩) hdeeper.levelsBelow_lt
        ((hs.record hdeeper).aside (FsState.aside_next _))

end Down

/-! ## Where a walk that goes down can get -/

/-- The entries of the tree as a server lists them. -/
def Conn.listings (conn : Conn) (t : RemoteTree) : Listings := fun remote =>
  (conn.shown t remote).map fun e => ⟨e.Name, e.IsDir, false, 0, 0, 0, [], []⟩

/-- Local paths are appended as they are. -/
def Appends (path name l : CStr) : Prop := l = Host.plain.pathAppend path name

/-- Nothing ever happens on the local disk. -/
def Host.readOnly : Host := { Host.plain with createDirectory := fun _ => false }

theorem Host.readOnly_quiet : Host.readOnly.Quiet Appends where
  cancelAtStart _ := rfl
  cancelInLoop _ := rfl
  createDirectory _ := rfl
  appends h := h.symm

theorem Conn.Reaches.descends {conn : Conn} {t : RemoteTree} {root r : CStr}
    (h : conn.Reaches t root r)
    (local_ : CStr) :
    ∃ l, ReflTransGen (Descends (conn.listings t) Appends) ⟨root, local_, true⟩ ⟨r, l, true⟩ := by
  induction h with
  | refl => exact ⟨local_, ReflTransGen.refl⟩
  | tail _ hstep ih =>
    obtain ⟨l, hl⟩ := ih
    obtain ⟨e, he, hdir, rfl⟩ := hstep
    refine ⟨Host.plain.pathAppend (lstrcpyn l MAX_PATH) e.Name,
      hl.tail ⟨_, List.mem_map_of_mem he, rfl, _, rfl, ?_⟩⟩
    rw [hdir]

theorem WalksTerminate.joinsDeepen {conn : Conn} {t : RemoteTree} {root : CStr}
    (h : WalksTerminate conn t root) :
    conn.JoinsDeepen t root := by
  intro r hr e he
  obtain ⟨l, hl⟩ := Conn.Reaches.descends hr []
  obtain ⟨f, k, hlists, w', -, -, hmade, hall⟩ :=
    exists_download_to hl rfl (List.mem_map_of_mem he) rfl
    Host.readOnly_quiet (w := .start (fun _ => none) fun _ => none) rfl rfl
  have htree : (Host.readOnly.withListings f).ListsTree conn t := by
    intro tick remote entries hentries e he
    obtain ⟨e', he', rfl⟩ := List.mem_map.mp (hlists tick remote entries hentries e he)
    exact he'
  exact (h.doDownload _ htree [] (.start (fun _ => none) fun _ => none)).descends (0 + 1 + k) r
    (sftpJoin r e.Name MAX_PATH) ⟨_, _, (hall 0).subset hmade, rfl, rfl⟩

theorem walksTerminate_iff (conn : Conn) (t : RemoteTree) (root : CStr) :
    WalksTerminate conn t root ↔ conn.JoinsDeepen t root :=
  ⟨WalksTerminate.joinsDeepen, fun h =>
    ⟨fun _ hlists local_ w => h.doDownload hlists local_ w,
      fun panel local_ _ hw => h.sftpDownload panel local_ hw,
      fun panel _ hw => h.sftpDelete panel hw⟩⟩

end SalamanderSftp
