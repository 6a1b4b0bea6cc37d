import SalamanderSftp.Fs.FileBranch
import SalamanderSftp.Fs.Deletion
import SalamanderSftp.Lib.MakeDirs

/-!
# Moving between servers

Without `copy` the loop of `CopyOrMoveFromFS` deletes an item on its server once
`SftpDownloadRecursive` and `SftpUploadRecursive` have returned true for it. They also do for a file
that was skipped or that came short, and the delete does not ask where `dst` lies.

1. A file of the item is safe if the last download to its place in the temporary directory fetched
   it, the last upload to its place under `dst` sent it from there (`TurnStep.Carries`), and no path
   of the delete leads to where it then lies (`TurnStep.Careful`).
2. It stays so if no later upload and no later delete comes there (`TurnStep.Respects`).
3. In a run of such turns a move loses nothing (`move_keeps_files`); a file that is moved into its
   own directory is lost (`not_move_keeps_files`).
-/

namespace SalamanderSftp

open Procedure FileTree

/-! ## One item -/

/-- A regular file of the item at `src`: its names below, and its content. -/
def Conn.HasFile (conn : Conn) (t : RemoteTree) (src : CStr) (names : List CStr)
    (content : Bytes) : Prop :=
  ∃ r, conn.denotes t src = some r ∧ t.lookup (r ++ names) = some (.file content)

/-- The path of these names below `dst` leads to a file with this content. -/
def Conn.Leads (conn : Conn) (t : RemoteTree) (dst : CStr) (names : List CStr)
    (content : Bytes) : Prop :=
  ∃ q, conn.place t dst names = some q ∧ t.lookup q = some (.file content)

/-- The paths that a delete of the item can build. -/
def Conn.Builds (conn : Conn) (t : RemoteTree) (c : RemoteItem) (path : CStr) : Prop :=
  path = c.remote ∨ c.isDir = true ∧ ∃ r, conn.Reaches t c.remote r ∧
    ∃ e ∈ conn.shown t r, path = sftpJoin r e.Name MAX_PATH

/-- No path of the delete leads into this part of the tree. -/
structure Conn.OutOfReach (conn : Conn) (t : RemoteTree) (c : RemoteItem) (t₀ : RemoteTree) :
    Prop where
  part : Part t₀ t
  apart : ∀ path, conn.Builds t c path → ∀ q, conn.denotes t path = some q → q ≠ [] →
    t₀.lookup q = none

/-- The name that a source file gets on the target server. -/
def ServerCopy.named (op : ServerCopy) (name : CStr) : CStr :=
  op.targetConn.toServer (op.conn.display name)

/-- `SftpDeleteRecursive` is called for this. -/
def ServerCopy.deleteItem (op : ServerCopy) (item : RemoteEntry) : RemoteItem :=
  ⟨sftpJoin op.Path item.Name MAX_PATH, item.IsDir⟩

/-- A turn of the loop, with the state in which it starts. -/
abbrev TurnStep := (Turn × RemoteEntry) × CopyState

section Turn

variable (drive : LocalDrive) (op : ServerCopy) (depth : ℕ)

def copyTurns (turns : List (Turn × RemoteEntry)) (w : CopyState) : List TurnStep :=
  forEachVisits (copyTurn drive op depth) (fun t w => [(t, w)]) turns w

namespace TurnStep

variable (a : TurnStep)

def item : RemoteEntry := a.1.2

def dst : CStr := (op.uploadCall drive a.item).remote

/-- The operation is cancelled before the turn. -/
def stopped : Bool := (sftpIsCancelled a.1.1.start.toPanel a.2.fs.restart).1

/-- The state in which the turn starts to download. -/
def start : FsState := (sftpIsCancelled a.1.1.start.toPanel a.2.fs.restart).2

def downloads : List FileStep :=
  let panel := a.1.1.download.toPanel
  if a.stopped then []
  else
    recurseVisits (sftpDownloadBody panel op.conn) (downloadVisits op panel) depth
      (op.downloadCall drive a.item) a.start.restart

def uploads : List FileStep :=
  if a.stopped then []
  else
    match sftpDownloadRecursive a.1.1.download.toPanel op.conn depth
      (op.downloadCall drive a.item) a.start.restart with
    | (some true, fs) =>
      recurseVisits (sftpUploadBody drive a.1.1.upload op.targetConn)
        (uploadVisits drive op a.1.1.upload) depth (op.uploadCall drive a.item)
        { a.2 with fs := fs.restart }
    | _ => []

/-- The state in which the turn calls `SftpDeleteRecursive`. -/
def deletes : Option CopyState :=
  if a.stopped || op.copy then none
  else
    match copyStep drive op depth a.1.1 a.item { a.2 with fs := a.start } with
    | (some true, w) =>
      match localDeleteRecursive drive a.1.1.cleanup depth
          ⟨drive.tmpItem a.item.Name, a.item.IsDir⟩ w.fs.restart with
      | (some _, fs) => some { w with fs := fs.restart }
      | _ => none
    | _ => none

def after : CopyState := (copyTurn drive op depth a.1 a.2).2

/-- A regular file of an item that the turn deletes, with its content when the turn starts. -/
def Moves (names : List CStr) (content : Bytes) : Prop :=
  (a.deletes drive op depth).isSome ∧
    op.conn.HasFile (a.2.fs.tree op.conn) (op.deleteItem a.item).remote names content

/-- In this tree every file that the turn moves is under its `dst`, with its content. -/
def Kept (tree : RemoteTree) : Prop :=
  ∀ names content, a.Moves drive op depth names content →
    op.targetConn.Leads tree (a.dst drive op) (names.map op.named) content

/-- A file of the item is fetched and sent on: `d` is the last download to its place in the
temporary directory, and `u` the last upload to its place under `dst`. -/
structure Carries (names : List CStr) (content : Bytes) (d u : FileStep) (q : List CStr) :
    Prop where
  last : LastIn (a.downloads drive op depth)
    (fun s => drive.key s.call.local_ = drive.key d.call.local_) d
  fetches : d.Fetches drive op content
  sent : LastIn (a.uploads drive op depth) (FileStep.GoesTo drive op · q) u
  staged : drive.key u.call.local_ = drive.key d.call.local_
  sends : u.Sends drive op content
  target : op.targetConn.target ((u.run drive op).2.tree op.targetConn) u.call.remote = some q
  place : op.targetConn.place ((u.run drive op).2.tree op.targetConn) (a.dst drive op)
    (names.map op.named) = some q

/-- The delete does not come to this part of the tree. -/
def Spares (t₀ : RemoteTree) : Prop :=
  ∀ v, a.deletes drive op depth = some v → op.conn.server = op.targetConn.server →
    op.conn.OutOfReach (v.fs.tree op.conn) (op.deleteItem a.item) t₀

/-- Every file that the turn moves is carried to its place under `dst`, and the delete does not come
there. -/
def Careful : Prop :=
  ∀ names content, a.Moves drive op depth names content →
    (∃ d u q, a.Carries drive op depth names content d u q) ∧
      ∀ v, a.deletes drive op depth = some v →
        ∃ t₀, Part t₀ (v.fs.tree op.targetConn) ∧
          (op.targetConn.place t₀ (a.dst drive op) (names.map op.named)).isSome ∧
          a.Spares drive op depth t₀

/-- Neither an upload of the later turn `b` nor its delete comes to a file that `a` has moved. -/
def Respects (b : TurnStep) : Prop :=
  ∀ names content, a.Moves drive op depth names content →
    ∃ t₀, Part t₀ (b.2.fs.tree op.targetConn) ∧
      (op.targetConn.place t₀ (a.dst drive op) (names.map op.named)).isSome ∧
      (∀ s ∈ b.uploads drive op depth, s.Avoids drive op t₀) ∧ b.Spares drive op depth t₀

end TurnStep

/-- A move loses nothing: when a turn has deleted its item every regular file of it is under `dst`,
and it still is after every later turn. -/
structure MoveSafe (turns : List (Turn × RemoteEntry)) (w : CopyState) : Prop where
  own : ∀ a ∈ copyTurns drive op depth turns w,
    a.Kept drive op depth ((a.after drive op depth).fs.tree op.targetConn)
  later : (copyTurns drive op depth turns w).Pairwise fun a b =>
    a.Kept drive op depth ((b.after drive op depth).fs.tree op.targetConn)

end Turn

/-! ## From file to file -/

/-- The objects of the disk. -/
def Disk.facts (key : CStr → CStr) (disk : Disk) : Set (CStr × FsNode) :=
  {f | disk.node key f.1 = some f.2}

/-- A server's tree can get more. -/
instance : Preorder RemoteTree where
  le := Part
  le_refl := Part.refl
  le_trans _ _ _ := Part.trans

section Walks

variable {drive : LocalDrive}

theorem facts_fsCreateDirectory {panel : Panel} (path : CStr) (w : FsState) :
    w.disk.facts panel.diskKey ≤ (fsCreateDirectory panel path w).disk.facts panel.diskKey := by
  intro f hf
  unfold fsCreateDirectory
  split_ifs with hcan
  · refine (Disk.node_put_of_ne _ _ fun hkey => ?_).trans hf
    rw [Bool.and_eq_true, Option.isNone_iff_eq_none] at hcan
    exact absurd ((Disk.node_congr _ hkey).symm.trans hf) (by rw [hcan.2]; simp)
  · exact hf

/-- Between two files a download leaves what is on the disk. -/
theorem chained_fetch (op : ServerCopy) (depth : ℕ) (c : WalkCall) {panel : Panel}
    (hkey : panel.diskKey = drive.key) {w : FsState}
    (h : (sftpDownloadRecursive panel op.conn depth c w).1 = some true) :
    Chained (fun s => (s.run drive op).1 = some true ∧ ∃ c w, s = .download panel c w)
      (fun s => s.state.disk.facts drive.key) (fun s => (s.run drive op).2.disk.facts drive.key)
      (w.disk.facts drive.key)
      (recurseVisits (sftpDownloadBody panel op.conn) (downloadVisits op panel) depth c w)
      ((sftpDownloadRecursive panel op.conn depth c w).2.disk.facts drive.key) := by
  refine chained_download op (G := (· = some true)) rfl (fun w => w.disk.facts drive.key)
    (fun w => ?_) (fun w e => le_refl _) (fun path w => ?_) (fun path w => le_refl _)
    (fun c w hrun => ?_) depth c w h
  · rw [disk_sftpIsCancelled]
  · rw [← hkey]
    exact facts_fsCreateDirectory path w
  · exact ⟨le_refl _, ⟨hrun, c, w, rfl⟩, le_refl _⟩

/-- Between two files an upload leaves the disk, and what is on the server. -/
theorem chained_send (drive : LocalDrive) (op : ServerCopy) (depth : ℕ) (c : WalkCall)
    {st : Staging} {G : Option Bool → Prop} (hG : G (some true))
    (hmade : ∀ tick tree, Part tree (st.serverMade tick tree)) {w : CopyState}
    (h : G (sftpUploadRecursive drive st op.targetConn depth c w).1) :
    Chained (fun s => G (s.run drive op).1 ∧ ∃ c w, s = .upload st c w)
      (fun s => (s.state.disk.facts drive.key, s.state.tree op.targetConn))
      (fun s => ((s.run drive op).2.disk.facts drive.key, (s.run drive op).2.tree op.targetConn))
      (w.fs.disk.facts drive.key, w.fs.tree op.targetConn)
      (recurseVisits (sftpUploadBody drive st op.targetConn) (uploadVisits drive op st) depth c w)
      ((sftpUploadRecursive drive st op.targetConn depth c w).2.fs.disk.facts drive.key,
        (sftpUploadRecursive drive st op.targetConn depth c w).2.fs.tree op.targetConn) := by
  refine chained_upload drive op hG
    (fun w : CopyState => (w.fs.disk.facts drive.key, w.fs.tree op.targetConn))
    (fun w => ?_) (fun w => ?_) (fun path w => le_refl _) (fun c w hrun => ?_) depth c w h
  · rw [disk_sftpIsCancelled, (aside_sftpIsCancelled st.toPanel w.fs).tree]
  · refine ⟨le_refl _, ?_⟩
    unfold fsMakeDir
    dsimp only
    rw [FsState.setTree_tree]
    exact hmade _ _
  · exact ⟨le_refl _, ⟨hrun, c, w, rfl⟩, le_refl _⟩

end Walks

/-! ## The delete -/

section Delete

variable {conn : Conn} {t t₀ : RemoteTree} {c : RemoteItem} {panel : Panel}

/-- The delete is on its way: nothing is new on the server, and `t₀` is still there. -/
structure FsState.Spares (conn : Conn) (t t₀ : RemoteTree) (w : FsState) : Prop where
  part : Part (w.tree conn) t
  kept : Part t₀ (w.tree conn)

theorem Conn.OutOfReach.removal (h : conn.OutOfReach t c t₀) {path : CStr} {event : FsEvent}
    {w w' : FsState} (hpath : conn.Builds t c path) (hr : Removal conn path event w w')
    (hw : w.Spares conn t t₀) : w'.Spares conn t t₀ := by
  refine ⟨hr.part.trans hw.part, ?_⟩
  rcases hr.tree with heq | ⟨q, hq, hne, heq⟩
  · rw [heq]
    exact hw.kept
  · have hnone : t₀.lookup q = none := h.apart path hpath q (hw.part.denotes hq) hne
    intro p x hx
    rw [heq, Tree.lookup_remove hne, if_neg fun hpre => ?_]
    · exact hw.kept p x hx
    · have hsome := Tree.isSome_lookup_of_prefix hpre (Option.isSome_of_eq_some hx)
      rw [hnone] at hsome
      cases hsome

/-- What is out of its reach the delete leaves alone. -/
theorem Conn.OutOfReach.kept (h : conn.OutOfReach t c t₀) (panel : Panel) (depth : ℕ)
    {w : FsState} (hw : w.tree conn = t) :
    Part t₀ ((sftpDeleteRecursive panel conn depth c w).2.tree conn) := by
  suffices hinv : (sftpDeleteRecursive panel conn depth c w).2.Spares conn t t₀ from hinv.kept
  have hstart : w.Spares conn t t₀ := by
    refine ⟨?_, ?_⟩ <;> rw [hw]
    · exact .refl t
    · exact h.part
  refine recurse_invariant (I := FsState.Spares conn t t₀)
    (P := fun c' : RemoteItem => conn.Builds t c c'.remote ∧
      (c'.isDir = true → c.isDir = true ∧ conn.Reaches t c.remote c'.remote))
    (fun rec hrec c' w hc hw => ?_) depth ⟨.inl rfl, fun hd => ⟨hd, .refl⟩⟩ hstart
  by_cases hd : c'.isDir = true
  · obtain ⟨hroot, hreach⟩ := hc.2 hd
    obtain ⟨v, hv, hend | ⟨-, hend⟩⟩ : ∃ v : FsState, v.Spares conn t t₀ ∧
        (sftpDeleteBody panel conn rec c' w = removeDir panel conn c'.remote v ∨
        (sftpDeleteBody panel conn rec c' w).1 ≠ some true ∧
          (sftpDeleteBody panel conn rec c' w).2 = v) := by
      refine sftpDeleteBody_dir hd ⟨hw.part, hw.kept⟩ fun entries hl e he s hs => ?_
      have hshown : e ∈ conn.shown t c'.remote := hw.part.shown (mem_shown_of_listDir hl he)
      refine hrec _ _ ⟨.inr ⟨hroot, c'.remote, hreach, e, hshown, rfl⟩, fun hed => ⟨hroot, ?_⟩⟩
        ⟨hs.part, hs.kept⟩
      exact hreach.tail ⟨e, hshown, hed, rfl⟩
    · rw [hend]
      exact h.removal hc.1 (removeDir_removal panel conn c'.remote v) hv
    · rw [hend]
      exact hv
  · unfold sftpDeleteBody
    rw [if_pos (by simpa using hd)]
    exact h.removal hc.1 (removeFile_removal panel conn c'.remote w) hw

theorem tree_sftpDelete_of_ne {conn' : Conn} (hne : conn.server ≠ conn'.server) (depth : ℕ)
    (w : FsState) : (sftpDeleteRecursive panel conn depth c w).2.tree conn' = w.tree conn' :=
  sftpDelete_rule (I := fun v => v.tree conn' = w.tree conn')
    (fun _ _ _ hservers hv => (congrFun hservers conn'.server).trans hv)
    (fun _ _ hv _ => (Function.update_of_ne hne.symm _ _).trans hv) depth rfl

end Delete

/-! ## One turn -/

section Turn

variable {drive : LocalDrive} {op : ServerCopy} {depth : ℕ} {a b : TurnStep} {v : CopyState}

theorem servers_localDelete (drive : LocalDrive) (st : Staging) (depth : ℕ) (c : LocalItem)
    (fs : FsState) :
    (localDeleteRecursive drive st depth c fs).2.servers = fs.servers := by
  refine localDelete_rule (I := fun v => v.servers = fs.servers) (P := fun _ => True)
    (fun _ hv => hv) (fun c v _ _ hv => ?_) (fun c v _ _ hv => ?_)
    (fun _ _ _ _ _ _ _ => trivial) depth trivial rfl
  · unfold deleteFile
    split_ifs <;> exact hv
  · unfold removeDirectory
    split_ifs <;> exact hv

/-- A step succeeds if both walks return true. -/
theorem copyStep_eq_true {turn : Turn} {item : RemoteEntry} {w w' : CopyState} :
    copyStep drive op depth turn item w = (some true, w') ↔
      ∃ fs, sftpDownloadRecursive turn.download.toPanel op.conn depth (op.downloadCall drive item)
          w.fs.restart = (some true, fs) ∧
        sftpUploadRecursive drive turn.upload op.targetConn depth (op.uploadCall drive item)
          { w with fs := fs.restart } = (some true, w') := by
  unfold copyStep
  rcases sftpDownloadRecursive turn.download.toPanel op.conn depth (op.downloadCall drive item)
    w.fs.restart with ⟨_ | _ | _, fs⟩ <;> simp

namespace TurnStep

/-- A turn calls the delete when both walks have returned true. -/
theorem deletes_eq (h : a.deletes drive op depth = some v) :
    ∃ fs w, a.stopped = false ∧ sftpDownloadRecursive a.1.1.download.toPanel op.conn depth
        (op.downloadCall drive a.item) a.start.restart = (some true, fs) ∧
      sftpUploadRecursive drive a.1.1.upload op.targetConn depth (op.uploadCall drive a.item)
        { a.2 with fs := fs.restart } = (some true, w) ∧
      v.fs.servers = w.fs.servers ∧
      (a.after drive op depth).fs =
        (sftpDeleteRecursive a.1.1.finish.toPanel op.conn depth (op.deleteItem a.item) v.fs).2 := by
  unfold deletes start at h
  split_ifs at h with hstart
  rw [Bool.or_eq_true, not_or] at hstart
  have hgoes : ¬ (sftpIsCancelled a.1.1.start.toPanel a.2.fs.restart).1 = true := hstart.1
  generalize hfs₀ : (sftpIsCancelled a.1.1.start.toPanel a.2.fs.restart).2 = fs₀ at h
  rcases hstep : copyStep drive op depth a.1.1 a.item { a.2 with fs := fs₀ } with
    ⟨_ | _ | _, w⟩ <;> rw [hstep] at h
  · cases h
  · cases h
  · dsimp only at h
    rcases hclean : localDeleteRecursive drive a.1.1.cleanup depth
      ⟨drive.tmpItem a.item.Name, a.item.IsDir⟩ w.fs.restart with ⟨_ | cleaned, fs'⟩ <;>
      rw [hclean] at h
    · cases h
    · obtain rfl := Option.some.inj h
      have hturn : (a.after drive op depth).fs = (sftpDeleteRecursive a.1.1.finish.toPanel
          op.conn depth (op.deleteItem a.item) fs'.restart).2 := by
        unfold after copyTurn
        unfold item at hstep hclean
        dsimp only
        rw [if_neg hgoes, hfs₀, hstep]
        dsimp only
        rw [hclean]
        dsimp only [endTurn]
        rw [if_neg (by simp), if_neg hstart.2]
        rfl
      have hservers := servers_localDelete drive a.1.1.cleanup depth
        ⟨drive.tmpItem a.item.Name, a.item.IsDir⟩ w.fs.restart
      rw [hclean] at hservers
      obtain ⟨fs, hdown, hup⟩ := copyStep_eq_true.mp hstep
      refine ⟨fs, w, by simpa using hstart.1, ?_, hup, hservers, hturn⟩
      rw [start, hfs₀]
      exact hdown

theorem servers_of_stopped (h : a.stopped = true) :
    (a.after drive op depth).fs.servers = a.2.fs.servers := by
  unfold stopped at h
  unfold after copyTurn
  dsimp only
  rw [if_pos h]
  exact (aside_sftpIsCancelled _ _).servers

theorem servers_after (hgoes : a.stopped = false) (h : a.deletes drive op depth = none) :
    (a.after drive op depth).fs.servers =
      (copyStep drive op depth a.1.1 a.item { a.2 with fs := a.start }).2.fs.servers := by
  unfold deletes at h
  unfold after copyTurn
  unfold stopped start item at *
  dsimp only
  rw [if_neg (by simp [hgoes])]
  rcases hstep : copyStep drive op depth a.1.1 a.1.2
    { a.2 with fs := (sftpIsCancelled a.1.1.start.toPanel a.2.fs.restart).2 } with ⟨_ | step, w⟩
  · rfl
  · have hservers := servers_localDelete drive a.1.1.cleanup depth
      ⟨drive.tmpItem a.1.2.Name, a.1.2.IsDir⟩ w.fs.restart
    dsimp only
    rcases hclean : localDeleteRecursive drive a.1.1.cleanup depth
      ⟨drive.tmpItem a.1.2.Name, a.1.2.IsDir⟩ w.fs.restart with ⟨_ | cleaned, fs⟩ <;>
      rw [hclean] at hservers
    · exact hservers
    · rw [hstep] at h
      dsimp only [endTurn]
      split_ifs with hfails hcopy
      · exact (aside_sftpIsCancelled _ _).servers.trans hservers
      · exact hservers
      · obtain rfl : step = true := by simpa using hfails
        simp [hgoes, hcopy, hclean] at h

/-- The walks leave a part of the target's tree that every upload avoids. -/
theorem part_copyStep {t₀ : RemoteTree} (hgoes : a.stopped = false)
    (hmade : ∀ tick tree, Part tree (a.1.1.upload.serverMade tick tree))
    (hstores : ∀ s ∈ a.uploads drive op depth, s.ServerStores drive op)
    (havoids : ∀ s ∈ a.uploads drive op depth, s.Avoids drive op t₀)
    (hpart : Part t₀ (a.2.fs.tree op.targetConn)) :
    Part t₀ ((copyStep drive op depth a.1.1 a.item { a.2 with fs := a.start }).2.fs.tree
      op.targetConn) := by
  have hdown : (sftpDownloadRecursive a.1.1.download.toPanel op.conn depth
      (op.downloadCall drive a.item) a.start.restart).2.servers = a.2.fs.servers :=
    sftpDownload_rule (P := fun _ => True) (I := fun v => v.servers = a.2.fs.servers)
      (fun _ _ _ hservers hv => hservers.trans hv)
      (fun _ _ hv => (aside_fsCreateDirectory ..).servers.trans hv)
      (fun _ _ _ _ _ _ haside hv => haside.servers.trans hv)
      (fun _ _ _ _ _ _ _ => trivial) depth trivial (aside_sftpIsCancelled _ _).servers
  have hkept : ∀ fs : FsState, fs.servers = a.2.fs.servers → Part t₀ (fs.tree op.targetConn) := by
    intro fs hservers
    rwa [FsState.tree, hservers]
  unfold uploads at hstores havoids
  rw [if_neg (by simp [hgoes])] at hstores havoids
  unfold copyStep
  dsimp only
  rcases hd : sftpDownloadRecursive a.1.1.download.toPanel op.conn depth
    (op.downloadCall drive a.item) a.start.restart with ⟨_ | _ | _, fs⟩ <;>
    rw [hd] at hdown hstores havoids
  · exact hkept fs hdown
  · exact hkept fs hdown
  · have hchain := chained_send drive op depth (op.uploadCall drive a.item) (G := fun _ => True)
      trivial hmade
      (w := { a.2 with fs := fs.restart }) trivial
    refine (hchain.holds (P := fun b => Part t₀ b.2)
      (fun _ _ hle hb => hb.trans (Prod.le_def.mp hle).2) (fun s hs hok hb => ?_) ?_).2
    · have hstores := hstores s hs
      have havoids := havoids s hs
      obtain ⟨-, c, w, rfl⟩ := hok
      exact FileStep.part_upload hstores havoids hb
    · exact hkept fs hdown

theorem Carries.fetched {names : List CStr} {content : Bytes} {d u : FileStep} {q : List CStr}
    {fs : FsState} (h : a.Carries drive op depth names content d u q) (hgoes : a.stopped = false)
    (hkey : a.1.1.download.diskKey = drive.key)
    (hdown : sftpDownloadRecursive a.1.1.download.toPanel op.conn depth
      (op.downloadCall drive a.item) a.start.restart = (some true, fs)) :
    fs.disk.node drive.key d.call.local_ = some (.file content) := by
  have hchain := chained_fetch op depth (op.downloadCall drive a.item) hkey
    (w := a.start.restart) (by rw [hdown])
  rw [hdown] at hchain
  have hlast := h.last
  unfold downloads at hlast
  rw [if_neg (by simp [hgoes])] at hlast
  refine hchain.holds_last (P := fun b => (d.call.local_, .file content) ∈ b)
    (fun _ _ hle hb => Set.mem_of_mem_of_subset hb hle) hlast ?_ ?_
  · rintro ⟨hrun, c, w, rfl⟩
    have hnode := FileStep.node_download hrun h.fetches
    rwa [hkey] at hnode
  · rintro y - ⟨hrun, c, w, rfl⟩ hne hb
    have hother : a.1.1.download.diskKey d.call.local_ ≠ a.1.1.download.diskKey c.local_ := by
      rw [hkey]
      exact Ne.symm hne
    have hnode := FileStep.node_download_of_ne drive op (w := w) hother
    rw [hkey] at hnode
    exact hnode.trans hb

/-- After the upload it lies under `dst`. -/
theorem Carries.arrived {names : List CStr} {content : Bytes} {d u : FileStep} {q : List CStr}
    {fs : FsState} {w : CopyState} (h : a.Carries drive op depth names content d u q)
    (hgoes : a.stopped = false) (hkey : a.1.1.download.diskKey = drive.key)
    (hmade : ∀ tick tree, Part tree (a.1.1.upload.serverMade tick tree))
    (hstores : ∀ s ∈ a.uploads drive op depth, s.ServerStores drive op)
    (hdown : sftpDownloadRecursive a.1.1.download.toPanel op.conn depth
      (op.downloadCall drive a.item) a.start.restart = (some true, fs))
    (hup : sftpUploadRecursive drive a.1.1.upload op.targetConn depth (op.uploadCall drive a.item)
      { a.2 with fs := fs.restart } = (some true, w)) :
    op.targetConn.Leads (w.fs.tree op.targetConn) (a.dst drive op) (names.map op.named)
      content := by
  have hvisits : a.uploads drive op depth =
      recurseVisits (sftpUploadBody drive a.1.1.upload op.targetConn)
        (uploadVisits drive op a.1.1.upload) depth (op.uploadCall drive a.item)
        { a.2 with fs := fs.restart } := by
    unfold uploads
    rw [if_neg (by simp [hgoes]), hdown]
  have hchain := chained_send drive op depth (op.uploadCall drive a.item) (G := (· = some true))
    rfl hmade
    (w := { a.2 with fs := fs.restart }) (by rw [hup])
  rw [hup, ← hvisits] at hchain
  -- the file in the temporary directory, at every upload
  have hlocal := (hchain.holds (P := fun b => (d.call.local_, .file content) ∈ b.1)
    (fun _ _ hle hb => Set.mem_of_mem_of_subset hb (Prod.le_def.mp hle).1)
    (fun s _ hok hs => by
      obtain ⟨-, c, w, rfl⟩ := hok
      dsimp only
      rw [FileStep.disk_upload]
      exact hs) (h.fetched hgoes hkey hdown)).1
  refine ⟨q, hchain.holds_last (P := fun b => op.targetConn.place b.2 (a.dst drive op)
    (names.map op.named) = some q ∧ b.2.lookup q = some (.file content))
    (fun b b' hle hb => ?_) h.sent ?_ ?_⟩
  · have hpart : Part b.2 b'.2 := (Prod.le_def.mp hle).2
    exact ⟨resolve_mono hpart.keeps _ _ hb.1, hpart _ _ hb.2⟩
  · have hu := h.sent.mem
    have hstaged := hlocal u hu
    have hstores := hstores u hu
    rintro ⟨hrun, c, w, rfl⟩
    refine ⟨h.place, ?_⟩
    obtain ⟨q', hq', hfile⟩ := FileStep.content_upload hrun hstores
      ((Disk.node_congr _ h.staged).trans hstaged) h.sends
    obtain rfl := Option.some.inj (h.target.symm.trans hq')
    exact hfile
  · intro s hs
    have hstores := hstores s hs
    rintro ⟨hrun, c, w, rfl⟩ hnot ⟨hplace, hfile⟩
    exact FileStep.place_upload hrun hstores hnot hplace hfile

theorem Spares.kept {t₀ : RemoteTree} (h : a.Spares drive op depth t₀)
    (hv : a.deletes drive op depth = some v) (hpart : Part t₀ (v.fs.tree op.targetConn)) :
    Part t₀ ((a.after drive op depth).fs.tree op.targetConn) := by
  obtain ⟨fs, w, -, -, -, -, hturn⟩ := deletes_eq hv
  rw [hturn]
  by_cases hsame : op.conn.server = op.targetConn.server
  · have hkept := (h v hv hsame).kept a.1.1.finish.toPanel depth rfl
    unfold FsState.tree at hkept ⊢
    rwa [hsame] at hkept
  · rwa [tree_sftpDelete_of_ne hsame]

end TurnStep

theorem Conn.Leads.of_part {conn : Conn} {t t₀ t' : RemoteTree} {dst : CStr} {names : List CStr}
    {content : Bytes} (h : conn.Leads t dst names content) (hpart : Part t₀ t)
    (hreach : (conn.place t₀ dst names).isSome) (hkept : Part t₀ t') :
    conn.Leads t' dst names content := by
  obtain ⟨q, hq, hlookup⟩ := h
  obtain ⟨q', hq'⟩ := Option.isSome_iff_exists.mp hreach
  obtain ⟨x, hx, -⟩ := resolve_exists _ _ t₀.lookup_nil hq'
  obtain rfl := Option.some.inj (hq.symm.trans (resolve_mono hpart.keeps _ _ hq'))
  obtain rfl := Option.some.inj (hlookup.symm.trans (hpart _ _ hx))
  exact ⟨q, resolve_mono hkept.keeps _ _ hq', hkept _ _ hx⟩

theorem Conn.Leads.mono {conn : Conn} {t t' : RemoteTree} {dst : CStr} {names : List CStr}
    {content : Bytes} (h : conn.Leads t dst names content) (hpart : Part t t') :
    conn.Leads t' dst names content :=
  h.of_part (.refl t) (Option.isSome_of_eq_some h.choose_spec.1) hpart

namespace TurnStep

theorem Careful.kept (h : a.Careful drive op depth) (hkey : a.1.1.download.diskKey = drive.key)
    (hmade : ∀ tick tree, Part tree (a.1.1.upload.serverMade tick tree))
    (hstores : ∀ s ∈ a.uploads drive op depth, s.ServerStores drive op) :
    a.Kept drive op depth ((a.after drive op depth).fs.tree op.targetConn) := by
  intro names content hmoves
  obtain ⟨v, hv⟩ := Option.isSome_iff_exists.mp hmoves.1
  obtain ⟨⟨d, u, q, hcarries⟩, hspares⟩ := h names content hmoves
  obtain ⟨t₀, hpart, hreach, hspares⟩ := hspares v hv
  obtain ⟨fs, w, hgoes, hdown, hup, hservers, -⟩ := deletes_eq hv
  have harrived := hcarries.arrived hgoes hkey hmade hstores hdown hup
  rw [show w.fs.tree op.targetConn = v.fs.tree op.targetConn from
    (congrFun hservers op.targetConn.server).symm] at harrived
  exact harrived.of_part hpart hreach (hspares.kept hv hpart)

theorem Respects.kept (h : a.Respects drive op depth b)
    (hmade : ∀ tick tree, Part tree (b.1.1.upload.serverMade tick tree))
    (hstores : ∀ s ∈ b.uploads drive op depth, s.ServerStores drive op)
    (hkept : a.Kept drive op depth (b.2.fs.tree op.targetConn)) :
    a.Kept drive op depth ((b.after drive op depth).fs.tree op.targetConn) := by
  intro names content hmoves
  obtain ⟨t₀, hpart, hreach, havoids, hspares⟩ := h names content hmoves
  refine (hkept names content hmoves).of_part hpart hreach ?_
  by_cases hstopped : b.stopped = true
  · rwa [FsState.tree, servers_of_stopped hstopped]
  have hgoes : b.stopped = false := by simpa using hstopped
  have hwalked := part_copyStep hgoes hmade hstores havoids hpart
  rcases hdeletes : b.deletes drive op depth with _ | v
  · rwa [FsState.tree, servers_after hgoes hdeletes]
  · obtain ⟨fs, w, -, hdown, hup, hservers, -⟩ := deletes_eq hdeletes
    refine hspares.kept hdeletes ?_
    have hstep : copyStep drive op depth b.1.1 b.item { b.2 with fs := b.start } =
        (some true, w) := copyStep_eq_true.mpr ⟨fs, hdown, hup⟩
    rw [hstep] at hwalked
    rwa [FsState.tree, hservers]

end TurnStep

/-! ## Every run -/

theorem copyTurnVisits_eq (a : TurnStep) :
    copyTurnVisits drive op depth a.1 a.2 =
      a.downloads drive op depth ++ a.uploads drive op depth := by
  unfold copyTurnVisits TurnStep.downloads TurnStep.uploads TurnStep.stopped
  dsimp only
  split_ifs
  · rfl
  · rfl

/-- In every run whose turns are careful and respect the files that were moved before, a move is
safe. -/
theorem move_keeps_files (turns : List (Turn × RemoteEntry)) (w : CopyState)
    (hkey : ∀ t ∈ turns, t.1.download.diskKey = drive.key)
    (hmade : ∀ t ∈ turns, ∀ tick tree, Part tree (t.1.upload.serverMade tick tree))
    (hstores : ∀ s ∈ copyVisits drive op depth turns w, s.ServerStores drive op)
    (hcareful : ∀ a ∈ copyTurns drive op depth turns w, a.Careful drive op depth)
    (hrespects : (copyTurns drive op depth turns w).Pairwise
      (TurnStep.Respects drive op depth)) :
    MoveSafe drive op depth turns w := by
  have hturn : ∀ a ∈ copyTurns drive op depth turns w, a.1 ∈ turns ∧
      ∀ s ∈ a.uploads drive op depth, s.ServerStores drive op := by
    intro a ha
    refine ⟨fst_mem_of_mem_forEachVisits ha, fun s hs => hstores s ?_⟩
    refine mem_forEachVisits ha ?_
    rw [copyTurnVisits_eq]
    exact List.mem_append_right _ hs
  have hown : ∀ a ∈ copyTurns drive op depth turns w,
      a.Kept drive op depth ((a.after drive op depth).fs.tree op.targetConn) := by
    intro a ha
    obtain ⟨hmem, hstores⟩ := hturn a ha
    exact (hcareful a ha).kept (hkey a.1 hmem) (hmade a.1 hmem) hstores
  have hchain : Chained (fun _ => True) (fun a : TurnStep => a.2.fs.tree op.targetConn)
      (fun a => (a.after drive op depth).fs.tree op.targetConn) (w.fs.tree op.targetConn)
      (copyTurns drive op depth turns w)
      ((copyItems drive op depth turns w).2.fs.tree op.targetConn) := by
    refine chained_forEach (fun w : CopyState => w.fs.tree op.targetConn) (G := fun _ => True)
      trivial (fun t w _ => ?_) turns w trivial
    exact ⟨le_refl _, trivial, le_refl _⟩
  refine ⟨hown, hchain.pairwise (P := fun a tree => a.Kept drive op depth tree) ?_ hown ?_⟩
  · intro a t t' hle hkept names content hmoves
    exact (hkept names content hmoves).mono hle
  · refine hrespects.imp_of_mem fun _ hb h => ?_
    obtain ⟨hmem, hstores⟩ := hturn _ hb
    exact h.kept (hmade _ hmem) hstores

end Turn

/-! ## Items with one file -/

theorem part_of_entries {t t' : RemoteTree}
    (h : ∀ e ∈ t.entries, t'.lookup e.1 = some e.2) : Part t t' := by
  intro q x hx
  by_cases hq : q = []
  · rw [hq, Tree.lookup_nil] at hx ⊢
    exact hx
  · exact h _ (Tree.exists_mem_of_lookup hq hx)

section OneFile

variable (drive : LocalDrive) (op : ServerCopy) (depth : ℕ)

/-- An item with one regular file, which a turn carries to another server. -/
def TurnStep.CarriesOnly (a : TurnStep) (r names : List CStr) (content : Bytes) : Prop :=
  (op.conn.denotes (a.2.fs.tree op.conn) (op.deleteItem a.item).remote = some r ∧
    (∀ e ∈ (a.2.fs.tree op.conn).entries, r <+: e.1 →
      e.2 = .dir ∨ e = (r ++ names, .file content)) ∧
    op.conn.server ≠ op.targetConn.server) ∧
  ((a.downloads drive op depth).length = 1 ∧ (a.uploads drive op depth).length = 1) ∧
  (∀ d ∈ a.downloads drive op depth, ∀ u ∈ a.uploads drive op depth,
    d.Fetches drive op content ∧ u.Sends drive op content ∧
    drive.key u.call.local_ = drive.key d.call.local_ ∧
    op.targetConn.place ((u.run drive op).2.tree op.targetConn) (a.dst drive op)
        (names.map op.named) =
      op.targetConn.target ((u.run drive op).2.tree op.targetConn) u.call.remote) ∧
  ∀ v ∈ a.deletes drive op depth, ∀ u ∈ a.uploads drive op depth,
    (op.targetConn.place ((u.run drive op).2.tree op.targetConn) (a.dst drive op)
      (names.map op.named)).isSome ∧
    (op.targetConn.place (v.fs.tree op.targetConn) (a.dst drive op) (names.map op.named)).isSome

/-- The uploads of a later turn avoid a part of the tree through which the path of these names below
`dst` leads. -/
def TurnStep.GoesBy (b : TurnStep) (dst : CStr) (names : List CStr) (t₀ : RemoteTree) : Prop :=
  (∀ e ∈ t₀.entries, (b.2.fs.tree op.targetConn).lookup e.1 = some e.2) ∧
    (op.targetConn.place t₀ dst (names.map op.named)).isSome ∧
    ∀ s ∈ b.uploads drive op depth, s.Avoids drive op t₀

instance (a : TurnStep) (r names : List CStr) (content : Bytes) :
    Decidable (a.CarriesOnly drive op depth r names content) := by
  unfold TurnStep.CarriesOnly
  infer_instance

instance (b : TurnStep) (dst : CStr) (names : List CStr) (t₀ : RemoteTree) :
    Decidable (b.GoesBy drive op depth dst names t₀) := by
  unfold TurnStep.GoesBy
  infer_instance

variable {drive op depth} {a b : TurnStep} {r names : List CStr} {content : Bytes}

theorem TurnStep.CarriesOnly.eq_of_moves (h : a.CarriesOnly drive op depth r names content)
    {names' : List CStr} {content' : Bytes} (hmoves : a.Moves drive op depth names' content') :
    names' = names ∧ content' = content := by
  obtain ⟨hsrc, honly, -⟩ := h.1
  obtain ⟨-, r', hr', hlookup⟩ := hmoves
  obtain rfl := Option.some.inj (hsrc.symm.trans hr')
  have hroot : r ++ names' ≠ [] := by
    intro hnil
    rw [hnil, Tree.lookup_nil] at hlookup
    cases hlookup
  have hentry := Tree.exists_mem_of_lookup hroot hlookup
  rcases honly _ hentry (List.prefix_append r names') with hdir | hfile
  · cases hdir
  · obtain ⟨hnames, hcontent⟩ := Prod.mk.inj hfile
    exact ⟨List.append_cancel_left hnames, Node.file.inj hcontent⟩

theorem TurnStep.CarriesOnly.careful (h : a.CarriesOnly drive op depth r names content) :
    a.Careful drive op depth := by
  intro names' content' hmoves
  obtain ⟨rfl, rfl⟩ := h.eq_of_moves hmoves
  obtain ⟨⟨-, -, hservers⟩, hone, hcarries, hkept⟩ := h
  obtain ⟨d, hd⟩ := List.length_eq_one_iff.mp hone.1
  obtain ⟨u, hu⟩ := List.length_eq_one_iff.mp hone.2
  have hmem : u ∈ a.uploads drive op depth := by rw [hu]; exact List.mem_singleton_self u
  obtain ⟨hfetches, hsends, hstaged, hplace⟩ :=
    hcarries d (by rw [hd]; exact List.mem_singleton_self d) u hmem
  obtain ⟨v, hv⟩ := Option.isSome_iff_exists.mp hmoves.1
  obtain ⟨q, hq⟩ := Option.isSome_iff_exists.mp (hkept v hv u hmem).1
  refine ⟨⟨d, u, q, ?_⟩, fun v hv => ?_⟩
  · exact {
      last := ⟨[], [], hd, fun _ h => absurd h List.not_mem_nil⟩
      fetches := hfetches
      sent := ⟨[], [], hu, fun _ h => absurd h List.not_mem_nil⟩
      staged := hstaged
      sends := hsends
      target := hplace.symm.trans hq
      place := hq }
  · exact ⟨_, .refl _, (hkept v hv u hmem).2, fun _ _ hsame => absurd hsame hservers⟩

theorem TurnStep.CarriesOnly.respects {t₀ : RemoteTree}
    (h : a.CarriesOnly drive op depth r names content)
    (hby : b.GoesBy drive op depth (a.dst drive op) names t₀) : a.Respects drive op depth b := by
  intro names' content' hmoves
  obtain ⟨rfl, rfl⟩ := h.eq_of_moves hmoves
  obtain ⟨hentries, hplace, havoids⟩ := hby
  exact ⟨t₀, part_of_entries hentries, hplace, havoids, fun _ _ hsame => absurd hsame h.1.2.2⟩

end OneFile

theorem FileStep.Adds.serverStores {drive : LocalDrive} {op : ServerCopy} {s : FileStep}
    (h : s.Adds drive op) : s.ServerStores drive op := by
  cases s with
  | download panel c w => trivial
  | upload st c w =>
    intro call hcall _
    obtain ⟨hentries, hcontent⟩ := h call hcall
    have hpart := part_of_entries hentries
    refine ⟨fun content hleft => ?_, fun q x hx _ _ => hpart q x hx,
      fun q x _ _ hx => hpart q x hx⟩
    rw [hleft] at hcontent
    obtain ⟨node, hnode, hfile⟩ := Option.bind_eq_some_iff.mp hcontent
    obtain ⟨q, hq, hlookup⟩ := Option.bind_eq_some_iff.mp hnode
    refine ⟨q, hq, ?_⟩
    cases node with
    | file content' =>
      obtain rfl := Option.some.inj hfile
      exact hlookup
    | dir => cases hfile
    | link rooted target => cases hfile

/-! ## A directory and a file, and a move in place -/

/-- Every directory has the entry `a`, every file is fetched and sent with two bytes, and the server
makes `d` in its root; after an upload it holds `tree`. -/
def movingAll (tree : RemoteTree → RemoteTree) : Staging :=
  { Staging.idle plainDrive with
    statFails := fun _ => false
    readdir := fun _ _ => some [⟨ascii "a", false⟩]
    downloadIo := fun _ =>
      ⟨true, some 2, true, true, [⟨some [1, 2], 2, true⟩, ⟨some [], 0, true⟩], 0, true⟩
    createDirectory := fun _ => true
    removes := fun _ => true
    findFiles := fun _ _ => some [⟨ascii "a", false⟩]
    deleteFile := fun _ => true
    removeDirectory := fun _ => true
    uploadIo := fun _ => ⟨true, [2], true, .handle, false, [some 2], [], 0, true, true, none⟩
    serverMade := fun _ t => t.addDir [] (ascii "d") t.lookup_nil
    serverOut := fun _ => tree }

theorem made_movingAll (tree : RemoteTree → RemoteTree) (tick : ℕ) (t : RemoteTree) :
    Part t ((movingAll tree).serverMade tick t) :=
  fun _ _ hx => Tree.lookup_addDir_of_some t.lookup_nil hx

def movingTurn (tree : RemoteTree → RemoteTree) : Turn :=
  ⟨movingAll tree, movingAll tree, movingAll tree, movingAll tree, movingAll tree, true⟩

/-- A file that is on both servers. -/
def otherItem : RemoteTree := ⟨[([ascii "c"], .file [3])], by decide⟩

def firstItem : RemoteTree :=
  ⟨[([ascii "c"], .file [3]), ([ascii "d"], .dir), ([ascii "d", ascii "a"], .file [1, 2])],
    by decide⟩

def bothItems : RemoteTree :=
  ⟨[([ascii "c"], .file [3]), ([ascii "d"], .dir), ([ascii "d", ascii "a"], .file [1, 2]),
    ([ascii "b"], .file [1, 2])], by decide⟩

def moveOfTwo : ServerCopy := { copyOfTwo with copy := false }

def beforeMove : CopyState :=
  { beforeCopy with
    fs := { beforeCopy.fs with servers := fun i => if i = 0 then bothItems else otherItem } }

def twoMoves : List (Turn × RemoteEntry) :=
  [(movingTurn fun _ => firstItem, ⟨ascii "d", true⟩),
    (movingTurn fun _ => bothItems, ⟨ascii "b", false⟩)]

/-- The directory is moved with its file, and they are respected when the second item is. -/
theorem move_keeps_files_two :
    (copyTurns plainDrive moveOfTwo 2 twoMoves beforeMove).map
        (fun a => (a.deletes plainDrive moveOfTwo 2).isSome) = [true, true] ∧
      MoveSafe plainDrive moveOfTwo 2 twoMoves beforeMove := by
  have hstores : ∀ s ∈ copyVisits plainDrive moveOfTwo 2 twoMoves beforeMove,
      s.Adds plainDrive moveOfTwo := by decide +kernel
  have hcarries : ∀ a ∈ copyTurns plainDrive moveOfTwo 2 twoMoves beforeMove,
      a.CarriesOnly plainDrive moveOfTwo 2 [a.item.Name]
        (if a.item.IsDir then [ascii "a"] else []) [1, 2] := by decide +kernel
  have hby : (copyTurns plainDrive moveOfTwo 2 twoMoves beforeMove).Pairwise fun a b =>
      b.GoesBy plainDrive moveOfTwo 2 (a.dst plainDrive moveOfTwo)
        (if a.item.IsDir then [ascii "a"] else []) firstItem := by
    decide +kernel
  refine ⟨by decide +kernel, move_keeps_files twoMoves beforeMove ?_ ?_
    (fun s hs => (hstores s hs).serverStores) (fun a ha => (hcarries a ha).careful)
    (hby.imp_of_mem fun ha _ h => (hcarries _ ha).respects h)⟩
  · simp only [twoMoves, List.forall_mem_cons, List.not_mem_nil, false_imp_iff, implies_true,
      and_true]
    exact ⟨rfl, rfl⟩
  · simp only [twoMoves, List.forall_mem_cons, List.not_mem_nil, false_imp_iff, implies_true,
      and_true]
    exact ⟨made_movingAll _, made_movingAll _⟩

/-- A file that is moved into the directory in which it lies. -/
def moveInPlace : ServerCopy := ⟨rawConn, rawConn, ascii "/", ascii "/", false⟩

def moveOfOne : List (Turn × RemoteEntry) := [(movingTurn id, ⟨ascii "a", false⟩)]

/-- It is fetched, sent and deleted: the server does what it is asked, and the file is gone. -/
theorem not_move_keeps_files :
    (∀ s ∈ copyVisits plainDrive moveInPlace 1 moveOfOne beforeCopy,
      s.ServerStores plainDrive moveInPlace) ∧
      ¬ MoveSafe plainDrive moveInPlace 1 moveOfOne beforeCopy := by
  have hstores : ∀ s ∈ copyVisits plainDrive moveInPlace 1 moveOfOne beforeCopy,
      s.Adds plainDrive moveInPlace := by decide +kernel
  refine ⟨fun s hs => (hstores s hs).serverStores, fun h => ?_⟩
  have hmem : (((movingTurn id, ⟨ascii "a", false⟩), beforeCopy) : TurnStep) ∈
      copyTurns plainDrive moveInPlace 1 moveOfOne beforeCopy :=
    List.mem_append_left _ (List.mem_singleton_self _)
  obtain ⟨q, hq, -⟩ := h.own _ hmem [] [1, 2]
    ⟨by decide +kernel, [ascii "a"], by decide +kernel, by decide +kernel⟩
  have hgone : moveInPlace.targetConn.place
      ((TurnStep.after plainDrive moveInPlace 1
        ((movingTurn id, ⟨ascii "a", false⟩), beforeCopy)).fs.tree moveInPlace.targetConn)
      (TurnStep.dst plainDrive moveInPlace ((movingTurn id, ⟨ascii "a", false⟩), beforeCopy)) [] =
        none := by decide +kernel
  rw [List.map_nil, hgone] at hq
  cases hq

end SalamanderSftp
