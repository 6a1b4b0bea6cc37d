import SalamanderSftp.Fs.Questions

/-!
# The file branches

What the branches for a file in `sftpDownloadBody` and `sftpUploadBody` make of the disk and of the
servers, whether they skip their file or call `Download` or `Upload` for it.
-/

namespace SalamanderSftp

open Procedure FileTree

/-! ## Files and their places -/

def Conn.steps (conn : Conn) (path : CStr) : List (Step CStr) := pathSteps (conn.toServer path)

/-- Where the path of these names below `dst` leads. -/
def Conn.place (conn : Conn) (t : RemoteTree) (dst : CStr) (names : List CStr) :
    Option (List CStr) :=
  resolve t .follow conn.maxLinks [] (conn.steps dst ++ names.map .name)

def Conn.content? (conn : Conn) (t : RemoteTree) (path : CStr) : Option Bytes :=
  ((conn.target t path).bind t.lookup).bind fun node =>
    match node with
    | .file content => some content
    | _ => none

/-- What an upload with this result makes of a tree: the path leads to the file it left, and every
other file stays; so do the directories and links, but for a link that was removed at the path. -/
structure Conn.Stored (conn : Conn) (t : RemoteTree) (path : CStr) (r : TransferResult)
    (t' : RemoteTree) : Prop where
  place : ∀ content, r.target = some content →
    ∃ q, conn.target t' path = some q ∧ t'.lookup q = some (.file content)
  ways : ∀ q x, t.lookup q = some x → (∀ content, x ≠ .file content) →
    (r.removed = true → conn.denotes t path ≠ some q) → t'.lookup q = some x
  others : ∀ q x, conn.target t path ≠ some q → conn.target t' path ≠ some q →
    t.lookup q = some x → t'.lookup q = some x

/-! ## One file -/

/-- What a download that ended well leaves at its local path. -/
theorem fsDownload_true {panel : Panel} {conn : Conn} {remote local_ : CStr} {offset : ℕ}
    {v : FsState} (h : (fsDownload panel conn remote local_ offset v).1 = some true) :
    let io := panel.downloadIo v.tick
    let start := startOffset conn.scpMode io offset
    ∃ kept bs,
      keptContent ((v.disk.node panel.diskKey local_).bind FsNode.content?) start = some kept ∧
      served conn.scpMode io start = some bs ∧
      (fsDownload panel conn remote local_ offset v).2.disk = v.disk.put panel.diskKey local_
        (.file (writeAt kept start (stored io.lost bs))) := by
  obtain ⟨r, hr⟩ : ∃ r, r = download conn.scpMode
      { panel.downloadIo v.tick with
        opened := (panel.downloadIo v.tick).opened &&
          ((conn.target (v.tree conn) remote).bind (v.tree conn).lookup).isSome
        fopen := (panel.downloadIo v.tick).fopen &&
          decide (v.disk.node panel.diskKey local_ ≠ some .dir) }
      ((v.disk.node panel.diskKey local_).bind FsNode.content?) offset := ⟨_, rfl⟩
  unfold fsDownload at h ⊢
  dsimp only at h ⊢
  rw [← hr] at h ⊢
  have hok : r.ok = true := by
    split_ifs at h
    · split at h <;> exact Option.some.inj h
    · exact Option.some.inj h
  rw [hr] at hok
  obtain ⟨-, kept, bs, hkept, hserved, hresult⟩ := download_of_ok hok
  refine ⟨kept, bs, hkept, hserved, ?_⟩
  rw [hr, hresult]
  rfl

namespace FileStep

section Step

variable (drive : LocalDrive) (op : ServerCopy) (s : FileStep)

def call : FileStep → WalkCall
  | download _ c _ => c
  | upload _ c _ => c

/-- The file branch. -/
def run : FileStep → Option Bool × FsState
  | download panel c w => sftpDownloadFile panel op.conn c.remote c.local_ w
  | upload st c w =>
    let r := sftpUploadFile drive st op.targetConn c.local_ c.remote w
    (r.1, r.2.fs)

/-- The offset of the call of `Download` or `Upload`, and the state in which it is made. -/
def begins : Option (ℕ × FsState) :=
  match s.verdict drive op with
  | (.transferFrom offset, w) =>
    let (stop, w) := sftpIsCancelled s.panel w
    if stop then none else some (offset, w)
  | _ => none

/-- If the branch ends well, this content is at the local path: it is there already when the file is
skipped; otherwise it is what is kept there, with what the server serves behind it, less what
`fclose` loses. -/
def Fetches (content : Bytes) : FileStep → Prop
  | download panel c w =>
    let found := (w.disk.node panel.diskKey c.local_).bind FsNode.content?
    (((download panel c w).verdict drive op).1 = .skip → found = some content) ∧
      ∀ call ∈ (download panel c w).begins drive op,
        let io := panel.downloadIo call.2.tick
        let start := startOffset op.conn.scpMode io call.1
        ∀ kept ∈ keptContent found start, ∀ bs ∈ served op.conn.scpMode io start,
          writeAt kept start (stored io.lost bs) = content
  | upload _ _ _ => False

/-- If the branch ends well for a local file with this content, the remote path leads to it: to a
file that is there already when it is skipped; otherwise to what is kept there, with what `fread`
gives of the local file behind it, less what closing loses, or to what the remote `scp` makes of
it. -/
def Sends (content : Bytes) : FileStep → Prop
  | download _ _ _ => False
  | upload st c w =>
    let found := op.targetConn.content? (w.fs.tree op.targetConn) c.remote
    (((upload st c w).verdict drive op).1 = .skip → found = some content) ∧
      ∀ call ∈ (upload st c w).begins drive op,
        let io := st.uploadIo call.2.tick
        let start := uploadOffset op.targetConn.scpMode content call.1
        io.leaves op.targetConn.scpMode content found start (io.given (content.drop start)) =
          some content

instance (content : Bytes) : Decidable (s.Fetches drive op content) := by
  unfold Fetches
  cases s <;> infer_instance

instance (content : Bytes) : Decidable (s.Sends drive op content) := by
  unfold Sends
  cases s <;> infer_instance

/-- What `Upload` does from this offset and state on. -/
def uploads (st : Staging) (c : WalkCall) (offset : ℕ) (v : FsState) : TransferResult :=
  let content := (v.disk.node drive.key c.local_).bind FsNode.content?
  let io := st.uploadIo v.tick
  SalamanderSftp.upload op.targetConn.scpMode { io with fopen := io.fopen && content.isSome }
    c.remote (content.getD []) (op.targetConn.content? (v.tree op.targetConn) c.remote) offset

/-- The server does what an upload that opened its file asks for. -/
def ServerStores : FileStep → Prop
  | download _ _ _ => True
  | upload st c w => ∀ call ∈ (upload st c w).begins drive op,
    (uploads drive op st c call.1 call.2).opened = true →
      op.targetConn.Stored (call.2.tree op.targetConn) c.remote
        (uploads drive op st c call.1 call.2)
        (st.serverOut call.2.tick (call.2.tree op.targetConn))

/-- The remote path leads there before or after the branch. -/
def GoesTo (q : List CStr) : Prop :=
  op.targetConn.target (s.state.tree op.targetConn) s.call.remote = some q ∨
    op.targetConn.target ((s.run drive op).2.tree op.targetConn) s.call.remote = some q

/-- Nothing of this part of the tree is at the remote path. -/
def Avoids (t₀ : RemoteTree) : Prop :=
  ∀ place ∈ [op.targetConn.denotes (s.state.tree op.targetConn) s.call.remote,
    op.targetConn.target (s.state.tree op.targetConn) s.call.remote,
    op.targetConn.target ((s.run drive op).2.tree op.targetConn) s.call.remote],
    ∀ q ∈ place, q ≠ [] → t₀.lookup q = none

instance (t₀ : RemoteTree) : Decidable (s.Avoids drive op t₀) := by
  unfold Avoids
  infer_instance

/-- The server has got more of an upload, and the path leads to what was left. -/
def Adds : FileStep → Prop
  | download _ _ _ => True
  | upload st c w => ∀ call ∈ (upload st c w).begins drive op,
    let t := call.2.tree op.targetConn
    let t' := st.serverOut call.2.tick t
    (∀ e ∈ t.entries, t'.lookup e.1 = some e.2) ∧
      op.targetConn.content? t' c.remote = (uploads drive op st c call.1 call.2).target

instance : Decidable (s.Adds drive op) := by
  unfold Adds
  cases s <;> infer_instance

end Step

/-! ### What a branch does -/

variable {drive : LocalDrive} {op : ServerCopy} {s : FileStep} {offset : ℕ} {v : FsState}

theorem same_verdict (drive : LocalDrive) (op : ServerCopy) (s : FileStep) :
    (s.verdict drive op).2.disk = s.state.disk ∧
      (s.verdict drive op).2.servers = s.state.servers := by
  have hask : ∀ {w : FsState} (panel : Panel) (k : FoundTarget), k.w.disk = w.disk →
      k.w.servers = w.servers → (askDownload panel k.size k.total k.w).2.disk = w.disk ∧
        (askDownload panel k.size k.total k.w).2.servers = w.servers :=
    fun panel k hdisk hservers =>
    ⟨(disk_askDownload panel k.w k.size k.total).trans hdisk,
      (aside_askDownload panel k.w k.size k.total).servers.trans hservers⟩
  unfold verdict
  cases s with
  | download panel c w =>
    rcases hfound : (download panel c w).found drive op with _ | k
    · unfold unasked state
      dsimp only
      by_cases hsync : panel.syncMode = true
      · rw [if_pos hsync]
        exact ⟨disk_syncSkipDownload .., (aside_syncSkipDownload ..).servers⟩
      · rw [if_neg hsync]
        exact ⟨rfl, rfl⟩
    · unfold found at hfound
      dsimp only at hfound
      split_ifs at hfound
      obtain ⟨node, -, rfl⟩ := Option.map_eq_some_iff.mp hfound
      exact hask _ _ (disk_resumableSize ..) (aside_resumableSize ..).servers
  | upload st c w =>
    rcases hfound : (upload st c w).found drive op with _ | k
    · unfold unasked state
      dsimp only
      by_cases hsync : st.syncMode = true
      · rw [if_pos hsync]
        exact disk_syncSkipUpload ..
      · rw [if_neg hsync]
        exact ⟨rfl, rfl⟩
    · have hsize := disk_uploadedSize st op.targetConn c.remote
        (isRemoteFile st.toPanel op.targetConn c.remote w.fs).2
      unfold found at hfound
      dsimp only at hfound
      split_ifs at hfound
      split at hfound
      · obtain rfl := Option.some.inj hfound
        exact hask _ _ hsize.1 hsize.2
      · obtain rfl := Option.some.inj hfound
        exact hask _ _ hsize.1 hsize.2

theorem same_begins (h : s.begins drive op = some (offset, v)) :
    v.disk = s.state.disk ∧ v.servers = s.state.servers := by
  have hsame := same_verdict drive op s
  unfold begins at h
  rcases hv : s.verdict drive op with ⟨_ | _ | offset', w⟩ <;> rw [hv] at h hsame
  · cases h
  · cases h
  · dsimp only at h
    split_ifs at h
    obtain ⟨-, rfl⟩ := Prod.mk.inj (Option.some.inj h)
    exact ⟨(disk_sftpIsCancelled _ w).trans hsame.1,
      (aside_sftpIsCancelled _ w).servers.trans hsame.2⟩

def transferred (drive : LocalDrive) (op : ServerCopy) (offset : ℕ) (v : FsState) :
    FileStep → Option Bool × FsState
  | download panel c _ => fsDownload panel op.conn c.remote c.local_ offset v
  | upload st c w =>
    let r := fsUpload drive st op.targetConn c.local_ c.remote offset { w with fs := v }
    (r.1, r.2.fs)

theorem run_of_not_begins (h : s.begins drive op = none) :
    (s.run drive op).1 = some (decide ((s.verdict drive op).1 = .skip)) ∧
      (s.run drive op).2.disk = s.state.disk ∧ (s.run drive op).2.servers = s.state.servers := by
  have hsame := same_verdict drive op s
  unfold begins at h
  cases s with
  | download panel c w =>
    unfold run
    dsimp only
    rw [sftpDownloadFile_eq drive]
    rcases hv : (download panel c w).verdict drive op with ⟨_ | _ | offset, w'⟩ <;>
      rw [hv] at h hsame
    · exact ⟨rfl, hsame⟩
    · exact ⟨rfl, hsame⟩
    · dsimp only [FileStep.panel] at h ⊢
      split_ifs at h with hstop
      unfold downloadUnlessCancelled
      dsimp only
      rw [if_pos hstop]
      exact ⟨rfl, (disk_sftpIsCancelled panel w').trans hsame.1,
        (aside_sftpIsCancelled panel w').servers.trans hsame.2⟩
  | upload st c w =>
    unfold run
    dsimp only
    rw [sftpUploadFile_eq]
    rcases hv : (upload st c w).verdict drive op with ⟨_ | _ | offset, w'⟩ <;>
      rw [hv] at h hsame
    · exact ⟨rfl, hsame⟩
    · exact ⟨rfl, hsame⟩
    · dsimp only [FileStep.panel] at h ⊢
      split_ifs at h with hstop
      unfold uploadUnlessCancelled
      dsimp only
      rw [if_pos hstop]
      exact ⟨rfl, (disk_sftpIsCancelled st.toPanel w').trans hsame.1,
        (aside_sftpIsCancelled st.toPanel w').servers.trans hsame.2⟩

theorem run_of_begins (h : s.begins drive op = some (offset, v)) :
    s.run drive op = s.transferred drive op offset v := by
  unfold begins at h
  cases s with
  | download panel c w =>
    unfold run
    dsimp only
    rw [sftpDownloadFile_eq drive]
    rcases hv : (download panel c w).verdict drive op with ⟨_ | _ | offset', w'⟩ <;> rw [hv] at h
    · cases h
    · cases h
    · dsimp only [FileStep.panel] at h ⊢
      split_ifs at h with hstop
      obtain ⟨rfl, rfl⟩ := Prod.mk.inj (Option.some.inj h)
      unfold downloadUnlessCancelled
      dsimp only
      rw [if_neg hstop]
      rfl
  | upload st c w =>
    unfold run
    dsimp only
    rw [sftpUploadFile_eq]
    rcases hv : (upload st c w).verdict drive op with ⟨_ | _ | offset', w'⟩ <;> rw [hv] at h
    · cases h
    · cases h
    · dsimp only [FileStep.panel] at h ⊢
      split_ifs at h with hstop
      obtain ⟨rfl, rfl⟩ := Prod.mk.inj (Option.some.inj h)
      unfold uploadUnlessCancelled
      dsimp only
      rw [if_neg hstop]
      rfl

theorem run_of_true (h : (s.run drive op).1 = some true) :
    (s.verdict drive op).1 = .skip ∧ (s.run drive op).2.disk = s.state.disk ∧
        (s.run drive op).2.servers = s.state.servers ∨
      ∃ offset v, s.begins drive op = some (offset, v) ∧
        s.run drive op = s.transferred drive op offset v := by
  rcases hbegins : s.begins drive op with _ | ⟨offset, v⟩
  · obtain ⟨hresult, hsame⟩ := run_of_not_begins hbegins
    rw [hresult] at h
    exact .inl ⟨of_decide_eq_true (Option.some.inj h), hsame⟩
  · exact .inr ⟨offset, v, rfl, run_of_begins hbegins⟩

theorem node_download {panel : Panel} {c : WalkCall} {w : FsState} {content : Bytes}
    (hrun : ((download panel c w).run drive op).1 = some true)
    (hfetches : (download panel c w).Fetches drive op content) :
    ((download panel c w).run drive op).2.disk.node panel.diskKey c.local_ =
      some (.file content) := by
  obtain ⟨hskip, htransfer⟩ := hfetches
  rcases run_of_true hrun with ⟨hverdict, hdisk, -⟩ | ⟨offset, v, hbegins, htransferred⟩
  · rw [hdisk]
    obtain ⟨node, hnode, hcontent⟩ := Option.bind_eq_some_iff.mp (hskip hverdict)
    cases node with
    | file content' =>
      obtain rfl := Option.some.inj hcontent
      exact hnode
    | dir => cases hcontent
  · rw [htransferred] at hrun ⊢
    obtain ⟨kept, bs, hkept, hserved, hdisk⟩ := fsDownload_true hrun
    rw [(same_begins hbegins).1] at hkept
    have hcontent := htransfer (offset, v) hbegins kept hkept bs hserved
    unfold transferred
    dsimp only
    rw [hdisk, Disk.node_put_self, hcontent]

theorem node_download_of_ne (drive : LocalDrive) (op : ServerCopy) {panel : Panel} {c : WalkCall}
    {w : FsState} {p : CStr} (hp : panel.diskKey p ≠ panel.diskKey c.local_) :
    ((download panel c w).run drive op).2.disk.node panel.diskKey p =
      w.disk.node panel.diskKey p := by
  have hfetched : FetchedAt panel op.conn c.remote c.local_ w
    ((download panel c w).run drive op).2 := fetchedAt_sftpDownloadFile
  rcases hfetched with hsame | ⟨-, -, -, hothers⟩
  · rw [hsame]
  · exact hothers p hp

section Upload

variable {st : Staging} {c : WalkCall} {w : CopyState}

theorem transferred_upload (drive : LocalDrive) (op : ServerCopy) (st : Staging) (c : WalkCall)
    (w : CopyState) (offset : ℕ) (v : FsState) :
    (upload st c w).transferred drive op offset v =
      (some (uploads drive op st c offset v).ok,
        v.next.setTree op.targetConn (if (uploads drive op st c offset v).opened then
          st.serverOut v.tick (v.tree op.targetConn) else v.tree op.targetConn)) := rfl

theorem disk_upload : ((upload st c w).run drive op).2.disk = w.fs.disk := by
  unfold run
  exact sftpUploadFile_rule (I := fun w' => w'.fs.disk = w.fs.disk)
    (fun _ _ hdisk _ hw => hdisk.trans hw) (fun _ _ hw => hw) rfl

theorem tree_begins {s : FileStep} (h : s.begins drive op = some (offset, v)) :
    v.tree op.targetConn = s.state.tree op.targetConn :=
  congrFun (same_begins h).2 op.targetConn.server

theorem run_upload (hstores : (upload st c w).ServerStores drive op) :
    ((upload st c w).run drive op).2.tree op.targetConn = w.fs.tree op.targetConn ∨
      ∃ offset v, (upload st c w).begins drive op = some (offset, v) ∧
        ((upload st c w).run drive op).1 = some (uploads drive op st c offset v).ok ∧
        op.targetConn.Stored (w.fs.tree op.targetConn) c.remote (uploads drive op st c offset v)
          (((upload st c w).run drive op).2.tree op.targetConn) := by
  rcases hbegins : (upload st c w).begins drive op with _ | ⟨offset, v⟩
  · exact .inl (congrFun (run_of_not_begins hbegins).2.2 op.targetConn.server)
  · have htree := tree_begins hbegins
    have hstored := hstores (offset, v) hbegins
    rw [run_of_begins hbegins, transferred_upload, FsState.setTree_tree]
    rw [htree] at hstored ⊢
    split_ifs with hopened
    · exact .inr ⟨offset, v, rfl, rfl, hstored hopened⟩
    · exact .inl rfl

theorem content_upload {content : Bytes} (hrun : ((upload st c w).run drive op).1 = some true)
    (hstores : (upload st c w).ServerStores drive op)
    (hlocal : w.fs.disk.node drive.key c.local_ = some (.file content))
    (hsends : (upload st c w).Sends drive op content) :
    ∃ q, op.targetConn.target (((upload st c w).run drive op).2.tree op.targetConn) c.remote =
        some q ∧
      (((upload st c w).run drive op).2.tree op.targetConn).lookup q = some (.file content) := by
  obtain ⟨hskip, htransfer⟩ := hsends
  rcases run_of_true hrun with ⟨hverdict, -, hservers⟩ | ⟨offset, v, hbegins, htransferred⟩
  · rw [show ((upload st c w).run drive op).2.tree op.targetConn = _ from
      congrFun hservers op.targetConn.server]
    obtain ⟨node, hnode, hcontent⟩ := Option.bind_eq_some_iff.mp (hskip hverdict)
    obtain ⟨q, hq, hlookup⟩ := Option.bind_eq_some_iff.mp hnode
    refine ⟨q, hq, ?_⟩
    cases node with
    | file content' =>
      obtain rfl := Option.some.inj hcontent
      exact hlookup
    | dir => cases hcontent
    | link rooted target => cases hcontent
  · have htree : v.tree op.targetConn = w.fs.tree op.targetConn := tree_begins hbegins
    have hcontent : (v.disk.node drive.key c.local_).bind FsNode.content? = some content := by
      rw [(same_begins hbegins).1, show (upload st c w).state.disk = w.fs.disk from rfl, hlocal]
      rfl
    rw [htransferred, transferred_upload] at hrun ⊢
    have hok : (uploads drive op st c offset v).ok = true := Option.some.inj hrun
    have hresult : (uploads drive op st c offset v).opened = true ∧
        (uploads drive op st c offset v).target = some content := by
      unfold uploads at hok ⊢
      rw [hcontent, htree] at hok ⊢
      rw [upload_of_accepts (accepts_of_upload_ok hok)]
      exact ⟨rfl, htransfer (offset, v) hbegins⟩
    rw [FsState.setTree_tree, if_pos hresult.1]
    exact (hstores (offset, v) hbegins hresult.1).place content hresult.2

/-- A file stays where it is when an upload that ends well goes elsewhere. -/
theorem place_upload {content : Bytes} {dst : CStr} {names : List CStr} {q : List CStr}
    (hrun : ((upload st c w).run drive op).1 = some true)
    (hstores : (upload st c w).ServerStores drive op) (hnot : ¬ (upload st c w).GoesTo drive op q)
    (hplace : op.targetConn.place (w.fs.tree op.targetConn) dst names = some q)
    (hfile : (w.fs.tree op.targetConn).lookup q = some (.file content)) :
    op.targetConn.place (((upload st c w).run drive op).2.tree op.targetConn) dst names = some q ∧
      (((upload st c w).run drive op).2.tree op.targetConn).lookup q = some (.file content) := by
  rcases run_upload hstores with htree | ⟨offset, v, -, hresult, hstored⟩
  · rw [htree]
    exact ⟨hplace, hfile⟩
  · have hok : (uploads drive op st c offset v).ok = true :=
      Option.some.inj (hresult.symm.trans hrun)
    have hkept : ¬ (uploads drive op st c offset v).removed = true := by
      unfold uploads at hok ⊢
      rw [upload_of_accepts (accepts_of_upload_ok hok)]
      exact Bool.false_ne_true
    have hq := hstored.others q _ (fun h => hnot (.inl h)) (fun h => hnot (.inr h)) hfile
    refine ⟨resolve_way (fun p x hx hway => ?_) _ _ hplace, hq⟩
    by_cases hdir : ∀ content, x ≠ .file content
    · exact ⟨x, hstored.ways p x hx hdir fun hremoved => absurd hremoved hkept, rfl⟩
    · push Not at hdir
      obtain ⟨content', rfl⟩ := hdir
      obtain rfl := hway content' rfl
      exact ⟨_, hq, by rw [hfile] at hx; exact congrArg Node.kind (Option.some.inj hx)⟩

theorem part_upload {t₀ : RemoteTree} (hstores : (upload st c w).ServerStores drive op)
    (havoids : (upload st c w).Avoids drive op t₀) (hpart : Part t₀ (w.fs.tree op.targetConn)) :
    Part t₀ (((upload st c w).run drive op).2.tree op.targetConn) := by
  rcases run_upload hstores with htree | ⟨offset, v, -, -, hstored⟩
  · rw [htree]
    exact hpart
  · intro q x hx
    by_cases hroot : q = []
    · rw [hroot, Tree.lookup_nil] at hx ⊢
      exact hx
    simp only [Avoids, List.forall_mem_cons, List.not_mem_nil, false_imp_iff, implies_true,
      and_true] at havoids
    have hnot : ∀ {place : Option (List CStr)},
        (∀ q ∈ place, q ≠ [] → t₀.lookup q = none) → place ≠ some q := by
      intro place hnone h
      rw [hnone q h hroot] at hx
      cases hx
    by_cases hdir : ∀ content, x ≠ .file content
    · exact hstored.ways q x (hpart q x hx) hdir fun _ => hnot havoids.1
    · exact hstored.others q x (hnot havoids.2.1) (hnot havoids.2.2) (hpart q x hx)

end Upload

end FileStep

end SalamanderSftp
