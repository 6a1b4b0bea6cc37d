import SalamanderSftp.Lib.Steering
import SalamanderSftp.Worker.Runs

/-!
# Where a download walk can get

The listings of a server are given once and for all; a server lists any of the entries, in any
order, whenever it is asked (`Host.Lists`). The calls that `DoDownloadRecursive` can get to are
those that `Descends` reaches: every one of them is made in some run, by a server that lists just
the entries on the way (`exists_download_to`).
-/

namespace SalamanderSftp

open Procedure

/-- The entries of every remote directory. -/
abbrev Listings := CStr → List CSftpEntry

/-- The server lists entries of these directories only. -/
def Host.Lists (host : Host) (L : Listings) : Prop :=
  ∀ t remote entries, host.listDir t remote = some entries → ∀ e ∈ entries, e ∈ L remote

/-- The call `c` makes the call `c'` for the entry `e`; `joins` says what `PathAppendA` makes of a
path and a name. -/
def DownloadCalls (joins : CStr → CStr → CStr → Prop) (c : WalkCall)
    (e : CSftpEntry) (c' : WalkCall) : Prop :=
  c.isDir = true ∧ ∃ l, joins (lstrcpyn c.local_ MAX_PATH) e.Name l ∧
    c' = ⟨sftpJoin c.remote e.Name MAX_PATH, l, e.IsDir⟩

/-- The call `c` can make the call `c'`. -/
def Descends (L : Listings) (joins : CStr → CStr → CStr → Prop) (c c' : WalkCall) : Prop :=
  ∃ e, e ∈ L c.remote ∧ DownloadCalls joins c e c'

/-- The same host with another server behind it. -/
def Host.withListings (host : Host) (f : ℕ → CStr → Option (List CSftpEntry)) :
    Host := { host with listDir := f }

/-- Nobody cancels, no directory is made, and paths are appended as `joins` says. -/
structure Host.Quiet (host : Host) (joins : CStr → CStr → CStr → Prop) : Prop where
  cancelAtStart : ∀ t, host.cancelAtStart t = false
  cancelInLoop : ∀ t, host.cancelInLoop t = false
  createDirectory : ∀ t, host.createDirectory t = false
  appends : ∀ {path name l}, joins path name l → host.pathAppend path name = l

theorem Host.Quiet.withListings {host : Host}
    {joins : CStr → CStr → CStr → Prop} (h : host.Quiet joins)
    (f : ℕ → CStr → Option (List CSftpEntry)) : (host.withListings f).Quiet joins :=
  ⟨h.cancelAtStart, h.cancelInLoop, h.createDirectory, h.appends⟩

/-- The state `w'` comes after `w`, and neither file system has changed. -/
structure WorkerState.Later (w w' : WorkerState) : Prop where
  disk : w'.disk = w.disk
  server : w'.server = w.server
  cancelled : w'.cancelled = w.cancelled
  remembered : w'.OverwriteAllDecision = w.OverwriteAllDecision

theorem WorkerState.Later.refl (w : WorkerState) : w.Later w := ⟨rfl, rfl, rfl, rfl⟩

theorem WorkerState.Later.trans {u v w : WorkerState} (h : u.Later v) (h' : v.Later w) :
    u.Later w :=
  ⟨h'.disk.trans h.disk, h'.server.trans h.server, h'.cancelled.trans h.cancelled,
    h'.remembered.trans h.remembered⟩

variable {L : Listings} {joins : CStr → CStr → CStr → Prop}

/-- The state in which a quiet directory with one entry makes its only call. -/
def singleCall (c c' : WalkCall) (w : WorkerState) : WorkerState :=
  ((w.next.record (.makeDir .disk c.local_)).next).record (.descend c c')

theorem later_singleCall (c c' : WalkCall) (w : WorkerState) : w.Later (singleCall c c' w) :=
  ⟨rfl, rfl, rfl, rfl⟩

theorem doDownloadBody_single {host : Host} (hq : host.Quiet joins)
    {c : WalkCall} (hd : c.isDir = true)
    {w : WorkerState} (hw : w.cancelled = false) {e : CSftpEntry}
    (hl : host.listDir w.tick c.remote = some [e])
    (rec : Proc WalkCall WorkerState) :
    doDownloadBody host rec c w =
      rec (childCall host c e.Name e.IsDir) (singleCall c (childCall host c e.Name e.IsDir) w) := by
  have hnext : ¬ (w.next.cancelled || host.cancelAtStart w.tick) = true := by
    simp [hw, hq.cancelAtStart]
  rw [doDownloadBody]
  dsimp only
  rw [if_neg hnext, if_neg (by simp [hd])]
  simp only [hl, forEach_singleton, createDirectory, hq.createDirectory,
    Bool.false_and, Bool.false_eq_true,
    if_false, hq.cancelInLoop, WorkerState.record_cancelled,
      WorkerState.next_cancelled, hw, Bool.or_false]
  rfl

/-- `DoDownloadRecursive` can be steered, from the state `w₀` on. -/
theorem doDownload_steerable (L : Listings) (joins : CStr → CStr → CStr → Prop) {w₀ : WorkerState}
    (hw₀ : w₀.cancelled = false) :
    Steerable doDownloadBody WalkCall.remote (fun r e => e ∈ L r) (DownloadCalls joins) Host.listDir
      WorkerState.tick (fun host => host.Quiet joins) (fun w => w₀.Later w)
        (fun w w' => w.log <+: w'.log)
      (fun c c' w => .descend c c' ∈ w.log) Host.withListings where
  sub_refl _ := List.prefix_rfl
  sub_trans h h' := h.trans h'
  single := by
    rintro host c e _ w hq hok hl he ⟨hd, l, hjoin, rfl⟩
    have hchild : childCall host c e.Name e.IsDir =
        ⟨sftpJoin c.remote e.Name MAX_PATH, l, e.IsDir⟩ := by
      rw [childCall, hq.appends hjoin]
    refine ⟨singleCall c (childCall host c e.Name e.IsDir) w,
      hok.trans (later_singleCall _ _ _), rfl, ?_, fun rec => ?_⟩
    · rw [hchild]
      simp [singleCall]
    · rw [doDownloadBody_single hq hd (hok.cancelled.trans hw₀) hl, hchild]
  quiet_withList hq := hq.withListings _
  list_some hf _ := hf
  list_none hf := hf

/-- In some run the call for a given entry is made, and no directory is listed afterwards. -/
theorem exists_download_to {c c' : WalkCall}
    (h : Relation.ReflTransGen (Descends L joins) c c') (hd : c'.isDir = true)
    {e : CSftpEntry} (he : e ∈ L c'.remote) {l : CStr}
    (hl : joins (lstrcpyn c'.local_ MAX_PATH) e.Name l)
    {base : Host} (hq : base.Quiet joins) {w : WorkerState} (ht : w.tick = 0)
    (hw : w.cancelled = false) :
    ∃ (f : ℕ → CStr → Option (List CSftpEntry)) (k : ℕ), (base.withListings f).Lists L ∧
      ∃ w', w.Later w' ∧ (∀ r, f w'.tick r = none) ∧
        .descend c' ⟨sftpJoin c'.remote e.Name MAX_PATH, l, e.IsDir⟩ ∈ w'.log ∧
        ∀ m, (doDownloadRecursive (base.withListings f) m ⟨sftpJoin c'.remote e.Name MAX_PATH, l,
          e.IsDir⟩ w').2.log <+:
          (doDownloadRecursive (base.withListings f) (m + 1 + k) c w).2.log := by
  obtain ⟨f, k, hlists, hnone, hrun⟩ :=
    (doDownload_steerable L joins hw).exists_run_to h he ⟨hd, l, hl, rfl⟩ base hq
  obtain ⟨w', hlater, htick, hmade, hall⟩ := hrun w ht (.refl w)
  exact ⟨f, k, hlists, w', hlater, fun r => hnone _ (by omega) r, hmade, hall⟩

end SalamanderSftp
