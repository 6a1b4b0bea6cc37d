import SalamanderSftp.LocalPath
import SalamanderSftp.Worker.Answers
import SalamanderSftp.Worker.Steering

/-!
# When a download stays inside its directory

The names of a listing are appended to the local path as they come. So whether every path a
directory download creates or writes lies inside the directory of its task depends on the names
alone: on those that can be reached through listings, and on those the user may type
(`download_contained_iff`).
-/

namespace SalamanderSftp

open Components Relation

/-- `PathAppendA` keeps its documented promise where the result fits. -/
def Host.Appends (host : Host) : Prop :=
  ∀ path name, (pathAppended path name).length < MAX_PATH →
    host.pathAppend path name = pathAppended path name

/-- The user leaves the target name alone or types one of these. -/
def Host.Types (host : Host) (names : Set CStr) : Prop :=
  ∀ t, (host.dlgInput t).name = [] ∨ (host.dlgInput t).name ∈ names

/-- A local path that is created or written lies inside `dir`. -/
def Event.WritesInside (dir : CStr) : Event → Prop
  | .makeDir .disk path => Inside dir path
  | .openWrite .disk path _ => Inside dir path
  | _ => True

/-- Every directory download of `remote` to `local_` stays inside `local_`, whatever the server
lists of `L`, the user answers and the file systems hold. -/
def DownloadContained (L : Listings) (names : Set CStr) (remote local_ : CStr) : Prop :=
  ∀ host : Host, host.Lists L → host.Appends → host.Types names → ∀ (depth : ℕ) (w : WorkerState),
    ∀ e ∈ (doDownloadRecursive host depth ⟨remote, local_, true⟩ w.fresh).2.log,
      e.WritesInside local_

/-- The appended path, as long as it fits. -/
def Appended (path name l : CStr) : Prop := l = pathAppended path name ∧ l.length < MAX_PATH

/-- The calls that the download can get to. -/
def Reached (L : Listings) (remote local_ : CStr) : WalkCall → Prop :=
  ReflTransGen (Descends L Appended) ⟨remote, local_, true⟩

def typedTarget (path name : CStr) : CStr :=
  renamedLocal path (typedName (sftpSplitPathAndName path backslash).2 ⟨.overwrite, false, name⟩)

/-- No name leads out: neither a listed one, from a directory the download gets to, nor a typed one,
for a file it gets to. -/
structure NamesStay (L : Listings) (names : Set CStr) (remote local_ : CStr) : Prop where
  listed : ∀ c, Reached L remote local_ c → c.isDir = true → ∀ e ∈ L c.remote,
    (pathAppended (lstrcpyn c.local_ MAX_PATH) e.Name).length < MAX_PATH ∧
      Inside local_ (pathAppended (lstrcpyn c.local_ MAX_PATH) e.Name)
  typed : ∀ c, Reached L remote local_ c → c.isDir = false → ∀ name ∈ names,
    Inside local_ (typedTarget c.local_ name)

/-! ## Staying inside -/

section Stays

variable {L : Listings} {names : Set CStr} {remote local_ : CStr}

theorem NamesStay.inside (h : NamesStay L names remote local_) {c : WalkCall}
    (hc : Reached L remote local_ c) :
    Inside local_ c.local_ := by
  rcases ReflTransGen.cases_tail hc with rfl | ⟨b, hb, e, he, hd, l, ⟨rfl, _⟩, rfl⟩
  · exact Inside.refl _
  · exact (h.listed b hb hd e he).2

theorem typedName_nil (tgtName : CStr) {input : DlgInput} (h : input.name = []) :
    typedName tgtName input = [] := by
  by_cases hb : input.button = .cancel
  · simp [typedName, executeDlg, hb]
  · simp [typedName, executeDlg, hb, h, lstrcpyn]

theorem typedName_button (tgtName : CStr) {input : DlgInput} (h : input.button ≠ .cancel) :
    typedName tgtName input = typedName tgtName ⟨.overwrite, false, input.name⟩ := by
  simp [typedName, executeDlg, h]

/-- The target of a branch is the one it started with, or the one of a typed name. -/
theorem Branch.aim_target {host : Host} {b : Branch} {target : CStr} {resumeOffset : ℕ}
    (h : b.aim host = some (target, resumeOffset)) :
    target = b.path ∨ ∃ c, b.conflict = some c ∧ (host.dlgInput b.tick).button ≠ .cancel ∧
      target =
        SalamanderSftp.renamed b.side b.path (typedName c.tgtName (host.dlgInput b.tick)) := by
  unfold Branch.aim at h
  rcases hc : b.conflict with _ | c
  · rw [hc] at h
    exact Or.inl (Prod.mk.inj (Option.some.inj h)).1.symm
  rw [hc] at h
  dsimp only at h
  split_ifs at h with hgo
  obtain ⟨rfl, rfl⟩ := Prod.mk.inj (Option.some.inj h)
  unfold Branch.ask at hgo ⊢
  by_cases hr : b.remembered = .ask
  · by_cases hw : host.window b.tick = true
    · rw [hr, askOverwriteWorker_ask hw] at hgo ⊢
      have hcan := ((askDialog_go _ _ _ _).mp hgo).2
      exact Or.inr ⟨c, rfl, hcan, by rw [askDialog_newName hcan]⟩
    · left
      rw [hr]
      simp [askOverwriteWorker, hw, renamed_nil]
  · left
    rw [(askOverwriteWorker_remembered hr _ _ _ _ _).1, renamed_nil]

theorem NamesStay.aim (h : NamesStay L names remote local_) {host : Host}
    (ht : host.Types names) {c : WalkCall}
    (hc : Reached L remote local_ c) (hd : c.isDir = false) (t : ℕ)
    (w : WorkerState) {target : CStr}
    {resumeOffset : ℕ}
    (haim : (downloadBranch host t c.remote c.local_ w).aim host = some (target, resumeOffset)) :
    Inside local_ target := by
  rcases Branch.aim_target haim with rfl | ⟨d, hconf, hcan, rfl⟩
  · exact h.inside hc
  · obtain ⟨node, _, rfl⟩ := Option.map_eq_some_iff.mp hconf
    dsimp only
    rcases ht t with hname | hname
    · rw [show (downloadBranch host t c.remote c.local_ w).tick = t from rfl,
        typedName_nil _ hname, renamed_nil]
      exact h.inside hc
    · have hstay := h.typed c hc hd _ hname
      rw [typedTarget,
        ← typedName_button _ (show (host.dlgInput t).button ≠ .cancel from hcan)] at hstay
      exact hstay

theorem downloadContained_of_namesStay (h : NamesStay L names remote local_) :
    DownloadContained L names remote local_ := by
  intro host hlists happends htypes depth w
  refine doDownloadRecursive_rule (P := Reached L remote local_)
    (I := fun w => ∀ e ∈ w.log, e.WritesInside local_)
    (fun hw => hw) ?_ ?_ ?_ depth ReflTransGen.refl (by simp [WorkerState.fresh])
  · intro c w t hc hd hw hcan e he
    set b := downloadBranch host t c.remote c.local_ w with hb
    have hanswers : ∀ e ∈ b.answers host w, e.WritesInside local_ := by
      intro e he
      rcases Branch.eq_of_mem_answers he with rfl | rfl <;> trivial
    have hlog : ∀ e ∈ (fileBranch host b w).2.log, e.WritesInside local_ := by
      by_cases hidle : b.aim host = none ∨ host.cancelBeforeTransfer b.tick = true
      · rw [fileBranch_log_idle hidle]
        intro e he
        simp only [List.mem_append, List.mem_cons] at he
        rcases he with he | rfl | he
        · exact hw e he
        · trivial
        · exact hanswers e he
      · rw [not_or] at hidle
        obtain ⟨⟨target, resumeOffset⟩, haim⟩ := Option.ne_none_iff_exists'.mp hidle.1
        have hin : Inside local_ target := h.aim htypes hc hd t w haim
        rw [fileBranch_log_aim haim (by simpa using hidle.2) hcan rfl]
        intro e he
        simp only [List.mem_append, List.mem_cons] at he
        rcases he with (he | rfl | he | rfl | he) | he
        · exact hw e he
        · trivial
        · exact hanswers e he
        · trivial
        · exact absurd he List.not_mem_nil
        · split_ifs at he
          · obtain rfl := List.mem_singleton.mp he
            exact hin
          · exact absurd he List.not_mem_nil
    exact hlog e he
  · intro c w t hc _ hw e he
    rw [createDirectory_log] at he
    rcases List.mem_append.mp he with he | he
    · exact hw e he
    · obtain rfl := List.mem_singleton.mp he
      exact h.inside hc
  · intro c w t entries e hc hd hl he hw
    have hmem : e ∈ L c.remote := hlists t c.remote entries hl e he
    have hfits := (h.listed c hc hd e hmem).1
    refine ⟨hc.tail ⟨e, hmem, hd, _, ⟨rfl, hfits⟩, ?_⟩, ?_⟩
    · rw [childCall, happends _ _ hfits]
    · intro e' he'
      rw [WorkerState.record_log] at he'
      rcases List.mem_append.mp he' with he' | he'
      · exact hw e' he'
      · obtain rfl := List.mem_singleton.mp he'
        trivial

end Stays

/-! ## Straying -/

/-- A host on which `PathAppendA` leads outside when it fails, and the user types `name`. -/
def straying (outside name : CStr) : Host :=
  { Host.plain with
    pathAppend := fun path more =>
      if (pathAppended path more).length < MAX_PATH then pathAppended path more else outside
    dlgInput := fun _ => ⟨.overwrite, false, name⟩
    createDirectory := fun _ => false }

/-- What `PathAppendA` makes of a path and a name there. -/
def Strays (outside path name l : CStr) : Prop := l = (straying outside []).pathAppend path name

theorem straying_quiet (outside name : CStr) : (straying outside name).Quiet (Strays outside) where
  cancelAtStart _ := rfl
  cancelInLoop _ := rfl
  createDirectory _ := rfl
  appends h := h.symm

theorem Reached.strays {L : Listings} {remote local_ : CStr} {c : WalkCall}
    (h : Reached L remote local_ c)
    (outside : CStr) : ReflTransGen (Descends L (Strays outside)) ⟨remote, local_, true⟩ c := by
  refine ReflTransGen.mono ?_ _ _ h
  rintro c _ ⟨e, he, hd, l, ⟨rfl, hfits⟩, rfl⟩
  exact ⟨e, he, hd, _, (if_pos hfits).symm, rfl⟩

theorem straying_appends (outside name : CStr) (f : ℕ → CStr → Option (List CSftpEntry)) :
    ((straying outside name).withListings f).Appends :=
  fun _ _ hfits => if_pos hfits

section Strays

variable {outside name : CStr} {f : ℕ → CStr → Option (List CSftpEntry)}
  {c : WalkCall} {w : WorkerState}

theorem makeDir_mem (hd : c.isDir = true) (hw : w.cancelled = false)
    (hf : f w.tick = fun _ => none) :
    .makeDir .disk c.local_ ∈
      (doDownloadRecursive ((straying outside name).withListings f) 1 c w).2.log := by
  have hrun : (doDownloadRecursive ((straying outside name).withListings f) 1 c w).2 =
      createDirectory ((straying outside name).withListings f) w.tick c.local_ w.next := by
    have hl : ((straying outside name).withListings f).listDir w.tick c.remote = none :=
      congrFun hf c.remote
    unfold doDownloadRecursive
    rw [Procedure.recurse_succ, doDownloadBody]
    dsimp only
    rw [if_neg (by rw [WorkerState.next_cancelled, hw]; exact Bool.false_ne_true),
      if_neg (by simp [hd]), hl]
  rw [hrun, createDirectory]
  simp [straying, Host.withListings]

theorem openWrite_mem (hd : c.isDir = false) (hw : w.cancelled = false)
    (hserver : w.server = fun _ => some (.file [])) {target : CStr}
    (haim :
      (downloadBranch ((straying outside name).withListings f) w.tick c.remote c.local_ w.next).aim
      ((straying outside name).withListings f) = some (target, 0))
    (hfound : w.disk target ≠ some .dir) :
    .openWrite .disk target (w.disk target) ∈
      (doDownloadRecursive ((straying outside name).withListings f) 1 c w).2.log := by
  have hrun : (doDownloadRecursive ((straying outside name).withListings f) 1 c w).2 =
      (fileBranch ((straying outside name).withListings f)
        (downloadBranch ((straying outside name).withListings f) w.tick c.remote c.local_ w.next)
          w.next).2 := by
    unfold doDownloadRecursive
    rw [Procedure.recurse_succ, doDownloadBody]
    dsimp only
    rw [if_neg (by rw [WorkerState.next_cancelled, hw]; exact Bool.false_ne_true),
      if_pos (by simp [hd])]
    rfl
  have hopened : ((downloadBranch
      ((straying outside name).withListings f) w.tick c.remote c.local_ w.next).transfer
      ((straying outside name).withListings f) target 0).opened = true := by
    have hsource : w.next.server.content?
        (((straying outside name).withListings f).serverKey c.remote) = some [] := by
      simp [WorkerState.next, Store.content?, hserver, FsNode.content?]
    unfold Branch.transfer SalamanderSftp.transfer Branch.found
    simp only [downloadBranch]
    rw [hsource]
    have hkey : ((straying outside name).withListings f).key .disk target = target := rfl
    rw [hkey, show w.next.disk = w.disk from rfl]
    rcases hnode : w.disk target with _ | _ | _
    · rfl
    · rfl
    · exact absurd hnode hfound
  rw [hrun, fileBranch_log_aim haim rfl (show w.next.cancelled = false from hw) rfl, if_pos hopened]
  exact List.mem_append_right _ (List.mem_singleton_self _)

/-- The user types another name for an existing file. -/
theorem aim_typed (hr : w.OverwriteAllDecision = .ask)
    (hdisk : w.disk = fun _ => some (.file [])) {t : ℕ}
    {remote local_ : CStr} :
    (downloadBranch ((straying outside name).withListings f) t remote local_ w).aim
      ((straying outside name).withListings f) = some (typedTarget local_ name, 0) := by
  have hconf :
      (downloadBranch ((straying outside name).withListings f) t remote local_ w).conflict =
      some ⟨(sftpSplitPathAndName local_ backslash).2, 0,
        remoteFileSize ((straying outside name).withListings f) t w remote⟩ := by
    simp [downloadBranch, hdisk, FsNode.size]
  have hask : ∀ c, (downloadBranch ((straying outside name).withListings f) t remote local_ w).ask
      ((straying outside name).withListings f) c =
        askDialog c.tgtName c.existingSize c.newSize ⟨.overwrite, false, name⟩ := by
    intro c
    unfold Branch.ask
    rw [show (downloadBranch
      ((straying outside name).withListings f) t remote local_ w).remembered = .ask from hr,
      askOverwriteWorker_ask (by rfl)]
    rfl
  have hname : ∀ tgt n, (askDialog tgt 0 n ⟨.overwrite, false, name⟩).newName =
      typedName tgt ⟨.overwrite, false, name⟩ := fun _ n => askDialog_newName (by simp) 0 n
  unfold Branch.aim
  rw [hconf]
  dsimp only
  rw [hask, if_pos ((askDialog_go _ _ _ _).mpr (by simp)), hname]
  rfl

end Strays

section Necessity

variable {L : Listings} {names : Set CStr} {remote local_ : CStr}
  (h : DownloadContained L names remote local_)

include h

/-- The path of a listed entry: it stays inside, or the run that goes there would stray. -/
theorem DownloadContained.listed {c : WalkCall}
    (hc : Reached L remote local_ c) (hd : c.isDir = true)
    {e : CSftpEntry} (he : e ∈ L c.remote) :
    (pathAppended (lstrcpyn c.local_ MAX_PATH) e.Name).length < MAX_PATH ∧
      Inside local_ (pathAppended (lstrcpyn c.local_ MAX_PATH) e.Name) := by
  obtain ⟨outside, houtside⟩ := exists_not_inside local_
  obtain ⟨f, k, hlists, w', hlater, hnone, -, hall⟩ :=
    exists_download_to (hc.strays outside) hd he rfl
    (straying_quiet outside []) (w := .start (fun _ => none) fun _ => some (.file [])) rfl rfl
  generalize hl : (straying outside []).pathAppend (lstrcpyn c.local_ MAX_PATH) e.Name = l at hall
  have hlog : ∀ ev ∈ (doDownloadRecursive ((straying outside []).withListings f) 1
      ⟨sftpJoin c.remote e.Name MAX_PATH, l, e.IsDir⟩ w').2.log, ev.WritesInside local_ :=
        fun ev hev =>
    h _ hlists (straying_appends _ _ _) (fun _ => Or.inl rfl) _
      (.start (fun _ => none) fun _ => some (.file [])) ev
      ((hall 1).subset hev)
  have hw : w'.cancelled = false := hlater.cancelled
  have hin : Inside local_ l := by
    by_cases hdir : e.IsDir = true
    · exact hlog (.makeDir .disk l) (makeDir_mem hdir hw (funext hnone))
    · have hdisk : w'.disk = fun _ => none := hlater.disk
      refine hlog (.openWrite .disk l (w'.disk l))
        (openWrite_mem (by simpa using hdir : e.IsDir = false) hw hlater.server ?_
          (by simp [hdisk]))
      simp [Branch.aim, downloadBranch, WorkerState.next, hdisk]
  by_cases hfits : (pathAppended (lstrcpyn c.local_ MAX_PATH) e.Name).length < MAX_PATH
  · rw [show l = pathAppended (lstrcpyn c.local_ MAX_PATH) e.Name from hl.symm.trans (if_pos hfits)]
      at hin
    exact ⟨hfits, hin⟩
  · rw [show l = outside from hl.symm.trans (if_neg hfits)] at hin
    exact absurd hin houtside

/-- The target of a typed name: the run in which the user types it. -/
theorem DownloadContained.typed {c : WalkCall}
    (hc : Reached L remote local_ c) (hd : c.isDir = false)
    {name : CStr} (hname : name ∈ names) : Inside local_ (typedTarget c.local_ name) := by
  rcases ReflTransGen.cases_tail hc with heq | ⟨b, hb, e, he, hbd, l, ⟨rfl, hfits⟩, rfl⟩
  · rw [heq] at hd
    exact absurd hd (by simp)
  obtain ⟨f, k, hlists, w', hlater, -, -, hall⟩ :=
    exists_download_to (Reached.strays hb []) hbd he (if_pos hfits).symm
    (straying_quiet [] name)
    (w := .start (fun _ => some (.file [])) fun _ => some (.file [])) rfl rfl
  have hw : w'.cancelled = false := hlater.cancelled
  have hdisk : w'.disk = fun _ => some (.file []) := hlater.disk
  refine h _ hlists (straying_appends _ _ _) (fun _ => Or.inr hname) _
    (.start (fun _ => some (.file [])) fun _ => some (.file []))
    (.openWrite .disk (typedTarget _ name) _)
    ((hall 1).subset (openWrite_mem hd hw hlater.server ?_ (by simp [hdisk])))
  exact aim_typed hlater.remembered hdisk

end Necessity

/-- Plain names below a drive path stay, as long as the appended paths fit and nobody types a
name. -/
theorem namesStay_of_plain {L : Listings} {remote : CStr} {letter : Byte} {parts : List CStr}
    (hletter : isSlash letter = false) (hparts : PlainParts parts)
    (hfits : (drivePath letter parts).length < MAX_PATH)
    (hnames : ∀ r, ∀ e ∈ L r, PlainName e.Name)
    (hlong : ∀ c, Reached L remote (drivePath letter parts) c → c.isDir = true → ∀ e ∈ L c.remote,
      (pathAppended (lstrcpyn c.local_ MAX_PATH) e.Name).length < MAX_PATH) :
    NamesStay L ∅ remote (drivePath letter parts) := by
  have hbelow : ∀ c, Reached L remote (drivePath letter parts) c → c.local_.length < MAX_PATH ∧
      ∃ more, PlainParts (parts ++ more) ∧ c.local_ = drivePath letter (parts ++ more) := by
    intro c hc
    induction hc with
    | refl => exact ⟨hfits, [], by simpa using hparts, by simp⟩
    | tail _ hstep ih =>
      obtain ⟨e, he, _, l, ⟨rfl, hl⟩, rfl⟩ := hstep
      obtain ⟨hlen, more, hmore, hlocal⟩ := ih
      have hname := hnames _ e he
      refine ⟨hl, more ++ [e.Name], ?_, ?_⟩
      · rw [← List.append_assoc]
        exact hmore.append hname.plain
      · rw [lstrcpyn_eq_self hlen, hlocal,
          pathAppended_drivePath hletter hmore hname, List.append_assoc]
  refine ⟨fun c hc hd e he => ⟨hlong c hc hd e he, ?_⟩,
    fun _ _ _ _ hname => absurd hname (Set.notMem_empty _)⟩
  obtain ⟨hlen, more, hmore, hlocal⟩ := hbelow c hc
  have hname := hnames _ e he
  rw [lstrcpyn_eq_self hlen, hlocal, pathAppended_drivePath hletter hmore hname, List.append_assoc]
  refine inside_drivePath hletter ?_
  rw [← List.append_assoc]
  exact hmore.append hname.plain

theorem downloadContained_iff (L : Listings) (names : Set CStr) (remote local_ : CStr) :
    DownloadContained L names remote local_ ↔ NamesStay L names remote local_ :=
  ⟨fun h => ⟨fun _ hc hd _ he => h.listed hc hd he, fun _ hc hd _ hname => h.typed hc hd hname⟩,
    downloadContained_of_namesStay⟩

/-- The downloads of a directory stay inside it if and only if no listed or typed name leads out,
and every appended path fits its buffer: for plain names below a drive path, and nobody who types a
name, when the paths fit. -/
theorem download_contained_iff (L : Listings) (names : Set CStr) (remote local_ : CStr) :
    (DownloadContained L names remote local_ ↔ NamesStay L names remote local_) ∧
    (∀ (letter : Byte) (parts : List CStr), isSlash letter = false → PlainParts parts →
      (drivePath letter parts).length < MAX_PATH → (∀ r, ∀ e ∈ L r, PlainName e.Name) →
      (∀ c, Reached L remote (drivePath letter parts) c → c.isDir = true → ∀ e ∈ L c.remote,
        (pathAppended (lstrcpyn c.local_ MAX_PATH) e.Name).length < MAX_PATH) →
      DownloadContained L ∅ remote (drivePath letter parts)) := by
  refine ⟨downloadContained_iff L names remote local_, ?_⟩
  intro letter parts hletter hparts hfits hnames hlong
  exact downloadContained_of_namesStay (namesStay_of_plain hletter hparts hfits hnames hlong)

/-- A server that lists one file, under a name that climbs out. -/
def climbingServer : Listings := fun _ => [⟨ascii "..\\x", false, false, 0, 0, 0, [], []⟩]

/-- Its file is written next to the directory of the task. -/
theorem not_download_contained :
    ¬ ∀ (L : Listings) (remote local_ : CStr), (∀ r, ∀ e ∈ L r, ¬ IsDots e.Name) →
      DownloadContained L ∅ remote local_ := by
  intro h
  have hcontained := h climbingServer (ascii "/d") (ascii "C:\\t") fun r e he => by
    obtain rfl := List.mem_singleton.mp he
    decide
  have hin := (hcontained.listed ReflTransGen.refl rfl (List.mem_singleton_self _)).2
  exact absurd hin (by decide)

end SalamanderSftp
