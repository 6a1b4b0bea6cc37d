import SalamanderSftp.LocalPath
import SalamanderSftp.PathLaws
import SalamanderSftp.Worker.Runs

/-!
# Another name for the target

The file branches cut the target at its last separator and put the name from the conflict dialog
behind what is left. The directory of the target is kept unless nothing is left of it: a file
directly in the root loses the root (`alternate_name_stays_iff`).
-/

namespace SalamanderSftp

open Components

/-! ## Paths on either side -/

def isSeparator : Side → Byte → Bool
  | .disk => isSlash
  | .server => (· == slash)

/-- The separator that `SftpSplitPathAndName` is called with. -/
def Side.separator : Side → Byte
  | .disk => backslash
  | .server => slash

/-- The place that a path names: the root, and the names below it. -/
def place : Side → CStr → CStr × List CStr
  | .disk, path => ((splitRoot path).1, tokens isSlash (splitRoot path).2)
  | .server, path => (if path.head? = some slash then [slash] else [], tokens (· == slash) path)

theorem place_disk (path : CStr) :
    place .disk path = ((splitRoot path).1, tokens isSlash (splitRoot path).2) := rfl

theorem place_server (path : CStr) :
    place .server path =
      (if path.head? = some slash then [slash] else [], tokens (· == slash) path) := rfl

/-- `C:\`, `\\` and `\` on the disk, and `/` on the server. -/
def AbsolutePath (side : Side) (path : CStr) :
    Prop := (place side path).1.getLast? = some side.separator

/-- The path as a directory up to its last separator, and a name behind it. -/
structure Target (side : Side) (path : CStr) where
  dir : CStr
  separator : Byte
  name : CStr
  text : path = dir ++ separator :: name
  isSeparator : isSeparator side separator = true
  last : ∀ c ∈ name, SalamanderSftp.isSeparator side c = false

theorem separator_iff (side : Side) (c : Byte) :
    (c == side.separator || (side.separator == backslash && c == slash)) = isSeparator side c := by
  cases side
  · change (c == backslash || (true && c == slash)) = (c == slash || c == backslash)
    rw [Bool.true_and, Bool.or_comm]
  · change (c == slash || (false && c == slash)) = (c == slash)
    rw [Bool.false_and, Bool.or_false]

theorem splitPath_eq {side : Side} {path : CStr} (t : Target side path) :
    sftpSplitPathAndName path side.separator = (t.dir, t.name) := by
  have hsplit : splitLast (isSeparator side) path = some (t.dir, t.name) :=
    (congrArg _ t.text).trans (splitLast_append t.isSeparator t.dir t.last)
  unfold sftpSplitPathAndName
  simp only [separator_iff, hsplit]

theorem Target.of_mem {side : Side} {path : CStr}
    (h : ∃ c ∈ path, SalamanderSftp.isSeparator side c = true) :
    Nonempty (Target side path) := by
  obtain ⟨dir, separator, name, htext, hsep, hlast⟩ := exists_last h
  exact ⟨⟨dir, separator, name, htext, hsep, hlast⟩⟩

theorem splitRoot_of_plain {path : CStr} (h : ∀ c ∈ path, isSlash c = false) :
    (splitRoot path).1.getLast? ≠ some backslash := by
  match path with
  | [] => simp [splitRoot]
  | [c] => simp [splitRoot, h c (by simp)]
  | [c, d] =>
    have hc := h c (by simp)
    by_cases hd : d = colon <;> simp [splitRoot, hc, hd]
    decide
  | c :: d :: e :: rest =>
    have hc := h c (by simp)
    have he := h e (by simp)
    by_cases hd : d = colon <;> simp [splitRoot, hc, hd, he]
    decide

theorem AbsolutePath.target {side : Side} {path : CStr} (h : AbsolutePath side path) :
    Nonempty (Target side path) := by
  refine Target.of_mem ?_
  by_contra hnone
  have hplain : ∀ c ∈ path, isSeparator side c = false := by
    intro c hc
    by_contra hsep
    exact hnone ⟨c, hc, by simpa using hsep⟩
  cases side with
  | disk => exact splitRoot_of_plain hplain h
  | server =>
    cases path with
    | nil => simp [AbsolutePath, place] at h
    | cons c path =>
      by_cases hc : c = slash
      · subst hc
        exact absurd (hplain slash List.mem_cons_self) (by decide)
      · unfold AbsolutePath place at h
        simp [hc] at h

/-! ## The join -/

/-- The root of a path does not depend on which separator stands behind a directory. -/
theorem splitRoot_append {dir : CStr} (h : dir ≠ []) (name : CStr) : ∃ root,
    (∀ c, isSlash c = true → splitRoot (dir ++ c :: name) = (root, name)) ∨
      ∃ rest, ∀ c, isSlash c = true → splitRoot (dir ++ c :: name) = (root, rest ++ c :: name) := by
  have hcolon : ∀ e : Byte, isSlash e = true → e ≠ colon := by
    rintro e he rfl
    exact absurd he (by decide)
  match dir with
  | [x] =>
    by_cases hx : isSlash x = true
    · exact ⟨[backslash, backslash], .inl fun c hc => by simp [splitRoot, hx, hc]⟩
    · exact ⟨[], .inr ⟨[x], fun c hc => by simp [splitRoot, hx, hcolon c hc]⟩⟩
  | [x, y] =>
    by_cases hx : isSlash x = true
    · by_cases hy : isSlash y = true
      · exact ⟨[backslash, backslash], .inr ⟨[], fun c _ => by simp [splitRoot, hx, hy]⟩⟩
      · exact ⟨[backslash], .inr ⟨[y], fun c _ => by simp [splitRoot, hx, hy]⟩⟩
    · by_cases hy : y = colon
      · exact ⟨[x, colon, backslash], .inl fun c hc => by simp [splitRoot, hx, hy, hc]⟩
      · exact ⟨[], .inr ⟨[x, y], fun c _ => by simp [splitRoot, hx, hy]⟩⟩
  | x :: y :: z :: dir =>
    by_cases hx : isSlash x = true
    · by_cases hy : isSlash y = true
      · exact ⟨[backslash, backslash], .inr ⟨z :: dir, fun c _ => by simp [splitRoot, hx, hy]⟩⟩
      · exact ⟨[backslash], .inr ⟨y :: z :: dir, fun c _ => by simp [splitRoot, hx, hy]⟩⟩
    · by_cases hy : y = colon
      · by_cases hz : isSlash z = true
        · exact ⟨[x, colon, backslash], .inr ⟨dir, fun c _ => by simp [splitRoot, hx, hy, hz]⟩⟩
        · exact ⟨[x, colon], .inr ⟨z :: dir, fun c _ => by simp [splitRoot, hx, hy, hz]⟩⟩
      · exact ⟨[], .inr ⟨x :: y :: z :: dir, fun c _ => by simp [splitRoot, hx, hy]⟩⟩

theorem place_disk_separator {dir : CStr} (h : dir ≠ []) {c d : Byte}
    (hc : isSlash c = true) (hd : isSlash d = true)
    (name : CStr) : place .disk (dir ++ c :: name) = place .disk (dir ++ d :: name) := by
  rw [place_disk, place_disk]
  obtain ⟨root, hroot | ⟨rest, hroot⟩⟩ := splitRoot_append h name
  · rw [hroot c hc, hroot d hd]
  · rw [hroot c hc, hroot d hd]
    dsimp only
    rw [tokens_append_cons rest name hc, tokens_append_cons rest name hd]

/-- Nor does it matter on the server whether a separator is doubled. -/
theorem place_server_double (dir name : CStr) :
    place .server (dir ++ slash :: name) = place .server (dir ++ slash :: slash :: name) := by
  have hcut : ∀ rest : CStr, tokens (· == slash) (dir ++ slash :: rest) =
      tokens (· == slash) dir ++ tokens (· == slash) rest :=
        fun rest => tokens_append_cons dir rest (by decide)
  have hskip : tokens (· == slash) (slash :: name) = tokens (· == slash) name :=
    tokens_cons name (by decide)
  rw [place_server, place_server, hcut, hcut, hskip]
  cases dir <;> rfl

section Renamed

variable {side : Side} {path : CStr} (t : Target side path) {newName : CStr}

theorem renamed_same : renamed side path t.name = path := by
  have hsplit := splitPath_eq t
  cases side with
  | disk =>
    change sftpSplitPathAndName path backslash = _ at hsplit
    simp [renamed, renamedLocal, hsplit]
  | server =>
    change sftpSplitPathAndName path slash = _ at hsplit
    simp [renamed, renamedRemote, hsplit]

theorem renamed_root (hdir : t.dir = []) (hne : newName ≠ []) (hnew : newName ≠ t.name) :
    renamed side path newName = newName := by
  have hsplit := splitPath_eq t
  rw [hdir] at hsplit
  cases side with
  | disk =>
    change sftpSplitPathAndName path backslash = _ at hsplit
    simp [renamed, renamedLocal, hsplit, hne, hnew]
  | server =>
    change sftpSplitPathAndName path slash = _ at hsplit
    simp [renamed, renamedRemote, hsplit, hne, hnew]

/-- Behind a directory the new name is in it. -/
theorem place_renamed (hdir : t.dir ≠ []) (hne : newName ≠ []) (hnew : newName ≠ t.name) :
    place side (renamed side path newName) = place side (t.dir ++ t.separator :: newName) := by
  have hsplit := splitPath_eq t
  have hsep := t.isSeparator
  cases side with
  | disk =>
    change sftpSplitPathAndName path backslash = _ at hsplit
    have heq : renamed .disk path newName = t.dir ++ backslash :: newName := by
      simp [renamed, renamedLocal, hsplit, hne, hnew, hdir]
    rw [heq]
    exact place_disk_separator hdir (by decide) hsep newName
  | server =>
    change sftpSplitPathAndName path slash = _ at hsplit
    have hslash : t.separator = slash := by simpa [isSeparator] using hsep
    rw [hslash]
    by_cases hlast : t.dir.getLast? = some slash
    · have heq : renamed .server path newName = t.dir ++ newName := by
        simp [renamed, renamedRemote, hsplit, hne, hnew, hdir, hlast]
      obtain ⟨dir, hd⟩ := List.getLast?_eq_some_iff.mp hlast
      rw [heq, hd, List.append_assoc, List.append_assoc]
      exact place_server_double dir newName
    · have heq : renamed .server path newName = t.dir ++ slash :: newName := by
        simp [renamed, renamedRemote, hsplit, hne, hnew, hdir, hlast]
      rw [heq]

/-- A name without a separator is not below the root. -/
theorem place_ne_root (hne : newName ≠ []) (hplain : ∀ c ∈ newName, isSeparator side c = false) :
    place side newName ≠ place side (t.separator :: newName) := by
  intro h
  obtain ⟨c, rest, rfl⟩ := List.exists_cons_of_ne_nil hne
  have hsep := t.isSeparator
  have hc := hplain c List.mem_cons_self
  cases side with
  | disk =>
    have hroot := congrArg (fun p => p.1.getLast?) h
    refine splitRoot_of_plain hplain (hroot.trans ?_)
    have hslash : isSlash t.separator = true := hsep
    have hc : isSlash c = false := hc
    simp [place, splitRoot, hslash, hc]
  | server =>
    have hslash : t.separator = slash := by simpa [isSeparator] using hsep
    have hc : c ≠ slash := by
      rintro rfl
      exact absurd hc (by decide)
    rw [hslash, place_server, place_server] at h
    simp [hc] at h

theorem place_renamed_iff (hne : newName ≠ [])
    (hplain : ∀ c ∈ newName, isSeparator side c = false) :
    place side (renamed side path newName) = place side (t.dir ++ t.separator :: newName) ↔
      t.dir ≠ [] ∨ newName = t.name := by
  by_cases hnew : newName = t.name
  · rw [hnew, renamed_same, ← t.text]
    exact iff_of_true rfl (.inr rfl)
  by_cases hdir : t.dir = []
  · rw [renamed_root t hdir hne hnew, hdir]
    exact iff_of_false (place_ne_root t hne hplain) (by simp [hnew])
  · exact iff_of_true (place_renamed t hdir hne hnew) (.inl hdir)

end Renamed

/-! ## The file branches -/

/-- A new name has at least one character and no separator. -/
structure NewName (side : Side) (name : CStr) : Prop where
  nonempty : name ≠ []
  plain : ∀ c ∈ name, isSeparator side c = false

theorem transferTo_events (host : Host) (b : Branch) (target : CStr)
    (resumeOffset : ℕ) (w : WorkerState) :
    ∃ events, (transferTo host b target resumeOffset w).2.log = w.log ++ events ∧
      ∀ path offset found, Event.transfer b.side path offset found ∈ events → path = target := by
  unfold transferTo
  dsimp only
  split_ifs
  · exact ⟨[], (List.append_nil _).symm, fun _ _ _ h => absurd h List.not_mem_nil⟩
  · refine ⟨[_, _], by rw [WorkerState.put_log, WorkerState.record_log, WorkerState.record_log,
      List.append_assoc]; rfl, ?_⟩
    intro path offset found h
    rcases List.mem_cons.mp h with heq | h
    · exact (Event.transfer.inj heq).2.1
    · cases List.mem_singleton.mp h
  · refine ⟨[_], WorkerState.record_log _ _, fun path offset found h => ?_⟩
    exact (Event.transfer.inj (List.mem_singleton.mp h)).2.1

/-- The transfer of a file branch goes where its conflict was answered to. -/
theorem transfer_fileBranch {host : Host} {b : Branch} {w : WorkerState}
    {events : List Event} {c : Conflict}
    {path : CStr} {resumeOffset : ℕ} {found : Option FsNode} (hc : b.conflict = some c)
    (hlog : (fileBranch host b w).2.log = w.log ++ events)
    (h : .transfer b.side path resumeOffset found ∈ events) :
    path = renamed b.side b.path (b.ask host c).newName := by
  have hremember := WorkerState.remember_log (w.record (.branch b)) (b.ask host c) b.side b.path
  rw [WorkerState.record_log, List.append_assoc, List.singleton_append] at hremember
  have hasked : .transfer b.side path resumeOffset found ∉
      Event.branch b :: (w.record (.branch b)).asked (b.ask host c) b.side b.path := by
    intro hmem
    rcases List.mem_cons.mp hmem with heq | hmem
    · cases heq
    · rcases WorkerState.eq_of_mem_asked hmem with heq | heq <;> cases heq
  have hidle : (fileBranch host b w).2.log ≠
      ((w.record (.branch b)).remember (b.ask host c) b.side b.path).log := by
    intro heq
    rw [heq, hremember] at hlog
    rw [← List.append_cancel_left hlog] at h
    exact hasked h
  rcases hd : (b.ask host c).decision with _ | _ | _
  · obtain ⟨more, hmore, htarget⟩ :=
      transferTo_events host b (renamed b.side b.path (b.ask host c).newName)
      (b.ask host c).resumeOffset ((w.record (.branch b)).remember (b.ask host c) b.side b.path)
    rw [fileBranch_go hc hd, hmore, hremember, List.append_assoc] at hlog
    rw [← List.append_cancel_left hlog] at h
    exact htarget _ _ _ ((List.mem_append.mp h).resolve_left hasked)
  · exact absurd (by rw [fileBranch_skip hc hd]) hidle
  · exact absurd (by rw [fileBranch_cancel hc hd]) hidle

/-- A new name stays in the target's directory exactly when the last separator of the target is not
its first character. -/
theorem alternate_name_stays_iff {host : Host} {b : Branch} {w : WorkerState}
    {events : List Event} {c : Conflict}
    {path : CStr} {resumeOffset : ℕ} {found : Option FsNode} (habs : AbsolutePath b.side b.path)
    (hc : b.conflict = some c) (hname : NewName b.side (b.ask host c).newName)
    (hlog : (fileBranch host b w).2.log = w.log ++ events)
    (h : .transfer b.side path resumeOffset found ∈ events) :
    ∃ t : Target b.side b.path,
      (place b.side path = place b.side (t.dir ++ t.separator :: (b.ask host c).newName) ↔
        t.dir ≠ [] ∨ (b.ask host c).newName = t.name) := by
  obtain ⟨t⟩ := habs.target
  refine ⟨t, ?_⟩
  rw [transfer_fileBranch hc hlog h]
  exact place_renamed_iff t hname.nonempty hname.plain

/-- The user types the name "n" for every target. -/
def namesN : Host := { Host.plain with dlgInput := fun _ => ⟨.ok, false, ascii "n"⟩ }

/-- A file branch of an upload that finds its target on the server. -/
def uploadTo (path : CStr) :
    Branch := ⟨.server, 0, some [], path, some ⟨ascii "f", 0, 0⟩, fun _ => none, .ask⟩

theorem plain_letter (side : Side) {letter : Byte} {name : CStr} (hname : name = [letter])
    (hslash : isSlash letter = false) : ∀ c ∈ name, isSeparator side c = false := by
  intro c hc
  rw [hname] at hc
  rw [List.mem_singleton.mp hc]
  cases side
  · exact hslash
  · exact (Bool.or_eq_false_iff.mp hslash).1

theorem newName_n (side : Side) : NewName side (ascii "n") :=
  ⟨by decide, plain_letter side (show ascii "n" = [110] by decide) rfl⟩

theorem uploadTo_transfer {path target : CStr} (h : (uploadTo path).aim namesN = some (target, 0)) :
    ∃ events, (fileBranch namesN (uploadTo path) (.start (fun _ => none) fun _ => none)).2.log =
      [] ++ events ∧
      .transfer .server target 0 none ∈ events := by
  rw [fileBranch_log_aim h rfl rfl rfl]
  refine ⟨_, List.append_assoc _ _ _, List.mem_append_left _ (List.mem_cons_of_mem _ ?_)⟩
  exact List.mem_append_right _ (List.mem_singleton.mpr rfl)

/-- A file in a directory of the server. -/
theorem alternate_name_stays_dir : ∃ t : Target .server (ascii "/d/f"),
    (place .server (ascii "/d/n") = place .server (t.dir ++ t.separator :: ascii "n") ↔
      t.dir ≠ [] ∨ ascii "n" = t.name) := by
  obtain ⟨events, hlog, htransfer⟩ :=
    uploadTo_transfer (show (uploadTo (ascii "/d/f")).aim namesN = some (ascii "/d/n", 0) by decide)
  exact alternate_name_stays_iff (show AbsolutePath .server (ascii "/d/f") by rfl) rfl
    (newName_n .server) hlog htransfer

/-- A file in the root of the server is uploaded to a relative path. -/
theorem not_alternate_name_stays :
    ¬ ∀ (host : Host) (b : Branch) (w : WorkerState) (events : List Event) (c : Conflict)
    (path : CStr) (resumeOffset : ℕ) (found : Option FsNode), AbsolutePath b.side b.path →
    b.conflict = some c →
    NewName b.side (b.ask host c).newName → (fileBranch host b w).2.log = w.log ++ events →
    .transfer b.side path resumeOffset found ∈ events → ∀ t : Target b.side b.path,
      place b.side path = place b.side (t.dir ++ t.separator :: (b.ask host c).newName) := by
  intro h
  obtain ⟨events, hlog, htransfer⟩ :=
    uploadTo_transfer (show (uploadTo (ascii "/f")).aim namesN = some (ascii "n", 0) by decide)
  have hplace :=
    h namesN (uploadTo (ascii "/f")) _ events ⟨ascii "f", 0, 0⟩ (ascii "n") 0 none (by rfl) rfl
    (newName_n .server) hlog htransfer
    ⟨[], slash, ascii "f", rfl, rfl, plain_letter .server (show ascii "f" = [102] by decide) rfl⟩
  exact absurd (congrArg Prod.fst hplace) (by decide)

end SalamanderSftp
