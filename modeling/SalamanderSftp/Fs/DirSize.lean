import SalamanderSftp.Fs.PlainNames
import SalamanderSftp.Lib.BoundedWalk

/-!
# The size of a directory over SFTP

`SftpDirSize` adds up what it finds in a directory and in the directories below it. It goes at most
51 levels deep, a directory that it cannot list is empty to it, and it builds the paths with
`SftpJoin`. The numbers are exact where the paths it comes to list every entry once and nothing
else, as they do in a tree of plain names that is not too deep (`sftp_dir_size_iff`).
-/

namespace SalamanderSftp

open Components FileTree BoundedWalk

/-! ## Listings with sizes -/

/-- What `ListDir` lists for a path; in SCP mode this can be something else than a directory, under
the path it was given. -/
inductive ListedAs
  | dir (q : List CStr)
  | itself (q : List CStr) (path : CStr)
  deriving DecidableEq

/-- An entry as `SftpDirSize` sees it. -/
structure SizedEntry extends RemoteEntry where
  IsLink : Bool
  Size : UInt64
  /-- Not in the source: where it lies, if it is an entry of the directory that was to be listed. -/
  location : Option (List CStr)

def SizedEntry.isSubdir (e : SizedEntry) : Bool := e.IsDir && !e.IsLink

/-- A further line of a name; its size is what is printed there. -/
def CSftpEntry.toSized (e : CSftpEntry) : SizedEntry := ⟨e.toRemote, e.IsLink, .ofNat e.Size, none⟩

namespace Conn

variable (conn : Conn) (t : RemoteTree) (size : List CStr → UInt64)

def listed (path : CStr) : Option ListedAs :=
  if conn.scpMode then
    (conn.denotes t path).map fun q =>
      if t.lookup q = some .dir then .dir q else .itself q (conn.toServer path)
  else (conn.target t path).bind fun q => if t.lookup q = some .dir then some (.dir q) else none

def readName (q : List CStr) (x : Node CStr Bytes) (name : CStr) : CStr :=
  readText (lsLetter x) ((textLines (conn.nameText q x name)).headD [])

/-- The entries that are read in the further lines of a row. -/
def strays (q : List CStr) (x : Node CStr Bytes) (name : CStr) : List CSftpEntry :=
  if conn.scpMode then (textLines (conn.nameText q x name)).tail.filterMap (scpEntry conn.display)
  else []

/-- The row is read as an entry; in SCP mode it is not if the name is read as dots. -/
def Reads (q : List CStr) (x : Node CStr Bytes) (name : CStr) : Prop :=
  conn.scpMode = true → ¬ IsDots (conn.readName q x name)

instance (q : List CStr) (x : Node CStr Bytes) (name : CStr) : Decidable (conn.Reads q x name) := by
  unfold Reads
  infer_instance

def sizedEntry (q : List CStr) (x : Node CStr Bytes) (name : CStr) (location : Option (List CStr)) :
    SizedEntry :=
  let shown := if conn.scpMode then cstr (conn.readName q x name) else name
  ⟨⟨conn.display shown, lsLetter x == 100⟩, lsLetter x == 108, size q, location⟩

/-- What a listing shows of a node, under this name; `size` has the sizes of the objects on the
server. -/
def sizedOf (q : List CStr) (x : Node CStr Bytes) (name : CStr) (location : Option (List CStr)) :
    List SizedEntry :=
  (if conn.Reads q x name then [conn.sizedEntry size q x name location] else []) ++
    (conn.strays q x name).map CSftpEntry.toSized

def sizedEntries : ListedAs → List SizedEntry
  | .dir q => (t.names q).flatMap fun n =>
      (t.lookup (q ++ [n])).elim [] (conn.sizedOf size (q ++ [n]) · n (some (q ++ [n])))
  | .itself q path => (t.lookup q).elim [] (conn.sizedOf size q · path none)

/-- `ListDir`, with all it finds. -/
def listSized (path : CStr) : Option (List SizedEntry) :=
  (conn.listed t path).map (conn.sizedEntries t size)

theorem map_sizedOf (q : List CStr) (x : Node CStr Bytes) (name : CStr)
    (location : Option (List CStr)) :
    (conn.sizedOf size q x name location).map SizedEntry.toRemoteEntry =
      conn.entriesOf q x name := by
  have hletter : (lsLetter x == 100) = decide (x = .dir) := by
    rcases x with content | _ | ⟨rooted, target⟩ <;> rfl
  have hstrays : ∀ es : List CSftpEntry, (es.map CSftpEntry.toSized).map SizedEntry.toRemoteEntry =
      es.map CSftpEntry.toRemote := fun es => List.map_map ..
  unfold sizedOf sizedEntry strays entriesOf Reads
  rw [List.map_append, hstrays]
  by_cases hscp : conn.scpMode = true
  · simp only [hscp, forall_const, if_true]
    unfold readRow readName
    dsimp only
    split_ifs
    · rfl
    · rfl
  · simp only [hscp, false_implies, if_true, Bool.false_eq_true, if_false, hletter]
    rfl

theorem listSized_listing (path : CStr) :
    (conn.listSized t size path).map (List.map SizedEntry.toRemoteEntry) = conn.listing t path := by
  have hentries : ∀ q, (conn.sizedEntries t size (.dir q)).map SizedEntry.toRemoteEntry =
      conn.entriesAt t q := by
    intro q
    rw [sizedEntries, List.map_flatMap]
    refine List.flatMap_congr fun n _ => ?_
    cases t.lookup (q ++ [n]) with
    | none => rfl
    | some x => exact conn.map_sizedOf size ..
  unfold listSized listed listing
  by_cases hscp : conn.scpMode = true
  · rw [if_pos hscp, if_pos hscp, Option.map_map, Option.map_map]
    rcases hq : conn.denotes t path with _ | q
    · rfl
    · obtain ⟨x, hx⟩ := denotes_exists hq
      rw [Option.map_some, Option.bind_some, hx, Option.map_some]
      dsimp only [Function.comp]
      rw [hx]
      by_cases hdir : x = .dir
      · rw [if_pos (congrArg some hdir), if_pos hdir, hentries]
      · rw [if_neg fun h => hdir (Option.some.inj h), if_neg hdir, sizedEntries, hx,
          Option.elim_some, map_sizedOf]
  · rw [if_neg hscp, if_neg hscp]
    cases conn.target t path with
    | none => rfl
    | some q =>
      simp only [Option.bind_some]
      split_ifs with hdir
      · exact congrArg some (hentries q)
      · rfl

end Conn

/-! ## SftpDirSize -/

/-- The counters and the flag that `SftpDirSize` is given. -/
structure SizeState where
  files : Int32
  dirs : Int32
  cancelled : Bool
  /-- The questions put to the progress window. -/
  asked : ℕ
  /-- Not in the source: the entries that have been counted. -/
  counted : List (Option (List CStr))

/-- `progDlg != NULL && progDlg->GetWantCancel()`; the window has an answer for each time it is
asked. -/
def wantCancel (progDlg : Option (ℕ → Bool)) (s : SizeState) : Bool × SizeState :=
  match progDlg with
  | none => (false, s)
  | some answers => (answers s.asked, { s with asked := s.asked + 1 })

/-- The loop over the entries; `rec` is the recursive call. -/
def dirSizeLoop (progDlg : Option (ℕ → Bool))
    (rec : CStr → SizeState → UInt64 × SizeState) (remote : CStr) :
    List SizedEntry → (total : UInt64) → SizeState → UInt64 × SizeState
  | [], total, s => (total, s)
  | e :: entries, total, s =>
    let (stop, s) := if s.cancelled then (true, s) else wantCancel progDlg s
    if stop then (total, { s with cancelled := true })
    else
      let child := sftpJoin remote e.Name MAX_PATH
      if e.IsDir && !e.IsLink then
        let (n, s) := rec child { s with dirs := s.dirs + 1, counted := s.counted ++ [e.location] }
        dirSizeLoop progDlg rec remote entries (total + n) s
      else
        dirSizeLoop progDlg rec remote entries (total + e.Size)
          { s with files := s.files + 1, counted := s.counted ++ [e.location] }

/-- `SftpDirSize` with this many levels left. -/
def sftpDirSizeFrom (conn : Conn) (t : RemoteTree) (size : List CStr → UInt64)
    (progDlg : Option (ℕ → Bool)) :
    (levels : ℕ) → (remote : CStr) → SizeState → UInt64 × SizeState
  | 0, _, s => (0, s)
  | levels + 1, remote, s =>
    if s.cancelled then (0, s)
    else
      let (stop, s) := wantCancel progDlg s
      if stop then (0, { s with cancelled := true })
      else
        match conn.listSized t size remote with
        | none => (0, s)
        | some entries =>
          dirSizeLoop progDlg (sftpDirSizeFrom conn t size progDlg levels) remote entries 0 s

/-- `SftpDirSize` at depth 0: it returns 0 from depth 51 on. -/
def sftpDirSize (conn : Conn) (t : RemoteTree) (size : List CStr → UInt64)
    (progDlg : Option (ℕ → Bool)) :
    CStr → SizeState → UInt64 × SizeState :=
  sftpDirSizeFrom conn t size progDlg 51

/-! ## What it adds up -/

def bytesOf (es : List SizedEntry) : ℕ := ((es.filter fun e => !e.isSubdir).map (·.Size.toNat)).sum

def filesOf (es : List SizedEntry) : ℕ := es.countP fun e => !e.isSubdir

def dirsOf (es : List SizedEntry) : ℕ := es.countP SizedEntry.isSubdir

@[simp] theorem bytesOf_append (es es' : List SizedEntry) :
    bytesOf (es ++ es') = bytesOf es + bytesOf es' := by
  simp [bytesOf]

@[simp] theorem filesOf_append (es es' : List SizedEntry) :
    filesOf (es ++ es') = filesOf es + filesOf es' :=
  List.countP_append

@[simp] theorem dirsOf_append (es es' : List SizedEntry) :
    dirsOf (es ++ es') = dirsOf es + dirsOf es' :=
  List.countP_append

/-- A run that is not cancelled has counted these entries. -/
structure SizeState.Counts (s : SizeState) (es : List SizedEntry) (s' : SizeState) : Prop where
  files : s'.files = s.files + Int32.ofNat (filesOf es)
  dirs : s'.dirs = s.dirs + Int32.ofNat (dirsOf es)
  counted : s'.counted = s.counted ++ es.map SizedEntry.location
  cancelled : s'.cancelled = false

theorem SizeState.Counts.refl {s : SizeState} (h : s.cancelled = false) (asked : ℕ) :
    s.Counts [] { s with asked } where
  files := (Int32.add_zero _).symm
  dirs := (Int32.add_zero _).symm
  counted := (List.append_nil _).symm
  cancelled := h

theorem SizeState.Counts.trans {s s' s'' : SizeState}
    {es es' : List SizedEntry} (h : s.Counts es s')
    (h' : s'.Counts es' s'') : s.Counts (es ++ es') s'' where
  files := by rw [h'.files, h.files, filesOf_append, Int32.ofNat_add, Int32.add_assoc]
  dirs := by rw [h'.dirs, h.dirs, dirsOf_append, Int32.ofNat_add, Int32.add_assoc]
  counted := by rw [h'.counted, h.counted, List.map_append, List.append_assoc]
  cancelled := h'.cancelled

/-- The window never wants to cancel. -/
def NeverCancels (progDlg : Option (ℕ → Bool)) : Prop := ∀ answers ∈ progDlg, ∀ k, answers k = false

theorem wantCancel_of_never {progDlg : Option (ℕ → Bool)}
    (h : NeverCancels progDlg) (s : SizeState) :
    ∃ asked, wantCancel progDlg s = (false, { s with asked }) := by
  cases progDlg with
  | none => exact ⟨s.asked, rfl⟩
  | some answers => exact ⟨s.asked + 1, by rw [wantCancel, h answers rfl]⟩

section Sums

variable (conn : Conn) (t : RemoteTree) (size : List CStr → UInt64)

/-- The entries that a path can be listed with. -/
def Conn.shownSized (path : CStr) : List SizedEntry := (conn.listSized t size path).getD []

/-- Where the recursion goes in for an entry. -/
def intoSubdir (remote : CStr) (e : SizedEntry) : Option CStr :=
  if e.isSubdir then some (sftpJoin remote e.Name MAX_PATH) else none

/-- The entries that a recursion of some levels comes to. -/
def Conn.foundSized : ℕ → CStr → List SizedEntry := found (conn.shownSized t size) intoSubdir

variable {conn t size} {progDlg : Option (ℕ → Bool)}

theorem dirSizeLoop_spec (h : NeverCancels progDlg) {rec : CStr → SizeState → UInt64 × SizeState}
    {below : CStr → List SizedEntry}
    (hrec : ∀ path s, s.cancelled = false → (rec path s).1 = UInt64.ofNat (bytesOf (below path)) ∧
      s.Counts (below path) (rec path s).2) (remote : CStr) (entries : List SizedEntry) :
    ∀ (total : UInt64) (s : SizeState), s.cancelled = false →
      (dirSizeLoop progDlg rec remote entries total s).1 = total +
          UInt64.ofNat
            (bytesOf (entries.flatMap fun e => e :: (intoSubdir remote e).elim [] below)) ∧
        s.Counts (entries.flatMap fun e => e :: (intoSubdir remote e).elim [] below)
          (dirSizeLoop progDlg rec remote entries total s).2 := by
  induction entries with
  | nil => exact fun total s hs => ⟨(UInt64.add_zero total).symm, .refl hs s.asked⟩
  | cons e entries ih =>
    intro total s hs
    obtain ⟨asked, hask⟩ := wantCancel_of_never h s
    rw [dirSizeLoop, hs, if_neg Bool.false_ne_true, hask, List.flatMap_cons]
    dsimp only
    rw [if_neg Bool.false_ne_true]
    by_cases hif : (e.IsDir && !e.IsLink) = true
    · have hsub : e.isSubdir = true := hif
      have hinto : intoSubdir remote e = some (sftpJoin remote e.Name MAX_PATH) := if_pos hsub
      have hone :
          s.Counts [e] { s with asked, dirs := s.dirs + 1, counted := s.counted ++ [e.location] } :=
        ⟨by simp [filesOf, hsub], by simp [dirsOf, hsub], rfl, hs⟩
      obtain ⟨hn, hcalled⟩ := hrec (sftpJoin remote e.Name MAX_PATH) _ hone.cancelled
      obtain ⟨htotal, hrest⟩ := ih (total + _) _ hcalled.cancelled
      rw [if_pos hif, hinto]
      refine ⟨htotal.trans ?_, ?_⟩
      · rw [hn, UInt64.add_assoc, ← UInt64.ofNat_add, bytesOf_append]
        simp [bytesOf, hsub]
      · simpa using (hone.trans hcalled).trans hrest
    · have hsub : ¬ e.isSubdir = true := hif
      have hinto : intoSubdir remote e = none := if_neg hsub
      have hone : s.Counts
          [e] { s with asked, files := s.files + 1, counted := s.counted ++ [e.location] } :=
        ⟨by simp [filesOf, hsub], by simp [dirsOf, hsub], rfl, hs⟩
      obtain ⟨htotal, hrest⟩ := ih (total + e.Size) _ hone.cancelled
      rw [if_neg hif, hinto]
      refine ⟨htotal.trans ?_, ?_⟩
      · rw [UInt64.add_assoc, bytesOf_append, UInt64.ofNat_add]
        simp [bytesOf, hsub]
      · simpa using hone.trans hrest

/-- Without a cancel the recursion adds up the entries it comes to. -/
theorem sftpDirSizeFrom_spec (h : NeverCancels progDlg) (levels : ℕ) :
    ∀ (remote : CStr) (s : SizeState),
    s.cancelled = false →
      (sftpDirSizeFrom conn t size progDlg levels remote s).1 =
          UInt64.ofNat (bytesOf (conn.foundSized t size levels remote)) ∧
        s.Counts (conn.foundSized t size levels remote)
          (sftpDirSizeFrom conn t size progDlg levels remote s).2 := by
  induction levels with
  | zero => exact fun remote s hs => ⟨rfl, .refl hs s.asked⟩
  | succ levels ih =>
    intro remote s hs
    obtain ⟨asked, hask⟩ := wantCancel_of_never h s
    have hasked : s.Counts [] { s with asked } := .refl hs asked
    unfold Conn.foundSized
    rw [sftpDirSizeFrom, hs, if_neg Bool.false_ne_true, hask, found_succ, Conn.shownSized]
    dsimp only
    rw [if_neg Bool.false_ne_true]
    cases conn.listSized t size remote with
    | none => exact ⟨rfl, hasked⟩
    | some entries =>
      obtain ⟨htotal, hloop⟩ := dirSizeLoop_spec h ih remote entries 0 _ hasked.cancelled
      exact ⟨htotal.trans (UInt64.zero_add _), hasked.trans hloop⟩

end Sums

/-! ## What lies below a directory -/

section Below

variable (conn : Conn) (t : RemoteTree) (size : List CStr → UInt64) (q : List CStr)

def filesBelow : List (List CStr) := (t.below q).filter fun p => t.lookup p ≠ some .dir

def dirsBelow : List (List CStr) := (t.below q).filter fun p => t.lookup p = some .dir

def bytesBelow : ℕ := ((filesBelow t q).map fun p => (size p).toNat).sum

/-- The call has added the exact numbers for what lies below a directory, each entry once. -/
structure AddsBelow (s : SizeState) (r : UInt64 × SizeState) : Prop where
  bytes : r.1.toNat = bytesBelow t size q
  files : r.2.files.toInt = s.files.toInt + (filesBelow t q).length
  dirs : r.2.dirs.toInt = s.dirs.toInt + (dirsBelow t q).length
  counted : r.2.counted.Perm (s.counted ++ (t.below q).map some)

/-- The path that `SftpJoin` builds for a directory that is shown. -/
def intoDir (remote : CStr) (e : RemoteEntry) : Option CStr :=
  if e.IsDir then some (sftpJoin remote e.Name MAX_PATH) else none

/-- What is listed under these paths, 51 levels deep. -/
def Conn.places (root : CStr) : List ListedAs :=
  (visits (conn.shown t) intoDir 51 root).filterMap (conn.listed t)

/-- All that is read in a listing are entries of the directory. -/
def Conn.Own : ListedAs → Prop
  | .dir p => ∀ n x, t.lookup (p ++ [n]) = some x → conn.strays (p ++ [n]) x n = []
  | .itself p path => ∀ x, t.lookup p = some x → ¬ conn.Reads p x path ∧ conn.strays p x path = []

/-- Each entry below `q` is read in one listing, and nothing else is read in any. -/
structure Conn.ListsOnce (root : CStr) : Prop where
  once : ∀ p n x, t.lookup (p ++ [n]) = some x →
    (if conn.Reads (p ++ [n]) x n then (conn.places t root).count (.dir p) else 0) =
      if q <+: p then 1 else 0
  own : ∀ l ∈ conn.places t root, conn.Own t l

end Below

section Sums

variable {conn : Conn} {t : RemoteTree} {size : List CStr → UInt64} {q : List CStr}

def Conn.rowLocations (conn : Conn) (q : List CStr) (x : Node CStr Bytes) (name : CStr)
    (location : Option (List CStr)) : List (Option (List CStr)) :=
  (if conn.Reads q x name then [location] else []) ++ (conn.strays q x name).map fun _ => none

def Conn.locations (conn : Conn) (t : RemoteTree) : ListedAs → List (Option (List CStr))
  | .dir p => (t.names p).flatMap fun n =>
      (t.lookup (p ++ [n])).elim [] (conn.rowLocations (p ++ [n]) · n (some (p ++ [n])))
  | .itself p path => (t.lookup p).elim [] (conn.rowLocations p · path none)

theorem map_location_sizedOf (p : List CStr) (x : Node CStr Bytes) (name : CStr)
    (location : Option (List CStr)) :
    (conn.sizedOf size p x name location).map SizedEntry.location =
      conn.rowLocations p x name location := by
  unfold Conn.sizedOf Conn.rowLocations
  rw [List.map_append, List.map_map]
  split_ifs
  · rfl
  · rfl

theorem isDir_scpEntry {toDisplay : CStr → CStr} {line : CStr} {e : CSftpEntry}
    (h : scpEntry toDisplay line = some e) (hdir : e.IsDir = true) : e.IsLink = false := by
  unfold scpEntry at h
  dsimp only at h
  split_ifs at h
  all_goals
    obtain rfl := Option.some.inj h
    dsimp only at hdir ⊢
    rw [beq_iff_eq] at hdir
    rw [hdir]
    rfl

theorem mem_sizedOf {p : List CStr} {x : Node CStr Bytes} {name : CStr}
    {location : Option (List CStr)} {e : SizedEntry}
    (h : e ∈ conn.sizedOf size p x name location) :
    e.isSubdir = e.IsDir ∧ (e.location = none ∨ e = conn.sizedEntry size p x name location) := by
  rcases List.mem_append.mp h with he | he
  · split_ifs at he
    · obtain rfl := List.mem_singleton.mp he
      refine ⟨?_, .inr rfl⟩
      rcases x with content | _ | ⟨rooted, target⟩ <;> rfl
    · exact absurd he List.not_mem_nil
  · obtain ⟨stray, hstray, rfl⟩ := List.mem_map.mp he
    refine ⟨?_, .inl rfl⟩
    unfold Conn.strays at hstray
    split_ifs at hstray
    · obtain ⟨line, -, hline⟩ := List.mem_filterMap.mp hstray
      show (stray.IsDir && !stray.IsLink) = stray.IsDir
      by_cases hdir : stray.IsDir = true
      · rw [hdir, isDir_scpEntry hline hdir]
        rfl
      · rw [Bool.not_eq_true] at hdir
        rw [hdir]
        rfl
    · exact absurd hstray List.not_mem_nil

theorem isSubdir_sizedEntries {l : ListedAs} {e : SizedEntry}
    (he : e ∈ conn.sizedEntries t size l) : e.isSubdir = e.IsDir ∧
      ∀ p, e.location = some p →
        (e.isSubdir = decide (t.lookup p = some .dir) ∧ e.Size = size p) := by
  cases l with
  | dir p =>
    obtain ⟨n, -, he⟩ := List.mem_flatMap.mp he
    rcases hx : t.lookup (p ++ [n]) with _ | x
    · rw [hx] at he
      exact absurd he List.not_mem_nil
    rw [hx] at he
    obtain ⟨hsub, hloc⟩ := mem_sizedOf he
    refine ⟨hsub, fun p' hp' => ?_⟩
    rcases hloc with hnone | rfl
    · rw [hnone] at hp'
      cases hp'
    · obtain rfl := Option.some.inj hp'
      rw [hsub, hx]
      refine ⟨?_, rfl⟩
      rcases x with content | _ | ⟨rooted, target⟩ <;> rfl
  | itself p path =>
    rw [Conn.sizedEntries] at he
    rcases hx : t.lookup p with _ | x
    · rw [hx] at he
      exact absurd he List.not_mem_nil
    rw [hx] at he
    obtain ⟨hsub, hloc⟩ := mem_sizedOf he
    refine ⟨hsub, fun p' hp' => ?_⟩
    rcases hloc with hnone | rfl
    · rw [hnone] at hp'
      cases hp'
    · cases hp'

theorem mem_shownSized {path : CStr} {e : SizedEntry} (he : e ∈ conn.shownSized t size path) :
    ∃ l, conn.listed t path = some l ∧ e ∈ conn.sizedEntries t size l := by
  unfold Conn.shownSized Conn.listSized at he
  cases hl : conn.listed t path with
  | none => simp [hl] at he
  | some l => exact ⟨l, rfl, by simpa [hl] using he⟩

theorem map_location (path : CStr) :
    (conn.shownSized t size path).map SizedEntry.location =
      ((conn.listed t path).map (conn.locations t)).getD [] := by
  unfold Conn.shownSized Conn.listSized
  cases conn.listed t path with
  | none => rfl
  | some l =>
    cases l with
    | dir p =>
      rw [Option.map_some, Option.map_some, Option.getD_some, Option.getD_some, Conn.sizedEntries,
        Conn.locations, List.map_flatMap]
      refine List.flatMap_congr fun n _ => ?_
      cases t.lookup (p ++ [n]) with
      | none => rfl
      | some x => exact map_location_sizedOf ..
    | itself p path =>
      rw [Option.map_some, Option.map_some, Option.getD_some, Option.getD_some, Conn.sizedEntries,
        Conn.locations]
      cases t.lookup p with
      | none => rfl
      | some x => exact map_location_sizedOf ..

theorem flatMap_filterMap {α β γ : Type*} (f : α → Option β) (g : β → List γ) (l : List α) :
    (l.filterMap f).flatMap g = l.flatMap fun a => ((f a).map g).getD [] := by
  induction l with
  | nil => rfl
  | cons a l ih =>
    rw [List.flatMap_cons, ← ih]
    cases h : f a with
    | none => rw [List.filterMap_cons_none h]; rfl
    | some b => rw [List.filterMap_cons_some h]; rfl

theorem visits_shown (root : CStr) :
    visits (conn.shown t) intoDir 51 root = visits (conn.shownSized t size) intoSubdir 51 root := by
  have hlist : ∀ p, conn.shown t p = (conn.shownSized t size p).map SizedEntry.toRemoteEntry := by
    intro p
    unfold Conn.shown Conn.shownSized
    rw [← Conn.listSized_listing conn t size]
    cases conn.listSized t size p <;> rfl
  have hinto : ∀ p, ∀ e ∈ conn.shownSized t size p, intoDir p e.toRemoteEntry =
      (intoSubdir p e).map id := by
    intro p e he
    obtain ⟨l, -, hl⟩ := mem_shownSized he
    rw [Option.map_id_apply, intoSubdir, (isSubdir_sizedEntries hl).1, intoDir]
  have hmap : visits (conn.shown t) intoDir 51 (id root) =
      (visits (conn.shownSized t size) intoSubdir 51 root).map id :=
    visits_map (fun p _ => hlist p) (fun p _ => hinto p)
      (fun _ _ _ _ _ _ => trivial) 51 root trivial
  rwa [List.map_id] at hmap

/-- What is counted is what lies where the recursion lists. -/
theorem location_foundSized (root : CStr) :
    ((conn.foundSized t size 51 root).map SizedEntry.location).Perm
    ((conn.places t root).flatMap (conn.locations t)) := by
  have hperm := (found_perm (conn.shownSized t size) intoSubdir 51 root).map SizedEntry.location
  unfold Conn.places
  rw [visits_shown, flatMap_filterMap]
  rw [List.map_flatMap] at hperm
  exact hperm.trans (List.Perm.of_eq (List.flatMap_congr fun p _ => map_location p))

theorem count_rowLocations {p q : List CStr} {x : Node CStr Bytes} {name : CStr} :
    (conn.rowLocations p x name (some p)).count (some q) =
      if conn.Reads p x name ∧ p = q then 1 else 0 := by
  have hstrays : ((conn.strays p x name).map fun _ => (none : Option (List CStr))).count (some q) =
      0 := List.count_eq_zero.mpr fun h => by simp at h
  unfold Conn.rowLocations
  rw [List.count_append, hstrays, Nat.add_zero]
  by_cases hreads : conn.Reads p x name
  · rw [if_pos hreads, List.count_singleton]
    simp [hreads]
  · rw [if_neg hreads, if_neg fun h => hreads h.1, List.count_nil]

/-- An entry is read once for each time that it is there. -/
theorem count_rows {p : List CStr} {n : CStr} {x : Node CStr Bytes}
    (hx : t.lookup (p ++ [n]) = some x) (names : List CStr) :
    (names.flatMap fun m => (t.lookup (p ++ [m])).elim []
      (conn.rowLocations (p ++ [m]) · m (some (p ++ [m])))).count (some (p ++ [n])) =
      if conn.Reads (p ++ [n]) x n then names.count n else 0 := by
  induction names with
  | nil => simp
  | cons m names ih =>
    rw [List.flatMap_cons, List.count_append, ih, List.count_cons]
    by_cases hmn : m = n
    · subst hmn
      rw [hx, Option.elim_some, count_rowLocations]
      by_cases hreads : conn.Reads (p ++ [m]) x m
      · simp [hreads, Nat.add_comm]
      · simp [hreads]
    · have hzero : ((t.lookup (p ++ [m])).elim []
          (conn.rowLocations (p ++ [m]) · m (some (p ++ [m])))).count (some (p ++ [n])) = 0 := by
        cases t.lookup (p ++ [m]) with
        | none => rfl
        | some y =>
          rw [Option.elim_some, count_rowLocations, if_neg]
          exact fun h => hmn (by simpa using h.2)
      rw [hzero, Nat.zero_add]
      simp [hmn]

theorem mem_locations {l : ListedAs} {q : List CStr} (h : some q ∈ conn.locations t l) :
    ∃ p n, l = .dir p ∧ q = p ++ [n] := by
  have hrow : ∀ {p x name location}, some q ∈ conn.rowLocations p x name location →
      location = some q := by
    intro p x name location hmem
    rcases List.mem_append.mp hmem with hmem | hmem
    · split_ifs at hmem
      · exact (List.mem_singleton.mp hmem).symm
      · exact absurd hmem List.not_mem_nil
    · simp at hmem
  cases l with
  | dir p =>
    obtain ⟨n, -, hmem⟩ := List.mem_flatMap.mp h
    rcases hx : t.lookup (p ++ [n]) with _ | x
    · rw [hx] at hmem
      exact absurd hmem List.not_mem_nil
    · rw [hx] at hmem
      exact ⟨p, n, rfl, (Option.some.inj (hrow hmem)).symm⟩
  | itself p path =>
    rw [Conn.locations] at h
    rcases hx : t.lookup p with _ | x
    · rw [hx] at h
      exact absurd h List.not_mem_nil
    · rw [hx] at h
      cases hrow h

theorem count_locations (l : ListedAs) {p : List CStr} {n : CStr} {x : Node CStr Bytes}
    (hx : t.lookup (p ++ [n]) = some x) : (conn.locations t l).count (some (p ++ [n])) =
    if l = .dir p ∧ conn.Reads (p ++ [n]) x n then (t.entries.map Prod.fst).count (p ++ [n])
    else 0 := by
  by_cases hl : l = .dir p
  · subst hl
    have hnames : (t.names p).count n = (t.entries.map Prod.fst).count (p ++ [n]) := by
      have hcount := Tree.count_names t p p n
      rw [if_pos rfl] at hcount
      rw [← hcount]
      exact (List.count_map_of_injective _ (p ++ [·])
        (fun a b heq => by simpa using heq) n).symm
    rw [Conn.locations, count_rows hx, hnames]
    by_cases hreads : conn.Reads (p ++ [n]) x n
    · rw [if_pos hreads, if_pos ⟨rfl, hreads⟩]
    · rw [if_neg hreads, if_neg fun h => hreads h.2]
  · rw [if_neg fun h => hl h.1]
    refine List.count_eq_zero.mpr fun hmem => hl ?_
    obtain ⟨p', n', rfl, heq⟩ := mem_locations hmem
    rw [List.append_inj_left' heq rfl]

/-- An entry is counted as often as its directory is listed, if it is read there. -/
theorem count_places (places : List ListedAs) {p : List CStr} {n : CStr} {x : Node CStr Bytes}
    (hx : t.lookup (p ++ [n]) = some x) :
    (places.flatMap (conn.locations t)).count (some (p ++ [n])) =
      (if conn.Reads (p ++ [n]) x n then places.count (.dir p) else 0) *
        (t.entries.map Prod.fst).count (p ++ [n]) := by
  induction places with
  | nil => simp
  | cons l places ih =>
    rw [List.flatMap_cons, List.count_append, ih, count_locations l hx, List.count_cons]
    by_cases hreads : conn.Reads (p ++ [n]) x n
    · by_cases h : l = .dir p
      · simp [h, hreads, Nat.add_mul, Nat.add_comm]
      · simp [h, hreads]
    · simp [hreads]

theorem none_mem_rowLocations {p q : List CStr} {x : Node CStr Bytes} {name : CStr} :
    none ∈ conn.rowLocations p x name (some q) ↔ conn.strays p x name ≠ [] := by
  unfold Conn.rowLocations
  generalize conn.strays p x name = strays
  rcases strays with _ | ⟨e, strays⟩
  · split_ifs <;> simp
  · simp

theorem rowLocations_none_eq_nil {p : List CStr} {x : Node CStr Bytes} {name : CStr} :
    none ∉ conn.rowLocations p x name none ↔
      ¬ conn.Reads p x name ∧ conn.strays p x name = [] := by
  unfold Conn.rowLocations
  by_cases hreads : conn.Reads p x name
  · simp [hreads]
  · simp [hreads, List.eq_nil_iff_forall_not_mem]

/-- Nothing strange is read of a listing exactly when all of it are entries of the directory. -/
theorem none_notMem_locations {l : ListedAs} : none ∉ conn.locations t l ↔ conn.Own t l := by
  cases l with
  | dir p =>
    rw [Conn.locations, Conn.Own, List.mem_flatMap]
    constructor
    · intro hno n x hx
      by_contra hstrays
      refine hno ⟨n, Tree.mem_names.mpr (Option.isSome_of_eq_some hx), ?_⟩
      rw [hx, Option.elim_some]
      exact none_mem_rowLocations.mpr hstrays
    · rintro hown ⟨n, -, hmem⟩
      rcases hx : t.lookup (p ++ [n]) with _ | x
      · rw [hx] at hmem
        exact absurd hmem List.not_mem_nil
      · rw [hx, Option.elim_some] at hmem
        exact none_mem_rowLocations.mp hmem (hown n x hx)
  | itself p path =>
    rw [Conn.locations, Conn.Own]
    cases t.lookup p with
    | none => simp
    | some x =>
      rw [Option.elim_some, rowLocations_none_eq_nil]
      simp

/-- Each entry is counted once exactly when each is read in one listing, and nothing else is. -/
theorem counts_each_once_iff (root : CStr) :
    ((conn.foundSized t size 51 root).map SizedEntry.location).Perm ((t.below q).map some) ↔
      conn.ListsOnce t q root := by
  rw [List.Perm.congr_left (location_foundSized root)]
  constructor
  · intro h
    refine ⟨fun p n x hx => ?_, fun l hl => ?_⟩
    · have hpos : 0 < (t.entries.map Prod.fst).count (p ++ [n]) :=
        List.count_pos_iff.mpr (List.mem_map_of_mem (Tree.exists_mem_of_lookup (by simp) hx))
      have hcount := h.count_eq (some (p ++ [n]))
      rw [count_places _ hx, List.count_map_of_injective _ _ (Option.some_injective _),
        Tree.count_below] at hcount
      refine Nat.eq_of_mul_eq_mul_right hpos (hcount.trans ?_)
      split_ifs <;> simp
    · refine none_notMem_locations.mp fun hmem => ?_
      have hnone := h.mem_iff.mp (List.mem_flatMap.mpr ⟨l, hl, hmem⟩)
      simp at hnone
  · intro h
    refine List.perm_iff_count.mpr fun o => ?_
    rcases o with _ | p
    · rw [List.count_eq_zero_of_not_mem, List.count_eq_zero_of_not_mem (by simp)]
      intro hmem
      obtain ⟨l, hl, hnone⟩ := List.mem_flatMap.mp hmem
      exact none_notMem_locations.mpr (h.own l hl) hnone
    rcases List.eq_nil_or_concat' p with rfl | ⟨p, n, rfl⟩
    · rw [List.count_eq_zero_of_not_mem, List.count_eq_zero_of_not_mem]
      · simpa using Tree.nil_notMem_below t q
      · intro hmem
        obtain ⟨l, -, hl⟩ := List.mem_flatMap.mp hmem
        obtain ⟨p, n, -, heq⟩ := mem_locations hl
        simp at heq
    · rw [List.count_map_of_injective _ _ (Option.some_injective _), Tree.count_below]
      rcases hx : t.lookup (p ++ [n]) with _ | x
      · have hzero : (t.entries.map Prod.fst).count (p ++ [n]) = 0 := by
          refine List.count_eq_zero.mpr fun hmem => ?_
          obtain ⟨e, he, hloc⟩ := List.mem_map.mp hmem
          have hsome := Tree.isSome_lookup_of_mem he
          rw [hloc, hx] at hsome
          cases hsome
        rw [hzero, ite_self, List.count_eq_zero]
        intro hmem
        obtain ⟨l, -, hl⟩ := List.mem_flatMap.mp hmem
        obtain ⟨p', n', rfl, heq⟩ := mem_locations hl
        obtain ⟨rfl, hn⟩ := List.append_inj' heq rfl
        obtain rfl := List.singleton_injective hn
        obtain ⟨m, hm, hrow⟩ := List.mem_flatMap.mp hl
        rcases hy : t.lookup (p ++ [m]) with _ | y
        · rw [hy] at hrow
          exact absurd hrow List.not_mem_nil
        · rw [hy, Option.elim_some] at hrow
          have hcount := List.count_pos_iff.mpr hrow
          rw [count_rowLocations] at hcount
          split_ifs at hcount with hsame
          · rw [hsame.2, hx] at hy
            cases hy
          · exact absurd hcount (lt_irrefl 0)
      · rw [count_places _ hx, h.once p n x hx]
        split_ifs <;> simp

theorem location_spec {levels : ℕ} {root : CStr} {e : SizedEntry}
    (he : e ∈ conn.foundSized t size levels root)
    {p : List CStr} (hp : e.location = some p) :
    e.isSubdir = decide (t.lookup p = some .dir) ∧ e.Size = size p := by
  obtain ⟨path, -, hmem⟩ := List.mem_flatMap.mp ((found_perm _ _ levels root).subset he)
  obtain ⟨l, -, hl⟩ := mem_shownSized hmem
  exact (isSubdir_sizedEntries hl).2 p hp

/-- Entries that are counted once and known by their locations. -/
structure CountedOnce (t : RemoteTree) (size : List CStr → UInt64) (q : List CStr)
    (es : List SizedEntry) : Prop where
  perm : (es.map fun e => e.location.getD []).Perm (t.below q)
  spec : ∀ e ∈ es, e.isSubdir = decide (t.lookup (e.location.getD []) = some .dir) ∧
    e.Size = size (e.location.getD [])

theorem countedOnce_foundSized {levels : ℕ} {root : CStr}
    (h : ((conn.foundSized t size levels root).map SizedEntry.location).Perm
      ((t.below q).map some)) :
    CountedOnce t size q (conn.foundSized t size levels root) where
  perm := by simpa [Function.comp_def] using h.map (Option.getD · [])
  spec := by
    intro e he
    obtain ⟨p, -, hp⟩ := List.mem_map.mp (h.subset (List.mem_map_of_mem he))
    rw [← hp]
    exact location_spec he hp.symm

/-- Their sums are those of the directory. -/
theorem CountedOnce.bytesOf_eq {es : List SizedEntry} (h : CountedOnce t size q es) :
    bytesOf es = bytesBelow t size q := by
  have hsum :=
    ((h.perm.filter fun p => decide (t.lookup p ≠ some .dir)).map fun p => (size p).toNat).sum_eq
  refine Eq.trans ?_ hsum
  rw [List.filter_map, List.map_map]
  have hfilter : es.filter (fun e => !e.isSubdir) =
      es.filter ((fun p => decide (t.lookup p ≠ some .dir)) ∘ fun e => e.location.getD []) := by
    refine List.filter_congr fun e he => ?_
    simp [(h.spec e he).1]
  unfold bytesOf
  rw [hfilter]
  refine congrArg List.sum (List.map_congr_left fun e he => ?_)
  rw [(h.spec e (List.mem_of_mem_filter he)).2]
  rfl

theorem CountedOnce.filesOf_eq {es : List SizedEntry} (h : CountedOnce t size q es) :
    filesOf es = (filesBelow t q).length := by
  have hcount := h.perm.countP_eq fun p => decide (t.lookup p ≠ some .dir)
  unfold filesOf filesBelow
  rw [← List.countP_eq_length_filter, ← hcount, List.countP_map]
  exact List.countP_congr fun e he => by simp [(h.spec e he).1]

theorem CountedOnce.dirsOf_eq {es : List SizedEntry} (h : CountedOnce t size q es) :
    dirsOf es = (dirsBelow t q).length := by
  have hcount := h.perm.countP_eq fun p => decide (t.lookup p = some .dir)
  unfold dirsOf dirsBelow
  rw [← List.countP_eq_length_filter, ← hcount, List.countP_map]
  exact List.countP_congr fun e he => by simp [(h.spec e he).1]

theorem toInt_add_ofNat_iff (a : Int32) (n : ℕ) :
    (a + Int32.ofNat n).toInt = a.toInt + n ↔ a.toInt + n < 2 ^ 31 := by
  have hlow := a.le_toInt
  have hsize : Int32.size = 2 ^ 32 := rfl
  rw [Int32.toInt_add, Int32.toInt_ofNat', hsize]
  constructor
  · intro h
    rw [← h]
    exact Int.bmod_lt (by decide)
  · intro h
    rw [Int.add_bmod_bmod]
    exact Int.bmod_eq_of_le (by omega) (by omega)

end Sums

theorem addsBelow_iff {conn : Conn} {t : RemoteTree} {size : List CStr → UInt64}
    {progDlg : Option (ℕ → Bool)}
    (h : NeverCancels progDlg) (remote : CStr) (q : List CStr) {s : SizeState}
    (hs : s.cancelled = false) :
    AddsBelow t size q s (sftpDirSize conn t size progDlg remote s) ↔
      conn.ListsOnce t q remote ∧ bytesBelow t size q < 2 ^ 64 ∧
      s.files.toInt + (filesBelow t q).length < 2 ^ 31 ∧
        s.dirs.toInt + (dirsBelow t q).length < 2 ^ 31 := by
  obtain ⟨hbytes, hcounts⟩ := sftpDirSizeFrom_spec h 51 remote s hs
  rw [← counts_each_once_iff]
  constructor
  · intro hadds
    have hperm := (List.perm_append_left_iff s.counted).mp (hcounts.counted ▸ hadds.counted)
    have honce := countedOnce_foundSized hperm
    have hlt := UInt64.toNat_lt (sftpDirSize conn t size progDlg remote s).1
    rw [hadds.bytes] at hlt
    have hfiles := hadds.files
    have hdirs := hadds.dirs
    unfold sftpDirSize at hfiles hdirs
    rw [hcounts.files, honce.filesOf_eq] at hfiles
    rw [hcounts.dirs, honce.dirsOf_eq] at hdirs
    exact ⟨hperm, hlt, (toInt_add_ofNat_iff _ _).mp hfiles, (toInt_add_ofNat_iff _ _).mp hdirs⟩
  · rintro ⟨hperm, hlt, hfiles, hdirs⟩
    have honce := countedOnce_foundSized hperm
    unfold sftpDirSize
    constructor
    · rw [hbytes, honce.bytesOf_eq, UInt64.toNat_ofNat', Nat.mod_eq_of_lt hlt]
    · rw [hcounts.files, honce.filesOf_eq]
      exact (toInt_add_ofNat_iff _ _).mpr hfiles
    · rw [hcounts.dirs, honce.dirsOf_eq]
      exact (toInt_add_ofNat_iff _ _).mpr hdirs
    · rw [hcounts.counted]
      exact hperm.append_left s.counted

/-! ## Trees with plain names -/

section Plain

variable {conn : Conn} {t : RemoteTree} {q : List CStr}

theorem nodup_names (h : (t.entries.map Prod.fst).Nodup) (q : List CStr) : (t.names q).Nodup :=
  List.Nodup.of_map _ (Tree.map_names t q ▸ h.filter _)

/-- The walk through the directories below `q`, which are given by their names from there on. -/
def subdirs (t : RemoteTree) (q : List CStr) : ℕ → List CStr → List (List CStr) :=
  visits (fun s => t.names (q ++ s)) fun s n => if t.lookup (q ++ (s ++ [n])) =
    some .dir then some (s ++ [n]) else none

theorem subdirs_succ (levels : ℕ) (s : List CStr) :
    subdirs t q (levels + 1) s = s :: (t.names (q ++ s)).flatMap fun n =>
    if t.lookup (q ++ (s ++ [n])) = some .dir then subdirs t q levels (s ++ [n]) else [] := by
  unfold subdirs
  rw [visits_succ]
  refine congrArg (s :: ·) (List.flatMap_congr fun n _ => ?_)
  split_ifs <;> rfl

theorem mem_subdirs {s' : List CStr} (levels : ℕ) : ∀ s, t.lookup (q ++ s) = some .dir →
    (s' ∈ subdirs t q levels s ↔
      s <+: s' ∧ s'.length < s.length + levels ∧ t.lookup (q ++ s') = some .dir) := by
  induction levels with
  | zero =>
    intro s _
    refine iff_of_false List.not_mem_nil ?_
    rintro ⟨hpre, hlt, -⟩
    exact absurd hpre.length_le (by omega)
  | succ levels ih =>
    intro s hs
    rw [subdirs_succ, List.mem_cons, List.mem_flatMap]
    constructor
    · rintro (rfl | ⟨n, -, hmem⟩)
      · exact ⟨List.prefix_rfl, by omega, hs⟩
      · split_ifs at hmem with hdir
        · obtain ⟨hpre, hlt, hdir'⟩ := (ih _ hdir).mp hmem
          rw [List.length_append, List.length_singleton] at hlt
          exact ⟨(List.prefix_append s [n]).trans hpre, by omega, hdir'⟩
        · exact absurd hmem List.not_mem_nil
    · rintro ⟨⟨r, rfl⟩, hlt, hdir⟩
      cases r with
      | nil => exact Or.inl (List.append_nil s)
      | cons n r =>
        have hsplit : s ++ n :: r = s ++ [n] ++ r := by simp
        have hmid : t.lookup (q ++ (s ++ [n])) = some .dir := by
          by_cases hr : r = []
          · rwa [hr] at hdir
          · rw [hsplit, ← List.append_assoc] at hdir
            exact Tree.lookup_dir_of_below hr hdir
        have hname : n ∈ t.names (q ++ s) := by
          rw [Tree.mem_names, List.append_assoc, hmid]
          rfl
        refine Or.inr ⟨n, hname, ?_⟩
        rw [if_pos hmid]
        refine (ih _ hmid).mpr ⟨hsplit ▸ List.prefix_append _ r, ?_, hdir⟩
        simp only [List.length_append, List.length_cons, List.length_nil] at hlt ⊢
        omega

theorem nodup_subdirs (h : (t.entries.map Prod.fst).Nodup) (levels : ℕ) :
    ∀ s, t.lookup (q ++ s) = some .dir →
    (subdirs t q levels s).Nodup := by
  induction levels with
  | zero => exact fun s _ => List.nodup_nil
  | succ levels ih =>
    intro s hs
    have hbelow : ∀ {n s'}, s' ∈
        (if t.lookup (q ++ (s ++ [n])) = some .dir then subdirs t q levels (s ++ [n]) else []) →
        s ++ [n] <+: s' := by
      intro n s' hmem
      split_ifs at hmem with hdir
      · exact ((mem_subdirs levels _ hdir).mp hmem).1
      · exact absurd hmem List.not_mem_nil
    rw [subdirs_succ, List.nodup_cons, List.nodup_flatMap]
    refine ⟨fun hmem => ?_, fun n _ => ?_, ?_⟩
    · obtain ⟨n, -, hn⟩ := List.mem_flatMap.mp hmem
      exact absurd (hbelow hn).length_le (by simp)
    · split_ifs with hdir
      · exact ih _ hdir
      · exact List.nodup_nil
    · refine (nodup_names h (q ++ s)).pairwise_of_forall_ne fun n _ m _ hne s' hn hm => hne ?_
      have heq :=
        (List.prefix_of_prefix_length_le (hbelow hn) (hbelow hm) (by simp)).eq_of_length (by simp)
      simpa using heq

theorem PlainTree.shown_eq {parts s : List CStr} (h : PlainTree conn t parts q)
    (hs : t.lookup (q ++ s) = some .dir) : conn.shown t (conn.path (parts ++ s)) =
      (t.names (q ++ s)).map fun n =>
        ⟨conn.display n, decide (t.lookup (q ++ (s ++ [n])) = some .dir)⟩ := by
  have hlisting : conn.shown t (conn.path (parts ++ s)) = conn.entriesAt t (q ++ s) := by
    unfold Conn.shown Conn.listing
    rw [(h.resolves hs).1, (h.resolves hs).2 rfl]
    simp [hs]
  rw [hlisting, ← List.flatMap_pure_eq_map]
  refine List.flatMap_congr fun n hn => ?_
  obtain ⟨x, hx⟩ := Option.isSome_iff_exists.mp (Tree.mem_names.mp hn)
  rw [List.append_assoc] at hx ⊢
  rw [hx, Option.elim_some, h.entriesOf_eq hx]
  simp [hx]

/-- In a tree of plain names each directory is listed, under its own path. -/
theorem PlainTree.places_eq {parts : List CStr} (h : PlainTree conn t parts q) :
    conn.places t (conn.path parts) = (subdirs t q 51 []).map fun s => .dir (q ++ s) := by
  have hlisted : ∀ s, t.lookup (q ++ s) = some .dir →
      conn.listed t (conn.path (parts ++ s)) = some (.dir (q ++ s)) := by
    intro s hs
    unfold Conn.listed
    rw [(h.resolves hs).1, (h.resolves hs).2 rfl]
    simp [hs]
  have hinto : ∀ s, t.lookup (q ++ s) = some .dir → ∀ n ∈ t.names (q ++ s),
      intoDir (conn.path (parts ++ s))
        ⟨conn.display n, decide (t.lookup (q ++ (s ++ [n])) = some .dir)⟩ =
      (if t.lookup (q ++ (s ++ [n])) = some .dir then some (s ++ [n]) else none).map
        fun s => conn.path (parts ++ s) := by
    intro s hs n hn
    by_cases hdir : t.lookup (q ++ (s ++ [n])) = some .dir
    · simp [intoDir, hdir, h.sftpJoin_path hdir]
    · simp [intoDir, hdir]
  have hdirs : ∀ s, t.lookup (q ++ s) = some .dir → ∀ n ∈ t.names (q ++ s), ∀ s',
      (if t.lookup (q ++ (s ++ [n])) = some .dir then some (s ++ [n]) else none) = some s' →
      t.lookup (q ++ s') = some .dir := by
    intro s hs n _ s' hs'
    split_ifs at hs' with hdir
    obtain rfl := Option.some.inj hs'
    exact hdir
  have hroot : t.lookup (q ++ []) = some .dir := by rw [List.append_nil, h.dir]
  have hvisits : visits (conn.shown t) intoDir 51 (conn.path (parts ++ [])) =
      (subdirs t q 51 []).map fun s => conn.path (parts ++ s) :=
    visits_map (fun s hs => h.shown_eq hs) hinto hdirs 51 [] hroot
  rw [List.append_nil] at hvisits
  unfold Conn.places
  rw [hvisits, List.filterMap_map]
  rw [← List.filterMap_eq_map]
  exact List.filterMap_congr fun s hs => hlisted s ((mem_subdirs 51 [] hroot).mp hs).2.2

theorem PlainTree.row {parts s : List CStr} {n : CStr} {x : Node CStr Bytes}
    (h : PlainTree conn t parts q) (hx : t.lookup (q ++ (s ++ [n])) = some x) :
    conn.Reads (q ++ (s ++ [n])) x n ∧ conn.strays (q ++ (s ++ [n])) x n = [] := by
  have hn : ProperName n := h.proper _ x hx n (by simp)
  unfold Conn.Reads Conn.strays Conn.readName
  by_cases hscp : conn.scpMode = true
  · have hline := h.lines hscp s n x hx
    rw [hline.textLines_eq, List.headD_cons, hline.readText_eq hn, if_pos hscp]
    exact ⟨fun _ => hn.not_isDots, rfl⟩
  · rw [if_neg hscp]
    exact ⟨fun hyes => absurd hyes hscp, rfl⟩

/-- In a tree of plain names that has no entry more than 51 levels down, the recursion is exact. -/
theorem PlainTree.listsOnce {parts : List CStr} (h : PlainTree conn t parts q)
    (hunique : (t.entries.map Prod.fst).Nodup)
    (hdeep : ∀ s, t.names (q ++ s) ≠ [] → s.length ≤ 50) :
    conn.ListsOnce t q (conn.path parts) where
  once := by
    intro p n x hx
    have hroot : t.lookup (q ++ []) = some .dir := by rw [List.append_nil, h.dir]
    have hnodup : ((subdirs t q 51 []).map fun s => ListedAs.dir (q ++ s)).Nodup :=
      (nodup_subdirs hunique 51 [] hroot).map fun s s' heq => by simpa using heq
    rw [h.places_eq]
    by_cases hpre : q <+: p
    · obtain ⟨s, rfl⟩ := hpre
      have hreads := (h.row (s := s) (n := n) (by rwa [← List.append_assoc])).1
      rw [← List.append_assoc] at hreads
      have hname : n ∈ t.names (q ++ s) := Tree.mem_names.mpr (Option.isSome_of_eq_some hx)
      rw [if_pos hreads, if_pos (List.prefix_append q s)]
      refine List.count_eq_one_of_mem hnodup (List.mem_map.mpr ⟨s, ?_, rfl⟩)
      refine (mem_subdirs 51 [] hroot).mpr ⟨List.nil_prefix, ?_, Tree.lookup_parent hx⟩
      exact Nat.lt_of_le_of_lt (hdeep s (List.ne_nil_of_mem hname)) (by simp)
    · have hzero : ((subdirs t q 51 []).map fun s => ListedAs.dir (q ++ s)).count (.dir p) = 0 := by
        refine List.count_eq_zero_of_not_mem fun hmem => hpre ?_
        obtain ⟨s, -, heq⟩ := List.mem_map.mp hmem
        obtain rfl := ListedAs.dir.inj heq
        exact List.prefix_append q s
      rw [if_neg hpre, hzero, ite_self]
  own := by
    intro l hl
    rw [h.places_eq] at hl
    obtain ⟨s, -, rfl⟩ := List.mem_map.mp hl
    intro n x hx
    rw [List.append_assoc] at hx ⊢
    exact (h.row hx).2

end Plain

/-! ## The size of a directory -/

/-- `SftpDirSize`, not cancelled, is exact when each entry below the root is read in one of the
listings it comes to and nothing else is, and the numbers fit into their counters. The listings are
right in a tree of plain names that has no entry more than 51 levels down. -/
theorem sftp_dir_size_iff {conn : Conn} {t : RemoteTree} {size : List CStr → UInt64}
    {progDlg : Option (ℕ → Bool)} (h : NeverCancels progDlg) (remote : CStr) (q : List CStr)
    {s : SizeState} (hs : s.cancelled = false) :
    (AddsBelow t size q s (sftpDirSize conn t size progDlg remote s) ↔
      conn.ListsOnce t q remote ∧ bytesBelow t size q < 2 ^ 64 ∧
        s.files.toInt + (filesBelow t q).length < 2 ^ 31 ∧
        s.dirs.toInt + (dirsBelow t q).length < 2 ^ 31) ∧
    ∀ parts, remote = conn.path parts → PlainTree conn t parts q →
      (t.entries.map Prod.fst).Nodup → (∀ s, t.names (q ++ s) ≠ [] → s.length ≤ 50) →
      (AddsBelow t size q s (sftpDirSize conn t size progDlg remote s) ↔
        bytesBelow t size q < 2 ^ 64 ∧ s.files.toInt + (filesBelow t q).length < 2 ^ 31 ∧
          s.dirs.toInt + (dirsBelow t q).length < 2 ^ 31) := by
  refine ⟨addsBelow_iff h remote q hs, ?_⟩
  rintro parts rfl hplain hunique hdeep
  rw [addsBelow_iff h _ q hs, and_iff_right (hplain.listsOnce hunique hdeep)]

def noSizes : SizeState := ⟨0, 0, false, 0, []⟩

/-- A tree with one file in a directory in a directory. -/
def nestedTree (outer inner : CStr) : RemoteTree where
  entries := [([outer], .dir), ([outer, inner], .dir), ([outer, inner, ascii "f"], .file [])]
  closed := by simp [lookupIn]

theorem nestedTree_locations {q : List CStr} {x : Node CStr Bytes}
    (h : (nestedTree (ascii "a") (ascii "b")).lookup q = some x) :
    q <+: [ascii "a", ascii "b", ascii "f"] := by
  by_cases hnil : q = []
  · exact hnil ▸ List.nil_prefix
  · have hmem := Tree.exists_mem_of_lookup hnil h
    simp only [nestedTree, List.mem_cons, Prod.mk.injEq, List.not_mem_nil, or_false] at hmem
    rcases hmem with ⟨rfl, -⟩ | ⟨rfl, -⟩ | ⟨rfl, -⟩
    · exact ⟨[ascii "b", ascii "f"], rfl⟩
    · exact ⟨[ascii "f"], rfl⟩
    · exact List.prefix_rfl

theorem plainTree_nested : PlainTree rawConn (nestedTree (ascii "a") (ascii "b")) [] [] := by
  have hpath : ∀ ns, rawConn.path ns = absolute slash ns := fun ns => by
    unfold Conn.path
    rw [show rawConn.display = id from rfl, List.map_id]
  have hproper : ∀ n ∈ [ascii "a", ascii "b", ascii "f"], ProperName n := by
    intro n hn
    simp only [List.mem_cons, List.not_mem_nil, or_false] at hn
    rcases hn with rfl | rfl | rfl
    all_goals exact ⟨by decide +kernel, by decide +kernel, by decide +kernel, by decide +kernel⟩
  have hplain : PlainParts [ascii "a", ascii "b", ascii "f"] :=
    ⟨by unfold Whole; decide +kernel, by unfold Clean; decide +kernel⟩
  have hfits : ∀ q ∈ [ascii "a", ascii "b", ascii "f"].inits,
      (absolute slash q).length < MAX_PATH := by decide +kernel
  refine ⟨fun ns _ => hpath ns, fun s x hx n hn => ?_,
    fun hscp => absurd hscp Bool.false_ne_true, fun s x hx => ?_, fun s x hx => ?_, rfl,
    by decide +kernel, by decide +kernel⟩
  · exact hproper n ((nestedTree_locations hx).subset hn)
  · rw [show rawConn.display = id from rfl, List.map_id]
    exact hplain.mono (nestedTree_locations hx).subset
  · rw [hpath]
    exact hfits _ ((List.mem_inits _ _).mpr (nestedTree_locations hx))

/-- Five bytes, one file and two directories. -/
theorem sftp_dir_size_nested :
    AddsBelow (nestedTree (ascii "a") (ascii "b")) (fun _ => 5) [] noSizes
      (sftpDirSize rawConn (nestedTree (ascii "a") (ascii "b")) (fun _ => 5) none [slash]
        noSizes) := by
  have hnever : NeverCancels none := fun _ h => absurd h (Option.not_mem_none _)
  have hdeep : ∀ s, (nestedTree (ascii "a") (ascii "b")).names ([] ++ s) ≠ [] → s.length ≤ 50 := by
    intro s hs
    obtain ⟨n, hn⟩ := List.exists_mem_of_ne_nil _ hs
    obtain ⟨x, hx⟩ := Option.isSome_iff_exists.mp (Tree.mem_names.mp hn)
    have hlen := (nestedTree_locations hx).length_le
    simp only [List.nil_append, List.length_append, List.length_cons, List.length_nil] at hlen
    omega
  exact ((sftp_dir_size_iff hnever [slash] [] rfl).2 [] rfl plainTree_nested (by decide +kernel)
    hdeep).mpr (by decide +kernel)

/-- A directory whose path is longer than `MAX_PATH` is taken for an empty one. -/
theorem not_sftp_dir_size :
    ¬ ∀ (conn : Conn) (t : RemoteTree) (size : List CStr → UInt64) (remote : CStr) (q : List CStr),
      conn.listed t remote = some (.dir q) →
      AddsBelow t size q noSizes (sftpDirSize conn t size none remote noSizes) := by
  intro hall
  let t := nestedTree (List.replicate 200 97) (List.replicate 100 98)
  have hbytes := (hall rawConn t (fun _ => 5) [slash] [] (by decide +kernel)).bytes
  have hnone : (sftpDirSize rawConn t (fun _ => 5) none [slash] noSizes).1.toNat = 0 := by
    decide +kernel
  have hfive : bytesBelow t (fun _ => 5) [] = 5 := by decide +kernel
  rw [hnone, hfive] at hbytes
  exact absurd hbytes (by decide)

end SalamanderSftp
