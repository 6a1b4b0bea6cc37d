import SalamanderSftp.Connection.Commands
import SalamanderSftp.Connection.UploadPaths
import SalamanderSftp.Fs.Remote
import SalamanderSftp.Lib.MakeDirs

/-!
# Making a directory with its ancestors

`MakeDirRecursive` goes from slash to slash and has `MakeDir` make what is before each, whatever it
returns. The paths are those of a panel: backslashes are made separators, and `MakeDir` converts
every path.

1. The loop by positions makes the directories of `makeDirRecursive` (`makeDirScan_one`), each of
   which is the one before with at most one component more (`chain_makeDirLoop`).
2. On a POSIX server the ancestors are made as they should be exactly when the path has no
   backslash, the conversion changes nothing, and nothing but directories is in the way
   (`madeChain_iff`).
-/

namespace SalamanderSftp

open Components FileTree

/-! ## The server -/

/-- A POSIX server and the directory where it starts relative paths. -/
structure PosixServer where
  tree : RemoteTree
  /-- The symbolic links the server follows in one path. -/
  maxLinks : ℕ
  cwd : List CStr
  cwd_dir : tree.lookup cwd = some .dir

/-- The file tree and the paths that `mkdir` was called for. -/
structure ServerState where
  tree : RemoteTree
  requests : List CStr

namespace PosixServer

variable (server : PosixServer)

/-- Where a path starts. -/
def start (path : CStr) : List CStr := if path.head? = some slash then [] else server.cwd

def mkdir (path : CStr) (w : ServerState) : Bool × ServerState :=
  let r := FileTree.mkdir w.tree server.maxLinks (server.start path) (pathSteps path)
  (r.1, ⟨r.2, w.requests ++ [path]⟩)

/-- The shell of the server, for the command of `MakeDir`. -/
def exec (command : CStr) (w : ServerState) : Bool × ServerState :=
  match Shell.read command with
  | some [.word name, .word option, .word path] =>
    if name = ascii "mkdir" ∧ option = ascii "--" then server.mkdir path w else (false, w)
  | _ => (false, w)

def IsDirectory (tree : RemoteTree) (path : CStr) : Prop :=
  IsDir tree server.maxLinks (server.start path) (pathSteps path)

end PosixServer

/-! ## MakeDir and MakeDirRecursive -/

def makeDirAt (encoding : ℤ) (cp : CodePage) (scpMode : Bool)
    (server : PosixServer) (remotePath : CStr)
    (w : ServerState) : Bool × ServerState :=
  let remotePath := toServerEnc encoding cp remotePath
  if scpMode then server.exec (ascii "mkdir -- " ++ shellQuote remotePath) w
  else server.mkdir remotePath w

/-- The loop of `MakeDirRecursive` from a position on. -/
def makeDirScan (path : CStr) (pos : ℕ) : List CStr :=
  if pos < path.length then
    match (path.drop pos).findIdx? (· == slash) with
    | none => []
    | some i =>
      let nextSlash := pos + i
      let sub := path.take nextSlash
      (if sub ≠ [] ∧ sub ≠ [slash] then [sub] else []) ++ makeDirScan path (nextSlash + 1)
  else []
termination_by path.length - pos

def makeDirRecursiveAt (encoding : ℤ) (cp : CodePage) (scpMode : Bool)
    (server : PosixServer) (remotePath : CStr)
    (w : ServerState) : Bool × ServerState :=
  if remotePath = [] then (false, w)
  else
    let path := remotePath.map fun c => if c = backslash then slash else c
    -- the results are not looked at
    let w :=
      (makeDirScan path 1).foldl (fun w sub => (makeDirAt encoding cp scpMode server sub w).2) w
    makeDirAt encoding cp scpMode server path w

/-! ## The paths of the loop -/

theorem makeDirLoop_plain {plain : CStr} (h : slash ∉ plain) (rest : CStr) :
    ∀ before, makeDirLoop before (plain ++ rest) = makeDirLoop (before ++ plain) rest := by
  induction plain with
  | nil =>
    intro before
    rw [List.append_nil, List.nil_append]
  | cons c plain ih =>
    intro before
    have hc : ¬ (c = slash ∧ before ≠ [slash]) := fun hslash => h (hslash.1 ▸ List.mem_cons_self)
    rw [List.cons_append, makeDirLoop, if_neg hc, List.nil_append,
      ih fun hmem => h (List.mem_cons_of_mem _ hmem),
      List.append_assoc, List.singleton_append]

theorem makeDirLoop_eq_nil {plain : CStr} (h : slash ∉ plain) (before : CStr) :
    makeDirLoop before plain = [] := by
  have hplain := makeDirLoop_plain h [] before
  rwa [List.append_nil] at hplain

theorem exists_of_findIdx_slash {s : CStr} {i : ℕ} (h : s.findIdx? (· == slash) = some i) :
    ∃ plain rest, s = plain ++ slash :: rest ∧ slash ∉ plain ∧ plain.length = i := by
  obtain ⟨hi, hslash, hbefore⟩ := List.findIdx?_eq_some_iff_getElem.mp h
  refine ⟨s.take i, s.drop (i + 1), ?_, fun hmem => ?_, List.length_take_of_le hi.le⟩
  · rw [← beq_iff_eq.mp hslash, List.cons_getElem_drop_succ, List.take_append_drop]
  · obtain ⟨j, hj, heq⟩ := List.getElem_of_mem hmem
    rw [List.length_take, lt_min_iff] at hj
    rw [List.getElem_take] at heq
    exact hbefore j hj.1 (beq_iff_eq.mpr heq)

theorem makeDirScan_eq (path : CStr) {pos : ℕ} (hpos : 0 < pos) :
    makeDirScan path pos = makeDirLoop (path.take pos) (path.drop pos) := by
  fun_induction makeDirScan path pos with
  | case1 pos hlt hnone =>
    refine (makeDirLoop_eq_nil (fun hmem => ?_) _).symm
    exact Bool.false_ne_true
      ((List.findIdx?_eq_none_iff.mp hnone slash hmem).symm.trans (beq_self_eq_true slash))
  | case2 pos hlt i hsome nextSlash sub ih =>
    obtain ⟨plain, rest, hdrop, hplain, hlen⟩ := exists_of_findIdx_slash hsome
    have htake : (path.take pos).length = pos := List.length_take_of_le hlt.le
    have hpath : path = path.take pos ++ plain ++ slash :: rest := by
      rw [List.append_assoc, ← hdrop, List.take_append_drop]
    have hnext : (path.take pos ++ plain).length = nextSlash := by
      rw [List.length_append, htake, hlen]
    have hsub : sub = path.take pos ++ plain := by
      show path.take nextSlash = _
      conv_lhs => rw [hpath, ← hnext, List.take_left]
    have hbehind : path.take (nextSlash + 1) = path.take pos ++ plain ++ [slash] ∧
        path.drop (nextSlash + 1) = rest := by
      have hsplit : path = path.take pos ++ plain ++ [slash] ++ rest := by
        rw [List.append_assoc _ [slash], List.singleton_append, ← hpath]
      have hlength : (path.take pos ++ plain ++ [slash]).length = nextSlash + 1 := by
        rw [List.length_append, hnext, List.length_singleton]
      constructor
      · conv_lhs => rw [hsplit, ← hlength, List.take_left]
      · conv_lhs => rw [hsplit, ← hlength, List.drop_left]
    have hne : sub ≠ [] := by
      rw [hsub, ← List.length_pos_iff, hnext]
      omega
    rw [ih (Nat.succ_pos _), hbehind.1, hbehind.2, hdrop,
      makeDirLoop_plain hplain, makeDirLoop, hsub]
    rw [hsub] at hne
    simp only [hne, ne_eq, not_false_eq_true, true_and]
  | case3 pos hlt =>
    rw [List.drop_of_length_le (not_lt.mp hlt)]
    rfl

/-- The loop and the call behind it are for the paths of `makeDirRecursive`. -/
theorem makeDirScan_one {remotePath : CStr} (h : remotePath ≠ []) :
    makeDirScan (forward remotePath) 1 ++ [forward remotePath] = makeDirRecursive remotePath := by
  rw [makeDirScan_eq _ Nat.one_pos]
  exact (if_neg h).symm

/-- Every path before a slash is made, but for the root. -/
theorem mem_makeDirLoop {d rest : CStr} : ∀ {before : CStr},
    d ∈ makeDirLoop before rest ↔
    d ≠ [slash] ∧ ∃ a b, rest = a ++ slash :: b ∧ d = before ++ a := by
  induction rest with
  | nil =>
    intro before
    simp [makeDirLoop]
  | cons c rest ih =>
    intro before
    rw [makeDirLoop, List.mem_append, ih]
    constructor
    · rintro (hd | ⟨hroot, a, b, rfl, rfl⟩)
      · split_ifs at hd with hc
        · obtain rfl := List.mem_singleton.mp hd
          exact ⟨hc.2, [], rest, congrArg (· :: rest) hc.1, (List.append_nil _).symm⟩
        · cases hd
      · exact ⟨hroot, c :: a, b, rfl, by rw [List.append_assoc, List.singleton_append]⟩
    · rintro ⟨hroot, a, b, hrest, rfl⟩
      rcases a with _ | ⟨c', a⟩
      · left
        rw [List.append_nil] at hroot ⊢
        rw [if_pos ⟨(List.cons.inj hrest).1, hroot⟩]
        exact List.mem_singleton_self _
      · right
        obtain ⟨rfl, rfl⟩ := List.cons.inj hrest
        exact ⟨hroot, a, b, rfl, by rw [List.append_assoc, List.singleton_append]⟩

/-- The directories made are the path and what is before its slashes, but for the root. -/
theorem mem_makeDirRecursive {path d : CStr} (hne : path ≠ []) (hplain : backslash ∉ path) :
    d ∈ makeDirRecursive path ↔ d = path ∨ (SlashPrefix d path ∧ d ≠ [] ∧ d ≠ [slash]) := by
  unfold makeDirRecursive
  rw [if_neg hne]
  change d ∈ makeDirLoop ((forward path).take 1) ((forward path).drop 1) ++ [forward path] ↔ _
  rw [forward_eq_self hplain, List.mem_append, List.mem_singleton, mem_makeDirLoop, or_comm]
  refine or_congr_right ?_
  obtain ⟨c, rest, rfl⟩ := List.exists_cons_of_ne_nil hne
  show d ≠ [slash] ∧ (∃ a b, rest = a ++ slash :: b ∧ d = [c] ++ a) ↔ _
  constructor
  · rintro ⟨hroot, a, b, rfl, rfl⟩
    exact ⟨⟨b, rfl⟩, List.cons_ne_nil _ _, hroot⟩
  · rintro ⟨⟨b, hd⟩, hnil, hroot⟩
    obtain ⟨c', a, rfl⟩ := List.exists_cons_of_ne_nil hnil
    obtain ⟨rfl, rfl⟩ := List.cons.inj hd
    exact ⟨hroot, a, b, rfl, rfl⟩

/-! ## One component more -/

theorem pathSteps_concat (path : CStr) : pathSteps (path ++ [slash]) = pathSteps path := by
  unfold pathSteps
  rw [tokens_append_cons path [] (by rfl), tokens_nil, List.append_nil]

theorem pathSteps_append {dir name : CStr} (h : dir = [] ∨ ∃ path, dir = path ++ [slash]) :
    pathSteps (dir ++ name) = pathSteps dir ++ pathSteps name := by
  rcases h with rfl | ⟨path, rfl⟩
  · rfl
  · rw [pathSteps_concat, List.append_assoc, List.singleton_append]
    unfold pathSteps
    rw [tokens_append_cons path name (by rfl), List.map_append]

theorem pathSteps_plain {name : CStr} (h : slash ∉ name) :
    pathSteps name = [] ∨ ∃ s, pathSteps name = [s] := by
  by_cases hnil : name = []
  · subst hnil
    exact .inl rfl
  · refine .inr ⟨pathStep name, ?_⟩
    unfold pathSteps
    rw [tokens_eq_singleton hnil fun c hc => ?_]
    · rfl
    · rw [beq_eq_false_iff_ne]
      rintro rfl
      exact h hc

theorem extends_append {dir name : CStr}
    (hdir : dir = [] ∨ ∃ path, dir = path ++ [slash]) (hname : slash ∉ name) :
    Extends (pathSteps dir) (pathSteps (dir ++ name)) := by
  rw [pathSteps_append hdir]
  rcases pathSteps_plain hname with hnil | ⟨s, hs⟩
  · exact .inl (by rw [hnil, List.append_nil])
  · exact .inr ⟨s, by rw [hs]⟩

/-- `before` is a directory with a slash, and a part of a name. -/
theorem chain_makeDirLoop (rest : CStr) :
    ∀ dir name : CStr, (dir = [] ∨ ∃ path, dir = path ++ [slash]) →
    slash ∉ name → List.IsChain Extends
      (pathSteps dir ::
        (makeDirLoop (dir ++ name) rest ++ [dir ++ name ++ rest]).map pathSteps) := by
  induction rest with
  | nil =>
    intro dir name hdir hname
    rw [makeDirLoop, List.append_nil, List.nil_append]
    exact List.isChain_cons_cons.mpr ⟨extends_append hdir hname, List.isChain_singleton _⟩
  | cons c rest ih =>
    intro dir name hdir hname
    have hwhole : dir ++ name ++ c :: rest = dir ++ name ++ [c] ++ rest := by
      rw [List.append_assoc _ [c], List.singleton_append]
    rw [makeDirLoop, hwhole]
    by_cases hc : c = slash
    · subst hc
      have hnext := ih (dir ++ name ++ [slash]) [] (.inr ⟨dir ++ name, rfl⟩) List.not_mem_nil
      rw [List.append_nil, pathSteps_concat] at hnext
      by_cases hroot : dir ++ name = [slash]
      · rw [if_neg (by simp [hroot]), List.nil_append]
        have hsame : pathSteps dir = pathSteps (dir ++ name) := by
          rcases List.append_eq_singleton_iff.mp hroot with ⟨-, rfl⟩ | ⟨-, rfl⟩
          · exact absurd (List.mem_singleton_self _) hname
          · rw [List.append_nil]
        rwa [hsame]
      · rw [if_pos ⟨rfl, hroot⟩, List.singleton_append, List.cons_append, List.map_cons]
        exact List.isChain_cons_cons.mpr ⟨extends_append hdir hname, hnext⟩
    · rw [if_neg (by simp [hc]), List.nil_append, List.append_assoc dir]
      refine ih dir (name ++ [c]) hdir fun hmem => ?_
      rcases List.mem_append.mp hmem with hmem | hmem
      · exact hname hmem
      · exact hc (List.mem_singleton.mp hmem).symm

/-- The directories of a path, from where it starts. -/
theorem chain_makeDirRecursive {path : CStr} (hne : path ≠ []) :
    List.IsChain Extends ([] :: (makeDirRecursive path).map pathSteps) := by
  have hne' : forward path ≠ [] := fun h => hne (List.map_eq_nil_iff.mp h)
  unfold makeDirRecursive
  rw [if_neg hne]
  change List.IsChain Extends
    ([] :: (makeDirLoop ((forward path).take 1) ((forward path).drop 1) ++
      [forward path]).map pathSteps)
  obtain ⟨c, rest, hpath⟩ := List.exists_cons_of_ne_nil hne'
  rw [hpath]
  by_cases hc : c = slash
  · subst hc
    exact chain_makeDirLoop rest [slash] [] (.inr ⟨[], rfl⟩) List.not_mem_nil
  · refine chain_makeDirLoop rest [] [c] (.inl rfl) fun hmem => ?_
    exact hc (List.mem_singleton.mp hmem).symm

/-! ## The run -/

section Run

variable {encoding : ℤ} {cp : CodePage} {scpMode : Bool} {server : PosixServer} {path : CStr}

theorem makeDirAt_eq (remotePath : CStr) (w : ServerState) :
    makeDirAt encoding cp scpMode server remotePath w =
      server.mkdir (toServerEnc encoding cp remotePath) w := by
  unfold makeDirAt
  cases scpMode
  · exact if_neg Bool.false_ne_true
  · refine (if_pos rfl).trans ?_
    unfold PosixServer.exec
    rw [read_path [ascii "mkdir", ascii "--"] (by decide +kernel)]
    exact if_pos ⟨rfl, rfl⟩

theorem makeDirRecursiveAt_eq (w : ServerState) :
    (makeDirRecursiveAt encoding cp scpMode server path w).2 =
    (makeDirRecursive path).foldl
      (fun w d => (server.mkdir (toServerEnc encoding cp d) w).2) w := by
  unfold makeDirRecursiveAt
  by_cases hne : path = []
  · subst hne
    rfl
  · rw [if_neg hne, ← makeDirScan_one hne, List.foldl_append]
    simp only [makeDirAt_eq]
    rfl

theorem requests_foldl (ds : List CStr) : ∀ w : ServerState,
    (ds.foldl (fun w d => (server.mkdir (toServerEnc encoding cp d) w).2) w).requests =
      w.requests ++ ds.map (toServerEnc encoding cp) := by
  induction ds with
  | nil => exact fun w => (List.append_nil _).symm
  | cons d ds ih =>
    intro w
    rw [List.foldl_cons, ih, List.map_cons, ← List.singleton_append, ← List.append_assoc]
    rfl

theorem tree_foldl {start : List CStr} (ds : List CStr)
    (hds : ∀ d ∈ ds, toServerEnc encoding cp d = d ∧ server.start d = start) : ∀ w : ServerState,
    (ds.foldl (fun w d => (server.mkdir (toServerEnc encoding cp d) w).2) w).tree =
      mkdirAll server.maxLinks start (ds.map pathSteps) w.tree := by
  induction ds with
  | nil => exact fun _ => rfl
  | cons d ds ih =>
    intro w
    obtain ⟨hkept, hstart⟩ := hds d List.mem_cons_self
    rw [List.foldl_cons, hkept, ih fun d' hd' => hds d' (List.mem_cons_of_mem _ hd')]
    unfold PosixServer.mkdir
    rw [hstart]
    rfl

def Ancestor (d path : CStr) : Prop := d = path ∨ SlashPrefix d path

theorem start_ancestor {d : CStr} (h : Ancestor d path) (hne : d ≠ []) :
    server.start d = server.start path := by
  obtain ⟨c, d, rfl⟩ := List.exists_cons_of_ne_nil hne
  rcases h with rfl | ⟨rest, rfl⟩ <;> rfl

/-! ## The ancestors of a path -/

/-- What `MakeDirRecursive` should do with a path. -/
structure MadeChain (server : PosixServer) (path : CStr) (w : ServerState) : Prop where
  ancestors : ∀ d ∈ w.requests, Ancestor d path
  ordered : w.requests.Pairwise fun d d' => d.length < d'.length
  made : ∀ d, d ≠ [] → Ancestor d path → server.IsDirectory w.tree d

/-- The path of a server stays as it is, and there is nothing but directories in its way. -/
structure CanMakeChain (encoding : ℤ) (server : PosixServer) (path : CStr) : Prop where
  plain : backslash ∉ path
  kept : encoding = 2 ∨ ∀ d, Ancestor d path → d.length < 520 → ∀ b ∈ d, b < 128
  free : Unobstructed server.maxLinks (server.start path)
    ((makeDirRecursive path).map pathSteps) server.tree

/-- The code page, with other text left in the buffer of a conversion that does not fit. -/
def CodePage.leaving (cp : CodePage) (left : CStr → CStr) : CodePage := { cp with overflow := left }

theorem toServerEnc_kept {d : CStr} (h : encoding = 2 ∨ (d.length < 520 → ∀ b ∈ d, b < 128)) :
    toServerEnc encoding cp d = d := by
  have hfits : ¬ Overflows encoding cp d := by
    rintro ⟨henc, hlen, hout⟩
    have hascii := h.resolve_left henc hlen
    rw [(cp.encode_eq_self_iff d).mpr hascii] at hout
    omega
  rw [toServerEnc_eq_self_iff hfits]
  refine h.imp_right fun hascii => ?_
  by_cases hlen : d.length < 520
  · exact .inr (hascii hlen)
  · exact .inl (not_lt.mp hlen)

theorem length_lt_of_mem_makeDirLoop {rest : CStr} :
    ∀ {before d : CStr}, d ∈ makeDirLoop before rest →
    before.length ≤ d.length ∧ d.length < (before ++ rest).length := by
  intro before d h
  obtain ⟨-, a, b, rfl, rfl⟩ := mem_makeDirLoop.mp h
  simp only [List.length_append, List.length_cons]
  omega

theorem pairwise_makeDirLoop (rest : CStr) : ∀ before : CStr,
    (makeDirLoop before rest ++ [before ++ rest]).Pairwise fun d d' => d.length < d'.length := by
  induction rest with
  | nil => exact fun _ => List.pairwise_singleton _ _
  | cons c rest ih =>
    intro before
    have hwhole : before ++ c :: rest = before ++ [c] ++ rest := by
      rw [List.append_assoc, List.singleton_append]
    rw [makeDirLoop, hwhole, List.append_assoc]
    split_ifs
    · rw [List.singleton_append]
      refine List.pairwise_cons.mpr ⟨fun d hd => ?_, ih _⟩
      have hlen : before.length < (before ++ [c]).length := by simp
      rcases List.mem_append.mp hd with hd | hd
      · exact hlen.trans_le (length_lt_of_mem_makeDirLoop hd).1
      · rw [List.mem_singleton.mp hd]
        exact hlen.trans_le (List.prefix_append _ _).length_le
    · exact ih _

theorem pairwise_makeDirRecursive (path : CStr) :
    (makeDirRecursive path).Pairwise fun d d' => d.length < d'.length := by
  unfold makeDirRecursive
  split_ifs
  · exact List.Pairwise.nil
  · have hloop := pairwise_makeDirLoop ((forward path).drop 1) ((forward path).take 1)
    rwa [List.take_append_drop] at hloop

theorem isDirectory_root (tree : RemoteTree) : server.IsDirectory tree [slash] :=
  ⟨[], by cases server.maxLinks <;> rfl, tree.lookup_nil⟩

/-- The tree is that of a chain of calls. -/
theorem made_iff (hne : path ≠ []) (hplain : backslash ∉ path)
    (hkept : ∀ d ∈ makeDirRecursive path, toServerEnc encoding cp d = d) :
    (∀ d, d ≠ [] → Ancestor d path →
      server.IsDirectory
        (makeDirRecursiveAt encoding cp scpMode server path ⟨server.tree, []⟩).2.tree d) ↔
      Unobstructed server.maxLinks (server.start path)
        ((makeDirRecursive path).map pathSteps) server.tree := by
  have hmem : ∀ d ∈ makeDirRecursive path, d ≠ [] ∧ Ancestor d path := by
    intro d hd
    rcases (mem_makeDirRecursive hne hplain).mp hd with rfl | ⟨hbegin, hnil, -⟩
    · exact ⟨hne, .inl rfl⟩
    · exact ⟨hnil, .inr hbegin⟩
  have hstart : server.tree.lookup (server.start path) = some .dir := by
    unfold PosixServer.start
    split_ifs
    · exact server.tree.lookup_nil
    · exact server.cwd_dir
  have hroot : IsDir server.tree server.maxLinks (server.start path) [] :=
    ⟨_, by cases server.maxLinks <;> rfl, hstart⟩
  rw [makeDirRecursiveAt_eq,
    tree_foldl _ fun d hd => ⟨hkept d hd, start_ancestor (hmem d hd).2 (hmem d hd).1⟩,
    ← isDir_mkdirAll_iff hstart (chain_makeDirRecursive hne) hroot]
  constructor
  · intro h p hp
    obtain ⟨d, hd, rfl⟩ := List.mem_map.mp hp
    have hmade := h d (hmem d hd).1 (hmem d hd).2
    unfold PosixServer.IsDirectory at hmade
    rwa [start_ancestor (hmem d hd).2 (hmem d hd).1] at hmade
  · intro h d hnil hanc
    by_cases hslash : d = [slash]
    · rw [hslash]
      exact isDirectory_root _
    · have hd : d ∈ makeDirRecursive path :=
        (mem_makeDirRecursive hne hplain).mpr (hanc.imp_right fun hbegin => ⟨hbegin, hnil, hslash⟩)
      unfold PosixServer.IsDirectory
      rw [start_ancestor hanc hnil]
      exact h _ (List.mem_map_of_mem hd)

/-- A path that is converted to an ancestor is not changed. -/
theorem toServerEnc_eq_of_ancestor {d : CStr}
    (hfits : ¬ Overflows encoding cp d) (hd : Ancestor d path)
    (h : Ancestor (toServerEnc encoding cp d) path) : toServerEnc encoding cp d = d := by
  have hcount : (toServerEnc encoding cp d).count slash = d.count slash :=
    count_toServerEnc hfits (by decide)
  rcases hd with rfl | hd
  · rcases h with h | h
    · exact h
    · exact absurd h.count_lt (by omega)
  · rcases h with h | h
    · have hlt := hd.count_lt
      rw [← hcount, h] at hlt
      exact absurd hlt (lt_irrefl _)
    · exact eq_of_slashPrefix h hd hcount

theorem plain_of_ancestor (hfits : ¬ Overflows encoding cp (forward path))
    (h : Ancestor (toServerEnc encoding cp (forward path)) path) : backslash ∉ path := by
  have hslash : (toServerEnc encoding cp (forward path)).count slash = (forward path).count slash :=
    count_toServerEnc hfits (by decide)
  have hbackslash : (toServerEnc encoding cp (forward path)).count backslash =
      (forward path).count backslash :=
    count_toServerEnc hfits (by decide)
  rw [List.count_eq_zero_of_not_mem (backslash_notMem_forward path),
    List.count_eq_zero] at hbackslash
  rcases h with h | h
  · rwa [h] at hbackslash
  · have hle : path.count slash ≤ (forward path).count slash :=
      List.count_le_count_map (f := fun c => if c = backslash then slash else c) (x := slash)
    have hlt := h.count_lt
    omega

theorem requests_makeDirRecursiveAt (w : ServerState) :
    (makeDirRecursiveAt encoding cp scpMode server path w).2.requests =
      w.requests ++ (makeDirRecursive path).map (toServerEnc encoding cp) := by
  rw [makeDirRecursiveAt_eq, requests_foldl]

theorem forward_mem_makeDirRecursive (hne : path ≠ []) : forward path ∈ makeDirRecursive path := by
  unfold makeDirRecursive
  rw [if_neg hne]
  exact List.mem_append_right _ (List.mem_singleton_self _)

/-- A server that is asked for ancestors only has got the path and its ancestors as they are. -/
theorem kept_of_ancestors (hne : path ≠ []) (hleft : ∀ d, ¬ Ancestor (cp.overflow d) path)
    (h : ∀ d ∈ makeDirRecursive path, Ancestor (toServerEnc encoding cp d) path) :
    backslash ∉ path ∧
      (∀ d ∈ makeDirRecursive path, toServerEnc encoding cp d = d) ∧
      (encoding = 2 ∨ ∀ d, Ancestor d path → d.length < 520 → ∀ b ∈ d, b < 128) := by
  have hfits : ∀ d ∈ makeDirRecursive path, ¬ Overflows encoding cp d := by
    intro d hd hover
    have hanc := h d hd
    rw [toServerEnc_of_overflows hover] at hanc
    exact hleft d hanc
  have hforward := forward_mem_makeDirRecursive hne
  have hplain : backslash ∉ path := plain_of_ancestor (hfits _ hforward) (h _ hforward)
  have hkept : ∀ d ∈ makeDirRecursive path, toServerEnc encoding cp d = d := by
    intro d hd
    refine toServerEnc_eq_of_ancestor (hfits d hd) ?_ (h d hd)
    exact ((mem_makeDirRecursive hne hplain).mp hd).imp_right And.left
  refine ⟨hplain, hkept, or_iff_not_imp_left.mpr fun henc d hd hlen => ?_⟩
  by_cases hnil : d = []
  · subst hnil
    exact fun _ hb => absurd hb List.not_mem_nil
  by_cases hslash : d = [slash]
  · subst hslash
    exact fun b hb => List.mem_singleton.mp hb ▸ by decide
  have hmem :=
    (mem_makeDirRecursive hne hplain).mpr (hd.imp_right fun hbegin => ⟨hbegin, hnil, hslash⟩)
  rcases (toServerEnc_eq_self_iff (hfits d hmem)).mp (hkept d hmem) with henc' | hlong | hascii
  · exact absurd henc' henc
  · omega
  · exact hascii

/-- A path with its ancestors is made as it should be exactly when nothing of it is converted and
nothing but directories is in its way. -/
theorem madeChain_iff (encoding : ℤ) (cp : CodePage) (scpMode : Bool)
    (server : PosixServer) (path : CStr) :
    (∀ left, MadeChain server path
      (makeDirRecursiveAt encoding (cp.leaving left) scpMode server path ⟨server.tree, []⟩).2) ↔
      CanMakeChain encoding server path := by
  by_cases hne : path = []
  · have hnone : ∀ d, d ≠ [] → ¬ Ancestor d path := by
      rintro d hnil (rfl | hbegin)
      · exact hnil hne
      · have hlt := hbegin.length_lt
        rw [hne] at hlt
        exact absurd hlt (Nat.not_lt_zero _)
    refine iff_of_true (fun left => ?_) ?_
    · subst hne
      exact ⟨fun _ hd => absurd hd List.not_mem_nil, List.Pairwise.nil,
        fun d hnil hd => absurd hd (hnone d hnil)⟩
    · refine ⟨by rw [hne]; exact List.not_mem_nil, .inr fun d hd _ => ?_,
        by rw [hne]; exact trivial⟩
      by_cases hnil : d = []
      · rw [hnil]
        exact fun _ hb => absurd hb List.not_mem_nil
      · exact absurd hd (hnone d hnil)
  constructor
  · intro h
    -- any text may be left in the buffer, also one that is longer than the path
    have hlong := h fun _ => path ++ [slash]
    have hleft : ¬ Ancestor (path ++ [slash]) path := by
      rintro (heq | hbegin)
      · simpa using congrArg List.length heq
      · have hlt := hbegin.length_lt
        rw [List.length_append] at hlt
        omega
    obtain ⟨hplain, hkept, hascii⟩ := kept_of_ancestors hne (fun _ => hleft) fun d hd =>
      hlong.ancestors (toServerEnc encoding (cp.leaving fun _ => path ++ [slash]) d) (by
        rw [requests_makeDirRecursiveAt]
        exact List.mem_append_right _ (List.mem_map_of_mem hd))
    exact ⟨hplain, hascii, (made_iff hne hplain hkept).mp hlong.made⟩
  · intro h left
    have hkept : ∀ d ∈ makeDirRecursive path, toServerEnc encoding (cp.leaving left) d = d := by
      intro d hd
      have hanc : Ancestor d path := ((mem_makeDirRecursive hne h.plain).mp hd).imp_right And.left
      exact toServerEnc_kept (h.kept.imp_right fun hascii => hascii d hanc)
    have hrequests : (makeDirRecursiveAt encoding (cp.leaving left) scpMode server path
        ⟨server.tree, []⟩).2.requests =
        makeDirRecursive path := by
      rw [requests_makeDirRecursiveAt, List.nil_append]
      exact (List.map_congr_left hkept).trans (List.map_id _)
    refine ⟨?_, ?_, (made_iff hne h.plain hkept).mpr h.free⟩
    · rw [hrequests]
      exact fun d hd => ((mem_makeDirRecursive hne h.plain).mp hd).imp_right And.left
    · rw [hrequests]
      exact pairwise_makeDirRecursive path

end Run

def PosixServer.empty : PosixServer := ⟨⟨[], fun _ h => absurd h List.not_mem_nil⟩, 40, [], rfl⟩

/-- For `a\b` the directory `a` is made. -/
theorem not_madeChain :
    ¬ ∀ (encoding : ℤ) (cp : CodePage) (scpMode : Bool) (server : PosixServer) (path : CStr)
    (left : CStr → CStr), MadeChain server path
      (makeDirRecursiveAt encoding (cp.leaving left) scpMode server path ⟨server.tree, []⟩).2 := by
  intro h
  have hanc := (h 2 .latin1 false .empty [97, backslash, 98] id).ancestors [97] (by
    rw [requests_makeDirRecursiveAt]
    decide)
  rcases hanc with heq | ⟨rest, heq⟩
  · exact absurd heq (by decide)
  · exact absurd (List.cons.inj (List.cons.inj heq).2).1 (by decide)

end SalamanderSftp
