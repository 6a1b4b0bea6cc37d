import SalamanderSftp.Connection.LsText
import SalamanderSftp.Fs.Deletion
import SalamanderSftp.Fs.Termination

/-!
# Trees with plain names

Where the names are plain, are converted back and forth, can be told from a line of `ls`, and fit
with their paths into `MAX_PATH`, the paths that `SftpJoin` builds denote the entries they were
built for (`PlainTree.reached`). The recursive walks then go down (`walks_terminate_iff`), and a
recursive delete stays inside (`deletes_inside_iff`).
-/

namespace SalamanderSftp

open Components FileTree Relation

/-- A name on a POSIX server. -/
structure ProperName (n : CStr) : Prop where
  ne_nil : n ≠ []
  no_slash : ∀ c ∈ n, (c == slash) = false
  no_nul : ∀ c ∈ n, c ≠ 0
  not_dots : n ≠ dot ∧ n ≠ dotdot

/-- What `ls` prints for the name is one line, and the name can be told from it. -/
structure Conn.LineName (conn : Conn) (q : List CStr) (x : Node CStr Bytes) (n : CStr) : Prop where
  oneLine : ∀ c ∈ conn.nameText q x n, (c == newline) = false
  head : ∀ c ∈ n.head?, isBlank c = false
  last : match x with
    | .link _ _ => ¬ arrow <:+: n ++ [blank]
    | _ => n.getLast? ≠ some 13

/-- The path of an entry at `parts`, as the plug-in builds it. -/
def Conn.path (conn : Conn) (parts : List CStr) : CStr := absolute slash (parts.map conn.display)

/-- Below the directory at `parts`, whose location is `q`, all names are plain and all paths fit. -/
structure PlainTree (conn : Conn) (t : RemoteTree) (parts q : List CStr) : Prop where
  converts : ∀ ns, (∀ n ∈ ns, ProperName n) → conn.toServer (conn.path ns) = absolute slash ns
  proper : ∀ s x, t.lookup (q ++ s) = some x → ∀ n ∈ parts ++ s, ProperName n
  lines : conn.scpMode = true → ∀ s n x, t.lookup (q ++ (s ++ [n])) = some x →
    conn.LineName (q ++ (s ++ [n])) x n
  plain : ∀ s x, t.lookup (q ++ s) = some x → PlainParts ((parts ++ s).map conn.display)
  fits : ∀ s x, t.lookup (q ++ s) = some x → (conn.path (parts ++ s)).length < MAX_PATH
  dir : t.lookup q = some .dir
  denotes : conn.denotes t (conn.path parts) = some q
  target : conn.target t (conn.path parts) = some q

section LineName

variable {conn : Conn} {q : List CStr} {x : Node CStr Bytes} {n : CStr}

theorem Conn.LineName.textLines_eq (h : conn.LineName q x n) :
    textLines (conn.nameText q x n) = [conn.nameText q x n] :=
  List.splitOnP_eq_singleton h.oneLine

theorem Conn.LineName.readText_eq (h : conn.LineName q x n) (hn : ProperName n) :
    readText (lsLetter x) (conn.nameText q x n) = n := by
  have hlast := h.last
  rcases x with content | _ | ⟨rooted, target⟩
  · exact (readText_eq_iff (show (45 : Byte) ≠ 108 by decide) n).mpr ⟨h.head, hlast⟩
  · exact (readText_eq_iff (show (100 : Byte) ≠ 108 by decide) n).mpr ⟨h.head, hlast⟩
  · exact (readText_link_eq_iff hn.ne_nil _ h.head).mpr hlast

theorem ProperName.not_isDots (hn : ProperName n) : ¬ IsDots n := not_or.mpr hn.not_dots

/-- A name on one line is shown as it is. -/
theorem Conn.LineName.readRow (h : conn.LineName q x n) (hn : ProperName n) :
    conn.readRow (lsLetter x) (conn.nameText q x n) = [⟨conn.display n, decide (x = .dir)⟩] := by
  have hletter : (lsLetter x == 100) = decide (x = .dir) := by
    rcases x with content | _ | ⟨rooted, target⟩ <;> rfl
  unfold Conn.readRow
  rw [h.textLines_eq]
  dsimp only [List.headD_cons]
  rw [h.readText_eq hn, if_neg hn.not_isDots, cstr_eq_self hn.no_nul, hletter]
  rfl

end LineName

theorem pathSteps_absolute {ns : List CStr} (h : ∀ n ∈ ns, ProperName n) :
    pathSteps (absolute slash ns) = ns.map .name := by
  have hwhole : Whole (· == slash) ns := fun n hn => ⟨(h n hn).ne_nil, (h n hn).no_slash⟩
  unfold pathSteps
  rw [tokens_absolute (by decide) hwhole]
  refine List.map_congr_left fun n hn => ?_
  obtain ⟨h1, h2⟩ := (h n hn).not_dots
  rw [pathStep, if_neg h1, if_neg h2]

namespace PlainTree

variable {conn : Conn} {t : RemoteTree} {parts q s : List CStr} {n : CStr} {x : Node CStr Bytes}

theorem sftpJoin_path (h : PlainTree conn t parts q) (hx : t.lookup (q ++ (s ++ [n])) = some x) :
    sftpJoin (conn.path (parts ++ s)) (conn.display n) MAX_PATH =
      conn.path (parts ++ (s ++ [n])) := by
  have hmap : (parts ++ (s ++ [n])).map conn.display =
      (parts ++ s).map conn.display ++ [conn.display n] := by
    rw [← List.append_assoc, List.map_append, List.map_singleton]
  have hplain := h.plain _ x hx
  have hfits := h.fits _ x hx
  unfold Conn.path at hfits ⊢
  rw [hmap] at hplain hfits ⊢
  exact sftpJoin_absolute hplain hfits

theorem steps_path (h : PlainTree conn t parts q) (hx : t.lookup (q ++ s) = some x) :
    pathSteps (conn.toServer (conn.path (parts ++ s))) = (parts ++ s).map .name := by
  have hproper := h.proper s x hx
  rw [h.converts _ hproper, pathSteps_absolute hproper]

/-- Plain paths denote what they were built for. -/
theorem resolves (h : PlainTree conn t parts q) (hx : t.lookup (q ++ s) = some x) :
    conn.denotes t (conn.path (parts ++ s)) = some (q ++ s) ∧
      (x = .dir → conn.target t (conn.path (parts ++ s)) = some (q ++ s)) := by
  induction s using List.reverseRecOn generalizing x with
  | nil =>
    rw [List.append_nil, List.append_nil]
    exact ⟨h.denotes, fun _ => h.target⟩
  | append_singleton s n ih =>
    have hsteps := h.steps_path hx
    have hx' : t.lookup (q ++ s ++ [n]) = some x := by rwa [List.append_assoc]
    have hparent := Tree.lookup_parent hx'
    have htarget := (ih hparent).2 rfl
    unfold Conn.target at htarget
    rw [h.steps_path hparent] at htarget
    unfold Conn.denotes Conn.target
    rw [hsteps, ← List.append_assoc, ← List.append_assoc, List.map_append, List.map_singleton]
    refine ⟨resolve_concat htarget hx' fun hlast =>
      by simp at hlast, fun hdir => resolve_concat htarget hx' ?_⟩
    rintro - rooted target rfl
    simp at hdir

theorem entriesOf_eq (h : PlainTree conn t parts q) (hx : t.lookup (q ++ (s ++ [n])) = some x) :
    conn.entriesOf (q ++ (s ++ [n])) x n = [⟨conn.display n, decide (x = .dir)⟩] := by
  unfold Conn.entriesOf
  split_ifs with hscp
  · exact (h.lines hscp s n x hx).readRow (h.proper _ x hx n (by simp))
  · rfl

theorem mem_shown (h : PlainTree conn t parts q)
    (hs : t.lookup (q ++ s) = some .dir) {e : RemoteEntry} :
    e ∈ conn.shown t (conn.path (parts ++ s)) ↔ ∃ n x, t.lookup (q ++ (s ++ [n])) = some x ∧
      e = ⟨conn.display n, decide (x = .dir)⟩ := by
  have hlisting : conn.shown t (conn.path (parts ++ s)) = conn.entriesAt t (q ++ s) := by
    unfold Conn.shown Conn.listing
    rw [(h.resolves hs).1, (h.resolves hs).2 rfl]
    simp [hs]
  rw [hlisting]
  constructor
  · intro he
    obtain ⟨n, -, he⟩ := List.mem_flatMap.mp he
    rcases hx : t.lookup (q ++ s ++ [n]) with _ | x
    · rw [hx] at he
      exact absurd he List.not_mem_nil
    · rw [hx, Option.elim_some] at he
      rw [List.append_assoc] at hx he
      rw [h.entriesOf_eq hx] at he
      exact ⟨n, x, hx, List.mem_singleton.mp he⟩
  · rintro ⟨n, x, hx, rfl⟩
    have hentries := h.entriesOf_eq hx
    rw [← List.append_assoc] at hx hentries
    refine List.mem_flatMap.mpr ⟨n, Tree.mem_names.mpr (Option.isSome_of_eq_some hx), ?_⟩
    rw [hx, Option.elim_some, hentries]
    exact List.mem_singleton_self _

/-- The walks list the directories of the tree, under their own paths. -/
theorem reached (h : PlainTree conn t parts q) {r : CStr}
    (hr : conn.Reaches t (conn.path parts) r) :
    ∃ s, r = conn.path (parts ++ s) ∧ t.lookup (q ++ s) = some .dir := by
  induction hr with
  | refl =>
    refine ⟨[], ?_, ?_⟩
    · rw [List.append_nil]
    · rw [List.append_nil]
      exact h.dir
  | tail _ hstep ih =>
    obtain ⟨s, rfl, hs⟩ := ih
    obtain ⟨e, he, hdir, rfl⟩ := hstep
    obtain ⟨n, x, hx, rfl⟩ := (h.mem_shown hs).mp he
    obtain rfl : x = .dir := by simpa using hdir
    exact ⟨s ++ [n], h.sftpJoin_path hx, hx⟩

theorem joinsDeepen (h : PlainTree conn t parts q) : conn.JoinsDeepen t (conn.path parts) := by
  intro r hr e he
  obtain ⟨s, rfl, hs⟩ := h.reached hr
  obtain ⟨n, x, hx, rfl⟩ := (h.mem_shown hs).mp he
  rw [h.sftpJoin_path hx]
  refine ⟨q ++ s, q ++ (s ++ [n]), (h.resolves hs).1, (h.resolves hx).1, ?_⟩
  simp

theorem joinsStayBelow (h : PlainTree conn t parts q) :
    conn.JoinsStayBelow t (conn.path parts) := by
  have htokens : ∀ {s x}, t.lookup (q ++ s) = some x →
      tokens (· == slash) (conn.path (parts ++ s)) = (parts ++ s).map conn.display := by
    intro s x hx
    refine tokens_absolute (by decide) fun c hc => ?_
    obtain ⟨hne, hsep⟩ := (h.plain s x hx).whole c hc
    refine ⟨hne, fun b hb => ?_⟩
    have := hsep b hb
    rw [isSlash, Bool.or_eq_false_iff] at this
    exact this.1
  intro r hr e he
  obtain ⟨s, rfl, hs⟩ := h.reached hr
  obtain ⟨n, x, hx, rfl⟩ := (h.mem_shown hs).mp he
  rw [h.sftpJoin_path hx]
  constructor
  · have hroot := htokens (s := []) (by rw [List.append_nil]; exact h.dir)
    rw [List.append_nil] at hroot
    rw [hroot, htokens hx, List.map_append]
    exact List.prefix_append _ _
  · intro p hp
    rw [(h.resolves hx).1] at hp
    obtain rfl := Option.some.inj hp
    exact ⟨q, h.denotes, List.prefix_append _ _⟩

end PlainTree

/-! ## Deleting and walking -/

/-- A recursive delete stays inside its directory if and only if `SftpJoin` does, for all entries
the delete can get to, and always in a tree with plain names. -/
theorem deletes_inside_iff (conn : Conn) (t : RemoteTree) (root : CStr) :
    (DeletesInside conn t root ↔ conn.JoinsStayBelow t root) ∧
      ∀ parts q, root = conn.path parts → PlainTree conn t parts q → DeletesInside conn t root := by
  refine ⟨deletesInside_iff conn t root, ?_⟩
  rintro parts q rfl hplain
  exact (deletesInside_iff conn t _).mpr hplain.joinsStayBelow

/-- A file whose name climbs out of its directory, to a file next to it. -/
def climbingTree : RemoteTree where
  entries := [([ascii "r"], .dir), ([ascii "r", ascii "..\\v"], .file []), ([ascii "v"], .file [])]
  closed := by decide

/-- A delete of the directory removes the other file. -/
theorem not_deletes_inside :
    ¬ ∀ (conn : Conn) (t : RemoteTree) (root : CStr), DeletesInside conn t root := by
  intro h
  have hbelow := (h rawConn climbingTree (ascii "/r")).joinsStayBelow (ascii "/r") ReflTransGen.refl
    ⟨ascii "..\\v", false⟩ (by decide)
  exact absurd hbelow.text (by decide)

/-- The recursive walks go down if and only if `SftpJoin` does, for all entries they can get to, and
always in a tree with plain names. -/
theorem walks_terminate_iff (conn : Conn) (t : RemoteTree) (root : CStr) :
    (WalksTerminate conn t root ↔ conn.JoinsDeepen t root) ∧
      ∀ parts q, root = conn.path parts → PlainTree conn t parts q →
      WalksTerminate conn t root := by
  refine ⟨walksTerminate_iff conn t root, ?_⟩
  rintro parts q rfl hplain
  exact (walksTerminate_iff conn t _).mpr hplain.joinsDeepen

/-- A directory that holds a directory named by a backslash. -/
def backslashTree : RemoteTree where
  entries := [([ascii "r"], .dir), ([ascii "r", [backslash]], .dir)]
  closed := by decide

/-- The walk over it calls itself on the same path again. -/
theorem not_walks_terminate :
    ¬ ∀ (conn : Conn) (t : RemoteTree) (root : CStr), WalksTerminate conn t root := by
  intro h
  obtain ⟨q, q', hq, hq', hlt⟩ :=
    (h rawConn backslashTree (ascii "/r")).joinsDeepen (ascii "/r") ReflTransGen.refl
    ⟨[backslash], true⟩ (by decide)
  have hjoin : sftpJoin (ascii "/r") [backslash] MAX_PATH = ascii "/r" := by decide
  rw [hjoin, hq] at hq'
  obtain rfl := Option.some.inj hq'
  exact absurd hlt (lt_irrefl _)

end SalamanderSftp
