import SalamanderSftp.Connection.LsColumns
import SalamanderSftp.Lib.FileTree
import SalamanderSftp.Path

/-!
# Servers

A server holds a POSIX file tree. Its paths are cut at slashes only, and a connection converts
between the names shown and the names on the server (`Conn`). `denotes` is the location a path
names, with a last symbolic link kept; `Conn.listing` is what `ListDir` can find there. In SCP mode
that is what `ScpListDir` reads of the lines of `ls` (`scpListDir_entriesAt`), and a name with a
newline is more than one line.

A part of a tree keeps the locations that its paths name (`Part.denotes`, `Part.target`).
-/

namespace SalamanderSftp

open Components FileTree Relation

abbrev RemoteTree := Tree CStr Bytes

/-- What the plug-in relies on when it talks to a server. -/
structure Conn where
  /-- The file tree behind the connection. -/
  server : ℕ
  scpMode : Bool
  /-- `ToServerEnc`. -/
  toServer : CStr → CStr
  /-- `ToDisplayEnc`. -/
  display : CStr → CStr
  /-- What `ls` prints behind the arrow of a symbolic link, by its location. -/
  linkText : List CStr → CStr
  /-- The symbolic links the server follows in one path. -/
  maxLinks : ℕ

/-- A connection without conversion of names. -/
def rawConn : Conn := ⟨0, false, id, id, fun _ => [], 40⟩

/-- An entry as the recursive operations see it. -/
structure RemoteEntry where
  Name : CStr
  IsDir : Bool
  deriving DecidableEq

def CSftpEntry.toRemote (e : CSftpEntry) : RemoteEntry := ⟨e.Name, e.IsDir⟩

/-- The first letter that `ls` prints for a node. -/
def lsLetter : Node CStr Bytes → Byte
  | .file _ => 45
  | .dir => 100
  | .link _ _ => 108

/-! ## Paths on the server -/

def pathStep (c : CStr) : Step CStr :=
  if c = dot then .self else if c = dotdot then .up else .name c

def pathSteps (path : CStr) : List (Step CStr) := (tokens (· == slash) path).map pathStep

namespace Conn

variable (conn : Conn) (t : RemoteTree)

/-- The location of the object that a path names. -/
def denotes (path : CStr) : Option (List CStr) :=
  resolve t .keep conn.maxLinks [] (pathSteps (conn.toServer path))

/-- The same with a last symbolic link followed. -/
def target (path : CStr) : Option (List CStr) :=
  resolve t .follow conn.maxLinks [] (pathSteps (conn.toServer path))

/-- What `ls` prints behind the columns of a node, under this name. -/
def nameText (q : List CStr) (x : Node CStr Bytes) (name : CStr) : CStr :=
  match x with
  | .link _ _ => name ++ (arrow ++ conn.linkText q)
  | _ => name

/-- What `ScpListDir` reads of the columns and this text. The first line has the columns in front of
it; any other one counts if it looks like a line of `ls` by itself. -/
def readRow (letter : Byte) (text : CStr) : List RemoteEntry :=
  let name := readText letter ((textLines text).headD [])
  (if IsDots name then [] else [⟨conn.display (cstr name), letter == 100⟩]) ++
    ((textLines text).tail.filterMap (scpEntry conn.display)).map CSftpEntry.toRemote

/-- What a listing shows of a node, under this name. -/
def entriesOf (q : List CStr) (x : Node CStr Bytes) (name : CStr) : List RemoteEntry :=
  if conn.scpMode then conn.readRow (lsLetter x) (conn.nameText q x name)
  else [⟨conn.display name, decide (x = .dir)⟩]

def entriesAt (q : List CStr) : List RemoteEntry :=
  (t.names q).flatMap fun n => (t.lookup (q ++ [n])).elim [] (conn.entriesOf (q ++ [n]) · n)

/-- What `ListDir` can find. `opendir` follows a symbolic link and needs a directory; `ls -l` lists
anything but a directory as itself, under the path it was given. -/
def listing (path : CStr) : Option (List RemoteEntry) :=
  if conn.scpMode then
    (conn.denotes t path).bind fun q => (t.lookup q).map fun x =>
      if x = .dir then conn.entriesAt t q else conn.entriesOf q x (conn.toServer path)
  else
    (conn.target t path).bind fun q =>
      if t.lookup q = some .dir then some (conn.entriesAt t q) else none

/-- The entries a path can be listed with. -/
def shown (path : CStr) : List RemoteEntry := (conn.listing t path).getD []

end Conn

/-- A directory is shown at `r`, and `r'` is the path built for it. -/
def Conn.Enters (conn : Conn) (t : RemoteTree) (r r' : CStr) : Prop :=
  ∃ e ∈ conn.shown t r, e.IsDir = true ∧ r' = sftpJoin r e.Name MAX_PATH

/-- The paths under which a walk from `root` lists directories. -/
def Conn.Reaches (conn : Conn) (t : RemoteTree) (root : CStr) : CStr → Prop :=
  ReflTransGen (conn.Enters t) root

/-! ## The lines of ls -/

section Rows

variable {conn : Conn} {t : RemoteTree} {q : List CStr}

theorem readRow_eq (r : LsRow) :
    (r.entries conn.display).map CSftpEntry.toRemote = conn.readRow r.letter r.text := by
  rw [LsRow.entries_eq, LsColumns.scpEntry_line, List.map_append]
  unfold Conn.readRow
  dsimp only
  split_ifs
  · rfl
  · rfl

/-- `ls` prints this row for the entry `n` of a directory. -/
def Conn.Prints (conn : Conn) (t : RemoteTree) (q : List CStr) (n : CStr) (r : LsRow) : Prop :=
  ∃ x, t.lookup (q ++ [n]) = some x ∧ r.letter = lsLetter x ∧
    r.text = conn.nameText (q ++ [n]) x n

/-- The directory itself and its parent leave nothing in a listing. -/
theorem entries_of_isDots {toDisplay : CStr → CStr} {r : LsRow} (hletter : r.letter = 100)
    (htext : IsDots r.text) : r.entries toDisplay = [] := by
  have hone : textLines r.text = [r.text] ∧ readText 100 r.text = r.text := by
    rcases htext with heq | heq <;> rw [heq] <;> decide +kernel
  rw [LsRow.entries_eq, hone.1, List.headD_cons, LsColumns.scpEntry_line, hletter, hone.2,
    if_pos htext]
  rfl

end Rows

/-- A file whose name has a second line that looks like a row of `ls`. -/
def twoLineName : CStr := ascii "a\n-rw-r--r-- 1 u g 0 0 ..\\v"

def twoLineTree : RemoteTree where
  entries := [([twoLineName], .file [])]
  closed := by simp [lookupIn]

def scpConn : Conn := { rawConn with scpMode := true }

/-- A row of `ls` for somebody's object with this first letter. -/
def plainRow (letter : Byte) (h : letter ∈ [(45 : Byte), 100, 108, 98, 99, 112, 115])
    (text : CStr) : LsRow where
  letter := letter
  letter_mem := h
  rwx := ascii "rwxr-xr-x"
  rwx_plain := by decide +kernel
  links := 1
  owner := ⟨ascii "u", by decide +kernel, by decide +kernel⟩
  group := ⟨ascii "g", by decide +kernel, by decide +kernel⟩
  size := 0
  size_lt := by decide
  mtime := 0
  mtime_lt := by decide
  pad _ := 0
  text := text

variable {conn : Conn} {t t' : RemoteTree} {path : CStr} {q : List CStr}

/-- Nothing new is found in a part of a tree. -/
def Part (t t' : RemoteTree) : Prop := ∀ q x, t.lookup q = some x → t'.lookup q = some x

theorem Part.refl (t : RemoteTree) : Part t t := fun _ _ h => h

theorem Part.trans {t'' : RemoteTree} (h : Part t t') (h' : Part t' t'') : Part t t'' :=
  fun q x hx => h' q x (h q x hx)

theorem Part.keeps (h : Part t t') : t.Keeps t' := fun q x hx => ⟨x, h q x hx, rfl⟩

theorem part_remove (t : RemoteTree) (hq : q ≠ []) : Part (t.remove q) t := by
  intro p x hx
  rw [Tree.lookup_remove hq] at hx
  split_ifs at hx
  exact hx

theorem Part.denotes (h : Part t t') (hq : conn.denotes t path = some q) :
    conn.denotes t' path = some q :=
  resolve_mono h.keeps _ _ hq

theorem Part.target (h : Part t t') (hq : conn.target t path = some q) :
    conn.target t' path = some q :=
  resolve_mono h.keeps _ _ hq

theorem Conn.denotes_exists (h : conn.denotes t path = some q) : ∃ x, t.lookup q = some x := by
  obtain ⟨x, hx, -⟩ := resolve_exists _ _ t.lookup_nil h
  exact ⟨x, hx⟩

theorem Part.entriesAt (h : Part t t') {e : RemoteEntry} (he : e ∈ conn.entriesAt t q) :
    e ∈ conn.entriesAt t' q := by
  obtain ⟨n, -, he⟩ := List.mem_flatMap.mp he
  rcases hx : t.lookup (q ++ [n]) with _ | x
  · rw [hx] at he
    exact absurd he List.not_mem_nil
  · have hx' := h _ _ hx
    rw [hx] at he
    refine List.mem_flatMap.mpr ⟨n, Tree.mem_names.mpr (Option.isSome_of_eq_some hx'), ?_⟩
    rw [hx']
    exact he

theorem Part.shown (h : Part t t') {e : RemoteEntry} (he : e ∈ conn.shown t path) :
    e ∈ conn.shown t' path := by
  unfold Conn.shown Conn.listing at he ⊢
  by_cases hscp : conn.scpMode = true
  · rw [if_pos hscp] at he ⊢
    rcases hq : conn.denotes t path with _ | q
    · simp [hq] at he
    · obtain ⟨x, hx⟩ := Conn.denotes_exists hq
      rw [hq] at he
      rw [h.denotes hq]
      simp only [Option.bind_some, Option.map_some, Option.getD_some, hx, h q x hx] at he ⊢
      split_ifs at he ⊢
      · exact h.entriesAt he
      · exact he
  · rw [if_neg hscp] at he ⊢
    rcases hq : conn.target t path with _ | q
    · simp [hq] at he
    · rw [hq] at he
      rw [h.target hq]
      simp only [Option.bind_some] at he ⊢
      split_ifs at he with hdir
      · rw [if_pos (h _ _ hdir)]
        exact h.entriesAt he
      · simp at he

end SalamanderSftp
