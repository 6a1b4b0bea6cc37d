import SalamanderSftp.Connection.Listing
import SalamanderSftp.Connection.Wrap

/-!
# The size of a directory from du

`FastDirSize` has the shell run `du -sb` and, where that fails, `du -sk`. It then looks in the
output for the error of the first to find out whether it has to multiply by 1024; but the errors of
both go to `/dev/null`, so that the texts it looks for can only come from the path that du prints
(`fast_dir_size_iff`).
-/

namespace SalamanderSftp

open Shell (Token Feeds)
open Components (findText findText_isNone_iff infix_append_iff infix_append_iff_left)

/-! ## FastDirSize -/

/-- The second command of `FastDirSize`. -/
def findCommand (remotePath : CStr) : CStr :=
  let q := shellQuote remotePath
  ascii "find " ++ q ++ ascii " -type f 2>/dev/null | wc -l; find " ++ q ++
    ascii " -mindepth 1 -type d 2>/dev/null | wc -l"

/-- One `%d` of `sscanf`, and what is left. The number stops at the bounds of 64 bits, and the low
32 of them are stored. -/
def scanInt (s : CStr) : Option (ℤ × CStr) :=
  let t := s.dropWhile isSpace
  let u := if t.head? = some 45 ∨ t.head? = some 43 then t.tail else t
  let n : ℤ :=
    if t.head? = some 45 then max (-(digitsValue u : ℤ)) (-2 ^ 63)
    else min (digitsValue u : ℤ) (2 ^ 63 - 1)
  if u.takeWhile isDigit = [] then none else some (n.bmod (2 ^ 32), u.dropWhile isDigit)

/-- `sscanf_s(s, "%d\n%d", &f, &d) >= 1`, with 0 for a number that is not there. -/
def scanCounts (s : CStr) : Option (ℤ × ℤ) :=
  (scanInt s).map fun r => (r.1, ((scanInt r.2).map Prod.fst).getD 0)

/-- The results of `FastDirSize`. -/
structure DirSize where
  outBytes : ℕ
  outFiles : ℤ
  outDirs : ℤ

/-- `out.c_str()`. -/
def cText (out : Bytes) : CStr := out.takeWhile (· ≠ 0)

/-- `FastDirSize` for a path in the encoding of the server; `server` is what happens to a command
there. -/
def fastDirSize (connected : Bool) (server : CStr → ExecIo)
    (sftpServerCmd remotePath : CStr) (countItems : Bool) :
    Option DirSize :=
  if !connected then none
  else
    let wrap :=
      fun rawCmd => wrapCommandWithSftpServerPrefix sftpServerCmd rawCmd Wrapper.fastDirSize.outSize
    let (ok, out, code) := execRaw (server (wrap (duCommand remotePath)))
    if ok = false ∨ code ≠ 0 ∨ out = [] then none
    else
      let val := strtoui64 (cText out)
      if val = 0 ∧ out.head? ≠ some 48 then none
      else
        let isBytes := (findText (ascii "invalid option") out).isNone &&
            (findText (ascii "illegal option") out).isNone
        let outBytes := if isBytes then val else val * 1024 % 2 ^ 64
        let counts :=
          if countItems then
            let (ok, cntOut, code) := execRaw (server (wrap (findCommand remotePath)))
            if ok = true ∧ code = 0 ∧ cntOut ≠ [] then scanCounts (cText cntOut) else none
          else none
        let (f, d) := counts.getD (0, 0)
        some ⟨outBytes, f, d⟩

/-! ## The server -/

/-- What a program does. -/
structure Ran where
  out : Bytes
  err : Bytes
  status : ℤ

/-- `2>/dev/null`. -/
def silence : List Token := [.word (ascii "2"), .op (ascii ">"), .word (ascii "/dev/null")]

def wordsOf (ts : List Token) : List CStr :=
  ts.filterMap fun
    | .word w => some w
    | .op _ => none

/-- A simple command, with its errors thrown away where it says so at its end. -/
def runSimple (run : List CStr → Ran) (ts : List Token) : Ran :=
  if ts.drop (ts.length - 3) =
    silence then { run (wordsOf (ts.take (ts.length - 3))) with err := [] }
  else run (wordsOf ts)

/-- A list of commands with `||` between them; `command` is what has been read of the first. -/
def runOrList (run : List CStr → Ran) (command : List Token) : List Token → Ran
  | [] => runSimple run command
  | t :: ts =>
    if t = .op (ascii "||") then
      let first := runSimple run command
      if first.status = 0 then first
      else
        let rest := runOrList run [] ts
        ⟨first.out ++ rest.out, first.err ++ rest.err, rest.status⟩
    else runOrList run (command ++ [t]) ts

/-- The du of GNU, or one that rejects `-b` with a complaint and counts in blocks. -/
inductive DuServer
  | bytes
  | blocks (complaint : CStr) (status : ℤ) (h : status ≠ 0)

namespace DuServer

/-- The line that du prints for a number and a path. -/
def line (n : ℕ) (path : CStr) : Bytes := decimal n ++ 9 :: (path ++ [10])

/-- The program du where the directory's number is `n`. -/
def du (s : DuServer) (n : ℕ) (path : CStr) (inBytes : Bool) : Ran :=
  match s, inBytes with
  | blocks complaint status _, true => ⟨[], complaint, status⟩
  | blocks _ _ _, false => ⟨line n path, [], 0⟩
  | bytes, true => ⟨line n path, [], 0⟩
  | bytes, false => ⟨line ((n + 1023) / 1024) path, [], 0⟩

/-- A command line of du; there are no other programs. -/
def program (s : DuServer) (n : ℕ) : List CStr → Ran
  | [cmd, flag, dashes, path] =>
    if cmd = ascii "du" ∧ dashes = ascii "--" ∧ flag = ascii "-sb" then s.du n path true
    else if cmd = ascii "du" ∧ dashes = ascii "--" ∧ flag = ascii "-sk" then s.du n path false
    else ⟨[], [], 127⟩
  | _ => ⟨[], [], 127⟩

/-- What the shell makes of a command. -/
def shell (s : DuServer) (n : ℕ) (command : CStr) : Option Ran :=
  (Shell.read command).map (runOrList (s.program n) [])

def sizeInBytes : DuServer → ℕ → ℕ
  | bytes, n => n
  | blocks _ _ _, n => 1024 * n

/-- The command of `FastDirSize` gets to the shell, and its output and status come back. -/
def Serves (s : DuServer) (n : ℕ) (server : CStr → ExecIo) (sftpServerCmd remotePath : CStr) :
    Prop :=
  ∃ ran, s.shell n (duCommand remotePath) = some ran ∧
    execRaw (server (wrapCommandWithSftpServerPrefix sftpServerCmd
      (duCommand remotePath) Wrapper.fastDirSize.outSize)) =
      (true, ran.out ++ ran.err, ran.status)

/-- The path has one of the texts that `FastDirSize` looks for. -/
def Confusing (path : CStr) :
    Prop := ascii "invalid option" <:+: path ∨ ascii "illegal option" <:+: path

/-- A number in bytes is taken as it is, where it fits and the path is not confusing; one in blocks
is multiplied only where it is. -/
def Understood (s : DuServer) (n : ℕ) (path : CStr) : Prop :=
  match s with
  | bytes => n < 2 ^ 64 ∧ (¬ Confusing path ∨ n = 0)
  | blocks _ _ _ => n = 0 ∨ Confusing path ∧ 1024 * n < 2 ^ 64

/-! ## The command -/

theorem read_duCommand (path : CStr) : Shell.read (duCommand path) =
    some (([ascii "du", ascii "-sb", ascii "--", path].map .word ++ silence) ++
      .op (ascii "||") :: ([ascii "du", ascii "-sk", ascii "--", path].map .word ++ silence)) := by
  have hfirst : Feeds .between (ascii "du -sb -- ") ([ascii "du", ascii "-sb",
      ascii "--"].map .word) .between := by
    decide +kernel
  have hpath := Shell.Feeds.quote_blank path
  have hmiddle : Feeds .between (ascii "2>/dev/null || du -sk -- ")
      (silence ++ .op (ascii "||") :: [ascii "du", ascii "-sk",
        ascii "--"].map .word) .between := by decide +kernel
  have hlast : Feeds .between (ascii "2>/dev/null") [.word (ascii "2"), .op (ascii ">")]
      (.word (Shell.bare (ascii "/dev/null"))) := by decide +kernel
  have hend : Shell.finish (.word (Shell.bare (ascii "/dev/null"))) =
      some [.word (ascii "/dev/null")] := by
    decide +kernel
  have htext : ascii " 2>/dev/null || du -sk -- " =
      [Shell.blank] ++ ascii "2>/dev/null || du -sk -- " := by
    decide +kernel
  have htext' : ascii " 2>/dev/null" = [Shell.blank] ++ ascii "2>/dev/null" := by decide +kernel
  have hall :=
    Shell.read_of_feeds (hfirst.append (hpath.append (hmiddle.append (hpath.append hlast)))) hend
  unfold duCommand
  dsimp only
  rw [htext, htext', shellQuote_eq]
  simpa [silence] using hall

theorem ascii_flags : ascii "-sb" ≠ ascii "-sk" := by decide +kernel

theorem program_bytes (s : DuServer) (n : ℕ) (path : CStr) :
    s.program n [ascii "du", ascii "-sb", ascii "--", path] = s.du n path true := by
  rw [program, if_pos ⟨rfl, rfl, rfl⟩]

theorem program_blocks (s : DuServer) (n : ℕ) (path : CStr) :
    s.program n [ascii "du", ascii "-sk", ascii "--", path] = s.du n path false := by
  rw [program, if_neg fun h => ascii_flags h.2.2.symm, if_pos ⟨rfl, rfl, rfl⟩]

theorem runSimple_silence (run : List CStr → Ran) (a b c : CStr) (path : CStr) :
    runSimple run ([a, b, c, path].map .word ++ silence) = { run [a, b, c, path] with err := [] } :=
  if_pos rfl

/-- Words and redirections are collected until the next `||`. -/
theorem runOrList_append (run : List CStr → Ran) {ts : List Token}
    (h : .op (ascii "||") ∉ ts) (rest : List Token) :
    ∀ command : List Token, runOrList run command (ts ++ rest) =
      runOrList run (command ++ ts) rest := by
  induction ts with
  | nil => simp
  | cons t ts ih =>
    intro command
    have ht : t ≠ .op (ascii "||") := fun heq => h (heq ▸ List.mem_cons_self)
    rw [List.cons_append, runOrList, if_neg ht, ih fun hmem => h (List.mem_cons_of_mem _ hmem)]
    simp

theorem or_notMem_command (a b c path : CStr) :
    Token.op (ascii "||") ∉ [a, b, c, path].map Token.word ++ silence := by
  have hop : ascii "||" ≠ ascii ">" := by decide +kernel
  simp [silence, hop]

/-- Whichever du answers, its line is all that the shell gives back. -/
theorem shell_duCommand (s : DuServer) (n : ℕ) (path : CStr) :
    s.shell n (duCommand path) = some ⟨line n path, [], 0⟩ := by
  rw [shell, read_duCommand, Option.map_some,
    runOrList_append _ (or_notMem_command _ _ _ _), List.nil_append,
    runOrList, if_pos rfl]
  have hlast : runOrList (s.program n) [] ([ascii "du", ascii "-sk", ascii "--",
      path].map .word ++ silence) =
      { s.du n path false with err := [] } := by
    have hall := runOrList_append (s.program n)
        (or_notMem_command (ascii "du") (ascii "-sk") (ascii "--") path) [] []
    rw [List.append_nil, List.nil_append] at hall
    rw [hall, runOrList, runSimple_silence, program_blocks]
  rw [hlast, runSimple_silence, program_bytes]
  cases s with
  | bytes => rfl
  | blocks complaint status h =>
    dsimp only [du]
    rw [if_neg h]
    rfl

/-! ## The answer -/

theorem isDigit_tab : isDigit 9 = false := by decide

theorem strtoui64_line (n : ℕ) (path : CStr) :
    strtoui64 (cText (line n path)) = min n (2 ^ 64 - 1) := by
  have hdigits : ∀ c ∈ decimal n, decide (c ≠ 0) = true := by
    intro c hc
    rw [decide_eq_true_iff]
    rintro rfl
    exact absurd (isDigit_of_mem_decimal hc) (by decide)
  have htext : cText (line n path) = decimal n ++ 9 :: (path ++ [10]).takeWhile (· ≠ 0) := by
    unfold cText line
    rw [List.takeWhile_append_of_pos hdigits, List.takeWhile_cons_of_pos (by decide)]
  rw [htext, strtoui64_decimal_append n isDigit_tab]

theorem findText_line {pat : CStr} (hne : pat ≠ [])
    (hplain : ∀ c ∈ pat, isDigit c = false ∧ c ≠ 9 ∧ c ≠ 10) (n : ℕ)
    (path : CStr) : (findText pat (line n path)).isNone = true ↔ ¬ pat <:+: path := by
  have hbefore : ∀ c ∈ pat, c ∉ decimal n ++ [9] := by
    intro c hc hmem
    rcases List.mem_append.mp hmem with hmem | hmem
    · exact absurd (isDigit_of_mem_decimal hmem) (by simp [(hplain c hc).1])
    · exact (hplain c hc).2.1 (List.mem_singleton.mp hmem)
  have hafter : ∀ c ∈ pat, c ∉ [(10 : Byte)] :=
    fun c hc hmem => (hplain c hc).2.2 (List.mem_singleton.mp hmem)
  have hline : line n path = decimal n ++ [9] ++ (path ++ [10]) := by simp [line]
  rw [findText_isNone_iff, hline, infix_append_iff hne hbefore, infix_append_iff_left hne hafter]

theorem isBytes_iff (n : ℕ) (path : CStr) :
    ((findText (ascii "invalid option") (line n path)).isNone &&
      (findText (ascii "illegal option") (line n path)).isNone) = true ↔ ¬ Confusing path := by
  rw [Bool.and_eq_true, findText_line (by decide +kernel) (by decide +kernel),
    findText_line (by decide +kernel) (by decide +kernel), Confusing, not_or]

/-- Where du is heard, the result goes by its number and by the path alone. -/
theorem fastDirSize_eq {s : DuServer} {n : ℕ} {server : CStr → ExecIo}
    {sftpServerCmd remotePath : CStr}
    (h : s.Serves n server sftpServerCmd remotePath) (countItems : Bool)
    [Decidable (Confusing remotePath)] :
    (fastDirSize true server sftpServerCmd remotePath countItems).map DirSize.outBytes =
      some (if Confusing remotePath then min n (2 ^ 64 - 1) * 1024 % 2 ^ 64
        else min n (2 ^ 64 - 1)) := by
  obtain ⟨ran, hran, hexec⟩ := h
  rw [shell_duCommand] at hran
  obtain rfl := Option.some.inj hran
  rw [List.append_nil] at hexec
  have hne : line n remotePath ≠ [] := by simp [line]
  have hhead : min n (2 ^ 64 - 1) = 0 → (line n remotePath).head? = some 48 := by
    intro hzero
    have hn : n = 0 := by omega
    subst hn
    rfl
  unfold fastDirSize
  simp only [Bool.not_true, Bool.false_eq_true, if_false, hexec, strtoui64_line]
  rw [if_neg (by simp [hne]), if_neg fun hz => hz.2 (hhead hz.1), Option.map_some]
  by_cases hc : Confusing remotePath
  · have hbytes := mt (isBytes_iff n remotePath).mp (not_not.mpr hc)
    rw [if_pos hc, if_neg hbytes]
  · rw [if_neg hc, if_pos ((isBytes_iff n remotePath).mpr hc)]

/-! ## The size in bytes -/

/-- A wrong factor gives the right number for an empty directory only. -/
theorem times_1024_wraps (n : ℕ) : min n (2 ^ 64 - 1) * 1024 % 2 ^ 64 = n ↔ n = 0 := by
  constructor
  · intro h
    have hlt : n < 2 ^ 64 := by omega
    rw [Nat.min_eq_left (by omega)] at h
    omega
  · rintro rfl
    rfl

theorem times_1024_exact (n : ℕ) :
    min n (2 ^ 64 - 1) * 1024 % 2 ^ 64 = 1024 * n ↔ 1024 * n < 2 ^ 64 := by
  omega

/-- What `FastDirSize` takes from the line is the size exactly where the line is understood. -/
theorem answer_iff (s : DuServer) (n : ℕ) (path : CStr) [Decidable (Confusing path)] :
    (if Confusing path then min n (2 ^ 64 - 1) * 1024 % 2 ^ 64 else min n (2 ^ 64 - 1)) =
      s.sizeInBytes n ↔
      s.Understood n path := by
  cases s with
  | bytes =>
    by_cases hc : Confusing path
    · rw [if_pos hc]
      simp only [sizeInBytes, Understood, times_1024_wraps, hc, not_true, false_or]
      omega
    · rw [if_neg hc]
      simp only [sizeInBytes, Understood, hc, not_false_iff, true_or, and_true]
      omega
  | blocks complaint status h =>
    by_cases hc : Confusing path
    · rw [if_pos hc]
      simp only [sizeInBytes, Understood, times_1024_exact, hc, true_and]
      omega
    · rw [if_neg hc]
      simp only [sizeInBytes, Understood, hc, false_and, or_false]
      omega

end DuServer

/-- `FastDirSize` gives the size in bytes where du has counted bytes and the path does not look like
its complaint; a count of blocks is multiplied only where the path does. -/
theorem fast_dir_size_iff {s : DuServer} {n : ℕ} {server : CStr → ExecIo}
    {sftpServerCmd remotePath : CStr}
    (h : s.Serves n server sftpServerCmd remotePath) (countItems : Bool) :
    (∀ size, fastDirSize true server sftpServerCmd remotePath countItems = some size →
        size.outBytes = s.sizeInBytes n) ↔
      s.Understood n remotePath := by
  classical
  obtain ⟨size, hsize, hbytes⟩ := Option.map_eq_some_iff.mp (DuServer.fastDirSize_eq h countItems)
  rw [← DuServer.answer_iff, ← hbytes, hsize]
  constructor
  · intro hall
    exact hall size rfl
  · rintro heq _ ⟨⟩
    exact heq

/-- A server that answers each command with a text and status 0. -/
def answering (out : Bytes) : CStr → ExecIo := fun _ => ⟨true, [], [.data out], [], 0⟩

/-- A du without `-b`. -/
def blocksDu : DuServer := .blocks (ascii "du: invalid option -- 'b'\n") 1 (by decide)

theorem fast_dir_size_four_bytes :
    (∀ size, fastDirSize true (answering (DuServer.line 4 (ascii "/d"))) [] (ascii "/d") false =
      some size →
        size.outBytes = DuServer.bytes.sizeInBytes 4) ↔
      DuServer.bytes.Understood 4 (ascii "/d") :=
  fast_dir_size_iff ⟨_, DuServer.shell_duCommand _ _ _, by decide +kernel⟩ false

/-- Four blocks are reported as four bytes. -/
theorem not_fast_dir_size :
    ¬ ∀ (s : DuServer) (n : ℕ) (server : CStr → ExecIo)
      (sftpServerCmd remotePath : CStr) (countItems : Bool),
      s.Serves n server sftpServerCmd remotePath →
      ∀ size, fastDirSize true server sftpServerCmd remotePath countItems = some size →
        size.outBytes = s.sizeInBytes n := by
  intro hall
  have hserves : blocksDu.Serves 4 (answering (DuServer.line 4 (ascii "/d"))) [] (ascii "/d") :=
    ⟨_, DuServer.shell_duCommand _ _ _, by decide +kernel⟩
  have hsize :
      (fastDirSize true (answering (DuServer.line 4 (ascii "/d"))) [] (ascii "/d") false).map
      DirSize.outBytes = some 4 := by decide +kernel
  obtain ⟨size, hsome, hfour⟩ := Option.map_eq_some_iff.mp hsize
  have hbytes := hall blocksDu 4 _ _ _ false hserves size hsome
  rw [hfour] at hbytes
  exact absurd hbytes (by decide)

end SalamanderSftp
