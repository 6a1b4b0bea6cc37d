import SalamanderSftp.Connection.Encoding
import SalamanderSftp.Lib.Shell

/-!
# The commands of SCP mode

In SCP mode the operations on a path are commands for the shell of the server, put together from
fixed texts and quoted paths. The shell reads each of them as its fixed words, with each path as one
argument, whatever the bytes of the path are (`commands_injection_free`).
-/

namespace SalamanderSftp

open Shell (Token Feeds)

def shellQuote (s : CStr) : CStr :=
  [39] ++ (s.flatMap fun c => if c = 39 then ascii "'\\''" else [c]) ++ [39]

theorem shellQuote_eq (s : CStr) : shellQuote s = Shell.quote s := by
  have hescaped : ascii "'\\''" = [39, 92, 39, 39] := by decide +kernel
  unfold shellQuote
  rw [hescaped]
  rfl

/-- `%lo`. -/
def octal (n : ℕ) :
    CStr := if n = 0 then [48] else ((Nat.digits 8 n).map fun d => (48 + d).toUInt8).reverse

/-- The operations that run a command in SCP mode, with the paths they are called with. -/
inductive ScpCall
  | listDir (path : CStr)
  | pathType (path : CStr)
  | chmod (path : CStr) (mode : ℕ)
  | getPermissions (path : CStr)
  | statFull (path : CStr)
  | remoteFileSize (path : CStr)
  | makeDir (path : CStr)
  | removeDir (path : CStr)
  | removeFile (path : CStr)
  | rename (oldPath newPath : CStr)

namespace ScpCall

/-- The command for the paths on the server; for the root `PathType` runs none. -/
def command : ScpCall → Option CStr
  | listDir path => some (ascii "ls -la --time-style=+%s -- " ++ shellQuote path)
  | pathType path =>
    if path = [slash] then none
    else
      let q := shellQuote path
      some (ascii "if [ -d " ++ q ++ ascii " ]; then echo D; elif [ -e " ++ q ++
        ascii " ]; then echo F; else echo N; fi")
  | chmod path mode =>
    some (ascii "chmod " ++ octal (mode &&& 0o777) ++ ascii " -- " ++ shellQuote path)
  | getPermissions path => some (ascii "stat -c %a -- " ++ shellQuote path)
  | statFull path => some (ascii "stat -c '%a %s %u %g %Y' -- " ++ shellQuote path)
  | remoteFileSize path => some (ascii "stat -c %s -- " ++ shellQuote path)
  | makeDir path => some (ascii "mkdir -- " ++ shellQuote path)
  | removeDir path => some (ascii "rmdir -- " ++ shellQuote path)
  | removeFile path => some (ascii "rm -f -- " ++ shellQuote path)
  | rename oldPath newPath =>
    some (ascii "mv -- " ++ shellQuote oldPath ++ ascii " " ++ shellQuote newPath)

/-- The operation on the paths of the server. -/
def toServer (encoding : ℤ) (cp : CodePage) : ScpCall → ScpCall
  | listDir path => listDir (toServerEnc encoding cp path)
  | pathType path => pathType (toServerEnc encoding cp path)
  | chmod path mode => chmod (toServerEnc encoding cp path) mode
  | getPermissions path => getPermissions (toServerEnc encoding cp path)
  | statFull path => statFull (toServerEnc encoding cp path)
  | remoteFileSize path => remoteFileSize (toServerEnc encoding cp path)
  | makeDir path => makeDir (toServerEnc encoding cp path)
  | removeDir path => removeDir (toServerEnc encoding cp path)
  | removeFile path => removeFile (toServerEnc encoding cp path)
  | rename oldPath newPath =>
    rename (toServerEnc encoding cp oldPath) (toServerEnc encoding cp newPath)

/-- What the shell is meant to read: words, and semicolons between the commands. -/
def intended : ScpCall → Option (List Token)
  | listDir path =>
    some ([ascii "ls", ascii "-la", ascii "--time-style=+%s", ascii "--", path].map .word)
  | pathType path =>
    if path = [slash] then none
    else
      let semicolon : Token := .op (ascii ";")
      some ([ascii "if", ascii "[", ascii "-d", path, ascii "]"].map .word ++
        semicolon :: [ascii "then", ascii "echo", ascii "D"].map .word ++
        semicolon :: [ascii "elif", ascii "[", ascii "-e", path, ascii "]"].map .word ++
        semicolon :: [ascii "then", ascii "echo", ascii "F"].map .word ++
        semicolon :: [ascii "else", ascii "echo",
          ascii "N"].map .word ++ semicolon :: [.word (ascii "fi")])
  | chmod path mode => some ([ascii "chmod", octal (mode &&& 0o777), ascii "--", path].map .word)
  | getPermissions path => some ([ascii "stat", ascii "-c", ascii "%a", ascii "--", path].map .word)
  | statFull path =>
    some ([ascii "stat", ascii "-c", ascii "%a %s %u %g %Y", ascii "--", path].map .word)
  | remoteFileSize path => some ([ascii "stat", ascii "-c", ascii "%s", ascii "--", path].map .word)
  | makeDir path => some ([ascii "mkdir", ascii "--", path].map .word)
  | removeDir path => some ([ascii "rmdir", ascii "--", path].map .word)
  | removeFile path => some ([ascii "rm", ascii "-f", ascii "--", path].map .word)
  | rename oldPath newPath => some ([ascii "mv", ascii "--", oldPath, newPath].map .word)

end ScpCall

/-! ## Reading the commands -/

theorem read_path {text : CStr} (words : List CStr)
    (h : Feeds .between text (words.map .word) .between) (path : CStr) :
    Shell.read (text ++ shellQuote path) = some ((words ++ [path]).map .word) := by
  rw [shellQuote_eq, Shell.read_append_quote h, List.map_append]
  rfl

theorem ordinary_of_mem_octal {n : ℕ} {c : Byte} (h : c ∈ octal n) : Shell.isOrdinary c = true := by
  unfold octal at h
  split_ifs at h with hn
  · rw [List.mem_singleton.mp h]
    decide
  · rw [List.mem_reverse, List.mem_map] at h
    obtain ⟨d, hd, rfl⟩ := h
    have hlt : d < 8 := Nat.digits_lt_base (by norm_num) hd
    interval_cases d <;> decide

theorem octal_ne_nil (n : ℕ) : octal n ≠ [] := by
  unfold octal
  split_ifs with hn
  · simp
  · simpa [Nat.digits_eq_nil_iff_eq_zero] using hn

theorem read_chmod (path : CStr) (mode : ℕ) :
    Shell.read (ascii "chmod " ++ octal mode ++ ascii " -- " ++ shellQuote path) =
      some ([ascii "chmod", octal mode, ascii "--", path].map .word) := by
  have hchmod : Feeds .between (ascii "chmod ") [.word (ascii "chmod")] .between := by
    decide +kernel
  have hbare := Shell.Bare.ordinary (octal_ne_nil mode) fun _ => ordinary_of_mem_octal
  have hmode : Feeds .between (octal mode ++ [Shell.blank]) [.word (octal mode)] .between :=
    hbare.feeds_blanks (List.cons_ne_nil _ _) (by simp [Shell.isBlank])
  have hdashes : Feeds .between (ascii "-- ") [.word (ascii "--")] .between := by decide +kernel
  have htext : ascii " -- " = [Shell.blank] ++ ascii "-- " := by decide +kernel
  have hwords := hchmod.append (hmode.append hdashes)
  rw [htext]
  simpa using read_path [ascii "chmod", octal mode, ascii "--"] hwords path

theorem read_rename (oldPath newPath : CStr) :
    Shell.read (ascii "mv -- " ++ shellQuote oldPath ++ ascii " " ++ shellQuote newPath) =
      some ([ascii "mv", ascii "--", oldPath, newPath].map .word) := by
  have hmv : Feeds .between (ascii "mv -- ") ([ascii "mv", ascii "--"].map .word) .between := by
    decide +kernel
  have hold := Shell.Feeds.quote_blank oldPath
  have htext : ascii " " = [Shell.blank] := by decide +kernel
  rw [← shellQuote_eq, ← htext] at hold
  have hread := read_path [ascii "mv", ascii "--", oldPath] (hmv.append hold) newPath
  rwa [← List.append_assoc] at hread

/-- The path stands twice in the command of `PathType`. -/
theorem read_pathType (path : CStr) :
    Shell.read (ascii "if [ -d " ++ shellQuote path ++
      ascii " ]; then echo D; elif [ -e " ++ shellQuote path ++
      ascii " ]; then echo F; else echo N; fi") =
      some ([ascii "if", ascii "[", ascii "-d", path, ascii "]"].map .word ++
        .op (ascii ";") :: [ascii "then", ascii "echo", ascii "D"].map .word ++
        .op (ascii ";") :: [ascii "elif", ascii "[", ascii "-e", path, ascii "]"].map .word ++
        .op (ascii ";") :: [ascii "then", ascii "echo", ascii "F"].map .word ++
        .op (ascii ";") :: [ascii "else", ascii "echo", ascii "N"].map .word ++
        .op (ascii ";") :: [.word (ascii "fi")]) := by
  have hfirst : Feeds .between (ascii "if [ -d ")
      ([ascii "if", ascii "[", ascii "-d"].map .word) .between := by
    decide +kernel
  have hpath := Shell.Feeds.quote_blank path
  have hthen : Feeds .between (ascii "]; then echo D; elif [ -e ")
      (.word (ascii "]") :: .op (ascii ";") :: [ascii "then", ascii "echo", ascii "D"].map .word ++
        .op (ascii ";") :: [ascii "elif", ascii "[", ascii "-e"].map .word) .between := by
          decide +kernel
  have helse : Feeds .between (ascii "]; then echo F; else echo N; fi")
      (.word (ascii "]") :: .op (ascii ";") :: [ascii "then", ascii "echo", ascii "F"].map .word ++
        .op (ascii ";") :: [ascii "else", ascii "echo", ascii "N"].map .word ++ [.op (ascii ";")])
      (.word (Shell.bare (ascii "fi"))) := by decide +kernel
  have hend : Shell.finish (.word (Shell.bare (ascii "fi"))) = some [.word (ascii "fi")] := by
    decide +kernel
  have htext : ascii " ]; then echo D; elif [ -e " =
      [Shell.blank] ++ ascii "]; then echo D; elif [ -e " := by
    decide +kernel
  have htext' : ascii " ]; then echo F; else echo N; fi" =
      [Shell.blank] ++ ascii "]; then echo F; else echo N; fi" := by
    decide +kernel
  have hall :=
    Shell.read_of_feeds (hfirst.append (hpath.append (hthen.append (hpath.append helse)))) hend
  rw [htext, htext', shellQuote_eq]
  simpa using hall

/-- Every command is read as it is meant, whatever the bytes of its paths. -/
theorem commands_injection_free (encoding : ℤ) (cp : CodePage) (call : ScpCall) :
    (call.toServer encoding cp).command.map Shell.read =
      (call.toServer encoding cp).intended.map some := by
  generalize call.toServer encoding cp = call
  rcases call with path | path | ⟨path, mode⟩ | path | path | path | path | path | path
    | ⟨oldPath, newPath⟩
  case listDir =>
    exact congrArg some (read_path [ascii "ls", ascii "-la", ascii "--time-style=+%s",
      ascii "--"] (by decide +kernel) path)
  case pathType =>
    rw [ScpCall.command, ScpCall.intended]
    by_cases hroot : path = [slash]
    · rw [if_pos hroot, if_pos hroot]
      rfl
    · rw [if_neg hroot, if_neg hroot]
      exact congrArg some (read_pathType path)
  case chmod => exact congrArg some (read_chmod path _)
  case getPermissions =>
    exact congrArg some (read_path [ascii "stat", ascii "-c", ascii "%a",
      ascii "--"] (by decide +kernel) path)
  case statFull =>
    exact congrArg some
      (read_path [ascii "stat", ascii "-c", ascii "%a %s %u %g %Y", ascii "--"]
        (by decide +kernel) path)
  case remoteFileSize =>
    exact congrArg some
      (read_path [ascii "stat", ascii "-c", ascii "%s", ascii "--"] (by decide +kernel) path)
  case makeDir =>
    exact congrArg some (read_path [ascii "mkdir", ascii "--"] (by decide +kernel) path)
  case removeDir =>
    exact congrArg some (read_path [ascii "rmdir", ascii "--"] (by decide +kernel) path)
  case removeFile =>
    exact congrArg some
      (read_path [ascii "rm", ascii "-f", ascii "--"] (by decide +kernel) path)
  case rename => exact congrArg some (read_rename oldPath newPath)

end SalamanderSftp
