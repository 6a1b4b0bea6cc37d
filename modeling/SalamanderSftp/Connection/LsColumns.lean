import SalamanderSftp.Connection.Listing

/-!
# Columns and rows of ls

`ls -la --time-style=+%s` prints six padded columns in front of each name. `ScpListDir` cuts its
output into lines, and a line at runs of blanks, and takes what follows the sixth field as the name.

1. `takeFields_fieldsText`: the padded columns are read back.
2. `LsColumns.scpEntry_line` says what is read of a line with any text behind its columns.
3. A name with newlines is more than one line. What `ScpListDir` makes of a whole output is what it
   makes of each row (`scpListDir_rowsText`).
-/

namespace SalamanderSftp

open Components

/-! ## The text of ls -/

def newline : Byte := 10
def blank : Byte := 32

/-- The text between a symbolic link and what it holds. -/
def arrow : CStr := [32, 45, 62, 32]

/-- A word of a line: not empty, without blanks, and without the end of the line. -/
structure LsWord where
  text : CStr
  ne_nil : text ≠ []
  plain : ∀ c ∈ text, isBlank c = false ∧ c ≠ newline

/-- What `ls` prints in front of a name. -/
structure LsColumns where
  /-- The first letter of the permissions, one of `-dlbcps`. -/
  letter : Byte
  letter_mem : letter ∈ [(45 : Byte), 100, 108, 98, 99, 112, 115]
  /-- The permissions behind the first letter. -/
  rwx : CStr
  rwx_plain : ∀ c ∈ rwx, isBlank c = false ∧ c ≠ newline
  links : ℕ
  owner : LsWord
  group : LsWord
  size : ℕ
  size_lt : size < 2 ^ 64
  mtime : ℕ
  mtime_lt : mtime < 2 ^ 32
  /-- The padding of the five columns behind the permissions. -/
  pad : ℕ → ℕ

/-- Columns, each behind one blank and its padding. -/
def fieldsText (ws : List (ℕ × CStr)) : CStr :=
  ws.flatMap fun w => List.replicate (w.1 + 1) blank ++ w.2

namespace LsColumns

variable (c : LsColumns)

def perms : CStr := c.letter :: c.rwx

def columns : List (ℕ × CStr) :=
  [(c.pad 0, decimal c.links), (c.pad 1, c.owner.text), (c.pad 2, c.group.text),
    (c.pad 3, decimal c.size), (c.pad 4, decimal c.mtime)]

/-- The columns with a text behind them. -/
def line (text : CStr) : CStr := c.perms ++ (fieldsText c.columns ++ blank :: text)

end LsColumns

/-- The name that the parser makes of the text behind the columns. -/
def readText (letter : Byte) (text : CStr) : CStr :=
  let name := (chompCr text).dropWhile isBlank
  if letter = 108 then beforeArrow name else name

/-! ## Fields -/

/-- A field behind blanks and in front of one is cut off. -/
theorem takeFields_cons {k : ℕ} {blanks w rest : CStr}
    (hblanks : ∀ c ∈ blanks, isBlank c = true) (hne : w ≠ [])
    (hw : ∀ c ∈ w, isBlank c = false) (hrest : ∀ c ∈ rest.head?, isBlank c = true) :
    takeFields (k + 1) (blanks ++ (w ++ rest)) =
      (w :: (takeFields k rest).1, (takeFields k rest).2) := by
  obtain ⟨c, w, rfl⟩ := List.exists_cons_of_ne_nil hne
  have hdrop : (blanks ++ (c :: w ++ rest)).dropWhile isBlank = c :: w ++ rest := by
    rw [List.dropWhile_append_of_pos hblanks, List.cons_append,
      List.dropWhile_cons_of_neg (by simp [hw c List.mem_cons_self])]
  have hall : ∀ d ∈ c :: w, (!isBlank d) = true := fun d hd => by simp [hw d hd]
  have hstop : rest.takeWhile (!isBlank ·) = [] ∧ rest.dropWhile (!isBlank ·) = rest := by
    rcases rest with _ | ⟨d, rest⟩
    · exact ⟨rfl, rfl⟩
    · have hd := hrest d rfl
      exact ⟨List.takeWhile_cons_of_neg (by simp [hd]), List.dropWhile_cons_of_neg (by simp [hd])⟩
  have htake : (c :: w ++ rest).takeWhile (!isBlank ·) = c :: w := by
    rw [List.takeWhile_append_of_pos hall, hstop.1, List.append_nil]
  have hleft : (c :: w ++ rest).dropWhile (!isBlank ·) = rest := by
    rw [List.dropWhile_append_of_pos hall, hstop.2]
  rw [takeFields]
  dsimp only
  rw [hdrop, htake, if_neg (by simp), hleft]

theorem blank_of_mem_replicate {n : ℕ} {c : Byte} (h : c ∈ List.replicate n blank) :
    isBlank c = true := by
  rw [List.eq_of_mem_replicate h]
  decide

/-- Padded columns are read back. -/
theorem takeFields_fieldsText {ws : List (ℕ × CStr)} {rest : CStr}
    (hws : ∀ w ∈ ws, w.2 ≠ [] ∧ ∀ c ∈ w.2, isBlank c = false)
    (hrest : ∀ c ∈ rest.head?, isBlank c = true) :
    takeFields ws.length (fieldsText ws ++ rest) = (ws.map Prod.snd, rest) := by
  induction ws with
  | nil => rfl
  | cons w ws ih =>
    have hw := hws w List.mem_cons_self
    have hnext : ∀ c ∈ (fieldsText ws ++ rest).head?, isBlank c = true := by
      rcases ws with _ | ⟨v, ws⟩
      · exact hrest
      · intro c hc
        obtain rfl := Option.some.inj hc
        decide
    have htext : fieldsText (w :: ws) ++ rest =
        List.replicate (w.1 + 1) blank ++ (w.2 ++ (fieldsText ws ++ rest)) := by
      simp [fieldsText]
    rw [htext, List.length_cons,
      takeFields_cons (fun c hc => blank_of_mem_replicate hc) hw.1 hw.2 hnext,
      ih fun v hv => hws v (List.mem_cons_of_mem _ hv)]
    rfl

theorem decimal_plain {n : ℕ} {c : Byte} (h : c ∈ decimal n) : isBlank c = false ∧ c ≠ newline := by
  have hc := isDigit_of_mem_decimal h
  constructor
  · by_contra hb
    rw [Bool.not_eq_false, isBlank, Bool.or_eq_true, beq_iff_eq, beq_iff_eq] at hb
    rcases hb with rfl | rfl <;> exact absurd hc (by decide)
  · rintro rfl
    exact absurd hc (by decide)

namespace LsColumns

variable {c : LsColumns}

theorem columns_plain : ∀ w ∈ c.columns, w.2 ≠ [] ∧ ∀ b ∈ w.2, isBlank b = false ∧ b ≠ newline := by
  intro w hw
  simp only [columns, List.mem_cons, List.not_mem_nil, or_false] at hw
  rcases hw with rfl | rfl | rfl | rfl | rfl
  · exact ⟨decimal_ne_nil _, fun _ => decimal_plain⟩
  · exact ⟨c.owner.ne_nil, c.owner.plain⟩
  · exact ⟨c.group.ne_nil, c.group.plain⟩
  · exact ⟨decimal_ne_nil _, fun _ => decimal_plain⟩
  · exact ⟨decimal_ne_nil _, fun _ => decimal_plain⟩

theorem perms_plain : ∀ b ∈ c.perms, isBlank b = false ∧ b ≠ newline := by
  intro b hb
  rcases List.mem_cons.mp hb with rfl | hb
  · have hall : ∀ l ∈ [(45 : Byte), 100, 108, 98, 99, 112, 115],
        isBlank l = false ∧ l ≠ newline := by decide +kernel
    exact hall _ c.letter_mem
  · exact c.rwx_plain b hb

/-- The six fields of a line, whatever follows them. -/
theorem takeFields_line (text : CStr) :
    takeFields 6 (c.line text) = (c.perms :: c.columns.map Prod.snd, blank :: text) := by
  have hnext : ∀ b ∈ (blank :: text).head?, isBlank b = true := by
    intro b hb
    obtain rfl := Option.some.inj hb
    decide
  have hfields : takeFields 5 (fieldsText c.columns ++ blank :: text) =
      (c.columns.map Prod.snd, blank :: text) :=
    takeFields_fieldsText (fun w hw =>
      ⟨(columns_plain w hw).1, fun b hb => ((columns_plain w hw).2 b hb).1⟩) hnext
  have hstart : ∀ b ∈ (fieldsText c.columns ++ blank :: text).head?, isBlank b = true := by
    intro b hb
    obtain rfl := Option.some.inj hb
    decide
  have hcut : takeFields (5 + 1) ([] ++ (c.perms ++ (fieldsText c.columns ++ blank :: text))) = _ :=
    takeFields_cons (by simp) (by simp [perms]) (fun b hb => (perms_plain b hb).1) hstart
  rw [List.nil_append, hfields] at hcut
  exact hcut

end LsColumns

/-! ## What is read of a line -/

theorem chompCr_append (s : CStr) {t : CStr} (ht : t ≠ []) : chompCr (s ++ t) = s ++ chompCr t := by
  unfold chompCr
  rw [List.getLast?_append_of_ne_nil s ht, List.dropLast_append_of_ne_nil ht]
  split_ifs <;> rfl

theorem chompCr_eq_self_iff {s : CStr} : chompCr s = s ↔ s.getLast? ≠ some 13 := by
  unfold chompCr
  split_ifs with h
  · refine iff_of_false (fun heq => ?_) (fun hne => hne h)
    have hne : s ≠ [] := by
      rintro rfl
      simp at h
    have hlen := congrArg List.length heq
    have hpos := List.length_pos_of_ne_nil hne
    rw [List.length_dropLast] at hlen
    omega
  · exact iff_of_true rfl h

namespace LsColumns

variable (c : LsColumns)

theorem chompCr_line (text : CStr) : chompCr (c.line text) = c.line (chompCr text) := by
  have hsplit : ∀ t, c.line t = (c.perms ++ fieldsText c.columns) ++ blank :: t := by
    intro t
    rw [line, List.append_assoc]
  rw [hsplit, hsplit, chompCr_append _ (by simp)]
  rcases text with _ | ⟨b, text⟩
  · rfl
  · have hcons : blank :: b :: text = [blank] ++ b :: text := rfl
    rw [hcons, chompCr_append _ (by simp)]
    rfl

/-- A line of `ls` is read as an entry, but for the directory itself and its parent. -/
theorem scpEntry_line (toDisplay : CStr → CStr) (text : CStr) :
    scpEntry toDisplay (c.line text) =
      if IsDots (readText c.letter text) then none
      else some
        { Name := toDisplay (cstr (readText c.letter text))
          IsDir := c.letter == 100
          IsLink := c.letter == 108
          Size := c.size
          MTime := c.mtime
          Permissions := rwxToMode (lstrcpyn c.perms 16).tail
          Owner := lstrcpyn c.owner.text 128
          Group := lstrcpyn c.group.text 128 } := by
  have htotal : ascii "total " = [116, 111, 116, 97, 108, 32] := by decide +kernel
  have hskip :
      ¬ (chompCr (c.line text) = [] ∨ (chompCr (c.line text)).take 6 = ascii "total ") := by
    rw [chompCr_line, htotal, not_or]
    refine ⟨by simp [line, perms], fun h => ?_⟩
    have hletter : c.letter = 116 := (List.cons.inj h).1
    have hmem := c.letter_mem
    rw [hletter] at hmem
    exact absurd hmem (by decide)
  have hsize : strtoui64 (decimal c.size) = c.size := by
    have hlt := c.size_lt
    rw [strtoui64_decimal]
    omega
  have hmtime : strtoui64 (decimal c.mtime) % 2 ^ 32 = c.mtime := by
    have hlt := c.mtime_lt
    rw [strtoui64_decimal]
    omega
  have hhead : (lstrcpyn c.perms 16).head? = some c.letter := rfl
  unfold scpEntry
  dsimp only
  rw [if_neg hskip, chompCr_line, takeFields_line, if_neg (by simp [columns])]
  simp only [columns, List.map_cons, List.map_nil, List.getD_cons_zero, List.getD_cons_succ, hhead,
    hsize, hmtime, List.dropWhile_cons_of_pos (show isBlank blank = true by decide)]
  have hname : (if (some c.letter == some 108) = true then
        beforeArrow ((chompCr text).dropWhile isBlank)
      else (chompCr text).dropWhile isBlank) = readText c.letter text := by
    by_cases hlink : c.letter = 108
    · simp [readText, hlink]
    · simp [readText, hlink]
  rw [hname]
  rfl

theorem textLines_line (text : CStr) :
    textLines (c.line text) = (textLines text).modifyHead c.line := by
  have hfront : ∀ b ∈ c.perms ++ (fieldsText c.columns ++ [blank]), (b == newline) = false := by
    intro b hb
    rw [beq_eq_false_iff_ne]
    rcases List.mem_append.mp hb with hb | hb
    · exact (perms_plain b hb).2
    · rcases List.mem_append.mp hb with hb | hb
      · obtain ⟨w, hw, hb⟩ := List.mem_flatMap.mp hb
        rcases List.mem_append.mp hb with hb | hb
        · rw [List.eq_of_mem_replicate hb]
          decide
        · exact ((columns_plain w hw).2 b hb).2
      · rw [List.mem_singleton.mp hb]
        decide
  have hline : ∀ t, c.line t = c.perms ++ (fieldsText c.columns ++ [blank]) ++ t := by
    intro t
    simp [line]
  have hfun : c.line = (c.perms ++ (fieldsText c.columns ++ [blank]) ++ ·) := funext hline
  rw [hfun]
  exact splitOnP_append_of_forall hfront text

end LsColumns

/-! ## Rows -/

/-- What `ls` prints of an object: the columns, and a text that may have newlines of its own. -/
structure LsRow extends LsColumns where
  text : CStr

def LsRow.line (r : LsRow) : CStr := r.toLsColumns.line r.text

/-- The whole output, behind the line with the number of blocks. -/
def rowsText (total : ℕ) (rows : List LsRow) : Bytes :=
  ((ascii "total " ++ decimal total) :: rows.map LsRow.line).flatMap (· ++ [newline])

/-- What `ScpListDir` makes of one row. -/
def LsRow.entries (toDisplay : CStr → CStr) (r : LsRow) : List CSftpEntry :=
  (textLines r.line).filterMap (scpEntry toDisplay)

/-- The first line of a row is read with the columns, each other line by itself. -/
theorem LsRow.entries_eq (toDisplay : CStr → CStr) (r : LsRow) :
    r.entries toDisplay =
      (scpEntry toDisplay (r.toLsColumns.line ((textLines r.text).headD []))).toList ++
        (textLines r.text).tail.filterMap (scpEntry toDisplay) := by
  have hne : textLines r.text ≠ [] := List.splitOnP_ne_nil _ _
  unfold LsRow.entries LsRow.line
  rw [LsColumns.textLines_line]
  obtain ⟨first, rest, heq⟩ := List.exists_cons_of_ne_nil hne
  rw [heq, List.modifyHead_cons, List.filterMap_cons, List.headD_cons, List.tail_cons]
  cases scpEntry toDisplay (r.toLsColumns.line first)
  · rfl
  · rfl

theorem textLines_flatMap (lines : List CStr) :
    textLines (lines.flatMap (· ++ [newline])) = lines.flatMap textLines ++ [[]] := by
  induction lines with
  | nil => rfl
  | cons l lines ih =>
    unfold textLines at ih ⊢
    rw [List.flatMap_cons, List.append_assoc, List.singleton_append,
      List.splitOnP_append_cons _ _ (by decide), ih, List.flatMap_cons, List.append_assoc]

theorem scpEntry_total (toDisplay : CStr → CStr) (total : ℕ) :
    scpEntry toDisplay (ascii "total " ++ decimal total) = none := by
  have hchomp : (chompCr (ascii "total " ++ decimal total)).take 6 = ascii "total " := by
    have hsix : (ascii "total ").length = 6 := by decide +kernel
    rw [chompCr_append _ (decimal_ne_nil total), ← hsix, List.take_left]
  unfold scpEntry
  exact if_pos (Or.inr hchomp)

theorem textLines_total (total : ℕ) :
    textLines (ascii "total " ++ decimal total) = [ascii "total " ++ decimal total] := by
  refine List.splitOnP_eq_singleton fun b hb => ?_
  rw [beq_eq_false_iff_ne]
  rcases List.mem_append.mp hb with hb | hb
  · rintro rfl
    exact absurd hb (by decide +kernel)
  · exact (decimal_plain hb).2

theorem scpListDir_rowsText (toDisplay : CStr → CStr) {io : ExecIo} {total : ℕ} {rows : List LsRow}
    (h : execRaw io = (true, rowsText total rows, 0)) :
    scpListDir toDisplay io = (true, rows.flatMap (LsRow.entries toDisplay)) := by
  have hempty : scpEntry toDisplay [] = none := rfl
  have hrows :
      (rows.map LsRow.line).flatMap (fun l => (textLines l).filterMap (scpEntry toDisplay)) =
      rows.flatMap (LsRow.entries toDisplay) := List.flatMap_map ..
  unfold scpListDir
  dsimp only
  rw [h, if_neg (by simp), if_neg (by simp), rowsText, textLines_flatMap, List.filterMap_append,
    List.flatMap_cons, textLines_total, List.filterMap_append,
    List.filterMap_cons_none (scpEntry_total toDisplay total), List.filterMap_cons_none hempty,
    List.filterMap_nil, List.nil_append, List.append_nil, List.filterMap_flatMap, hrows]

end SalamanderSftp
