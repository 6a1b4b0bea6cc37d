import SalamanderSftp.Connection.Wrap
import SalamanderSftp.Lib.DoubleQuotes

/-!
# Executing a file of the server

A file is executed by a command for the shell: its name goes between double quotes, behind the
directory between double quotes, and the whole is wrapped as the setting of the SFTP server wants
it. Double quotes leave some characters their meaning, and each of the three texts has its own
buffer.

1. `read_runText_iff`: the shell reads the directory and the name as they are exactly when both are
   plain between double quotes.
2. `executes_exactly_iff`: exactly that file is executed when this is so, the prefix is made of
   words, and the texts fit their buffers.
-/

namespace SalamanderSftp

open Shell (Token Feeds PlainInDouble tokensSize)

/-! ## The texts -/

/-- The command of `ExecuteOnFS` and of the Execute menu command. -/
def executeCommand (name : CStr) :
    CStr := lstrcpyn (ascii "./\"" ++ name ++ ascii "\"") (MAX_PATH + 16)

/-- The text for the shell, before it is cut. -/
def cdText (path command : CStr) : CStr :=
  ascii "cd \"" ++ (if path = [] then ascii "/" else path) ++ ascii "\" && " ++ command

/-- `ExecuteCommandLine` on a connected instance: what is sent to the server. -/
def executeCommandLine (sftpServer path command : CStr) : Option CStr :=
  if command = [] then none
  else
    let raw := lstrcpyn (cdText path command) (2 * MAX_PATH)
    some (wrapCommandWithSftpServerPrefix sftpServer raw Wrapper.executeCommandLine.outSize)

/-- The whole text for a file, with nothing cut. -/
def runText (path name : CStr) : CStr := cdText path (ascii "./\"" ++ name ++ ascii "\"")

/-- What a shell is meant to read: go to the directory, and then run the file without arguments. -/
def runTokens (path name : CStr) : List Token :=
  [.word (ascii "cd"), .word (if path = [] then ascii "/" else path), .op (ascii "&&"),
    .word (ascii "./" ++ name)]

/-! ## Reading the text -/

/-- The text between the directory and the name. -/
def betweenText : CStr := [34, 32, 38, 38, 32, 46, 47, 34]

theorem feeds_cd :
    Feeds .between (ascii "cd \"") [.word (ascii "cd")] (.double []) := by decide +kernel

theorem runText_eq (path name : CStr) : runText path name =
    ascii "cd \"" ++ ((if path = [] then ascii "/" else path) ++
      (betweenText ++ (name ++ [Shell.doubleQuote]))) := by
  have hbetween : ascii "\" && " ++ ascii "./\"" = betweenText := by decide +kernel
  have hquote : ascii "\"" = [Shell.doubleQuote] := by decide +kernel
  unfold runText cdText
  rw [hquote, ← hbetween]
  simp only [List.append_assoc]

/-- The two dots of the name stand outside of the quotes. -/
def dotSlash : Shell.Word := [(46, false), (47, false)]

theorem feeds_betweenText (w : Shell.Word)
    (h : Shell.flush (some w) = some [.word (w.map Prod.fst)]) :
    Feeds (.double w) betweenText [.word (w.map Prod.fst),
      .op (ascii "&&")] (.double dotSlash) := by
  have hclose : Shell.step (.double w) 34 = some ([], .word w) := rfl
  have hend : Shell.step (.word w) 32 = some ([.word (w.map Prod.fst)], .between) := by
    show Shell.start (some w) Shell.blank = _
    rw [Shell.start_blank, h]
    rfl
  have hrest : Feeds .between [38, 38, 32, 46, 47, 34] [.op (ascii "&&")] (.double dotSlash) := by
    decide +kernel
  exact .pass hclose (.cons hend hrest)

theorem literal_name (name : CStr) : Shell.flush (some (dotSlash ++ Shell.quoted name)) =
    some [.word (ascii "./" ++ name)] := by
  have hliteral : Shell.Literal (dotSlash ++ Shell.quoted name) := by
    intro x hx hfalse
    rcases List.mem_append.mp hx with hdot | hname
    · have hdots : ∀ x ∈ dotSlash, x.1 ∉ ([42, 63, 126] : List UInt8) ∧ x.1 ≠ 91 := by
        decide +kernel
      exact ⟨(hdots x hdot).1, fun h => absurd h (hdots x hdot).2⟩
    · obtain ⟨c, -, rfl⟩ := List.mem_map.mp hname
      cases hfalse
  have htext : (dotSlash ++ Shell.quoted name).map Prod.fst = ascii "./" ++ name := by
    have hdots : dotSlash.map Prod.fst = ascii "./" := by decide +kernel
    rw [List.map_append, hdots]
    simp [Shell.quoted, Function.comp_def]
  show (if Shell.Literal (dotSlash ++ Shell.quoted name) then
    some [Token.word ((dotSlash ++ Shell.quoted name).map Prod.fst)] else none) = _
  rw [if_pos hliteral, htext]

section ReadFirst

variable {path rest : CStr} {m m' : Shell.Mode} {ts₂ ts' more : List Token}

/-- A word that goes on behind the fixed text leaves too little for the others. -/
theorem not_goes_on {m₂ : Shell.Mode} {w : Shell.Word}
    (hrest : Shell.feed m (betweenText ++ rest) = some (ts₂, m'))
    (hend : Shell.finish m' = some ts')
    (hall : ts₂ ++ ts' = .word path :: more) (hlen : rest.length < tokensSize more)
    (hbetween : Shell.feed m betweenText = some ([], m₂)) (hpending : m₂.pending = some w)
    (hsize : m₂.size = w.length) : False := by
  obtain ⟨ts₁, m₁, ts₃, h₁, h₂, rfl⟩ := Shell.feed_append_eq_some hrest
  rw [hbetween] at h₁
  obtain ⟨rfl, rfl⟩ := Prod.mk.inj (Option.some.inj h₁)
  have hmore := Shell.not_pending_of_size hpending hsize.le h₂ hend hall
  omega

/-- A word that ends with the quote is too short. -/
theorem not_ends {w : Shell.Word} (hrest : Shell.feed m (betweenText ++ rest) = some (ts₂, m'))
    (hall : ts₂ ++ ts' = .word path :: more) (hshort : m.size < path.length)
    (hquote : Shell.step m 34 = some ([], .word w)) (hw : w.length ≤ m.size) : False := by
  obtain ⟨r, ts₄, hr, hfeed, rfl⟩ := Shell.feed_cons_eq_some hrest
  rw [hquote] at hr
  obtain rfl := Option.some.inj hr
  obtain ⟨r, ts₅, hr, -, rfl⟩ := Shell.feed_cons_eq_some hfeed
  have hstart : Shell.start (some w) Shell.blank = some r := hr
  rw [Shell.start_blank] at hstart
  obtain ⟨ts₆, hflush, rfl⟩ := Option.map_eq_some_iff.mp hstart
  obtain rfl : ts₆ = [.word (w.map Prod.fst)] := by
    unfold Shell.flush at hflush
    simp only at hflush
    split_ifs at hflush
    exact (Option.some.inj hflush).symm
  have hpath := congrArg List.length (Token.word.inj (List.cons.inj hall).1)
  rw [List.length_map] at hpath
  omega

theorem not_comment (hrest : Shell.feed .comment (betweenText ++ rest) = some (ts₂, m'))
    (hend : Shell.finish m' = some ts') (hall : ts₂ ++ ts' = .word path :: more)
    (hlen : rest.length < tokensSize more) : False := by
  have hsize := congrArg tokensSize hall
  obtain ⟨ts₁, m₁, ts₃, h₁, h₂, rfl⟩ := Shell.feed_append_eq_some hrest
  have hcomment : Shell.feed .comment betweenText = some ([], .comment) := rfl
  rw [hcomment] at h₁
  obtain ⟨rfl, rfl⟩ := Prod.mk.inj (Option.some.inj h₁)
  have hfeed := Shell.size_feed h₂
  have hfinish := Shell.size_finish hend
  have hzero : Shell.Mode.comment.size = 0 := rfl
  simp only [List.nil_append, Shell.tokensSize_append, Shell.tokensSize_cons] at hsize
  omega

theorem not_op {t : List UInt8} (hrest : Shell.feed (.op t) (betweenText ++ rest) = some (ts₂, m'))
    (hall : ts₂ ++ ts' = .word path :: more) : False := by
  obtain ⟨r, ts₄, hr, -, rfl⟩ := Shell.feed_cons_eq_some hrest
  have hop : Shell.step (.op t) 34 = some ([.op t], .double []) := by
    rw [Shell.step, if_neg]
    · rfl
    · intro hmem
      have hlast : ∀ o ∈ Shell.operators, o.getLast? ≠ some 34 := by decide
      exact hlast _ hmem (by simp)
  rw [hop] at hr
  obtain rfl := Option.some.inj hr
  cases (List.cons.inj hall).1

/-- Behind a directory that is not plain, what is read is not what was meant. -/
theorem plainInDouble_of_read_first {ts : List Token}
    (hfeed : Shell.feed (.double []) path = some (ts, m))
    (hrest : Shell.feed m (betweenText ++ rest) = some (ts₂, m'))
    (hend : Shell.finish m' = some ts') (hall : ts ++ ts₂ ++ ts' = .word path :: more)
    (hlen : rest.length < tokensSize more) : PlainInDouble path := by
  cases (Shell.feed_double path).1 hfeed with
  | plain h => exact h
  | open_ t h => exact (not_goes_on hrest hend hall hlen rfl rfl rfl).elim
  | short _ _ h =>
    exfalso
    simp only [List.length_nil, Nat.zero_add] at h
    have hts : ts = [] := by
      cases ts with
      | nil => rfl
      | cons t ts =>
        obtain rfl := (List.cons.inj hall).1
        simp only [Shell.tokensSize_cons, Token.text] at h
        omega
    subst hts
    simp only [Shell.tokensSize_nil, Nat.zero_add] at h
    have hgoes := fun {w : Shell.Word} {m₂ : Shell.Mode} =>
      @not_goes_on path rest m m' ts₂ ts' more m₂ w hrest hend hall hlen
    cases m with
    | between => exact hgoes rfl rfl rfl
    | comment => exact not_comment hrest hend hall hlen
    | word w => exact hgoes rfl rfl rfl
    | single w => exact hgoes rfl rfl rfl
    | double w => exact not_ends hrest hall h rfl le_rfl
    | doubleEscape w => exact hgoes rfl rfl rfl
    | escape w =>
      exact not_ends (w := w.getD [] ++ [(34, true)]) hrest hall h rfl (by simp [Shell.Mode.size])
    | op t => exact not_op hrest hall

end ReadFirst

/-- The text is read as it is meant exactly when directory and name are plain between double
quotes. -/
theorem read_runText_iff (path name : CStr) :
    Shell.read (runText path name) = some (runTokens path name) ↔
    PlainInDouble path ∧ PlainInDouble name := by
  -- the root stands for the empty path
  have hpath : PlainInDouble (if path = [] then ascii "/" else path) ↔ PlainInDouble path := by
    split_ifs with hempty
    · have hroot : PlainInDouble (ascii "/") := by decide +kernel
      rw [hempty]
      exact iff_of_true hroot trivial
    · exact Iff.rfl
  unfold runTokens
  rw [runText_eq, ← hpath]
  generalize (if path = [] then ascii "/" else path) = dir
  constructor
  · intro hread
    obtain ⟨ts, m, ts', hfeed, hend, hall⟩ := Shell.read_eq_some hread
    obtain ⟨ts₁, m₁, ts₂, hcd, hrest, rfl⟩ := Shell.feed_append_eq_some hfeed
    rw [feeds_cd] at hcd
    obtain ⟨rfl, rfl⟩ := Prod.mk.inj (Option.some.inj hcd)
    obtain ⟨ts₃, m₃, ts₄, hdir, hbehind, rfl⟩ := Shell.feed_append_eq_some hrest
    have hall₂ : ts₃ ++ ts₄ ++ ts' = .word dir :: [.op (ascii "&&"),
        .word (ascii "./" ++ name)] := by
      simpa using hall
    have hand : (ascii "&&").length = 2 ∧ (ascii "./").length = 2 := by decide +kernel
    have hplain : PlainInDouble dir := by
      refine plainInDouble_of_read_first hdir hbehind hend hall₂ ?_
      simp [Token.text, hand]
      omega
    refine ⟨hplain, ?_⟩
    rw [Feeds.double hplain] at hdir
    obtain ⟨rfl, rfl⟩ := Prod.mk.inj (Option.some.inj hdir)
    obtain ⟨ts₅, m₅, ts₆, hbetween, hlast, rfl⟩ := Shell.feed_append_eq_some hbehind
    have hquoted : (Shell.quoted dir).map Prod.fst = dir := by
      simp [Shell.quoted, Function.comp_def]
    rw [List.nil_append, feeds_betweenText _ (by rw [Shell.flush_quoted, hquoted])] at hbetween
    obtain ⟨rfl, rfl⟩ := Prod.mk.inj (Option.some.inj hbetween)
    obtain ⟨ts₇, m₇, ts₈, hname, hquote, rfl⟩ := Shell.feed_append_eq_some hlast
    have hall₃ : ts₇ ++ ts₈ ++ ts' = [.word (ascii "./" ++ name)] := by simpa [hquoted] using hall₂
    refine Shell.plainInDouble_of_read_last hname hquote hend hall₃ ?_
    rw [List.length_append, hand.2]
    exact le_rfl
  · rintro ⟨hdir, hname⟩
    have hquoted : (Shell.quoted dir).map Prod.fst = dir := by
      simp [Shell.quoted, Function.comp_def]
    have hbetween := feeds_betweenText (Shell.quoted dir) (by rw [Shell.flush_quoted, hquoted])
    have hclose : Feeds (.double (dotSlash ++ Shell.quoted name)) [Shell.doubleQuote] []
        (.word (dotSlash ++ Shell.quoted name)) := .one rfl
    have hall := feeds_cd.append ((Feeds.double hdir []).append (hbetween.append
      ((Feeds.double hname dotSlash).append hclose)))
    have hread := Shell.read_of_feeds hall (literal_name name)
    simpa [hquoted] using hread

/-! ## What is executed -/

/-- The text is sent whole, and the shell, or the one that the prefix starts, reads the file and
nothing else. -/
def ExecutesExactly (sftpServer path name : CStr) : Prop :=
  ∃ sent, executeCommandLine sftpServer path (executeCommand name) = some sent ∧
    sent = wrappedText sftpServer (runText path name) ∧
    if wrapPrefix sftpServer = [] then Shell.read sent = some (runTokens path name)
    else
      (∃ words, PrefixReads sftpServer words ∧
        Shell.read sent = some ((words ++
          (if words.getLast? = some (ascii "-c") then [] else [ascii "sh", ascii "-c"]) ++
            [runText path name]).map .word)) ∧
      Shell.read (runText path name) = some (runTokens path name)

/-- The length of the text with nothing cut. -/
def runLength (path name : CStr) : ℕ := (if path = [] then 1 else path.length) + name.length + 13

/-- Nothing in the way of executing the file. -/
structure Executable (sftpServer path name : CStr) : Prop where
  path_plain : PlainInDouble path
  name_plain : PlainInDouble name
  command_fits : name.length + 4 < MAX_PATH + 16
  raw_fits : runLength path name < 2 * MAX_PATH
  words : wrapPrefix sftpServer ≠ [] → ∃ words, PrefixReads sftpServer words ∧
    (ascii "-c" <:+ wrapPrefix sftpServer ↔ words.getLast? = some (ascii "-c"))
  wrapped_fits : wrapPrefix sftpServer ≠ [] →
    (wrapPrefix sftpServer).length +
      (if ascii "-c" <:+ wrapPrefix sftpServer then 3 else 9) + runLength path name +
      3 * (path.count 39 + name.count 39) < 3 * MAX_PATH

theorem length_runText (path name : CStr) : (runText path name).length = runLength path name := by
  have hcd : (ascii "cd \"").length = 4 := by decide +kernel
  have hroot : (ascii "/").length = 1 := by decide +kernel
  unfold runLength
  rw [runText_eq]
  simp only [List.length_append, hcd, apply_ite List.length, hroot, betweenText,
    List.length_cons, List.length_nil]
  omega

theorem count_runText (path name : CStr) :
    (runText path name).count 39 = path.count 39 + name.count 39 := by
  have hcd : (ascii "cd \"").count 39 = 0 := by decide +kernel
  have hroot : (ascii "/").count 39 = 0 := by decide +kernel
  have hbetween : betweenText.count 39 = 0 := by decide +kernel
  have hquote : [Shell.doubleQuote].count 39 = 0 := by decide +kernel
  have hpath : (if path = [] then ascii "/" else path).count 39 = path.count 39 := by
    split_ifs with hempty
    · rw [hempty, hroot]
      rfl
    · rfl
  rw [runText_eq]
  simp only [List.count_append, hcd, hpath, hbetween, hquote]
  omega

/-- The text before it is wrapped. -/
def rawText (path name : CStr) : CStr := lstrcpyn (cdText path (executeCommand name)) (2 * MAX_PATH)

theorem executeCommandLine_eq (sftpServer path name : CStr) :
    executeCommandLine sftpServer path (executeCommand name) =
      some (lstrcpyn
        (wrappedText sftpServer (rawText path name)) Wrapper.executeCommandLine.outSize) := by
  have hne : executeCommand name ≠ [] := by
    have hstart : ascii "./\"" = [46, 47, 34] := by decide +kernel
    unfold executeCommand lstrcpyn
    rw [hstart]
    simp [MAX_PATH]
  unfold executeCommandLine
  rw [if_neg hne]
  exact congrArg some (wrapCommand_eq _ _ _)

theorem rawText_isPrefix (path name : CStr) : rawText path name <+: runText path name := by
  unfold rawText executeCommand runText cdText
  exact (List.take_prefix _ _).trans ((List.prefix_append_right_inj _).mpr (List.take_prefix _ _))

theorem rawText_eq_iff (path name : CStr) : rawText path name = runText path name ↔
    name.length + 4 < MAX_PATH + 16 ∧ runLength path name < 2 * MAX_PATH := by
  have hstart : (ascii "./\"").length = 3 := by decide +kernel
  have hquote : (ascii "\"").length = 1 := by decide +kernel
  have hcommand : executeCommand name = ascii "./\"" ++ name ++ ascii "\"" ↔
      name.length + 4 < MAX_PATH + 16 := by
    unfold executeCommand
    rw [lstrcpyn_eq_self_iff]
    simp only [List.length_append, hstart, hquote]
    omega
  have hlength := length_runText path name
  constructor
  · intro h
    have hraw := congrArg List.length h
    have hcut := length_lstrcpyn_le (cdText path (executeCommand name)) (2 * MAX_PATH)
    have hfits : runLength path name < 2 * MAX_PATH := by
      rw [← hlength, ← h]
      unfold MAX_PATH at hcut ⊢
      unfold rawText MAX_PATH
      omega
    refine ⟨hcommand.mp ?_, hfits⟩
    -- a shorter command would leave the text shorter
    have hle : (rawText path name).length ≤ (cdText path (executeCommand name)).length := by
      unfold rawText lstrcpyn
      exact List.length_take_le' _ _
    rw [hraw] at hle
    unfold runText cdText at hle
    rw [List.length_append, @List.length_append _ _ (executeCommand name)] at hle
    refine (List.take_prefix _ _).eq_of_length_le ?_
    unfold executeCommand lstrcpyn at hle
    omega
  · rintro ⟨hname, hfits⟩
    unfold rawText
    rw [hcommand.mpr hname]
    refine lstrcpyn_eq_self ?_
    rw [← hlength] at hfits
    exact hfits

/-- What is sent is whole exactly when each of the texts fits its buffer. -/
theorem sent_whole_iff (sftpServer path name : CStr) :
    lstrcpyn (wrappedText sftpServer (rawText path name)) Wrapper.executeCommandLine.outSize =
      wrappedText sftpServer (runText path name) ↔
      rawText path name = runText path name ∧
        (wrappedText sftpServer (runText path name)).length < 3 * MAX_PATH := by
  have hsize : Wrapper.executeCommandLine.outSize = 3 * MAX_PATH := rfl
  have hpos : 0 < 3 * MAX_PATH := by decide
  rw [hsize]
  constructor
  · intro h
    have hcut := length_lstrcpyn_le (wrappedText sftpServer (rawText path name)) (3 * MAX_PATH)
    have hle : (lstrcpyn (wrappedText sftpServer (rawText path name)) (3 * MAX_PATH)).length ≤
        (wrappedText sftpServer (rawText path name)).length := List.length_take_le' _ _
    rw [h] at hcut hle
    refine ⟨?_, by omega⟩
    have hpre := rawText_isPrefix path name
    have hcount : (rawText path name).count 39 ≤ (runText path name).count 39 :=
      hpre.sublist.count_le 39
    refine hpre.eq_of_length_le ?_
    rw [length_wrappedText, length_wrappedText] at hle
    split_ifs at hle <;> omega
  · rintro ⟨heq, hfits⟩
    rw [heq]
    exact lstrcpyn_eq_self hfits

theorem length_wrapped_runText (sftpServer path name : CStr) :
    (wrappedText sftpServer (runText path name)).length =
    if wrapPrefix sftpServer = [] then runLength path name
    else
      (wrapPrefix sftpServer).length +
        (if ascii "-c" <:+ wrapPrefix sftpServer then 3 else 9) + runLength path name +
        3 * (path.count 39 + name.count 39) := by
  rw [length_wrappedText, length_runText, count_runText]

/-- The shell that the prefix starts gets the text as one word exactly when the prefix is made of
words and its last one is told right. -/
theorem read_wrapped_iff {sftpServer : CStr} (hne : wrapPrefix sftpServer ≠ []) (raw : CStr) :
    (∃ words, PrefixReads sftpServer words ∧
      Shell.read (wrappedText sftpServer raw) = some ((words ++
      (if words.getLast? = some (ascii "-c") then []
        else [ascii "sh", ascii "-c"]) ++ [raw]).map .word)) ↔
      ∃ words, PrefixReads sftpServer words ∧
        (ascii "-c" <:+ wrapPrefix sftpServer ↔ words.getLast? = some (ascii "-c")) := by
  refine exists_congr fun words => and_congr_right fun hwords => ?_
  rw [read_wrappedText hne hwords, Option.some.injEq]
  constructor
  · intro heq
    have hlength := congrArg List.length heq
    by_cases hsuffix : ascii "-c" <:+ wrapPrefix sftpServer <;>
      by_cases hlast : words.getLast? = some (ascii "-c") <;> simp [hsuffix, hlast] at hlength ⊢
  · intro hiff
    simp only [hiff]

/-- A file is executed exactly when directory and name are plain between double quotes, the prefix
is made of words, and the texts fit their buffers. -/
theorem executes_exactly_iff (sftpServer path name : CStr) :
    ExecutesExactly sftpServer path name ↔ Executable sftpServer path name := by
  unfold ExecutesExactly
  rw [executeCommandLine_eq]
  simp only [Option.some.injEq, exists_eq_left']
  rw [sent_whole_iff, rawText_eq_iff, length_wrapped_runText]
  constructor
  · rintro ⟨⟨⟨hcommand, hraw⟩, hfits⟩, hread⟩
    have hsent :=
      (sent_whole_iff sftpServer path name).mpr ⟨(rawText_eq_iff path name).mpr ⟨hcommand, hraw⟩, by
      rwa [length_wrapped_runText]⟩
    rw [hsent] at hread
    by_cases hne : wrapPrefix sftpServer = []
    · rw [if_pos hne, wrappedText_eq, if_pos hne] at hread
      have hplain := (read_runText_iff path name).mp hread
      exact ⟨hplain.1, hplain.2, hcommand, hraw, fun h => absurd hne h, fun h => absurd hne h⟩
    · rw [if_neg hne] at hread hfits
      have hplain := (read_runText_iff path name).mp hread.2
      exact ⟨hplain.1, hplain.2, hcommand, hraw,
        fun _ => (read_wrapped_iff hne _).mp hread.1, fun _ => hfits⟩
  · rintro ⟨hpath, hname, hcommand, hraw, hwords, hfits⟩
    have hread := (read_runText_iff path name).mpr ⟨hpath, hname⟩
    have hlength : (wrappedText sftpServer (runText path name)).length < 3 * MAX_PATH := by
      rw [length_wrapped_runText]
      by_cases hne : wrapPrefix sftpServer = []
      · rw [if_pos hne]
        omega
      · rw [if_neg hne]
        exact hfits hne
    have hsent := (sent_whole_iff sftpServer path name).mpr
        ⟨(rawText_eq_iff path name).mpr ⟨hcommand, hraw⟩, hlength⟩
    rw [length_wrapped_runText] at hlength
    refine ⟨⟨⟨hcommand, hraw⟩, hlength⟩, ?_⟩
    rw [hsent]
    by_cases hne : wrapPrefix sftpServer = []
    · rw [if_pos hne, wrappedText_eq, if_pos hne]
      exact hread
    · rw [if_neg hne]
      exact ⟨(read_wrapped_iff hne _).mpr (hwords hne), hread⟩

/-- The name `x";id;"` runs `id`. -/
theorem not_executes_exactly : ¬ ExecutesExactly [] (ascii "/") (ascii "x\";id;\"") := by
  rintro ⟨sent, hsent, -, hread⟩
  obtain rfl := Option.some.inj hsent
  have hempty : wrapPrefix [] = [] := by decide +kernel
  rw [if_pos hempty] at hread
  exact absurd hread (by decide +kernel)

end SalamanderSftp
