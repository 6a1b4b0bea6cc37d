import SalamanderSftp.Connection.Commands
import SalamanderSftp.Lib.Components

/-!
# Commands behind the privilege prefix

Where the setting of the SFTP server starts the server through another program ("sudo sftp-server"),
the commands of the plugin are started through it as well, as the argument of `sh -c`. The buffers
for the result have a fixed size, and the last word of the prefix is told to be `-c` by its last two
characters.

The shell gets the command it is meant to get exactly when the result fits the buffer, and no other
word ends in `-c` (`wrapping_preserves_iff`).
-/

namespace SalamanderSftp

open Shell (Feeds Bare)
open Components (findText findText_append_cons findText_eq_none exists_findText)

/-- The name that the setting is searched for. -/
def sftpServerName : CStr := ascii "sftp-server"

/-- The prefix that `WrapCommandWithSftpServerPrefix` takes from the setting. -/
def wrapPrefix (sftpServer : CStr) : CStr :=
  match findText sftpServerName sftpServer with
  | none => []
  -- back to the start of the word, and then over the blanks before it
  | some (before, _) => (before.rdropWhile fun c => !Shell.isBlank c).rdropWhile Shell.isBlank

/-- The text of `WrapCommandWithSftpServerPrefix` before it is cut. -/
def wrappedText (sftpServer rawCmd : CStr) : CStr :=
  let pre := wrapPrefix sftpServer
  if pre = [] then rawCmd
  else
    let escaped := rawCmd.flatMap fun c => if c = 39 then ascii "'\\''" else [c]
    if 2 ≤ pre.length ∧
      pre.drop (pre.length - 2) = ascii "-c" then pre ++ ascii " '" ++ escaped ++ ascii "'"
    else pre ++ ascii " sh -c '" ++ escaped ++ ascii "'"

def wrapCommandWithSftpServerPrefix (sftpServer rawCmd : CStr) (outSize : ℕ) : CStr :=
  if sftpServer = [] then lstrcpyn rawCmd outSize
    else lstrcpyn (wrappedText sftpServer rawCmd) outSize

/-- The functions that wrap a command. -/
inductive Wrapper
  | fastDirSize
  | executeCommandLine

/-- The size of the buffer they have for the result. -/
def Wrapper.outSize : Wrapper → ℕ
  | fastDirSize => 2048
  | executeCommandLine => 3 * MAX_PATH

/-- The first command of `FastDirSize`. -/
def duCommand (remotePath : CStr) : CStr :=
  let q := shellQuote remotePath
  ascii "du -sb -- " ++ q ++ ascii " 2>/dev/null || du -sk -- " ++ q ++ ascii " 2>/dev/null"

/-! ## Settings -/

/-- A word before the server, with the blanks behind it. -/
structure PrefixWord where
  text : CStr
  blanks : CStr
  bare : Bare text
  no_server : ¬ sftpServerName <:+: text
  blanks_ne_nil : blanks ≠ []
  blanks_blank : ∀ c ∈ blanks, Shell.isBlank c = true

/-- The word with the name of the server, with what follows it. -/
structure ServerWord where
  text : CStr
  rest : CStr
  server : sftpServerName <:+: text
  no_blank : ∀ c ∈ text, Shell.isBlank c = false

/-- The settings: without the name of a server, or with some words before it. -/
inductive ServerSetting
  | other (text : CStr) (h : ¬ sftpServerName <:+: text)
  | direct (lead : CStr) (h : ∀ c ∈ lead, Shell.isBlank c = true) (server : ServerWord)
  | behind (lead : CStr) (h : ∀ c ∈ lead, Shell.isBlank c = true)
      (words : List PrefixWord) (last : PrefixWord)
    (server : ServerWord)

namespace ServerSetting

def text : ServerSetting → CStr
  | other text _ => text
  | direct lead _ server => lead ++ (server.text ++ server.rest)
  | behind lead _ words last server =>
    lead ++ (words.flatMap fun w => w.text ++ w.blanks) ++ last.text ++ last.blanks ++
      (server.text ++ server.rest)

/-- The words before the server. -/
def words : ServerSetting → List CStr
  | other _ _ => []
  | direct _ _ _ => []
  | behind _ _ words last _ => words.map PrefixWord.text ++ [last.text]

/-- The words with the blanks between them. -/
def prefixText : ServerSetting → CStr
  | other _ _ => []
  | direct _ _ _ => []
  | behind lead _ words last _ => lead ++ (words.flatMap fun w => w.text ++ w.blanks) ++ last.text

/-- What the shell is meant to read. -/
def intended (s : ServerSetting) (rawCmd : CStr) : List CStr :=
  s.words ++ (if s.words.getLast? = some (ascii "-c") then []
    else [ascii "sh", ascii "-c"]) ++ [rawCmd]

/-- The command is wrapped whole, and read as it is meant. -/
def Preserves (s : ServerSetting) (rawCmd : CStr) (outSize : ℕ) : Prop :=
  let out := wrapCommandWithSftpServerPrefix s.text rawCmd outSize
  out = wrappedText s.text rawCmd ∧
    if s.words = [] then out = rawCmd else Shell.read out = some ((s.intended rawCmd).map .word)

/-- No word but `-c` itself ends the prefix in these characters. -/
def EndsClearly (s : ServerSetting) : Prop :=
  ∀ w ∈ s.words.getLast?, ascii "-c" <:+ w → w = ascii "-c"

/-- The length of the command with its prefix and quotes. -/
def wrappedLength (s : ServerSetting) (rawCmd : CStr) : ℕ :=
  if s.words = [] then rawCmd.length
  else
    s.prefixText.length + (if s.words.getLast? = some (ascii "-c") then 3 else 9) + rawCmd.length +
      3 * rawCmd.count 39

end ServerSetting

/-! ## The prefix -/

theorem no_blank_sftpServerName : ∀ c ∈ sftpServerName, Shell.isBlank c = false := by decide +kernel

theorem blank_notMem_sftpServerName {c : Byte} (h : Shell.isBlank c = true) :
    c ∉ sftpServerName := by
  intro hmem
  rw [no_blank_sftpServerName c hmem] at h
  cases h

theorem findText_blanks {lead : CStr} (h : ∀ c ∈ lead, Shell.isBlank c = true) (t : CStr) :
    findText sftpServerName (lead ++ t) = (findText sftpServerName t).map fun r =>
      (lead ++ r.1, r.2) := by
  induction lead with
  | nil => simp
  | cons c lead ih =>
    have hnil : ¬ sftpServerName <:+: [] := by decide +kernel
    have hc :=
      findText_append_cons (blank_notMem_sftpServerName (h c List.mem_cons_self)) hnil (lead ++ t)
    rw [List.nil_append] at hc
    rw [List.cons_append, hc, ih fun d hd => h d (List.mem_cons_of_mem _ hd), Option.map_map]
    rfl

theorem findText_word (w : PrefixWord) (t : CStr) :
    findText sftpServerName (w.text ++ w.blanks ++ t) =
      (findText sftpServerName t).map fun r => (w.text ++ w.blanks ++ r.1, r.2) := by
  obtain ⟨c, blanks, hblanks⟩ := List.exists_cons_of_ne_nil w.blanks_ne_nil
  have hblank := w.blanks_blank
  rw [hblanks] at hblank ⊢
  rw [List.append_assoc, List.cons_append,
    findText_append_cons (blank_notMem_sftpServerName (hblank c List.mem_cons_self)) w.no_server,
    findText_blanks fun d hd => hblank d (List.mem_cons_of_mem _ hd), Option.map_map]
  simp [Function.comp_def]

theorem findText_words (words : List PrefixWord) (t : CStr) :
    findText sftpServerName ((words.flatMap fun w => w.text ++ w.blanks) ++ t) =
      (findText sftpServerName t).map fun r =>
        ((words.flatMap fun w => w.text ++ w.blanks) ++ r.1, r.2) := by
  induction words with
  | nil => simp
  | cons w words ih =>
    rw [List.flatMap_cons, List.append_assoc, findText_word, ih, Option.map_map]
    simp [Function.comp_def]

theorem findText_server (server : ServerWord) : ∃ before after,
    findText sftpServerName (server.text ++ server.rest) = some (before, after) ∧
      ∀ c ∈ before, Shell.isBlank c = false := by
  obtain ⟨a, b, htext⟩ := server.server
  have hname : sftpServerName <+: sftpServerName ++ (b ++ server.rest) := List.prefix_append _ _
  obtain ⟨before, after, hfind, hbefore⟩ := exists_findText (s := a) hname
  refine ⟨before, after, ?_, fun c hc => server.no_blank c ?_⟩
  · rw [← htext, ← hfind]
    simp
  · rw [← htext, List.append_assoc]
    exact List.mem_append_left _ (hbefore.mem hc)

/-- A part in blanks is left over, and a part without them is dropped. -/
theorem rdropWhile_word {s before : CStr} (hbefore : ∀ c ∈ before, Shell.isBlank c = false)
    (hs : ∀ c ∈ s.getLast?, Shell.isBlank c = true) :
    (s ++ before).rdropWhile (fun c => !Shell.isBlank c) = s := by
  induction before using List.reverseRecOn with
  | nil =>
    rw [List.append_nil, List.rdropWhile_eq_self_iff]
    intro hne
    simp [hs _ (List.getLast?_eq_some_getLast hne)]
  | append_singleton before c ih =>
    rw [← List.append_assoc, List.rdropWhile_concat_pos _ _ _ (by simp [hbefore c])]
    exact ih fun d hd => hbefore d (List.mem_append_left _ hd)

theorem rdropWhile_blanks {s blanks : CStr} (hblanks : ∀ c ∈ blanks, Shell.isBlank c = true)
    (hs : ∀ c ∈ s.getLast?, Shell.isBlank c = false) :
    (s ++ blanks).rdropWhile Shell.isBlank = s := by
  induction blanks using List.reverseRecOn with
  | nil =>
    rw [List.append_nil, List.rdropWhile_eq_self_iff]
    intro hne
    simp [hs _ (List.getLast?_eq_some_getLast hne)]
  | append_singleton blanks c ih =>
    rw [← List.append_assoc, List.rdropWhile_concat_pos _ _ _ (hblanks c (by simp))]
    exact ih fun d hd => hblanks d (List.mem_append_left _ hd)

theorem getLast?_blanks {s blanks : CStr} (hne : blanks ≠ [])
    (hblanks : ∀ c ∈ blanks, Shell.isBlank c = true) :
    ∀ c ∈ (s ++ blanks).getLast?, Shell.isBlank c = true := by
  intro c hc
  rw [List.getLast?_append_of_ne_nil _ hne] at hc
  exact hblanks c (List.mem_of_getLast? hc)

theorem wrapPrefix_of_findText {s before after : CStr}
    (h : findText sftpServerName s = some (before, after)) :
    wrapPrefix s = (before.rdropWhile fun c => !Shell.isBlank c).rdropWhile Shell.isBlank := by
  rw [wrapPrefix, h]

/-- The prefix is what stands before the server, up to its last word. -/
theorem wrapPrefix_text (s : ServerSetting) : wrapPrefix s.text = s.prefixText := by
  rcases s with ⟨text, h⟩ | ⟨lead, hlead, server⟩ | ⟨lead, hlead, words, last, server⟩
  case other =>
    show wrapPrefix text = []
    rw [wrapPrefix, findText_eq_none h]
  case direct =>
    obtain ⟨before, after, hfind, hbefore⟩ := findText_server server
    have hlast : ∀ c ∈ lead.getLast?, Shell.isBlank c = true :=
      fun c hc => hlead c (List.mem_of_getLast? hc)
    have hall : findText sftpServerName (lead ++ (server.text ++ server.rest)) =
        some (lead ++ before, after) := by
      rw [findText_blanks hlead, hfind]
      rfl
    show wrapPrefix (lead ++ (server.text ++ server.rest)) = []
    rw [wrapPrefix_of_findText hall, rdropWhile_word hbefore hlast, List.rdropWhile_eq_nil_iff]
    exact hlead
  case behind =>
    obtain ⟨before, after, hfind, hbefore⟩ := findText_server server
    set joined := words.flatMap fun w => w.text ++ w.blanks with hjoined
    have hall : findText sftpServerName
        (lead ++ joined ++ last.text ++ last.blanks ++ (server.text ++ server.rest)) =
        some (lead ++ joined ++ last.text ++ last.blanks ++ before, after) := by
      have hword := findText_word last (server.text ++ server.rest)
      have hwords := findText_words words (last.text ++ last.blanks ++ (server.text ++ server.rest))
      have hlead' :=
        findText_blanks hlead (joined ++ (last.text ++ last.blanks ++ (server.text ++ server.rest)))
      rw [hfind] at hword
      rw [hword] at hwords
      rw [hwords] at hlead'
      simpa using hlead'
    have hlast : ∀ c ∈ (lead ++ joined ++ last.text).getLast?, Shell.isBlank c = false := by
      intro c hc
      rw [List.getLast?_append_of_ne_nil _ last.bare.ne_nil] at hc
      exact last.bare.no_blank c (List.mem_of_getLast? hc)
    show wrapPrefix (lead ++ joined ++ last.text ++ last.blanks ++ (server.text ++ server.rest)) =
      lead ++ joined ++ last.text
    rw [wrapPrefix_of_findText hall,
      rdropWhile_word hbefore (getLast?_blanks last.blanks_ne_nil last.blanks_blank),
      rdropWhile_blanks last.blanks_blank hlast]

/-! ## The wrapped command -/

theorem length_quote (s : CStr) : (Shell.quote s).length = s.length + 3 * s.count 39 + 2 := by
  unfold Shell.quote
  rw [List.length_append, List.length_cons]
  induction s with
  | nil => rfl
  | cons c s ih =>
    rw [List.flatMap_cons, List.length_append, List.length_cons, List.count_cons]
    by_cases hc : c = 39
    · subst hc
      simp [Shell.singleQuote] at ih ⊢
      omega
    · have hc' : ¬ c = Shell.singleQuote := hc
      simp [hc, hc'] at ih ⊢
      omega

theorem drop_eq_iff {s pat : CStr} (n : ℕ) (hn : pat.length = n) :
    n ≤ s.length ∧ s.drop (s.length - n) = pat ↔ pat <:+ s := by
  subst hn
  constructor
  · rintro ⟨-, hdrop⟩
    have hsuffix := List.drop_suffix (s.length - pat.length) s
    rwa [hdrop] at hsuffix
  · intro h
    exact ⟨h.length_le, (List.suffix_iff_eq_drop.mp h).symm⟩

theorem wrappedText_eq (sftpServer rawCmd : CStr) : wrappedText sftpServer rawCmd =
    if wrapPrefix sftpServer = [] then rawCmd
    else if ascii "-c" <:+ wrapPrefix sftpServer then
      wrapPrefix sftpServer ++ [Shell.blank] ++ Shell.quote rawCmd
    else wrapPrefix sftpServer ++ [Shell.blank] ++ ascii "sh -c " ++ Shell.quote rawCmd := by
  have hlen : (ascii "-c").length = 2 := by decide +kernel
  have hopen : ascii " '" = [Shell.blank] ++ [39] := by decide +kernel
  have hopen' : ascii " sh -c '" = [Shell.blank] ++ ascii "sh -c " ++ [39] := by decide +kernel
  have hclose : ascii "'" = [39] := by decide +kernel
  have hquote : Shell.quote rawCmd =
      [39] ++ (rawCmd.flatMap fun c => if c = 39 then ascii "'\\''" else [c]) ++ [39] :=
        (shellQuote_eq rawCmd).symm
  unfold wrappedText
  simp only [drop_eq_iff 2 hlen]
  rw [hquote, hopen, hopen', hclose]
  simp only [List.append_assoc]

theorem wrapCommand_eq (sftpServer rawCmd : CStr) (outSize : ℕ) :
    wrapCommandWithSftpServerPrefix sftpServer rawCmd outSize =
      lstrcpyn (wrappedText sftpServer rawCmd) outSize := by
  unfold wrapCommandWithSftpServerPrefix
  split_ifs with hempty
  · have hnone : wrapPrefix sftpServer = [] := by
      rw [hempty]
      decide +kernel
    rw [wrappedText_eq, if_pos hnone]
  · rfl

/-- The words that the shell reads for the prefix, with the blank behind it. -/
def PrefixReads (sftpServer : CStr) (words : List CStr) : Prop :=
  Feeds .between (wrapPrefix sftpServer ++ [Shell.blank]) (words.map .word) .between

/-- What the shell reads is decided by the end of the prefix. -/
theorem read_wrappedText {sftpServer : CStr} {words : List CStr} (hne : wrapPrefix sftpServer ≠ [])
    (h : PrefixReads sftpServer words) (rawCmd : CStr) :
    Shell.read (wrappedText sftpServer rawCmd) =
      some ((words ++ (if ascii "-c" <:+ wrapPrefix sftpServer then []
        else [ascii "sh", ascii "-c"]) ++
        [rawCmd]).map .word) := by
  rw [wrappedText_eq, if_neg hne]
  split_ifs with hsuffix
  · rw [Shell.read_append_quote h]
    simp
  · have hsh : Feeds .between (ascii "sh -c ") ([ascii "sh", ascii "-c"].map .word) .between := by
      decide +kernel
    rw [Shell.read_append_quote (Feeds.append h hsh)]
    simp

theorem length_wrappedText (sftpServer rawCmd : CStr) :
    (wrappedText sftpServer rawCmd).length =
      if wrapPrefix sftpServer = [] then rawCmd.length
      else
        (wrapPrefix sftpServer).length +
          (if ascii "-c" <:+ wrapPrefix sftpServer then 3 else 9) + rawCmd.length +
          3 * rawCmd.count 39 := by
  have hsh : (ascii "sh -c ").length = 6 := by decide +kernel
  rw [wrappedText_eq]
  split_ifs with hempty hsuffix
  · rfl
  · simp only [List.length_append, List.length_singleton, length_quote]
    omega
  · simp only [List.length_append, List.length_singleton, length_quote, hsh]
    omega

namespace ServerSetting

theorem prefixText_eq_nil_iff (s : ServerSetting) : s.prefixText = [] ↔ s.words = [] := by
  rcases s with ⟨text, h⟩ | ⟨lead, hlead, server⟩ | ⟨lead, hlead, words, last, server⟩
  case other => exact iff_of_true rfl rfl
  case direct => exact iff_of_true rfl rfl
  case behind => simp [prefixText, ServerSetting.words, last.bare.ne_nil]

/-- A blank stands before the last word, if anything does. -/
theorem getLast?_words {lead : CStr} (hlead : ∀ c ∈ lead, Shell.isBlank c = true)
    (words : List PrefixWord) :
    ∀ c ∈ (lead ++ words.flatMap fun w => w.text ++ w.blanks).getLast?, Shell.isBlank c = true := by
  induction words using List.reverseRecOn with
  | nil =>
    intro c hc
    rw [List.flatMap_nil, List.append_nil] at hc
    exact hlead c (List.mem_of_getLast? hc)
  | append_singleton words w ih =>
    rw [List.flatMap_append, List.flatMap_singleton, ← List.append_assoc, ← List.append_assoc]
    exact getLast?_blanks w.blanks_ne_nil w.blanks_blank

/-- The end of the prefix is the end of its last word. -/
theorem suffix_prefixText_iff (s : ServerSetting) :
    ascii "-c" <:+ s.prefixText ↔ ∃ w ∈ s.words.getLast?, ascii "-c" <:+ w := by
  have hpat : ascii "-c" = [45, 99] := by decide +kernel
  rcases s with ⟨text, h⟩ | ⟨lead, hlead, server⟩ | ⟨lead, hlead, words, last, server⟩
  case other => simp [prefixText, ServerSetting.words, hpat]
  case direct => simp [prefixText, ServerSetting.words, hpat]
  case behind =>
    have hblank := getLast?_words hlead words
    show ascii "-c" <:+ (lead ++ words.flatMap fun w => w.text ++ w.blanks) ++ last.text ↔
      ∃ w ∈ (words.map PrefixWord.text ++ [last.text]).getLast?, ascii "-c" <:+ w
    generalize (lead ++ words.flatMap fun w => w.text ++ w.blanks) = before at hblank
    simp only [List.getLast?_concat, Option.mem_some_iff, exists_eq_left', hpat]
    constructor
    · intro hsuffix
      rcases List.suffix_or_suffix_of_suffix hsuffix
          (List.suffix_append before last.text) with hlast | hlast
      · exact hlast
      rcases List.suffix_cons_iff.mp hlast with heq | hlast
      · exact heq ▸ List.suffix_rfl
      rcases List.suffix_cons_iff.mp hlast with heq | hlast
      · -- the dash would stand before the word
        obtain ⟨t, ht⟩ := hsuffix
        rw [heq, List.append_cons t 45 [99]] at ht
        have hbefore : t ++ [45] = before := List.append_cancel_right ht
        rw [← hbefore, List.getLast?_concat] at hblank
        exact absurd (hblank 45 rfl) (by decide)
      · exact absurd (List.suffix_nil.mp hlast) last.bare.ne_nil
    · exact fun hlast => hlast.trans (List.suffix_append _ _)

theorem feeds_words (words : List PrefixWord) :
    Feeds .between (words.flatMap fun w => w.text ++ w.blanks)
      (words.map fun w => .word w.text) .between := by
  induction words with
  | nil => exact .nil _
  | cons w words ih =>
    rw [List.flatMap_cons, List.map_cons]
    exact (w.bare.feeds_blanks w.blanks_ne_nil w.blanks_blank).append ih

theorem feeds_prefixText {s : ServerSetting} (h : s.words ≠ []) :
    Feeds .between (s.prefixText ++ [Shell.blank]) (s.words.map .word) .between := by
  rcases s with ⟨text, _⟩ | ⟨lead, hlead, server⟩ | ⟨lead, hlead, words, last, server⟩
  case other => exact absurd rfl h
  case direct => exact absurd rfl h
  case behind =>
    have hlast : Feeds .between (last.text ++ [Shell.blank]) [.word last.text] .between :=
      last.bare.feeds_blanks (by simp) (by simp [Shell.isBlank])
    have hall := (Feeds.blanks hlead).append ((feeds_words words).append hlast)
    show Feeds .between
        (lead ++ (words.flatMap fun w => w.text ++ w.blanks) ++ last.text ++ [Shell.blank])
      ((words.map PrefixWord.text ++ [last.text]).map .word) .between
    rw [List.map_append, List.map_map]
    simpa [Function.comp_def] using hall

theorem read_text {s : ServerSetting} (h : s.words ≠ []) (rawCmd : CStr) :
    Shell.read (wrappedText s.text rawCmd) =
      some ((s.words ++ (if ascii "-c" <:+ s.prefixText then [] else [ascii "sh", ascii "-c"]) ++
        [rawCmd]).map .word) := by
  have hwords : PrefixReads s.text s.words := by
    unfold PrefixReads
    rw [wrapPrefix_text]
    exact feeds_prefixText h
  have hne : wrapPrefix s.text ≠ [] := by
    rw [wrapPrefix_text]
    exact fun hnil => h (s.prefixText_eq_nil_iff.mp hnil)
  rw [read_wrappedText hne hwords, wrapPrefix_text]

theorem length_text (s : ServerSetting) (rawCmd : CStr) :
    (wrappedText s.text rawCmd).length =
      if s.words = [] then rawCmd.length
      else
        s.prefixText.length + (if ascii "-c" <:+ s.prefixText then 3 else 9) + rawCmd.length +
          3 * rawCmd.count 39 := by
  rw [length_wrappedText, wrapPrefix_text]
  simp only [s.prefixText_eq_nil_iff]

end ServerSetting

/-- The last word is told right exactly when no other word has its ending. -/
theorem endsClearly_iff {s : ServerSetting} :
    s.EndsClearly ↔ (ascii "-c" <:+ s.prefixText ↔ s.words.getLast? = some (ascii "-c")) := by
  rw [s.suffix_prefixText_iff]
  unfold ServerSetting.EndsClearly
  constructor
  · intro hclear
    constructor
    · rintro ⟨w, hw, hsuffix⟩
      rw [← hclear w hw hsuffix]
      exact hw
    · exact fun hlast => ⟨_, hlast, List.suffix_rfl⟩
  · intro hiff w hw hsuffix
    have hlast := hiff.mp ⟨w, hw, hsuffix⟩
    rw [Option.mem_def.mp hw] at hlast
    exact Option.some.inj hlast

/-- Wrapping preserves the command exactly when the result fits the buffer of the caller, and only
the word `-c` ends the prefix in these characters. -/
theorem wrapping_preserves_iff (caller : Wrapper) (s : ServerSetting) (rawCmd : CStr) :
    s.Preserves rawCmd caller.outSize ↔
    s.EndsClearly ∧ s.wrappedLength rawCmd < caller.outSize := by
  have hsize : 0 < caller.outSize := by cases caller <;> decide
  unfold ServerSetting.Preserves
  simp only [wrapCommand_eq]
  rw [lstrcpyn_eq_self_iff, s.length_text]
  by_cases hwords : s.words = []
  · have hclear : s.EndsClearly := by
      intro w hw
      rw [hwords] at hw
      cases hw
    have hraw : wrappedText s.text rawCmd = rawCmd := by
      rw [wrappedText_eq, wrapPrefix_text, if_pos (s.prefixText_eq_nil_iff.mpr hwords)]
    simp only [ServerSetting.wrappedLength, if_pos hwords, hraw, hclear,
      true_and, lstrcpyn_eq_self_iff]
    omega
  · simp only [ServerSetting.wrappedLength, if_neg hwords]
    constructor
    · rintro ⟨hfits, hread⟩
      rw [lstrcpyn_eq_self_iff.mpr (by rwa [s.length_text, if_neg hwords]),
        ServerSetting.read_text hwords] at hread
      have hlength := congrArg List.length (Option.some.inj hread)
      have hclear : ascii "-c" <:+ s.prefixText ↔ s.words.getLast? = some (ascii "-c") := by
        unfold ServerSetting.intended at hlength
        by_cases hsuffix : ascii "-c" <:+ s.prefixText <;>
          by_cases hlast : s.words.getLast? = some (ascii "-c")
            <;> simp [hsuffix, hlast] at hlength ⊢
      simp only [hclear] at hfits
      exact ⟨endsClearly_iff.mpr hclear, by omega⟩
    · rintro ⟨hclear, hfits⟩
      have hiff := endsClearly_iff.mp hclear
      simp only [hiff]
      refine ⟨by omega, ?_⟩
      have hfits' : (wrappedText s.text rawCmd).length ≤ caller.outSize - 1 := by
        rw [s.length_text, if_neg hwords]
        simp only [hiff]
        omega
      rw [lstrcpyn_eq_self_iff.mpr hfits', ServerSetting.read_text hwords]
      simp only [hiff]
      rfl

/-- The setting "sudo sftp-server". -/
def sudoServer : ServerSetting :=
  .behind [] (by simp) []
    { text := ascii "sudo", blanks := [32]
      bare := ⟨by decide +kernel, by decide +kernel, by decide +kernel⟩
      no_server := by decide +kernel, blanks_ne_nil := by simp, blanks_blank := by decide +kernel }
    { text := sftpServerName, rest := []
      server := List.infix_rfl, no_blank := no_blank_sftpServerName }

/-- For a directory with the name of 80 single quotes the command of `FastDirSize` is cut. -/
theorem not_wrapping_preserves :
    ¬ sudoServer.Preserves (duCommand (List.replicate 80 39)) Wrapper.fastDirSize.outSize := by
  rintro ⟨hwhole, -⟩
  rw [wrapCommand_eq, lstrcpyn_eq_self_iff, sudoServer.length_text] at hwhole
  exact absurd hwhole (by decide +kernel)

end SalamanderSftp
