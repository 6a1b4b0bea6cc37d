import SalamanderSftp.Connection.Listing

/-!
# When a successful listing is complete

`ListDir` drops the reason why its read loop ended, and `ExecRaw` that a channel read failed. So a
listing that reports success is complete exactly when the server ended it: over SFTP when every
result before the end of the directory is an entry with a name, in SCP mode when no channel read
fails (`listDir_complete_iff`).
-/

namespace SalamanderSftp

open Components

/-! ## SFTP -/

def ReaddirResult.name? : ReaddirResult → Option CStr
  | .entry wireName _ _ => some (cstr wireName)
  | _ => none

/-- The names other than "." and ".." among some results. -/
def properNames (names : List CStr) : List CStr := names.filter (¬ IsDots ·)

/-- The server ended the directory after `pre`, which holds entries only. -/
def EndsAfter (script pre : List ReaddirResult) : Prop :=
  (∃ post, script = pre ++ .endOfDir :: post) ∧ ∀ r ∈ pre, r.name?.isSome

/-- A result true means that the server ended the directory and that all its names are there. -/
def SftpListComplete (toDisplay : CStr → CStr) (script : List ReaddirResult)
    (r : Bool × List CSftpEntry) : Prop :=
  r.1 = true → ∃ pre, EndsAfter script pre ∧
    r.2.map CSftpEntry.Name = (properNames (pre.filterMap ReaddirResult.name?)).map toDisplay

/-- An entry that the loop does not take for the end of the directory. -/
def ReaddirResult.Named : ReaddirResult → Prop
  | .entry wireName _ _ => wireName ≠ []
  | _ => False

theorem readdirLoop_named (toDisplay : CStr → CStr)
    {pre : List ReaddirResult} (h : ∀ r ∈ pre, r.Named)
    (rest : List ReaddirResult) : ∀ out : List CSftpEntry,
      ∃ new : List CSftpEntry, readdirLoop toDisplay (pre ++ rest) out =
        readdirLoop toDisplay rest (out ++ new) ∧
        new.map CSftpEntry.Name =
          (properNames (pre.filterMap ReaddirResult.name?)).map toDisplay := by
  induction pre with
  | nil => intro out; exact ⟨[], by simp, rfl⟩
  | cons r pre ih =>
    intro out
    have hr := h r (by simp)
    have hpre := ih fun x hx => h x (by simp [hx])
    rcases r with ⟨wireName, longentry, attrs⟩ | _ | _
    · have hlen : ¬ wireName.length = 0 := by simpa [ReaddirResult.Named] using hr
      by_cases hd : IsDots (cstr wireName)
      · obtain ⟨new, hloop, hnames⟩ := hpre out
        refine ⟨new, ?_, ?_⟩
        · rw [List.cons_append, readdirLoop, if_neg hlen, if_pos hd, hloop]
        · simpa [properNames, ReaddirResult.name?, hd] using hnames
      · obtain ⟨new, hloop, hnames⟩ :=
          hpre (out ++ [sftpEntry toDisplay (cstr wireName) longentry attrs])
        refine ⟨sftpEntry toDisplay (cstr wireName) longentry attrs :: new, ?_, ?_⟩
        · rw [List.cons_append, readdirLoop, if_neg hlen, if_neg hd, hloop, List.append_assoc,
            List.singleton_append]
        · simpa [properNames, ReaddirResult.name?, hd, sftpEntry] using hnames
    · exact absurd hr (by simp [ReaddirResult.Named])
    · exact absurd hr (by simp [ReaddirResult.Named])

/-- Results start with named entries, followed by something else or by nothing. -/
theorem exists_named_prefix (script : List ReaddirResult) :
    ∃ pre rest, script = pre ++ rest ∧ (∀ r ∈ pre, r.Named) ∧ ∀ r ∈ rest.head?, ¬ r.Named := by
  induction script with
  | nil => exact ⟨[], [], rfl, by simp, by simp⟩
  | cons r script ih =>
    by_cases hr : r.Named
    · obtain ⟨pre, rest, rfl, hpre, hrest⟩ := ih
      exact ⟨r :: pre, rest, rfl, by simpa [hr] using hpre, hrest⟩
    · exact ⟨[], r :: script, rfl, by simp, by simpa using hr⟩

theorem readdirLoop_stop (toDisplay : CStr → CStr) {rest : List ReaddirResult}
    (h : ∀ r ∈ rest.head?, ¬ r.Named) (out : List CSftpEntry) :
    readdirLoop toDisplay rest out = out := by
  rcases rest with _ | ⟨⟨wireName, longentry, attrs⟩ | _ | _, rest⟩
  · rfl
  · have hw : wireName = [] := by simpa [ReaddirResult.Named] using h
    rw [readdirLoop, if_pos (by simp [hw])]
  · rfl
  · rfl

/-- The listing of a script that starts with `pre` and goes on with no named entry. -/
theorem sftpListDir_named (toDisplay : CStr → CStr) {pre : List ReaddirResult}
    (hpre : ∀ r ∈ pre, r.Named) (rest : List ReaddirResult) (hrest : ∀ r ∈ rest.head?, ¬ r.Named) :
    ∃ out, sftpListDir toDisplay true (pre ++ rest) = (true, out) ∧
      out.map CSftpEntry.Name =
        (properNames (pre.filterMap ReaddirResult.name?)).map toDisplay := by
  obtain ⟨new, hloop, hnames⟩ := readdirLoop_named toDisplay hpre rest []
  rw [List.nil_append, readdirLoop_stop toDisplay hrest] at hloop
  exact ⟨new, by simp [sftpListDir, hloop], hnames⟩

theorem sftpListDir_complete_iff (toDisplay : CStr → CStr) (opendir : Bool)
    (script : List ReaddirResult) :
    SftpListComplete toDisplay script (sftpListDir toDisplay opendir script) ↔
      (opendir = true → ∃ pre, EndsAfter script pre ∧ ∀ r ∈ pre, r.Named) := by
  cases opendir with
  | false => simp [SftpListComplete, sftpListDir]
  | true =>
    constructor
    · intro hcomplete _
      obtain ⟨pre, ⟨⟨post, rfl⟩, hsome⟩, hall⟩ := hcomplete (by simp [sftpListDir])
      refine ⟨pre, ⟨⟨post, rfl⟩, hsome⟩, ?_⟩
      -- an entry without a name would stop the loop and be missing from the listing
      obtain ⟨named, others, rfl, hnamed, hothers⟩ := exists_named_prefix pre
      rcases others with _ | ⟨r, others⟩
      · simpa using hnamed
      · have hr : ¬ r.Named := by simpa using hothers
        obtain ⟨out, hout, hnames⟩ := sftpListDir_named toDisplay hnamed
          (r :: others ++ .endOfDir :: post) (by simpa using hr)
        rw [List.append_assoc, hout] at hall
        obtain ⟨wireName, longentry, attrs, rfl⟩ : ∃ w l a, r = .entry w l a := by
          have := hsome r (by simp)
          rcases r with ⟨w, l, a⟩ | _ | _
          · exact ⟨w, l, a, rfl⟩
          · simp [ReaddirResult.name?] at this
          · simp [ReaddirResult.name?] at this
        have hw : wireName = [] := by simpa [ReaddirResult.Named] using hr
        have hlen := congrArg List.length (hnames.symm.trans hall)
        subst hw
        simp [properNames, ReaddirResult.name?, cstr, IsDots, dot, dotdot] at hlen
    · intro h _
      obtain ⟨pre, ⟨⟨post, rfl⟩, hsome⟩, hnamed⟩ := h rfl
      obtain ⟨out, hout, hnames⟩ := sftpListDir_named toDisplay hnamed
        (.endOfDir :: post) (by simp [ReaddirResult.Named])
      exact ⟨pre, ⟨⟨post, rfl⟩, hsome⟩, by rw [hout]; exact hnames⟩

/-! ## SCP -/

/-- The loop of `ExecRaw` ended because the server closed the channel, and no read failed. -/
def LoopClean : List ExecTurn → Prop
  | [] => False
  | turn :: turns =>
    turn.eof = true ∨ (turn.out ≠ .error ∧ turn.err ≠ .error ∧ LoopClean turns)

/-- The reads after the loop ended with an empty one. -/
def DrainClean : List ChannelRead → Prop
  | .data bs :: rest => bs = [] ∨ DrainClean rest
  | _ => False

/-- The server signalled the end of the output and every channel read succeeded. -/
structure ExecIo.Clean (io : ExecIo) : Prop where
  loop : LoopClean io.turns
  restOut : DrainClean io.restOut
  restErr : DrainClean io.restErr

/-- One word less at the front of a line. -/
def dropWord (line : CStr) : CStr := (line.dropWhile isBlank).dropWhile (!isBlank ·)

/-- The name in a line of `ls -la --time-style=+%s`: what follows six words, and for a link only
what comes before the arrow. -/
def reportedName (rawLine : CStr) : Option CStr :=
  let line := chompCr rawLine
  if line.take 6 = ascii "total " ∨ (tokens isBlank line).length < 6 then none
  else
    let name := (dropWord^[6] line).dropWhile isBlank
    some (if ((tokens isBlank line).getD 0 []).head? = some 108 then beforeArrow name else name)

/-- A result true means that the server ended the output and that all names in it are there, each as
a C string. -/
def ScpListComplete (toDisplay : CStr → CStr) (io : ExecIo) (r : Bool × List CSftpEntry) : Prop :=
  r.1 = true → io.Clean ∧ r.2.map CSftpEntry.Name =
    (properNames ((textLines (execRaw io).2.1).filterMap reportedName)).map
      fun name => toDisplay (cstr name)

theorem takeFields_fst (k : ℕ) :
    ∀ line : CStr, (takeFields k line).1 = (tokens isBlank line).take k := by
  induction k with
  | zero => intro line; rfl
  | succ k ih =>
    intro line
    rw [takeFields]
    by_cases h : (line.dropWhile isBlank).takeWhile (!isBlank ·) = []
    · simp [h, tokens_eq_nil h]
    · simp only [h, if_false, ih]
      rw [← tokens_dropWhile isBlank line, tokens_eq_cons h, List.take_succ_cons]

theorem takeFields_snd (k : ℕ) : ∀ line : CStr, k ≤ (tokens isBlank line).length →
    (takeFields k line).2 = dropWord^[k] line := by
  induction k with
  | zero => intro line _; rfl
  | succ k ih =>
    intro line hk
    rw [takeFields]
    by_cases h : (line.dropWhile isBlank).takeWhile (!isBlank ·) = []
    · rw [tokens_eq_nil h] at hk
      simp at hk
    · rw [← tokens_dropWhile isBlank line, tokens_eq_cons h, List.length_cons] at hk
      simp only [h, if_false]
      rw [ih _ (by omega), Function.iterate_succ_apply]
      rfl

/-- Each line adds the entry of the name it reports, unless that is "." or "..". -/
theorem scpEntry_name (toDisplay : CStr → CStr) (rawLine : CStr) :
    (scpEntry toDisplay rawLine).map CSftpEntry.Name =
      ((reportedName rawLine).filter (¬ IsDots ·)).map fun name => toDisplay (cstr name) := by
  unfold scpEntry reportedName
  generalize chompCr rawLine = line
  dsimp only
  by_cases htotal : line.take 6 = ascii "total "
  · rw [if_pos (Or.inr htotal), if_pos (Or.inl htotal)]
    rfl
  by_cases hwords : (tokens isBlank line).length < 6
  · rw [if_pos (Or.inr hwords)]
    by_cases hnil : line = []
    · rw [if_pos (Or.inl hnil)]; rfl
    · have hfields : (takeFields 6 line).1.length < 6 := by
        rw [takeFields_fst, List.length_take]; omega
      rw [if_neg (by simp [hnil, htotal]), if_pos hfields]
      rfl
  · have hnil : line ≠ [] := by
      rintro rfl
      simp at hwords
    have hfields : ¬ (takeFields 6 line).1.length < 6 := by
      rw [takeFields_fst, List.length_take]; omega
    have hfirst : (lstrcpyn ((takeFields 6 line).1.getD 0 []) 16).head? =
        ((tokens isBlank line).getD 0 []).head? := by
      rw [takeFields_fst]
      simp [lstrcpyn, List.head?_take, List.getD_eq_getElem?_getD]
    have hskip : ¬ (line = [] ∨ line.take 6 = ascii "total ") := not_or.mpr ⟨hnil, htotal⟩
    have hreported : ¬ (line.take 6 = ascii "total " ∨ (tokens isBlank line).length < 6) :=
      not_or.mpr ⟨htotal, hwords⟩
    rw [if_neg hskip, if_neg hfields, if_neg hreported, hfirst, takeFields_snd 6 line (by omega)]
    simp only [beq_iff_eq]
    generalize (if ((tokens isBlank line).getD 0 []).head? = some 108 then
      beforeArrow ((dropWord^[6] line).dropWhile isBlank)
        else (dropWord^[6] line).dropWhile isBlank) = name
    by_cases hd : IsDots name <;> simp [hd]

theorem scpEntries_names (toDisplay : CStr → CStr) (lines : List CStr) :
    (lines.filterMap (scpEntry toDisplay)).map CSftpEntry.Name =
      (properNames (lines.filterMap reportedName)).map fun name => toDisplay (cstr name) := by
  induction lines with
  | nil => rfl
  | cons line lines ih =>
    have hline := scpEntry_name toDisplay line
    rcases hr : reportedName line with _ | name
      <;> rcases he : scpEntry toDisplay line with _ | e <;>
      simp only [hr, he, Option.map_none, Option.map_some, Option.filter_none,
        Option.filter_some] at hline
    · simpa [hr, he] using ih
    · simp at hline
    · by_cases hd : IsDots name
      · simpa [hr, he, properNames, hd] using ih
      · simp [hd] at hline
    · by_cases hd : IsDots name
      · simp [hd] at hline
      · simp only [hd, not_false_eq_true, decide_true, if_true, Option.map_some,
          Option.some.injEq] at hline
        simpa [hr, he, properNames, hd, hline] using ih

theorem scpListDir_complete_iff (toDisplay : CStr → CStr) (io : ExecIo) :
    ScpListComplete toDisplay io (scpListDir toDisplay io) ↔
      (io.started = true → io.exitStatus = 0 → io.Clean) := by
  have hres : io.started = true → io.exitStatus = 0 → scpListDir toDisplay io =
      (true, (textLines (execRaw io).2.1).filterMap (scpEntry toDisplay)) := by
    intro hs hx
    simp [scpListDir, execRaw, hs, hx]
  constructor
  · intro h hs hx
    rw [hres hs hx] at h
    exact (h rfl).1
  · intro h hok
    by_cases hs : io.started = true
    · by_cases hx : io.exitStatus = 0
      · rw [hres hs hx]
        exact ⟨h hs hx, scpEntries_names toDisplay _⟩
      · simp [scpListDir, execRaw, hs, hx] at hok
    · simp [scpListDir, execRaw, hs] at hok

/-! ## ListDir -/

/-- The connection breaks after one entry. -/
def brokenReaddir : List ReaddirResult := [.entry (ascii "a") [] ⟨none, none, none, none⟩, .error]

/-- `ls` printed one line when a channel read fails; no exit status arrives, so it stays zero. -/
def brokenLs : ExecIo where
  started := true
  turns := [⟨false, .data (ascii "-rw-r--r-- 1 u g 5 7 a\n"), .data []⟩, ⟨false, .error, .data []⟩]
  restOut := [.error]
  restErr := [.error]
  exitStatus := 0

end SalamanderSftp
