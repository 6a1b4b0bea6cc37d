import Mathlib

/-!
# Reading a command line as a POSIX shell does

The shell cuts its input into words and operators, character by character (`step`). Quoted
characters stand for themselves; a text in which something is left to expand, to substitute or to
close is not read at all (`read = none`), so that the words of a text that is read are what the
command gets.

1. `Feeds` says what a beginning of the text is cut into; it composes (`Feeds.append`).
2. A text between single quotes, with its own single quotes taken out, is one word or a part of one,
   whatever its characters are (`Feeds.quote`).
-/

namespace Shell

/-! ## Characters -/

def singleQuote : UInt8 := 39
def doubleQuote : UInt8 := 34
def backslash : UInt8 := 92
def dollar : UInt8 := 36
def backquote : UInt8 := 96
def newline : UInt8 := 10
def blank : UInt8 := 32
def hash : UInt8 := 35

def isBlank (c : UInt8) : Bool := c == blank || c == 9

/-- The control and redirection operators, apart from the newline. -/
def operators : List (List UInt8) :=
  [[38], [124], [59], [60], [62], [40], [41], [38, 38], [124, 124], [59, 59], [60, 60],
    [62, 62], [60, 38], [62, 38],
    [60, 62], [62, 124], [60, 60, 45]]

/-! ## Words -/

inductive Token
  | word (text : List UInt8)
  | op (text : List UInt8)
  deriving DecidableEq

/-- The characters of a word so far, each with whether it is quoted. -/
abbrev Word := List (UInt8 × Bool)

/-- Nothing in the word is left to expand: no pattern and no tilde. -/
def Literal (w : Word) : Prop :=
  ∀ x ∈ w, x.2 = false → x.1 ∉ ([42, 63, 126] : List UInt8) ∧ (x.1 = 91 → (93, false) ∉ w)

instance (w : Word) : Decidable (Literal w) := by
  unfold Literal
  infer_instance

/-- The word that ends here, if there is one. -/
def flush : Option Word → Option (List Token)
  | none => some []
  | some w => if Literal w then some [.word (w.map Prod.fst)] else none

/-! ## Cutting -/

inductive Mode
  | between
  | comment
  | word (w : Word)
  | single (w : Word)
  | double (w : Word)
  | doubleEscape (w : Word)
  /-- Behind a backslash, with the word that it is part of. -/
  | escape (w : Option Word)
  | op (text : List UInt8)
  deriving DecidableEq

/-- A character outside of quotes. -/
def start (w : Option Word) (c : UInt8) : Option (List Token × Mode) :=
  if c = singleQuote then some ([], .single (w.getD []))
  else if c = doubleQuote then some ([], .double (w.getD []))
  else if c = backslash then some ([], .escape w)
  else if c = dollar ∨ c = backquote then none
  else if c = newline then (flush w).map fun ts => (ts ++ [.op [newline]], .between)
  else if isBlank c then (flush w).map fun ts => (ts, .between)
  else if [c] ∈ operators then (flush w).map fun ts => (ts, .op [c])
  else if c = hash ∧ w = none then some ([], .comment)
  else some ([], .word (w.getD [] ++ [(c, false)]))

def step : Mode → UInt8 → Option (List Token × Mode)
  | .between, c => start none c
  | .word w, c => start (some w) c
  | .comment, c => if c = newline then some ([.op [newline]], .between) else some ([], .comment)
  | .single w, c =>
    if c = singleQuote then some ([], .word w) else some ([], .single (w ++ [(c, true)]))
  | .double w, c =>
    if c = doubleQuote then some ([], .word w)
    else if c = dollar ∨ c = backquote then none
    else if c = backslash then some ([], .doubleEscape w)
    else some ([], .double (w ++ [(c, true)]))
  | .doubleEscape w, c =>
    if c = newline then some ([], .double w)
    else if c ∈ [dollar, backquote, doubleQuote,
      backslash] then some ([], .double (w ++ [(c, true)]))
    else some ([], .double (w ++ [(backslash, true), (c, true)]))
  | .escape w, c =>
    if c = newline then some ([], w.elim .between .word)
      else some ([], .word (w.getD [] ++ [(c, true)]))
  | .op text, c =>
    -- the longest operator
    if text ++ [c] ∈ operators then some ([], .op (text ++ [c]))
    else (start none c).map fun r => (.op text :: r.1, r.2)

def feed : Mode → List UInt8 → Option (List Token × Mode)
  | m, [] => some ([], m)
  | m, c :: s => (step m c).bind fun r => (feed r.2 s).map fun r' => (r.1 ++ r'.1, r'.2)

/-- The end of the text; open quotes are not read. -/
def finish : Mode → Option (List Token)
  | .between => some []
  | .comment => some []
  | .word w => flush (some w)
  | .op text => some [.op text]
  | _ => none

/-- The words and operators of a whole text. -/
def read (s : List UInt8) : Option (List Token) :=
  (feed .between s).bind fun r => (finish r.2).map (r.1 ++ ·)

/-! ## Beginnings of a text -/

/-- From mode `m` on the text `s` is cut into `ts`, and the next character meets mode `m'`. -/
def Feeds (m : Mode) (s : List UInt8) (ts : List Token) (m' : Mode) :
    Prop := feed m s = some (ts, m')

instance (m : Mode) (s : List UInt8) (ts : List Token) (m' : Mode) :
    Decidable (Feeds m s ts m') := by
  unfold Feeds
  infer_instance

theorem Feeds.nil (m : Mode) : Feeds m [] [] m := rfl

theorem Feeds.cons {m m' m'' : Mode} {c : UInt8} {s : List UInt8} {ts ts' : List Token}
    (hc : step m c = some (ts, m')) (hs : Feeds m' s ts' m'') :
    Feeds m (c :: s) (ts ++ ts') m'' := by
  unfold Feeds at hs ⊢
  rw [feed, hc, Option.bind_some, hs, Option.map_some]

/-- A character that cuts nothing. -/
theorem Feeds.pass {m m' m'' : Mode} {c : UInt8} {s : List UInt8} {ts : List Token}
    (hc : step m c = some ([], m'))
    (hs : Feeds m' s ts m'') : Feeds m (c :: s) ts m'' :=
  .cons hc hs

theorem Feeds.one {m m' : Mode} {c : UInt8} {ts : List Token} (hc : step m c = some (ts, m')) :
    Feeds m [c] ts m' := by
  have hall := Feeds.cons hc (.nil m')
  rwa [List.append_nil] at hall

theorem Feeds.append {m m' m'' : Mode} {s t : List UInt8}
    {ts ts' : List Token} (hs : Feeds m s ts m')
    (ht : Feeds m' t ts' m'') : Feeds m (s ++ t) (ts ++ ts') m'' := by
  induction s generalizing m ts with
  | nil =>
    obtain ⟨rfl, rfl⟩ := Prod.mk.inj (Option.some.inj hs)
    exact ht
  | cons c s ih =>
    unfold Feeds at hs
    rw [feed] at hs
    obtain ⟨⟨ts₁, m₁⟩, hstep, hrest⟩ := Option.bind_eq_some_iff.mp hs
    obtain ⟨⟨ts₂, m₂⟩, hfeed, heq⟩ := Option.map_eq_some_iff.mp hrest
    obtain ⟨rfl, rfl⟩ := Prod.mk.inj heq
    rw [List.append_assoc]
    exact .cons hstep (ih hfeed)

theorem read_of_feeds {s : List UInt8} {ts ts' : List Token} {m : Mode} (hs : Feeds .between s ts m)
    (hm : finish m = some ts') : read s = some (ts ++ ts') := by
  unfold Feeds at hs
  unfold read
  rw [hs, Option.bind_some, hm, Option.map_some]

theorem start_blank (w : Option Word) : start w blank = (flush w).map fun ts => (ts, .between) := by
  unfold start
  rw [if_neg (by decide), if_neg (by decide), if_neg (by decide),
    if_neg (by decide), if_neg (by decide),
    if_pos (by decide)]

/-! ## Quoting -/

/-- A text that is quoted whole. -/
def quoted (s : List UInt8) : Word := s.map fun c => (c, true)

theorem flush_of_literal {w : Word} {s : List UInt8} (h : Literal w) (hs : w.map Prod.fst = s) :
    flush (some w) = some [.word s] := by
  show (if Literal w then some [Token.word (w.map Prod.fst)] else none) = _
  rw [if_pos h, hs]

theorem flush_quoted (s : List UInt8) : flush (some (quoted s)) = some [.word s] := by
  have hliteral : Literal (quoted s) := by
    intro x hx
    obtain ⟨c, -, rfl⟩ := List.mem_map.mp hx
    simp
  exact flush_of_literal hliteral (by simp [quoted, Function.comp_def])

/-- Single quotes around a text, with each of its own replaced by `'\\''`. -/
def quote (s : List UInt8) : List UInt8 :=
  singleQuote :: s.flatMap (fun c =>
    if c = singleQuote then [singleQuote, backslash, singleQuote, singleQuote] else [c]) ++
      [singleQuote]

theorem step_single_quote (w : Word) : step (.single w) singleQuote = some ([], .word w) := by
  simp [step]

theorem step_single_of_ne {c : UInt8} (h : c ≠ singleQuote) (w : Word) :
    step (.single w) c = some ([], .single (w ++ [(c, true)])) := by
  simp [step, h]

theorem step_escape {c : UInt8} (h : c ≠ newline) (w : Option Word) :
    step (.escape w) c = some ([], .word (w.getD [] ++ [(c, true)])) := by
  simp [step, h]

/-- Out of the quotes, an escaped quote, and into them again. -/
theorem feeds_escapedQuote (w : Word) :
    Feeds (.single w) [singleQuote, backslash, singleQuote,
      singleQuote] [] (.single (w ++ [(singleQuote, true)])) := by
  have hclose := step_single_quote w
  have hescape : step (.word w) backslash = some ([], .escape (some w)) := by
    show start (some w) backslash = _
    unfold start
    rw [if_neg (by decide), if_neg (by decide), if_pos rfl]
  have htaken := step_escape (show singleQuote ≠ newline by decide) (some w)
  have hopen : step (.word (w ++ [(singleQuote, true)])) singleQuote =
      some ([], .single (w ++ [(singleQuote, true)])) := by
    show start (some _) singleQuote = _
    unfold start
    rw [if_pos rfl]
    rfl
  exact .pass hclose (.pass hescape (.pass htaken (.one hopen)))

theorem feeds_single (s : List UInt8) : ∀ w : Word,
    Feeds (.single w) (s.flatMap (fun c =>
      if c = singleQuote then [singleQuote, backslash, singleQuote, singleQuote] else [c]) ++
    [singleQuote]) []
      (.word (w ++ quoted s)) := by
  induction s with
  | nil =>
    intro w
    rw [quoted, List.map_nil, List.append_nil]
    exact .one (step_single_quote w)
  | cons c s ih =>
    intro w
    have hrest := ih (w ++ [(c, true)])
    have hquoted : w ++ [(c, true)] ++ quoted s = w ++ quoted (c :: s) := by simp [quoted]
    rw [hquoted] at hrest
    have hc : Feeds (.single w)
        (if c = singleQuote then [singleQuote, backslash, singleQuote, singleQuote] else [c]) []
        (.single (w ++ [(c, true)])) := by
      split_ifs with hq
      · subst hq
        exact feeds_escapedQuote w
      · exact .one (step_single_of_ne hq w)
    rw [List.flatMap_cons, List.append_assoc]
    exact hc.append hrest

/-- A quoted text becomes a word. -/
theorem Feeds.quote (s : List UInt8) : Feeds .between (quote s) [] (.word (quoted s)) := by
  have hsingle := feeds_single s []
  rw [List.nil_append] at hsingle
  have hopen : step .between singleQuote = some ([], .single []) := rfl
  exact .pass hopen hsingle

/-- A quoted text with a blank behind it is a word of its own. -/
theorem Feeds.quote_blank (s : List UInt8) :
    Feeds .between (Shell.quote s ++ [blank]) [.word s] .between := by
  have hblank : Feeds (.word (quoted s)) [blank] [.word s] .between := by
    have hstep : step (.word (quoted s)) blank = some ([.word s], .between) := by
      rw [step, start_blank, flush_quoted, Option.map_some]
    exact .one hstep
  exact (Feeds.quote s).append hblank

theorem read_append_quote {s : List UInt8} {ts : List Token}
    (hs : Feeds .between s ts .between) (t : List UInt8) :
    read (s ++ quote t) = some (ts ++ [.word t]) := by
  have hall := hs.append (Feeds.quote t)
  rw [List.append_nil] at hall
  exact read_of_feeds hall (flush_quoted t)

/-! ## Plain text -/

/-- A character without a meaning of its own. -/
def isOrdinary (c : UInt8) : Bool :=
  c ∉ [singleQuote, doubleQuote, backslash, dollar, backquote, newline, hash, 42,
    63, 126, 91] && !isBlank c &&
    [c] ∉ operators

theorem start_of_isOrdinary {c : UInt8} (h : isOrdinary c = true) (w : Option Word) :
    start w c = some ([], .word (w.getD [] ++ [(c, false)])) := by
  unfold isOrdinary at h
  simp only [Bool.and_eq_true, decide_eq_true_eq, List.mem_cons, List.not_mem_nil, or_false, not_or,
    Bool.not_eq_true'] at h
  obtain ⟨⟨⟨h1, h2, h3, h4, h5, h6, h7, -⟩, hb⟩, hop⟩ := h
  unfold start
  rw [if_neg h1, if_neg h2, if_neg h3, if_neg (by simp [h4, h5]), if_neg h6,
    if_neg (by simp [hb]), if_neg hop,
    if_neg (by simp [h7])]

/-- An unquoted text. -/
def bare (s : List UInt8) : Word := s.map fun c => (c, false)

theorem feeds_word_of_isOrdinary {s : List UInt8} (h : ∀ c ∈ s, isOrdinary c = true) :
    ∀ w : Word, Feeds (.word w) s [] (.word (w ++ bare s)) := by
  induction s with
  | nil =>
    intro w
    simp [Feeds, feed, bare]
  | cons c s ih =>
    intro w
    have hrest := ih (fun d hd => h d (List.mem_cons_of_mem _ hd)) (w ++ [(c, false)])
    have hbare : w ++ [(c, false)] ++ bare s = w ++ bare (c :: s) := by simp [bare]
    rw [hbare] at hrest
    exact .pass (start_of_isOrdinary (h c List.mem_cons_self) (some w)) hrest

/-- Ordinary characters are one word. -/
theorem Feeds.ordinary {s : List UInt8} (hne : s ≠ []) (h : ∀ c ∈ s, isOrdinary c = true) :
    Feeds .between s [] (.word (bare s)) := by
  obtain ⟨c, s, rfl⟩ := List.exists_cons_of_ne_nil hne
  exact .pass (start_of_isOrdinary (h c List.mem_cons_self) none)
    (feeds_word_of_isOrdinary (fun d hd => h d (List.mem_cons_of_mem _ hd)) _)

/-! ## Words and the blanks between them -/

/-- A word that stands for itself, without quotes and with nothing to expand. -/
structure Bare (w : List UInt8) : Prop where
  feeds : Feeds .between w [] (.word (bare w))
  literal : Literal (bare w)
  no_blank : ∀ c ∈ w, isBlank c = false

theorem Bare.ne_nil {w : List UInt8} (h : Bare w) : w ≠ [] := by
  rintro rfl
  have hmode := (Prod.mk.inj (Option.some.inj h.feeds)).2
  simp at hmode

theorem Bare.ordinary {s : List UInt8} (hne : s ≠ []) (h : ∀ c ∈ s, isOrdinary c = true) :
    Bare s where
  feeds := .ordinary hne h
  literal := by
    intro x hx _
    obtain ⟨c, hc, rfl⟩ := List.mem_map.mp hx
    have hord := h c hc
    unfold isOrdinary at hord
    simp only [Bool.and_eq_true, decide_eq_true_eq, List.mem_cons, List.not_mem_nil,
      or_false, not_or] at hord
    obtain ⟨⟨⟨-, -, -, -, -, -, -, h42, h63, h126, h91⟩, -⟩, -⟩ := hord
    exact ⟨by simp [h42, h63, h126], fun h => absurd h h91⟩
  no_blank := by
    intro c hc
    have hord := h c hc
    unfold isOrdinary at hord
    simp only [Bool.and_eq_true, Bool.not_eq_true'] at hord
    exact hord.1.2

theorem start_of_isBlank {c : UInt8} (h : isBlank c = true) (w : Option Word) :
    start w c = (flush w).map fun ts => (ts, .between) := by
  unfold isBlank at h
  rcases Bool.or_eq_true_iff.mp h with hc | hc
  · rw [beq_iff_eq.mp hc, start_blank]
  · rw [beq_iff_eq.mp hc]
    unfold start
    rw [if_neg (by decide), if_neg (by decide), if_neg (by decide),
      if_neg (by decide), if_neg (by decide),
      if_pos (by decide)]

theorem Feeds.blanks {s : List UInt8} (h : ∀ c ∈ s, isBlank c = true) :
    Feeds .between s [] .between := by
  induction s with
  | nil => exact .nil _
  | cons c s ih =>
    have hc : step .between c = some ([], .between) :=
      start_of_isBlank (h c List.mem_cons_self) none
    exact .pass hc (ih fun d hd => h d (List.mem_cons_of_mem _ hd))

/-- A word with blanks behind it is a word of its own. -/
theorem Bare.feeds_blanks {w blanks : List UInt8} (h : Bare w) (hne : blanks ≠ [])
    (hblanks : ∀ c ∈ blanks, isBlank c = true) :
    Feeds .between (w ++ blanks) [.word w] .between := by
  obtain ⟨c, s, rfl⟩ := List.exists_cons_of_ne_nil hne
  have hflush := flush_of_literal h.literal (s := w) (by simp [bare, Function.comp_def])
  have hc : step (.word (bare w)) c = some ([.word w], .between) := by
    rw [step, start_of_isBlank (hblanks c List.mem_cons_self), hflush]
    rfl
  exact h.feeds.append (.cons hc (Feeds.blanks fun d hd => hblanks d (List.mem_cons_of_mem _ hd)))

end Shell
