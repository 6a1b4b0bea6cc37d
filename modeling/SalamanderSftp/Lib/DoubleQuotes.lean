import SalamanderSftp.Lib.Shell

/-!
# Text between double quotes

Some characters keep a meaning between double quotes. A text without them (`PlainInDouble`) stands
for itself there. The converse rests on two facts about what a shell makes of a text:

1. no character adds more than itself to the words and operators (`size_feed`), and quotes add
   nothing, so a text whose quotes are read in another way than they are meant comes out too short;
2. a word that is begun is a beginning of the word that is read (`exists_word_of_pending`).
-/

namespace Shell

/-- No character of the text has a meaning between double quotes, and the backslash at its end has
none for what follows it. -/
def PlainInDouble : List UInt8 → Prop
  | [] => True
  | c :: s =>
    c ∉ [doubleQuote, dollar, backquote] ∧
      (c = backslash → ∃ d ∈ s.head?, d ≠ backslash ∧ d ≠ newline) ∧
      PlainInDouble s

instance : DecidablePred PlainInDouble := by
  intro s
  induction s with
  | nil => exact .isTrue trivial
  | cons c s ih =>
    have : Decidable (∃ d ∈ s.head?, d ≠ backslash ∧ d ≠ newline) :=
      match s.head? with
      | none => .isFalse (by simp)
      | some d => decidable_of_iff (d ≠ backslash ∧ d ≠ newline) (by simp)
    exact inferInstanceAs (Decidable (_ ∧ _ ∧ _))

/-! ## Sizes -/

namespace Token

def text : Token → List UInt8
  | word t => t
  | op t => t

end Token

/-- The number of characters of some words and operators. -/
def tokensSize (ts : List Token) : ℕ := (ts.map fun t => t.text.length).sum

@[simp] theorem tokensSize_nil : tokensSize [] = 0 := rfl

@[simp] theorem tokensSize_cons (t : Token) (ts : List Token) :
    tokensSize (t :: ts) = t.text.length + tokensSize ts :=
  rfl

@[simp] theorem tokensSize_append (ts ts' : List Token) :
    tokensSize (ts ++ ts') = tokensSize ts + tokensSize ts' := by
  simp [tokensSize]

/-- The characters that a mode has gathered; a backslash counts, for itself or for what follows
it. -/
def Mode.size : Mode → ℕ
  | between => 0
  | comment => 0
  | word w => w.length
  | single w => w.length
  | double w => w.length
  | doubleEscape w => w.length + 1
  | escape w => (w.getD []).length + 1
  | op text => text.length

theorem tokensSize_of_flush {w : Option Word} {ts : List Token} (h : flush w = some ts) :
    tokensSize ts = (w.getD []).length := by
  unfold flush at h
  split at h
  · obtain rfl := Option.some.inj h
    rfl
  · split_ifs at h
    obtain rfl := Option.some.inj h
    simp [Token.text]

theorem size_start {w : Option Word} {c : UInt8} {r : List Token × Mode} (h : start w c = some r) :
    tokensSize r.1 + r.2.size ≤ (w.getD []).length + 1 := by
  unfold start at h
  split_ifs at h with h1 h2 h3 h4 h5 h6 h7 h8
  · obtain rfl := Option.some.inj h
    simp [Mode.size]
  · obtain rfl := Option.some.inj h
    simp [Mode.size]
  · obtain rfl := Option.some.inj h
    simp [Mode.size]
  · obtain ⟨ts, hts, rfl⟩ := Option.map_eq_some_iff.mp h
    simp [Mode.size, Token.text, tokensSize_of_flush hts]
  · obtain ⟨ts, hts, rfl⟩ := Option.map_eq_some_iff.mp h
    simp [Mode.size, tokensSize_of_flush hts]
  · obtain ⟨ts, hts, rfl⟩ := Option.map_eq_some_iff.mp h
    simp [Mode.size, tokensSize_of_flush hts]
  · obtain rfl := Option.some.inj h
    simp [Mode.size]
  · obtain rfl := Option.some.inj h
    simp [Mode.size]

/-- A character adds at most itself. -/
theorem size_step {m : Mode} {c : UInt8} {r : List Token × Mode} (h : step m c = some r) :
    tokensSize r.1 + r.2.size ≤ m.size + 1 := by
  cases m with
  | between => exact size_start h
  | word w => exact size_start h
  | comment =>
    rw [step] at h
    split_ifs at h <;> obtain rfl := Option.some.inj h <;> simp [Mode.size, Token.text]
  | single w =>
    rw [step] at h
    split_ifs at h <;> obtain rfl := Option.some.inj h <;> simp [Mode.size]
  | double w =>
    rw [step] at h
    split_ifs at h <;> obtain rfl := Option.some.inj h <;> simp [Mode.size]
  | doubleEscape w =>
    rw [step] at h
    split_ifs at h <;> obtain rfl := Option.some.inj h <;> simp [Mode.size]
    omega
  | escape w =>
    rw [step] at h
    split_ifs at h <;> obtain rfl := Option.some.inj h
    · cases w <;> simp [Mode.size]
      omega
    · simp [Mode.size]
  | op text =>
    rw [step] at h
    split_ifs at h
    · obtain rfl := Option.some.inj h
      simp [Mode.size]
    · obtain ⟨r', hr', rfl⟩ := Option.map_eq_some_iff.mp h
      have := size_start hr'
      simp [Mode.size, Token.text] at this ⊢
      omega

theorem feed_cons_eq_some {m m' : Mode} {c : UInt8} {s : List UInt8} {ts : List Token}
    (h : feed m (c :: s) = some (ts, m')) :
    ∃ r ts', step m c = some r ∧ feed r.2 s = some (ts', m') ∧ ts = r.1 ++ ts' := by
  rw [feed] at h
  obtain ⟨r, hr, h⟩ := Option.bind_eq_some_iff.mp h
  obtain ⟨⟨ts', m''⟩, hfeed, heq⟩ := Option.map_eq_some_iff.mp h
  obtain ⟨rfl, rfl⟩ := Prod.mk.inj heq
  exact ⟨r, ts', hr, hfeed, rfl⟩

theorem feed_append_eq_some {s t : List UInt8} : ∀ {m m' : Mode} {ts : List Token},
    feed m (s ++ t) = some (ts, m') →
      ∃ ts₁ m₁ ts₂, feed m s = some (ts₁, m₁) ∧ feed m₁ t = some (ts₂, m') ∧ ts = ts₁ ++ ts₂ := by
  induction s with
  | nil =>
    intro m m' ts h
    exact ⟨[], m, ts, rfl, h, rfl⟩
  | cons c s ih =>
    intro m m' ts h
    obtain ⟨r, ts', hr, hfeed, rfl⟩ := feed_cons_eq_some h
    obtain ⟨ts₁, m₁, ts₂, h₁, h₂, rfl⟩ := ih hfeed
    refine ⟨r.1 ++ ts₁, m₁, ts₂, ?_, h₂, (List.append_assoc _ _ _).symm⟩
    exact Feeds.cons hr h₁

theorem size_feed {s : List UInt8} : ∀ {m m' : Mode} {ts : List Token}, feed m s = some (ts, m') →
    tokensSize ts + m'.size ≤ m.size + s.length := by
  induction s with
  | nil =>
    intro m m' ts h
    obtain ⟨rfl, rfl⟩ := Prod.mk.inj (Option.some.inj h)
    simp
  | cons c s ih =>
    intro m m' ts h
    obtain ⟨r, ts', hr, hfeed, rfl⟩ := feed_cons_eq_some h
    have hstep := size_step hr
    have hrest := ih hfeed
    rw [tokensSize_append, List.length_cons]
    omega

theorem size_finish {m : Mode} {ts : List Token} (h : finish m = some ts) :
    tokensSize ts ≤ m.size := by
  unfold finish at h
  split at h
  · obtain rfl := Option.some.inj h
    simp
  · obtain rfl := Option.some.inj h
    simp
  · rw [tokensSize_of_flush h]
    simp [Mode.size]
  · obtain rfl := Option.some.inj h
    simp [Mode.size, Token.text]
  · cases h

/-! ## Words that are begun -/

/-- The word that a mode is within. -/
def Mode.pending : Mode → Option Word
  | word w => some w
  | single w => some w
  | double w => some w
  | doubleEscape w => some w
  | escape w => w
  | _ => none

theorem start_pending {w : Word} {c : UInt8} {r : List Token × Mode}
    (h : start (some w) c = some r) :
    (r.1 = [] ∧ ∃ w', r.2.pending = some (w ++ w')) ∨ ∃ ts, r.1 = .word (w.map Prod.fst) :: ts := by
  have hflush : ∀ ts, flush (some w) = some ts → ts = [.word (w.map Prod.fst)] := by
    intro ts hts
    unfold flush at hts
    simp only at hts
    split_ifs at hts
    exact (Option.some.inj hts).symm
  unfold start at h
  split_ifs at h with h1 h2 h3 h4 h5 h6 h7 h8
  · obtain rfl := Option.some.inj h
    exact Or.inl ⟨rfl, [], by simp [Mode.pending]⟩
  · obtain rfl := Option.some.inj h
    exact Or.inl ⟨rfl, [], by simp [Mode.pending]⟩
  · obtain rfl := Option.some.inj h
    exact Or.inl ⟨rfl, [], by simp [Mode.pending]⟩
  · obtain ⟨ts, hts, rfl⟩ := Option.map_eq_some_iff.mp h
    exact Or.inr ⟨_, by rw [hflush ts hts]; rfl⟩
  · obtain ⟨ts, hts, rfl⟩ := Option.map_eq_some_iff.mp h
    exact Or.inr ⟨[], hflush ts hts⟩
  · obtain ⟨ts, hts, rfl⟩ := Option.map_eq_some_iff.mp h
    exact Or.inr ⟨[], hflush ts hts⟩
  · exact absurd h8.2 (by simp)
  · obtain rfl := Option.some.inj h
    exact Or.inl ⟨rfl, _, rfl⟩

/-- The word goes on or ends. -/
theorem step_pending {m : Mode} {w : Word} (hm : m.pending = some w)
    {c : UInt8} {r : List Token × Mode}
    (h : step m c = some r) :
    (r.1 = [] ∧ ∃ w', r.2.pending = some (w ++ w')) ∨ ∃ ts, r.1 = .word (w.map Prod.fst) :: ts := by
  cases m with
  | between => cases hm
  | comment => cases hm
  | op text => cases hm
  | word v =>
    obtain rfl := Option.some.inj hm
    exact start_pending h
  | single v =>
    obtain rfl := Option.some.inj hm
    rw [step] at h
    split_ifs at h <;> obtain rfl := Option.some.inj h
    · exact Or.inl ⟨rfl, [], by simp [Mode.pending]⟩
    · exact Or.inl ⟨rfl, _, rfl⟩
  | double v =>
    obtain rfl := Option.some.inj hm
    rw [step] at h
    split_ifs at h <;> obtain rfl := Option.some.inj h
    · exact Or.inl ⟨rfl, [], by simp [Mode.pending]⟩
    · exact Or.inl ⟨rfl, [], by simp [Mode.pending]⟩
    · exact Or.inl ⟨rfl, _, rfl⟩
  | doubleEscape v =>
    obtain rfl := Option.some.inj hm
    rw [step] at h
    split_ifs at h <;> obtain rfl := Option.some.inj h
    · exact Or.inl ⟨rfl, [], by simp [Mode.pending]⟩
    · exact Or.inl ⟨rfl, _, rfl⟩
    · exact Or.inl ⟨rfl, _, rfl⟩
  | escape v =>
    obtain rfl : v = some w := hm
    rw [step] at h
    split_ifs at h <;> obtain rfl := Option.some.inj h
    · exact Or.inl ⟨rfl, [], by simp [Mode.pending]⟩
    · exact Or.inl ⟨rfl, _, rfl⟩

/-- A word that is begun is a beginning of the first word that is read. -/
theorem exists_word_of_pending {s : List UInt8} : ∀ {m m' : Mode} {w : Word} {ts ts' : List Token},
    m.pending = some w → feed m s = some (ts, m') → finish m' = some ts' →
      ∃ v rest, ts ++ ts' = .word (w.map Prod.fst ++ v) :: rest := by
  induction s with
  | nil =>
    intro m m' w ts ts' hm h hend
    obtain ⟨rfl, rfl⟩ := Prod.mk.inj (Option.some.inj h)
    cases m with
    | word v =>
      obtain rfl := Option.some.inj hm
      unfold finish flush at hend
      simp only at hend
      split_ifs at hend
      obtain rfl := Option.some.inj hend
      exact ⟨[], [], by simp⟩
    | between => cases hm
    | comment => cases hm
    | op text => cases hm
    | single v => cases hend
    | double v => cases hend
    | doubleEscape v => cases hend
    | escape v => cases hend
  | cons c s ih =>
    intro m m' w ts ts' hm h hend
    obtain ⟨r, ts₂, hr, hfeed, rfl⟩ := feed_cons_eq_some h
    rcases step_pending hm hr with ⟨hnil, w', hw'⟩ | ⟨ts₁, hts₁⟩
    · obtain ⟨v, rest, hword⟩ := ih hw' hfeed hend
      rw [hnil, List.nil_append, hword, List.map_append, List.append_assoc]
      exact ⟨_, _, rfl⟩
    · rw [hts₁]
      exact ⟨[], ts₁ ++ ts₂ ++ ts', by simp⟩

/-! ## Plain text -/

theorem step_double_of_ne {c : UInt8} (h : c ∉ [doubleQuote, dollar, backquote])
    (hb : c ≠ backslash) (w : Word) :
    step (.double w) c = some ([], .double (w ++ [(c, true)])) := by
  simp only [List.mem_cons, List.not_mem_nil, or_false, not_or] at h
  rw [step, if_neg h.1, if_neg (by simp [h.2]), if_neg hb]

theorem step_double_backslash (w : Word) :
    step (.double w) backslash = some ([], .doubleEscape w) := by
  rw [step, if_neg (by decide), if_neg (by decide), if_pos rfl]

theorem step_doubleEscape_of_ne {c : UInt8}
    (h : c ∉ [dollar, backquote, doubleQuote, backslash]) (hn : c ≠ newline)
    (w : Word) :
    step (.doubleEscape w) c = some ([], .double (w ++ [(backslash, true), (c, true)])) := by
  rw [step, if_neg hn, if_neg h]

/-- What becomes of a text between double quotes, up to its end: it stands for itself, or it ends in
a backslash that is left open, or it comes out too short. -/
inductive DoubleOutcome (w : Word) (s : List UInt8) : List Token → Mode → Prop
  | plain (h : PlainInDouble s) : DoubleOutcome w s [] (.double (w ++ quoted s))
  | open_ (t : List UInt8) (h : s = t ++ [backslash]) : DoubleOutcome w s []
      (.doubleEscape (w ++ quoted t))
  | short (ts : List Token) (m : Mode)
      (h : tokensSize ts + m.size < w.length + s.length) : DoubleOutcome w s ts m

theorem DoubleOutcome.cons {w : Word} {c : UInt8} {s : List UInt8} {ts : List Token} {m : Mode}
    (hc : c ∉ [doubleQuote, dollar, backquote]) (hb : c ≠ backslash)
    (h : DoubleOutcome (w ++ [(c, true)]) s ts m) :
    DoubleOutcome w (c :: s) ts m := by
  cases h with
  | plain h =>
    have hword : w ++ [(c, true)] ++ quoted s = w ++ quoted (c :: s) := by simp [quoted]
    rw [hword]
    exact .plain ⟨hc, fun heq => absurd heq hb, h⟩
  | open_ t h =>
    have hword : w ++ [(c, true)] ++ quoted t = w ++ quoted (c :: t) := by simp [quoted]
    rw [hword]
    exact .open_ (c :: t) (by rw [h]; rfl)
  | short ts m h =>
    refine .short ts m ?_
    rw [List.length_append] at h
    simp only [List.length_cons, List.length_nil] at h ⊢
    omega

/-- A backslash before an ordinary byte stands for itself. -/
theorem DoubleOutcome.cons_backslash {w : Word} {c : UInt8} {s : List UInt8} {ts : List Token}
    {m : Mode} (hb : c ≠ backslash) (hn : c ≠ newline)
    (h : DoubleOutcome (w ++ [(backslash, true)]) (c :: s) ts m) :
    DoubleOutcome w (backslash :: c :: s) ts m := by
  cases h with
  | plain hs =>
    have hword : w ++ [(backslash, true)] ++ quoted (c :: s) =
        w ++ quoted (backslash :: c :: s) := by
      simp [quoted]
    rw [hword]
    exact .plain ⟨by decide, fun _ => ⟨c, rfl, hb, hn⟩, hs⟩
  | open_ t hs =>
    have hword : w ++ [(backslash, true)] ++ quoted t = w ++ quoted (backslash :: t) := by
      simp [quoted]
    rw [hword]
    exact .open_ (backslash :: t) (by rw [hs]; rfl)
  | short _ _ hs =>
    refine .short _ _ ?_
    rw [List.length_append] at hs
    simp only [List.length_cons, List.length_nil] at hs ⊢
    omega

section Feed

variable {s : List UInt8} {c : UInt8} {w : Word} {ts : List Token} {m : Mode}

/-- The first byte between double quotes, where what follows is known for either mode. -/
theorem feed_double_cons
    (ihDouble : ∀ {w ts m}, feed (.double w) s = some (ts, m) → DoubleOutcome w s ts m)
    (ihEscape : ∀ {w ts m}, feed (.doubleEscape w) s = some (ts, m) →
      DoubleOutcome w (backslash :: s) ts m)
    (h : feed (.double w) (c :: s) = some (ts, m)) : DoubleOutcome w (c :: s) ts m := by
  obtain ⟨r, ts', hr, hfeed, rfl⟩ := feed_cons_eq_some h
  by_cases hb : c = backslash
  · rw [hb, step_double_backslash] at hr
    obtain rfl := Option.some.inj hr
    rw [hb]
    exact ihEscape hfeed
  by_cases hc : c ∈ [doubleQuote, dollar, backquote]
  · -- only a quote is read, and it adds nothing
    have hsize := size_feed hfeed
    simp only [List.mem_cons, List.not_mem_nil, or_false] at hc
    rw [step] at hr
    rcases hc with rfl | hc
    · rw [if_pos rfl] at hr
      obtain rfl := Option.some.inj hr
      refine .short _ _ ?_
      simp only [Mode.size, List.nil_append, List.length_cons] at hsize ⊢
      omega
    · rw [if_neg (by rcases hc with rfl | rfl <;> decide), if_pos hc] at hr
      cases hr
  · rw [step_double_of_ne hc hb] at hr
    obtain rfl := Option.some.inj hr
    exact .cons hc hb (ihDouble hfeed)

/-- The first byte behind a backslash there. -/
theorem feed_doubleEscape_cons
    (ihDouble : ∀ {w ts m}, feed (.double w) s = some (ts, m) → DoubleOutcome w s ts m)
    (h : feed (.doubleEscape w) (c :: s) = some (ts, m)) :
    DoubleOutcome w (backslash :: c :: s) ts m := by
  obtain ⟨r, ts', hr, hfeed, rfl⟩ := feed_cons_eq_some h
  by_cases hn : c = newline
  · rw [step, if_pos hn] at hr
    obtain rfl := Option.some.inj hr
    have hsize := size_feed hfeed
    refine .short _ _ ?_
    simp only [Mode.size, List.nil_append, List.length_cons] at hsize ⊢
    omega
  by_cases hc : c ∈ [dollar, backquote, doubleQuote, backslash]
  · rw [step, if_neg hn, if_pos hc] at hr
    obtain rfl := Option.some.inj hr
    have hsize := size_feed hfeed
    refine .short _ _ ?_
    simp only [Mode.size, List.nil_append, List.length_cons, List.length_append,
      List.length_nil] at hsize ⊢
    omega
  · rw [step_doubleEscape_of_ne hc hn] at hr
    obtain rfl := Option.some.inj hr
    simp only [List.mem_cons, List.not_mem_nil, or_false, not_or] at hc
    have hplain : c ∉ [doubleQuote, dollar, backquote] := by simp [hc]
    have hrest : DoubleOutcome (w ++ [(backslash, true)] ++ [(c, true)]) s ts' m := by
      simpa using ihDouble hfeed
    rw [List.nil_append]
    exact (hrest.cons hplain hc.2.2.2).cons_backslash hc.2.2.2 hn

end Feed

/-- Between double quotes, and behind a backslash there. -/
theorem feed_double (s : List UInt8) :
    (∀ {w : Word} {ts : List Token} {m : Mode}, feed (.double w) s = some (ts, m) →
      DoubleOutcome w s ts m) ∧
    ∀ {w : Word} {ts : List Token} {m : Mode}, feed (.doubleEscape w) s = some (ts, m) →
      DoubleOutcome w (backslash :: s) ts m := by
  induction s with
  | nil =>
    constructor
    · intro w ts m h
      obtain ⟨rfl, rfl⟩ := Prod.mk.inj (Option.some.inj h)
      have hplain := DoubleOutcome.plain (w := w) (s := []) trivial
      rwa [quoted, List.map_nil, List.append_nil] at hplain
    · intro w ts m h
      obtain ⟨rfl, rfl⟩ := Prod.mk.inj (Option.some.inj h)
      simpa [quoted] using DoubleOutcome.open_ (w := w) (s := [backslash]) [] rfl
  | cons c s ih =>
    obtain ⟨ihDouble, ihEscape⟩ := ih
    exact ⟨feed_double_cons ihDouble ihEscape, feed_doubleEscape_cons ihDouble⟩

/-- Plain text stands for itself, also behind a backslash that belongs to it. -/
theorem feeds_double (s : List UInt8) :
    (PlainInDouble s → ∀ w : Word, Feeds (.double w) s [] (.double (w ++ quoted s))) ∧
    (PlainInDouble (backslash :: s) → ∀ w : Word,
      Feeds (.doubleEscape w) s [] (.double (w ++ quoted (backslash :: s)))) := by
  induction s with
  | nil =>
    constructor
    · intro _ w
      simp [Feeds, feed, quoted]
    · intro h
      obtain ⟨d, hd, -⟩ := h.2.1 rfl
      cases hd
  | cons c s ih =>
    constructor
    · intro h w
      by_cases hb : c = backslash
      · rw [hb] at h ⊢
        exact .pass (step_double_backslash w) (ih.2 h w)
      · have hword : w ++ [(c, true)] ++ quoted s = w ++ quoted (c :: s) := by simp [quoted]
        have hrest := ih.1 h.2.2 (w ++ [(c, true)])
        rw [hword] at hrest
        exact .pass (step_double_of_ne h.1 hb w) hrest
    · intro h w
      obtain ⟨d, hd, hb, hn⟩ := h.2.1 rfl
      obtain rfl : c = d := Option.some.inj hd
      have hc := h.2.2.1
      simp only [List.mem_cons, List.not_mem_nil, or_false, not_or] at hc
      have hword : w ++ [(backslash, true),
          (c, true)] ++ quoted s = w ++ quoted (backslash :: c :: s) := by
        simp [quoted]
      have hrest := ih.1 h.2.2.2.2 (w ++ [(backslash, true), (c, true)])
      rw [hword] at hrest
      exact .pass (step_doubleEscape_of_ne (by simp [hc, hb]) hn w) hrest

theorem Feeds.double {s : List UInt8} (h : PlainInDouble s) (w : Word) :
    Feeds (.double w) s [] (.double (w ++ quoted s)) :=
  (feeds_double s).1 h w

/-! ## Reading back -/

theorem read_eq_some {s : List UInt8} {toks : List Token} (h : read s = some toks) :
    ∃ ts m ts', feed .between s = some (ts, m) ∧ finish m = some ts' ∧ ts ++ ts' = toks := by
  unfold read at h
  obtain ⟨⟨ts, m⟩, hfeed, h⟩ := Option.bind_eq_some_iff.mp h
  obtain ⟨ts', hend, rfl⟩ := Option.map_eq_some_iff.mp h
  exact ⟨ts, m, ts', hfeed, hend, rfl⟩

/-- The word that is begun and what can follow are too short for the words that are read. -/
theorem not_pending_of_size {m m' : Mode} {w : Word} {s t : List UInt8} {ts ts' more : List Token}
    (hm : m.pending = some w) (hsize : m.size ≤ w.length) (hfeed : feed m s = some (ts, m'))
    (hend : finish m' = some ts') (hall : ts ++ ts' = .word t :: more) :
    tokensSize more ≤ s.length := by
  obtain ⟨v, rest, hword⟩ := exists_word_of_pending hm hfeed hend
  have hlen : w.length ≤ t.length := by
    rw [hall] at hword
    have hv := Token.word.inj (List.cons.inj hword).1
    have := congrArg List.length hv
    rw [List.length_append, List.length_map] at this
    omega
  have htotal := congrArg tokensSize hall
  have hfeed' := size_feed hfeed
  have hend' := size_finish hend
  rw [tokensSize_append, tokensSize_cons] at htotal
  simp only [Token.text] at htotal
  omega

/-- A text before the last double quote that makes a word of its own length with what stands before
it. -/
theorem plainInDouble_of_read_last {s t : List UInt8} {w : Word}
    {m m' : Mode} {ts ts₂ ts' : List Token}
    (hfeed : feed (.double w) s = some (ts, m)) (hquote : feed m [doubleQuote] = some (ts₂, m'))
    (hend : finish m' = some ts') (hall : ts ++ ts₂ ++ ts' = [.word t])
    (hlen : w.length + s.length ≤ t.length) :
    PlainInDouble s := by
  have hsize : tokensSize ts + tokensSize ts₂ + tokensSize ts' = t.length := by
    have := congrArg tokensSize hall
    simpa [Token.text, Nat.add_assoc] using this
  have hfinish := size_finish hend
  cases (feed_double s).1 hfeed with
  | plain h => exact h
  | open_ u h =>
    obtain ⟨rfl, rfl⟩ := Prod.mk.inj (Option.some.inj hquote)
    cases hend
  | short _ _ h =>
    exfalso
    cases m with
    | between =>
      obtain ⟨rfl, rfl⟩ := Prod.mk.inj (Option.some.inj hquote)
      cases hend
    | comment =>
      obtain ⟨rfl, rfl⟩ := Prod.mk.inj (Option.some.inj hquote)
      simp only [Mode.size, List.append_nil, tokensSize_nil] at hsize hfinish h
      omega
    | word v =>
      obtain ⟨rfl, rfl⟩ := Prod.mk.inj (Option.some.inj hquote)
      cases hend
    | single v =>
      obtain ⟨rfl, rfl⟩ := Prod.mk.inj (Option.some.inj hquote)
      cases hend
    | double v =>
      obtain ⟨rfl, rfl⟩ := Prod.mk.inj (Option.some.inj hquote)
      simp only [Mode.size, List.append_nil, tokensSize_nil] at hsize hfinish h
      omega
    | doubleEscape v =>
      obtain ⟨rfl, rfl⟩ := Prod.mk.inj (Option.some.inj hquote)
      cases hend
    | escape v =>
      obtain ⟨rfl, rfl⟩ := Prod.mk.inj (Option.some.inj hquote)
      simp only [Mode.size, List.append_nil, tokensSize_nil, List.length_append,
        List.length_cons, List.length_nil]
        at hsize hfinish h
      omega
    | op v =>
      have hop : step (.op v) doubleQuote = some ([.op v], .double []) := by
        rw [step, if_neg]
        · rfl
        · intro hmem
          have hlast : ∀ o ∈ operators, o.getLast? ≠ some doubleQuote := by decide
          exact hlast _ hmem (by simp)
      rw [feed, hop] at hquote
      obtain ⟨rfl, rfl⟩ := Prod.mk.inj (Option.some.inj hquote)
      cases hend

end Shell
