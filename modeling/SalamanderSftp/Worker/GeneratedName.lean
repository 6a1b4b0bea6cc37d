import SalamanderSftp.PathLaws

/-!
# The name that the conflict dialog proposes

`GenerateAlternateName` puts a number before the extension of the target name, or counts on from the
number that is there. It takes what `atoi` makes of the text in the last parentheses.

1. A number in parentheses is found exactly at the end of the name (`nextCounter_parenthesised`,
   `nextCounter_plain`).
2. The proposed name always fits the buffer, so there are two kinds of it (`generated_cases`).
3. The name is as it should be exactly when `atoi` reads nothing else than a number that can be
   counted on (`nextName_iff`).
-/

namespace SalamanderSftp

/-! ## The name -/

/-- The name before and from its last dot on, unless that is its first character. -/
def splitExtension (name : CStr) : CStr × CStr :=
  match splitLast (· == 46) name with
  | some (base, after) => if base ≠ [] then (base, 46 :: after) else (name, [])
  | none => (name, [])

/-- `"%s (%s)"`. -/
def parenthesised (base text : CStr) : CStr := base ++ ascii " (" ++ text ++ ascii ")"

/-- The base without the number that it ends with, and the next number, which is an `int`. -/
def nextCounter (base : CStr) : CStr × ℤ :=
  match splitLast (· == 40) base with
  | some (before, rest) =>
    -- the first ')' behind the last '(' ends the name
    if before.getLast? = some 32 ∧ rest.findIdx? (· == 41) = some (rest.length - 1) then
      let num := atoi rest
      if 0 < num then (before.dropLast, (num + 1).bmod (2 ^ 32)) else (base, 1)
    else (base, 1)
  | none => (base, 1)

/-- `GenerateAlternateName` with a buffer of `maxLen` bytes. -/
def generateAlternateName (TgtName : CStr) (maxLen : ℕ) : CStr :=
  let (base, ext) := splitExtension TgtName
  let (base, counter) := nextCounter (lstrcpyn base MAX_PATH)
  lstrcpyn (parenthesised base (decimalInt counter) ++ lstrcpyn ext MAX_PATH) maxLen

/-! ## Extensions -/

section Extension

variable {name base after : CStr}

theorem splitExtension_append (hbase : base ≠ []) (hafter : (46 : Byte) ∉ after) :
    splitExtension (base ++ 46 :: after) = (base, 46 :: after) := by
  have hfree : ∀ d ∈ after, (d == (46 : Byte)) = false := by
    intro d hd
    rw [beq_eq_false_iff_ne]
    rintro rfl
    exact hafter hd
  unfold splitExtension
  rw [splitLast_append (p := (· == 46)) (by rfl) base hfree]
  exact if_pos hbase

/-- There is no extension without a dot behind the first character. -/
theorem splitExtension_plain (h : (46 : Byte) ∉ name.tail) : splitExtension name = (name, []) := by
  unfold splitExtension
  rcases hsplit : splitLast (· == 46) name with _ | ⟨base, after⟩
  · rfl
  · obtain ⟨c, rfl, hc⟩ := eq_of_splitLast hsplit
    obtain rfl := beq_iff_eq.mp hc
    refine if_neg fun hbase => h ?_
    rw [List.tail_append_of_ne_nil hbase]
    exact List.mem_append_right _ List.mem_cons_self

theorem splitExtension_cases (name : CStr) :
    (∃ base after, base ≠ [] ∧ (46 : Byte) ∉ after ∧ name = base ++ 46 :: after) ∨
    (46 : Byte) ∉ name.tail := by
  by_cases h : (46 : Byte) ∈ name.tail
  · left
    obtain ⟨before, c, after, hsplit, hc, hafter⟩ := exists_last (p := (· == 46)) ⟨46, h, by rfl⟩
    obtain rfl := beq_iff_eq.mp hc
    obtain ⟨first, rest, rfl⟩ :=
      List.exists_cons_of_ne_nil (List.ne_nil_of_mem (List.mem_of_mem_tail h))
    refine ⟨first :: before, after, List.cons_ne_nil _ _, ?_, congrArg (first :: ·) hsplit⟩
    intro hmem
    exact absurd (hafter _ hmem) (by decide)
  · exact .inr h

theorem splitExtension_text (name : CStr) :
    (splitExtension name).1 ++ (splitExtension name).2 = name := by
  rcases splitExtension_cases name with ⟨base, after, hbase, hafter, rfl⟩ | h
  · rw [splitExtension_append hbase hafter]
  · rw [splitExtension_plain h, List.append_nil]

/-- Another base with a text that has no dot keeps the extension. -/
theorem extension_insert {stem text : CStr} (hstem : stem <+: (splitExtension name).1)
    (htext : (46 : Byte) ∉ text)
    (hne : text ≠ []) :
    (splitExtension (stem ++ text ++ (splitExtension name).2)).2 = (splitExtension name).2 := by
  rcases splitExtension_cases name with ⟨base, after, hbase, hafter, rfl⟩ | h
  · rw [splitExtension_append hbase hafter,
      splitExtension_append (List.append_ne_nil_of_right_ne_nil _ hne) hafter]
  · rw [splitExtension_plain h] at hstem ⊢
    have hnone : (46 : Byte) ∉ (stem ++ text).tail := by
      intro hmem
      rcases stem with _ | ⟨c, stem⟩
      · exact htext (List.mem_of_mem_tail hmem)
      · obtain ⟨rest, rfl⟩ := hstem
        rcases List.mem_append.mp hmem with hmem | hmem
        · exact h (List.mem_append_left _ hmem)
        · exact htext hmem
    rw [List.append_nil, splitExtension_plain hnone]

end Extension

/-! ## Numbers -/

theorem digitsValue_lt (s : CStr) : digitsValue s < 10 ^ s.length := by
  have hread : ∀ (t : CStr) (n : ℕ), (∀ c ∈ t, isDigit c = true) →
      t.foldl (fun n c => 10 * n + (c.toNat - 48)) n < (n + 1) * 10 ^ t.length := by
    intro t
    induction t with
    | nil =>
      intro n _
      simp
    | cons c t ih =>
      intro n h
      have hc := h c List.mem_cons_self
      unfold isDigit at hc
      rw [decide_eq_true_iff, UInt8.le_iff_toNat_le, UInt8.le_iff_toNat_le] at hc
      have h57 : (57 : UInt8).toNat = 57 := rfl
      have hstep : 10 * n + (c.toNat - 48) + 1 ≤ (n + 1) * 10 := by omega
      rw [List.foldl_cons, List.length_cons, Nat.pow_succ']
      calc _ < (10 * n + (c.toNat - 48) + 1) * 10 ^ t.length :=
            ih _ fun d hd => h d (List.mem_cons_of_mem _ hd)
        _ ≤ (n + 1) * 10 * 10 ^ t.length := Nat.mul_le_mul_right _ hstep
        _ = _ := Nat.mul_assoc _ _ _
  have hlen : (s.takeWhile isDigit).length ≤ s.length := (List.takeWhile_prefix _).length_le
  have hlt := hread (s.takeWhile isDigit) 0 fun c hc => List.mem_takeWhile_imp hc
  rw [Nat.zero_add, Nat.one_mul] at hlt
  exact hlt.trans_le (Nat.pow_le_pow_right (by decide) hlen)

theorem isDigit_plain {c : Byte} (hc : isDigit c = true) : isSpace c = false ∧ c ≠ 45 ∧ c ≠ 43 := by
  refine ⟨?_, ?_, ?_⟩
  · unfold isDigit at hc
    unfold isSpace
    rw [decide_eq_true_iff, UInt8.le_iff_toNat_le, UInt8.le_iff_toNat_le] at hc
    have h48 : (48 : UInt8).toNat = 48 := rfl
    have h13 : (13 : UInt8).toNat = 13 := rfl
    rw [Bool.or_eq_false_iff, decide_eq_false_iff_not, beq_eq_false_iff_ne]
    refine ⟨?_, fun hle => ?_⟩
    · rintro rfl
      exact absurd hc.1 (by decide)
    · have := UInt8.le_iff_toNat_le.mp hle.2
      omega
  · rintro rfl
    exact absurd hc (by decide)
  · rintro rfl
    exact absurd hc (by decide)

/-- The number behind the blanks of a text. -/
def signedValue : CStr → ℤ
  | 45 :: t => max (-(digitsValue t : ℤ)) (-2 ^ 31)
  | 43 :: t => min (digitsValue t : ℤ) (2 ^ 31 - 1)
  | t => min (digitsValue t : ℤ) (2 ^ 31 - 1)

theorem atoi_eq (s : CStr) : atoi s = signedValue (s.dropWhile isSpace) := rfl

theorem signedValue_minus (t : CStr) :
    signedValue (45 :: t) = max (-(digitsValue t : ℤ)) (-2 ^ 31) := rfl

theorem signedValue_plus (t : CStr) :
    signedValue (43 :: t) = min (digitsValue t : ℤ) (2 ^ 31 - 1) := rfl

theorem signedValue_of_ne {c : Byte} (hminus : c ≠ 45) (hplus : c ≠ 43) (t : CStr) :
    signedValue (c :: t) = min (digitsValue (c :: t) : ℤ) (2 ^ 31 - 1) := by
  unfold signedValue
  split
  · next t' heq => exact absurd (List.cons.inj heq).1 hminus
  · next t' heq => exact absurd (List.cons.inj heq).1 hplus
  · rfl

theorem digitsValue_append {c : Byte} (hc : isDigit c = false) (s t : CStr) :
    digitsValue (s ++ c :: t) = digitsValue s := by
  have htake : (s ++ c :: t).takeWhile isDigit = s.takeWhile isDigit := by
    rw [List.takeWhile_append, List.takeWhile_cons_of_neg (by simp [hc]), List.append_nil]
    split_ifs with hlen
    · exact ((List.takeWhile_prefix _).eq_of_length hlen).symm
    · rfl
  unfold digitsValue
  rw [htake]

theorem atoi_append {c : Byte} (hdigit : isDigit c = false)
    (hspace : isSpace c = false) (hminus : c ≠ 45)
    (hplus : c ≠ 43) (s t : CStr) : atoi (s ++ c :: t) = atoi s := by
  rw [atoi_eq, atoi_eq, List.dropWhile_append, List.dropWhile_cons_of_neg (by simp [hspace])]
  rcases s.dropWhile isSpace with _ | ⟨d, rest⟩
  · rw [List.isEmpty_nil, if_pos rfl, signedValue_of_ne hminus hplus]
    have hzero := digitsValue_append hdigit [] t
    rw [List.nil_append] at hzero
    rw [hzero]
    rfl
  · rw [List.isEmpty_cons, if_neg Bool.false_ne_true, List.cons_append]
    by_cases hd : d = 45
    · subst hd
      rw [signedValue_minus, signedValue_minus, digitsValue_append hdigit]
    by_cases hd' : d = 43
    · subst hd'
      rw [signedValue_plus, signedValue_plus, digitsValue_append hdigit]
    rw [signedValue_of_ne hd hd', signedValue_of_ne hd hd', ← List.cons_append,
      digitsValue_append hdigit]

theorem atoi_digits {digits : CStr} (h : ∀ c ∈ digits, isDigit c = true) :
    atoi digits = min (digitsValue digits : ℤ) (2 ^ 31 - 1) := by
  rw [atoi_eq]
  rcases digits with _ | ⟨c, digits⟩
  · rfl
  · obtain ⟨hspace, hminus, hplus⟩ := isDigit_plain (h c List.mem_cons_self)
    rw [List.dropWhile_cons_of_neg (by simp [hspace]), signedValue_of_ne hminus hplus]

/-- A positive number is read from digits of the text. -/
theorem exists_digitsValue {text : CStr} (h : 0 < atoi text) :
    ∃ t, t.length ≤ text.length ∧ atoi text = min (digitsValue t : ℤ) (2 ^ 31 - 1) := by
  have hlen : (text.dropWhile isSpace).length ≤ text.length := (List.dropWhile_suffix _).length_le
  rw [atoi_eq] at h ⊢
  generalize text.dropWhile isSpace = s at h hlen ⊢
  rcases s with _ | ⟨d, rest⟩
  · exact ⟨[], hlen, rfl⟩
  by_cases hd : d = 45
  · subst hd
    rw [signedValue_minus] at h
    omega
  by_cases hd' : d = 43
  · subst hd'
    exact ⟨rest, (Nat.le_succ _).trans hlen, rfl⟩
  · exact ⟨d :: rest, hlen, signedValue_of_ne hd hd' rest⟩

/-- The next number is at most one digit longer than what was read. -/
theorem length_counter_le {text : CStr} (h : 0 < atoi text) :
    (decimalInt ((atoi text + 1).bmod (2 ^ 32))).length ≤ text.length + 1 := by
  obtain ⟨t, hlen, hvalue⟩ := exists_digitsValue h
  have hlt := digitsValue_lt t
  by_cases hmax : digitsValue t < 2 ^ 31 - 1
  · have hsum : (atoi text + 1).bmod (2 ^ 32) = (digitsValue t + 1 : ℕ) := by
      rw [hvalue, min_eq_left (by omega)]
      exact Int.bmod_eq_of_le (by omega) (by omega)
    rw [hsum]
    have hfits : (decimal (digitsValue t + 1)).length ≤ t.length + 1 := by
      refine length_decimal_le (Nat.succ_pos _) ?_
      rw [Nat.pow_succ]
      omega
    exact hfits.trans (Nat.succ_le_succ hlen)
  · have hsum : (atoi text + 1).bmod (2 ^ 32) = -2 ^ 31 := by
      rw [hvalue, min_eq_right (by omega)]
      decide
    have hlong : 10 ≤ t.length := by
      by_contra hshort
      have hpow : 10 ^ t.length ≤ 10 ^ 9 := Nat.pow_le_pow_right (by decide) (by omega)
      omega
    have hmin : (decimalInt (-2 ^ 31)).length = 11 := by decide +kernel
    rw [hsum, hmin]
    omega

/-! ## Names that end with a number -/

/-- The base ends with a text in parentheses, behind a blank. -/
def EndsWith (base stem text : CStr) :
    Prop := base = parenthesised stem text ∧ (40 : Byte) ∉ text ∧ (41 : Byte) ∉ text

section Counter

variable {base stem text : CStr}

theorem parenthesised_eq (stem text : CStr) :
    parenthesised stem text = (stem ++ [32]) ++ 40 :: (text ++ [41]) := by
  have hopen : ascii " (" = [32, 40] := by decide
  have hclose : ascii ")" = [41] := by decide
  unfold parenthesised
  rw [hopen, hclose]
  simp only [List.append_assoc, List.cons_append, List.nil_append]

theorem length_parenthesised (stem text : CStr) :
    (parenthesised stem text).length = stem.length + text.length + 3 := by
  rw [parenthesised_eq]
  simp only [List.length_append, List.length_cons, List.length_nil]
  omega

theorem splitLast_parenthesised (stem : CStr) (h : (40 : Byte) ∉ text) :
    splitLast (· == 40) (parenthesised stem text) = some (stem ++ [32], text ++ [41]) := by
  rw [parenthesised_eq]
  refine splitLast_append (by rfl) _ fun d hd => ?_
  rw [beq_eq_false_iff_ne]
  rintro rfl
  rcases List.mem_append.mp hd with hd | hd
  · exact h hd
  · exact absurd hd (by decide)

/-- There is one text in the last parentheses. -/
theorem EndsWith.unique {stem' text' : CStr} (h : EndsWith base stem text)
    (h' : EndsWith base stem' text') :
    stem = stem' ∧ text = text' := by
  obtain ⟨hbase, hopen, -⟩ := h
  obtain ⟨hbase', hopen', -⟩ := h'
  have hsplit := splitLast_parenthesised stem hopen
  rw [← hbase, hbase', splitLast_parenthesised stem' hopen'] at hsplit
  obtain ⟨hstem, htext⟩ := Prod.mk.inj (Option.some.inj hsplit)
  exact ⟨List.append_cancel_right hstem.symm, List.append_cancel_right htext.symm⟩

theorem findIdx_close (h : (41 : Byte) ∉ text) :
    (text ++ [41]).findIdx? (· == 41) = some ((text ++ [41]).length - 1) := by
  have hnone : text.findIdx? (· == 41) = none := by
    rw [List.findIdx?_eq_none_iff]
    intro d hd
    rw [beq_eq_false_iff_ne]
    rintro rfl
    exact h hd
  rw [List.findIdx?_append, hnone]
  simp

/-- What `atoi` reads in the parentheses is counted on. -/
theorem nextCounter_parenthesised (h : EndsWith base stem text) : nextCounter base =
    if 0 < atoi text then (stem, (atoi text + 1).bmod (2 ^ 32)) else (base, 1) := by
  obtain ⟨hbase, hopen, hclose⟩ := h
  have hread : atoi (text ++ [41]) = atoi text :=
    atoi_append (by decide) (by decide) (by decide) (by decide) _ _
  unfold nextCounter
  rw [hbase, splitLast_parenthesised stem hopen]
  dsimp only
  rw [if_pos ⟨List.getLast?_concat .., findIdx_close hclose⟩, hread, List.dropLast_concat]

theorem exists_of_findIdx_close {rest : CStr}
    (h : rest.findIdx? (· == 41) = some (rest.length - 1)) :
    ∃ text, rest = text ++ [41] ∧ (41 : Byte) ∉ text := by
  rcases List.eq_nil_or_concat rest with rfl | ⟨text, c, rfl⟩
  · cases h
  rw [List.concat_eq_append] at h ⊢
  obtain ⟨hlt, hc, hbefore⟩ := List.findIdx?_eq_some_iff_getElem.mp h
  have hlast : (text ++ [c]).length - 1 = text.length := by simp
  simp only [hlast, List.getElem_concat_length, beq_iff_eq] at hc hbefore
  subst hc
  refine ⟨text, rfl, fun hmem => ?_⟩
  obtain ⟨j, hj, heq⟩ := List.getElem_of_mem hmem
  refine absurd (hbefore j hj) (not_not_intro ?_)
  rw [List.getElem_append_left hj]
  exact heq

/-- Any other base is kept, with the number 1. -/
theorem nextCounter_plain (h : ∀ stem text, ¬ EndsWith base stem text) :
    nextCounter base = (base, 1) := by
  unfold nextCounter
  rcases hsplit : splitLast (· == 40) base with _ | ⟨before, rest⟩
  · rfl
  refine if_neg ?_
  rintro ⟨hblank, hfirst⟩
  obtain ⟨stem, rfl⟩ := List.getLast?_eq_some_iff.mp hblank
  obtain ⟨text, rfl, hclose⟩ := exists_of_findIdx_close hfirst
  obtain ⟨c, hbase, hc⟩ := eq_of_splitLast hsplit
  obtain rfl := beq_iff_eq.mp hc
  refine h stem text ⟨by rw [hbase, parenthesised_eq], fun hopen => ?_, hclose⟩
  exact absurd (eq_false_of_splitLast hsplit 40 (List.mem_append_left _ hopen)) (by decide)

end Counter

/-! ## The proposed name -/

/-- The base ends with a positive number in parentheses. -/
structure Numbered (base stem digits : CStr) : Prop where
  text : base = parenthesised stem digits
  plain : ∀ c ∈ digits, isDigit c = true
  positive : 0 < digitsValue digits

/-- The name that should be proposed. -/
structure NextName (name new : CStr) : Prop where
  ne : new ≠ name
  extension : (splitExtension new).2 = (splitExtension name).2
  counted : ∀ stem digits, Numbered (splitExtension name).1 stem digits →
    new = parenthesised stem (decimal (digitsValue digits + 1)) ++ (splitExtension name).2
  appended : (∀ stem digits, ¬ Numbered (splitExtension name).1 stem digits) →
    new = parenthesised (splitExtension name).1 (ascii "1") ++ (splitExtension name).2

/-- Where `atoi` reads a positive number in the last parentheses, there is nothing else in them, and
the next number is an `int`. -/
def CountsOn (base : CStr) : Prop :=
  ∀ stem text, EndsWith base stem text → 0 < atoi text →
    (∀ c ∈ text, isDigit c = true) ∧ digitsValue text + 1 < 2 ^ 31

theorem Numbered.endsWith {base stem digits : CStr} (h : Numbered base stem digits) :
    EndsWith base stem digits := by
  refine ⟨h.text, fun hopen => ?_, fun hclose => ?_⟩
  · exact absurd (h.plain _ hopen) (by decide)
  · exact absurd (h.plain _ hclose) (by decide)

theorem Numbered.atoi_pos {base stem digits : CStr} (h : Numbered base stem digits) :
    0 < atoi digits := by
  have hpos := h.positive
  rw [atoi_digits h.plain]
  omega

theorem generated_cases {name : CStr} (hlen : name.length ≤ 255) :
    (∃ stem text, EndsWith (splitExtension name).1 stem text ∧ 0 < atoi text ∧
      generateAlternateName name MAX_PATH =
      parenthesised stem (decimalInt ((atoi text + 1).bmod (2 ^ 32))) ++ (splitExtension name).2) ∨
    (∀ stem text, EndsWith (splitExtension name).1 stem text → ¬ 0 < atoi text) ∧
    generateAlternateName name MAX_PATH =
      parenthesised (splitExtension name).1 (ascii "1") ++ (splitExtension name).2 := by
  have htext := congrArg List.length (splitExtension_text name)
  rw [List.length_append] at htext
  have hbase : lstrcpyn (splitExtension name).1 MAX_PATH = (splitExtension name).1 :=
    lstrcpyn_eq_self (by unfold MAX_PATH; omega)
  have hext : lstrcpyn (splitExtension name).2 MAX_PATH = (splitExtension name).2 :=
    lstrcpyn_eq_self (by unfold MAX_PATH; omega)
  have hcounter : ∀ base counter, nextCounter (splitExtension name).1 = (base, counter) →
      base.length + (decimalInt counter).length ≤ (splitExtension name).1.length + 1 →
      generateAlternateName name MAX_PATH =
        parenthesised base (decimalInt counter) ++ (splitExtension name).2 := by
    intro base counter hnext hfits
    unfold generateAlternateName
    dsimp only
    rw [hbase, hnext, hext]
    dsimp only
    refine lstrcpyn_eq_self ?_
    rw [List.length_append, length_parenthesised]
    unfold MAX_PATH
    omega
  by_cases h : ∃ stem text, EndsWith (splitExtension name).1 stem text ∧ 0 < atoi text
  · obtain ⟨stem, text, hends, hpos⟩ := h
    refine .inl ⟨stem, text, hends, hpos, hcounter _ _ ?_ ?_⟩
    · rw [nextCounter_parenthesised hends, if_pos hpos]
    · have hcount := length_counter_le hpos
      rw [hends.1, length_parenthesised]
      omega
  · have hnone : ∀ stem text, EndsWith (splitExtension name).1 stem text → ¬ 0 < atoi text :=
      fun stem text hends hpos => h ⟨stem, text, hends, hpos⟩
    refine .inr ⟨hnone, hcounter _ 1 ?_ le_rfl⟩
    by_cases hends : ∃ stem text, EndsWith (splitExtension name).1 stem text
    · obtain ⟨stem, text, hends⟩ := hends
      rw [nextCounter_parenthesised hends, if_neg (hnone stem text hends)]
    · exact nextCounter_plain fun stem text hends' => hends ⟨stem, text, hends'⟩

/-- A number in parentheses does not change the extension. -/
theorem extension_parenthesised {name stem text : CStr} (hstem : stem <+: (splitExtension name).1)
    (htext : ∀ c ∈ text, isDigit c = true) :
    (splitExtension (parenthesised stem text ++ (splitExtension name).2)).2 =
      (splitExtension name).2 := by
  have hparts : parenthesised stem text = stem ++ (ascii " (" ++ text ++ ascii ")") := by
    unfold parenthesised
    simp only [List.append_assoc]
  rw [hparts]
  refine extension_insert hstem (fun hdot => ?_) (by simp [ascii])
  rcases List.mem_append.mp hdot with hdot | hdot
  · rcases List.mem_append.mp hdot with hdot | hdot
    · exact absurd hdot (by decide)
    · exact absurd (htext _ hdot) (by decide)
  · exact absurd hdot (by decide)

theorem nextName_counted {name stem digits : CStr}
    (h : Numbered (splitExtension name).1 stem digits) :
    NextName name
      (parenthesised stem (decimal (digitsValue digits + 1)) ++ (splitExtension name).2) where
  ne := by
    intro heq
    conv_rhs at heq => rw [← splitExtension_text name, h.text]
    have hdigits : decimal (digitsValue digits + 1) = digits :=
      List.append_cancel_left (List.append_cancel_right (List.append_cancel_right heq))
    have hvalue := digitsValue_decimal (digitsValue digits + 1)
    rw [hdigits] at hvalue
    omega
  extension := by
    refine extension_parenthesised ?_ fun c hc => isDigit_of_mem_decimal hc
    rw [h.text, parenthesised_eq, List.append_assoc]
    exact List.prefix_append _ _
  counted := by
    intro stem' digits' h'
    obtain ⟨rfl, rfl⟩ := h.endsWith.unique h'.endsWith
    rfl
  appended := fun hnone => absurd h (hnone stem digits)

theorem nextName_appended {name : CStr}
    (h : ∀ stem digits, ¬ Numbered (splitExtension name).1 stem digits) :
    NextName name
      (parenthesised (splitExtension name).1 (ascii "1") ++ (splitExtension name).2) where
  ne := by
    intro heq
    conv_rhs at heq => rw [← splitExtension_text name]
    have hlen := congrArg List.length (List.append_cancel_right heq)
    rw [length_parenthesised] at hlen
    omega
  extension := extension_parenthesised (List.prefix_refl _) (by decide +kernel)
  counted := fun stem digits hnumbered => absurd hnumbered (h stem digits)
  appended := fun _ => rfl

theorem decimalInt_natCast (n : ℕ) : decimalInt (n : ℤ) = decimal n := by
  unfold decimalInt
  rw [if_neg (by omega), Int.natAbs_natCast]

/-- The proposed name is the one that it should be exactly when `atoi` reads nothing else than a
number to count on. -/
theorem nextName_iff {name : CStr} (hlen : name.length ≤ 255) :
    NextName name (generateAlternateName name MAX_PATH) ↔ CountsOn (splitExtension name).1 := by
  constructor
  · intro h stem text hends hpos
    rcases generated_cases hlen with ⟨stem', text', hends', -, hnew⟩ | ⟨hnone, -⟩
    swap
    · exact absurd hpos (hnone stem text hends)
    obtain ⟨rfl, rfl⟩ := hends.unique hends'
    have hcount := length_counter_le hpos
    have hplain : ∀ c ∈ text, isDigit c = true := by
      by_contra hplain
      -- then the number 1 is appended
      have hone := h.appended fun stem' digits hnumbered => by
        obtain ⟨rfl, rfl⟩ := hends.unique hnumbered.endsWith
        exact hplain hnumbered.plain
      rw [hnew] at hone
      have hlength := congrArg List.length (List.append_cancel_right hone)
      have hbase := congrArg List.length hends.1
      rw [length_parenthesised] at hlength hbase
      rw [length_parenthesised] at hlength
      omega
    have hread := atoi_digits hplain
    refine ⟨hplain, ?_⟩
    by_contra hlarge
    have hnumbered : Numbered (splitExtension name).1 stem text := ⟨hends.1, hplain, by omega⟩
    have hnext := h.counted stem text hnumbered
    rw [hnew, hread, min_eq_right (by omega)] at hnext
    have hdecimal : decimalInt (-2 ^ 31) = decimal (digitsValue text + 1) :=
      List.append_cancel_left (List.append_cancel_right (List.append_cancel_right hnext))
    have hminus : (45 : Byte) ∈ decimal (digitsValue text + 1) := by
      rw [← hdecimal]
      exact List.mem_cons_self
    exact absurd (isDigit_of_mem_decimal hminus) (by decide)
  · intro h
    rcases generated_cases hlen with ⟨stem, text, hends, hpos, hnew⟩ | ⟨hnone, hnew⟩
    · obtain ⟨hplain, hlarge⟩ := h stem text hends hpos
      have hread := atoi_digits hplain
      have hsum : (atoi text + 1).bmod (2 ^ 32) = (digitsValue text + 1 : ℕ) := by
        rw [hread, min_eq_left (by omega)]
        exact Int.bmod_eq_of_le (by omega) (by omega)
      rw [hnew, hsum, decimalInt_natCast]
      exact nextName_counted ⟨hends.1, hplain, by omega⟩
    · rw [hnew]
      exact nextName_appended fun stem digits hnumbered =>
        hnone stem digits hnumbered.endsWith hnumbered.atoi_pos

/-- `a (1).b` becomes `a (2).b`. -/
theorem nextName_a :
    NextName (ascii "a (1).b") (generateAlternateName (ascii "a (1).b") MAX_PATH) := by
  refine (nextName_iff (by decide)).mpr ?_
  intro stem text hends _
  have hone : EndsWith (splitExtension (ascii "a (1).b")).1 (ascii "a") (ascii "1") := by
    refine ⟨by decide +kernel, by decide, by decide⟩
  obtain ⟨-, rfl⟩ := hone.unique hends
  exact ⟨by decide +kernel, by decide⟩

/-- `a (5x)` becomes `a (6)`. -/
theorem not_nextName :
    ¬ ∀ name : CStr, name.length ≤ 255 → NextName name (generateAlternateName name MAX_PATH) := by
  intro h
  have hends : EndsWith (splitExtension (ascii "a (5x)")).1 (ascii "a") (ascii "5x") := by
    refine ⟨by decide +kernel, by decide, by decide⟩
  have happended := (h (ascii "a (5x)") (by decide)).appended fun stem digits hnumbered => by
    obtain ⟨-, rfl⟩ := hends.unique hnumbered.endsWith
    exact absurd (hnumbered.plain 120 (by decide)) (by decide)
  exact absurd happended (by decide +kernel)

end SalamanderSftp
