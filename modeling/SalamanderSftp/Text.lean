import Mathlib

/-!
# C strings

A C string is the list of its bytes before the terminating NUL. Buffers of `n` bytes hold
`n - 1` of them: `lstrcpyn` and `_snprintf_s` with `_TRUNCATE` cut what does not fit.
-/

namespace SalamanderSftp

abbrev Byte := UInt8

/-- A NUL-terminated string, without the NUL. -/
abbrev CStr := List Byte

/-- The content of a file or of a buffer with its length. -/
abbrev Bytes := List Byte

/-- The bytes of an ASCII literal. -/
def ascii (s : String) : CStr := s.toList.map Char.toUInt8

/-- `MAX_PATH` of the Windows headers. -/
def MAX_PATH : ℕ := 260

def slash : Byte := 47
def backslash : Byte := 92
def at_ : Byte := 64
def colon : Byte := 58

/-- The entry "." of a directory. -/
def dot : CStr := [46]

/-- The entry ".." of a directory. -/
def dotdot : CStr := [46, 46]

/-! ## Buffers -/

/-- `lstrcpyn` into a buffer of `size` bytes, and `_snprintf_s` with `_TRUNCATE` likewise. -/
def lstrcpyn (s : CStr) (size : ℕ) : CStr := s.take (size - 1)

theorem length_lstrcpyn_le (s : CStr) (size : ℕ) : (lstrcpyn s size).length ≤ size - 1 :=
  List.length_take_le _ _

theorem lstrcpyn_eq_self {s : CStr} {size : ℕ} (h : s.length < size) : lstrcpyn s size = s :=
  List.take_of_length_le (by omega)

theorem lstrcpyn_eq_self_iff {s : CStr} {size : ℕ} : lstrcpyn s size = s ↔ s.length ≤ size - 1 :=
  List.take_eq_self_iff s

theorem lstrcpyn_lstrcpyn (s : CStr) (size : ℕ) :
    lstrcpyn (lstrcpyn s size) size = lstrcpyn s size := by
  unfold lstrcpyn
  rw [List.take_take, min_self]

/-- A `char` array of `n` bytes that holds a string. -/
@[ext]
structure CharBuf (n : ℕ) where
  text : CStr
  fits : text.length < n
  deriving DecidableEq

/-! The sizes of the arrays in the records of the plugin. -/

instance neZero_128 : NeZero 128 := ⟨by decide⟩
instance neZero_256 : NeZero 256 := ⟨by decide⟩
instance neZero_260 : NeZero 260 := ⟨by decide⟩

/-- `lstrcpyn` into such an array. -/
def CharBuf.copy (n : ℕ) [NeZero n] (s : CStr) : CharBuf n :=
  ⟨lstrcpyn s n, by have := length_lstrcpyn_le s n; have := NeZero.pos n; omega⟩

@[simp] theorem CharBuf.copy_text (n : ℕ) [NeZero n] (s : CStr) :
    (CharBuf.copy n s).text = lstrcpyn s n := rfl

/-! ## Comparing without case -/

/-- `tolower` in the "C" locale. -/
def toLower (c : Byte) : Byte := if 65 ≤ c ∧ c ≤ 90 then c + 32 else c

/-- `_stricmp(a, b) == 0`. -/
def stricmpEq (a b : CStr) : Prop := a.map toLower = b.map toLower

instance (a b : CStr) : Decidable (stricmpEq a b) := by unfold stricmpEq; infer_instance

theorem stricmpEq.refl (a : CStr) : stricmpEq a a := rfl

theorem stricmpEq.symm {a b : CStr} (h : stricmpEq a b) : stricmpEq b a := Eq.symm h

theorem stricmpEq.length_eq {a b : CStr} (h : stricmpEq a b) : a.length = b.length := by
  simpa using congrArg List.length h

/-! ## Numbers in text -/

def isDigit (c : Byte) : Bool := decide (48 ≤ c ∧ c ≤ 57)

/-- The value of the leading decimal digits. -/
def digitsValue (s : CStr) : ℕ := (s.takeWhile isDigit).foldl (fun n c => 10 * n + (c.toNat - 48)) 0

/-- The characters skipped by `strtoul` and `atoi` before a number. -/
def isSpace (c : Byte) : Bool := c == 32 || decide (9 ≤ c ∧ c ≤ 13)

/-- `_strtoui64(s, nullptr, 10)`: saturates, and negates modulo `2 ^ 64` after a minus sign. -/
def strtoui64 (s : CStr) : ℕ :=
  match s.dropWhile isSpace with
  | 45 :: t => (2 ^ 64 - min (digitsValue t) (2 ^ 64 - 1)) % 2 ^ 64
  | 43 :: t => min (digitsValue t) (2 ^ 64 - 1)
  | t => min (digitsValue t) (2 ^ 64 - 1)

/-- `atoi`: saturates at the bounds of `int`. -/
def atoi (s : CStr) : ℤ :=
  match s.dropWhile isSpace with
  | 45 :: t => max (-(digitsValue t : ℤ)) (-2 ^ 31)
  | 43 :: t => min (digitsValue t : ℤ) (2 ^ 31 - 1)
  | t => min (digitsValue t : ℤ) (2 ^ 31 - 1)

/-- `%d` and `%lu` of a natural number. -/
def decimal (n : ℕ) : CStr :=
  if n = 0 then [48] else ((Nat.digits 10 n).map fun d => (48 + d).toUInt8).reverse

/-- `%d` of an `int`. -/
def decimalInt (n : ℤ) : CStr := if n < 0 then 45 :: decimal n.natAbs else decimal n.natAbs

theorem toNat_digit {d : ℕ} (h : d < 10) : ((48 + d).toUInt8).toNat = 48 + d := by
  simp only [Nat.toUInt8_eq, UInt8.toNat_ofNat']
  omega

theorem isDigit_digit {d : ℕ} (h : d < 10) : isDigit (48 + d).toUInt8 = true := by
  unfold isDigit
  rw [decide_eq_true_iff, UInt8.le_iff_toNat_le, UInt8.le_iff_toNat_le, toNat_digit h]
  exact ⟨Nat.le_add_right 48 d, by change 48 + d ≤ 57; omega⟩

theorem isDigit_of_mem_decimal {n : ℕ} {c : Byte} (h : c ∈ decimal n) : isDigit c = true := by
  unfold decimal at h
  split_ifs at h with hn
  · rw [List.mem_singleton.mp h]
    decide
  · rw [List.mem_reverse, List.mem_map] at h
    obtain ⟨d, hd, rfl⟩ := h
    exact isDigit_digit (Nat.digits_lt_base (by norm_num) hd)

theorem decimal_ne_nil (n : ℕ) : decimal n ≠ [] := by
  unfold decimal
  split_ifs with hn
  · simp
  · simpa [Nat.digits_eq_nil_iff_eq_zero] using hn

theorem digitsValue_decimal (n : ℕ) : digitsValue (decimal n) = n := by
  have hread : ∀ ds : List ℕ, (∀ d ∈ ds, d < 10) →
      ((ds.map fun d => (48 + d).toUInt8).reverse).foldl (fun n c => 10 * n + (c.toNat - 48)) 0 =
        Nat.ofDigits 10 ds := by
    intro ds
    induction ds with
    | nil => intro _; rfl
    | cons d ds ih =>
      intro h
      rw [List.map_cons, List.reverse_cons, List.foldl_append,
        ih fun d hd => h d (List.mem_cons_of_mem _ hd),
        List.foldl_cons, List.foldl_nil, toNat_digit (h d List.mem_cons_self), Nat.ofDigits_cons]
      omega
  unfold digitsValue
  rw [List.takeWhile_eq_self_iff.mpr fun c hc => isDigit_of_mem_decimal hc]
  unfold decimal
  split_ifs with hn
  · rw [hn]
    rfl
  · rw [hread _ fun d hd => Nat.digits_lt_base (by norm_num) hd, Nat.ofDigits_digits]

/-- A printed number is not signed and has no blanks before it. -/
theorem decimal_eq_cons (n : ℕ) :
    ∃ c s, decimal n = c :: s ∧ isSpace c = false ∧ c ≠ 45 ∧ c ≠ 43 := by
  obtain ⟨c, s, hs⟩ := List.exists_cons_of_ne_nil (decimal_ne_nil n)
  have hc : isDigit c = true :=
    isDigit_of_mem_decimal (n := n) (by rw [hs]; exact List.mem_cons_self)
  refine ⟨c, s, hs, ?_, ?_, ?_⟩
  · unfold isDigit at hc
    unfold isSpace
    rw [decide_eq_true_iff, UInt8.le_iff_toNat_le, UInt8.le_iff_toNat_le] at hc
    have h48 : (48 : UInt8).toNat = 48 := rfl
    have h13 : (13 : UInt8).toNat = 13 := rfl
    rw [Bool.or_eq_false_iff, decide_eq_false_iff_not, beq_eq_false_iff_ne]
    refine ⟨?_, fun hle => ?_⟩
    · rintro rfl
      exact absurd hc.1 (by decide)
    · have := UInt8.le_iff_toNat_le.mp hle.2
      omega
  · rintro rfl
    exact absurd hc (by decide)
  · rintro rfl
    exact absurd hc (by decide)

theorem atoi_decimal (n : ℕ) : atoi (decimal n) = min (n : ℤ) (2 ^ 31 - 1) := by
  obtain ⟨c, s, hs, hspace, hminus, hplus⟩ := decimal_eq_cons n
  have hvalue := digitsValue_decimal n
  unfold atoi
  rw [hs] at hvalue ⊢
  rw [List.dropWhile_cons_of_neg (by simp [hspace])]
  split
  · next t heq => exact absurd (List.cons.inj heq).1 hminus
  · next t heq => exact absurd (List.cons.inj heq).1 hplus
  · rw [hvalue]

theorem strtoui64_decimal (n : ℕ) : strtoui64 (decimal n) = min n (2 ^ 64 - 1) := by
  obtain ⟨c, s, hs, hspace, hminus, hplus⟩ := decimal_eq_cons n
  have hvalue := digitsValue_decimal n
  unfold strtoui64
  rw [hs] at hvalue ⊢
  rw [List.dropWhile_cons_of_neg (by simp [hspace])]
  split
  · next t heq => exact absurd (List.cons.inj heq).1 hminus
  · next t heq => exact absurd (List.cons.inj heq).1 hplus
  · rw [hvalue]

/-- What follows a number is not read. -/
theorem strtoui64_decimal_append (n : ℕ) {c : Byte} (hc : isDigit c = false) (t : CStr) :
    strtoui64 (decimal n ++ c :: t) = min n (2 ^ 64 - 1) := by
  have hvalue : digitsValue (decimal n ++ c :: t) = n := by
    have htake : (decimal n ++ c :: t).takeWhile isDigit = decimal n := by
      rw [List.takeWhile_append_of_pos fun d hd => isDigit_of_mem_decimal hd,
        List.takeWhile_cons_of_neg (by simp [hc]),
        List.append_nil]
    rw [digitsValue, htake]
    conv_rhs => rw [← digitsValue_decimal n]
    rw [digitsValue, List.takeWhile_eq_self_iff.mpr fun d hd => isDigit_of_mem_decimal hd]
  obtain ⟨d, s, hs, hspace, hminus, hplus⟩ := decimal_eq_cons n
  unfold strtoui64
  rw [hs, List.cons_append] at hvalue ⊢
  rw [List.dropWhile_cons_of_neg (by simp [hspace])]
  split
  · next t heq => exact absurd (List.cons.inj heq).1 hminus
  · next t heq => exact absurd (List.cons.inj heq).1 hplus
  · rw [hvalue]

theorem length_decimal_le {n k : ℕ} (hk : 0 < k) (h : n < 10 ^ k) : (decimal n).length ≤ k := by
  unfold decimal
  split_ifs
  · exact hk
  · rw [List.length_reverse, List.length_map]
    exact (Nat.digits_length_le_iff (by decide) n).mpr h

theorem colon_notMem_decimal (n : ℕ) :
    colon ∉ decimal n := fun h => absurd (isDigit_of_mem_decimal h) (by decide)

theorem decimal_injective {n m : ℕ} (h : decimal n = decimal m) : n = m := by
  rw [← digitsValue_decimal n, h, digitsValue_decimal]

/-! ## Hexadecimal -/

/-- A digit of `%x`. -/
def hexDigit (d : ℕ) : Byte := (if d < 10 then 48 + d else 87 + d).toUInt8

/-- The last `k` digits of `%x`, with leading zeros. -/
def hexDigits : ℕ → ℕ → CStr
  | 0, _ => []
  | k + 1, n => hexDigits k (n / 16) ++ [hexDigit (n % 16)]

theorem length_hexDigits (k n : ℕ) : (hexDigits k n).length = k := by
  induction k generalizing n with
  | zero => rfl
  | succ k ih => rw [hexDigits, List.length_append, ih, List.length_singleton]

theorem hexDigit_injective {d e : ℕ} (hd : d < 16) (he : e < 16) (h : hexDigit d = hexDigit e) :
    d = e := by
  have hall : ∀ d e : Fin 16, hexDigit d = hexDigit e → d = e := by decide
  exact congrArg Fin.val (hall ⟨d, hd⟩ ⟨e, he⟩ h)

theorem hexDigits_injective {k : ℕ} :
    ∀ {n m : ℕ}, n < 16 ^ k → m < 16 ^ k → hexDigits k n = hexDigits k m → n = m := by
  induction k with
  | zero =>
    intro n m hn hm _
    rw [pow_zero] at hn hm
    omega
  | succ k ih =>
    intro n m hn hm h
    rw [hexDigits, hexDigits] at h
    obtain ⟨hinit, hlast⟩ := List.append_inj' h rfl
    rw [pow_succ] at hn hm
    have hdiv := ih (Nat.div_lt_of_lt_mul (by omega)) (Nat.div_lt_of_lt_mul (by omega)) hinit
    have hmod := hexDigit_injective (Nat.mod_lt n (by decide)) (Nat.mod_lt m (by decide))
        (List.cons.inj hlast).1
    omega

end SalamanderSftp
