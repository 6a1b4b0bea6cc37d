import Mathlib

/-!
# Base64

The encoder pads, the decoder skips every byte outside the alphabet, the padding among them.
What is encoded is read back (`decode_encode`).
-/

namespace Base64

/-- The 64 symbols, in the order of their values. -/
def alphabet : List UInt8 :=
  (List.range 26).map (fun i => (65 + i).toUInt8) ++ (List.range 26).map
    (fun i => (97 + i).toUInt8) ++
    (List.range 10).map (fun i => (48 + i).toUInt8) ++ [43, 47]

/-- The symbol of a value below 64. -/
def symbol (v : UInt8) : UInt8 := alphabet.getD v.toNat 0

/-- The value of a symbol; `none` for a byte that is none. -/
def value (c : UInt8) : Option UInt8 := (alphabet.idxOf? c).map Nat.toUInt8

def pad : UInt8 := 61

/-- Three bytes to four symbols; the last group is filled with zero bits and padded. -/
def encode : List UInt8 → List UInt8
  | [] => []
  | [a] => [symbol (a >>> 2), symbol ((a &&& 3) <<< 4), pad, pad]
  | [a, b] =>
    [symbol (a >>> 2), symbol ((a &&& 3) <<< 4 ||| b >>> 4), symbol ((b &&& 15) <<< 2), pad]
  | a :: b :: c :: rest =>
    symbol (a >>> 2) :: symbol ((a &&& 3) <<< 4 ||| b >>> 4) :: symbol
      ((b &&& 15) <<< 2 ||| c >>> 6) ::
      symbol (c &&& 63) :: encode rest

/-- How many symbols of the current group of four were read. -/
inductive Phase
  | first
  | second
  | third
  | fourth
  deriving DecidableEq

/-- The decoder's loop; `part` holds the bits of the byte that is not complete yet. -/
def decodeFrom : Phase → UInt8 → List UInt8 → Option (List UInt8)
  | .second, _, [] => none
  | _, _, [] => some []
  | phase, part, c :: cs =>
    match value c, phase with
    | none, _ => decodeFrom phase part cs
    | some v, .first => decodeFrom .second (v <<< 2) cs
    | some v, .second => (decodeFrom .third (v <<< 4) cs).map ((part ||| v >>> 4) :: ·)
    | some v, .third => (decodeFrom .fourth (v <<< 6) cs).map ((part ||| v >>> 2) :: ·)
    | some v, .fourth => (decodeFrom .first 0 cs).map ((part ||| v) :: ·)

/-- `none` when a symbol is left over that holds bits of one byte only. -/
def decode (s : List UInt8) : Option (List UInt8) := decodeFrom .first 0 s

/-! ## The symbols -/

theorem value_symbol {v : UInt8} (h : v < 64) : value (symbol v) = some v := by
  have hall : ∀ n < 64, value (symbol n.toUInt8) = some n.toUInt8 := by decide
  simpa using hall v.toNat (by simpa [UInt8.lt_iff_toNat_lt] using h)

theorem value_pad : value pad = none := by decide

/-! ## The bits of a group -/

theorem bits_ext {x y : UInt8} (h : ∀ i < 8, x.toBitVec.getLsbD i = y.toBitVec.getLsbD i) : x = y :=
  UInt8.toBitVec_inj.mp (BitVec.eq_of_getLsbD_eq fun i hi => h i hi)

theorem lt_of_shift {x : UInt8} (h : x >>> 6 = 0) : x < 64 := by
  have hall : ∀ x : UInt8, x >>> 6 = 0 → x < 64 := by decide +kernel
  exact hall x h

/-- The values of a group; `b` and `c` are zero where the input has ended. -/
structure Group (a b c : UInt8) where
  high : a >>> 2 < 64
  second : (a &&& 3) <<< 4 ||| b >>> 4 < 64
  third : (b &&& 15) <<< 2 ||| c >>> 6 < 64
  low : c &&& 63 < 64

theorem group_lt (a b c : UInt8) : Group a b c := by
  constructor <;>
  · refine lt_of_shift (bits_ext fun i hi => ?_)
    simp only [UInt8.toBitVec_or, UInt8.toBitVec_and, UInt8.toBitVec_shiftLeft,
      UInt8.toBitVec_shiftRight]
    interval_cases i <;> simp

theorem first_byte (a b : UInt8) : (a >>> 2) <<< 2 ||| ((a &&& 3) <<< 4 ||| b >>> 4) >>> 4 = a := by
  refine bits_ext fun i hi => ?_
  simp only [UInt8.toBitVec_or, UInt8.toBitVec_and, UInt8.toBitVec_shiftLeft,
    UInt8.toBitVec_shiftRight]
  interval_cases i <;> simp

theorem second_byte (a b c : UInt8) :
    ((a &&& 3) <<< 4 ||| b >>> 4) <<< 4 ||| ((b &&& 15) <<< 2 ||| c >>> 6) >>> 2 = b := by
  refine bits_ext fun i hi => ?_
  simp only [UInt8.toBitVec_or, UInt8.toBitVec_and, UInt8.toBitVec_shiftLeft,
    UInt8.toBitVec_shiftRight]
  interval_cases i <;> simp

theorem third_byte (b c : UInt8) : ((b &&& 15) <<< 2 ||| c >>> 6) <<< 6 ||| c &&& 63 = c := by
  refine bits_ext fun i hi => ?_
  simp only [UInt8.toBitVec_or, UInt8.toBitVec_and, UInt8.toBitVec_shiftLeft,
    UInt8.toBitVec_shiftRight]
  interval_cases i <;> simp

/-! ## The round trip -/

theorem decodeFrom_symbol {v : UInt8} (hv : v < 64) (phase : Phase)
    (part : UInt8) (cs : List UInt8) :
    decodeFrom phase part (symbol v :: cs) =
      match phase with
      | .first => decodeFrom .second (v <<< 2) cs
      | .second => (decodeFrom .third (v <<< 4) cs).map ((part ||| v >>> 4) :: ·)
      | .third => (decodeFrom .fourth (v <<< 6) cs).map ((part ||| v >>> 2) :: ·)
      | .fourth => (decodeFrom .first 0 cs).map ((part ||| v) :: ·) := by
  cases phase <;> simp [decodeFrom, value_symbol hv]

theorem decodeFrom_pad (phase : Phase) (part : UInt8) (cs : List UInt8) :
    decodeFrom phase part (pad :: cs) = decodeFrom phase part cs := by
  cases phase <;> simp [decodeFrom, value_pad]

theorem decode_encode (s : List UInt8) : decode (encode s) = some s := by
  unfold decode
  fun_induction encode s with
  | case1 => rfl
  | case2 a =>
    have hg := group_lt a 0 0
    have hfirst := first_byte a 0
    have hsecond : (a &&& 3) <<< 4 ||| (0 : UInt8) >>> 4 = (a &&& 3) <<< 4 := by simp
    rw [hsecond] at hfirst
    simp only [decodeFrom_symbol hg.high,
      decodeFrom_symbol (hsecond ▸ hg.second), decodeFrom_pad, hfirst]
    rfl
  | case3 a b =>
    have hg := group_lt a b 0
    have hthird : (b &&& 15) <<< 2 ||| (0 : UInt8) >>> 6 = (b &&& 15) <<< 2 := by simp
    have hbyte := second_byte a b 0
    rw [hthird] at hbyte
    simp only [decodeFrom_symbol hg.high, decodeFrom_symbol hg.second,
      decodeFrom_symbol (hthird ▸ hg.third),
      decodeFrom_pad, hbyte, first_byte a b]
    rfl
  | case4 a b c rest ih =>
    have hg := group_lt a b c
    simp only [decodeFrom_symbol hg.high, decodeFrom_symbol hg.second, decodeFrom_symbol hg.third,
      decodeFrom_symbol hg.low, first_byte, second_byte, third_byte, ih, Option.map_some]

/-! ## The shape of an encoded text -/

/-- The bytes that the last group lacks. -/
def padding (s : List UInt8) : ℕ := (3 - s.length % 3) % 3

theorem symbol_ne_pad {v : UInt8} (h : v < 64) : symbol v ≠ pad := by
  intro heq
  have hvalue := value_symbol h
  rw [heq, value_pad] at hvalue
  cases hvalue

/-- Neither a symbol nor the padding is a control character. -/
theorem symbol_ge (v : UInt8) (h : v < 64) : 43 ≤ symbol v := by
  have hall : ∀ n < 64, 43 ≤ symbol n.toUInt8 := by decide
  simpa using hall v.toNat (by simpa [UInt8.lt_iff_toNat_lt] using h)

theorem ge_of_mem_encode {s : List UInt8} {c : UInt8} (h : c ∈ encode s) : 43 ≤ c := by
  fun_induction encode s with
  | case1 => cases h
  | case2 a =>
    have hg := group_lt a 0 0
    have hsecond : (a &&& 3) <<< 4 ||| (0 : UInt8) >>> 4 = (a &&& 3) <<< 4 := by simp
    have h2 := symbol_ge _ (hsecond ▸ hg.second)
    simp only [List.mem_cons, List.not_mem_nil, or_false] at h
    rcases h with rfl | rfl | rfl | rfl
    · exact symbol_ge _ hg.high
    · exact h2
    · decide
    · decide
  | case3 a b =>
    have hg := group_lt a b 0
    have hthird : (b &&& 15) <<< 2 ||| (0 : UInt8) >>> 6 = (b &&& 15) <<< 2 := by simp
    have h3 := symbol_ge _ (hthird ▸ hg.third)
    simp only [List.mem_cons, List.not_mem_nil, or_false] at h
    rcases h with rfl | rfl | rfl | rfl
    · exact symbol_ge _ hg.high
    · exact symbol_ge _ hg.second
    · exact h3
    · decide
  | case4 a b c rest ih =>
    have hg := group_lt a b c
    simp only [List.mem_cons] at h
    rcases h with rfl | rfl | rfl | rfl | h
    · exact symbol_ge _ hg.high
    · exact symbol_ge _ hg.second
    · exact symbol_ge _ hg.third
    · exact symbol_ge _ hg.low
    · exact ih h

theorem forall_mem_encode {P : UInt8 → Prop} (hpad : P pad)
    (hsymbol : ∀ v < 64, P (symbol v)) {s : List UInt8} :
    ∀ c ∈ encode s, P c := by
  fun_induction encode s with
  | case1 => exact nofun
  | case2 a =>
    have hg := group_lt a 0 0
    have hsecond : (a &&& 3) <<< 4 ||| (0 : UInt8) >>> 4 = (a &&& 3) <<< 4 := by simp
    simp only [List.forall_mem_cons]
    exact ⟨hsymbol _ hg.high, hsymbol _ (hsecond ▸ hg.second), hpad, hpad, nofun⟩
  | case3 a b =>
    have hg := group_lt a b 0
    have hthird : (b &&& 15) <<< 2 ||| (0 : UInt8) >>> 6 = (b &&& 15) <<< 2 := by simp
    simp only [List.forall_mem_cons]
    exact ⟨hsymbol _ hg.high, hsymbol _ hg.second, hsymbol _ (hthird ▸ hg.third), hpad, nofun⟩
  | case4 a b c rest ih =>
    have hg := group_lt a b c
    simp only [List.forall_mem_cons]
    exact ⟨hsymbol _ hg.high, hsymbol _ hg.second, hsymbol _ hg.third, hsymbol _ hg.low, ih⟩

theorem symbol_le (v : UInt8) (h : v < 64) : symbol v ≤ 122 := by
  have hall : ∀ n < 64, symbol n.toUInt8 ≤ 122 := by decide
  simpa using hall v.toNat (by simpa [UInt8.lt_iff_toNat_lt] using h)

theorem le_of_mem_encode {s : List UInt8} {c : UInt8} (h : c ∈ encode s) : c ≤ 122 :=
  @forall_mem_encode (· ≤ 122) (by decide) symbol_le s c h

/-- The signs of padding at the end of a text. -/
def padSigns (s : List UInt8) : ℕ :=
  (if s.getLast? = some pad then 1 else 0) + if s.dropLast.getLast? = some pad then 1 else 0

theorem padSigns_concat (s : List UInt8) (x y : UInt8) :
    padSigns (s ++ [x, y]) = (if y = pad then 1 else 0) + if x = pad then 1 else 0 := by
  have hsplit : s ++ [x, y] = (s ++ [x]) ++ [y] := by simp
  unfold padSigns
  rw [hsplit, List.getLast?_concat, List.dropLast_concat, List.getLast?_concat]
  simp only [Option.some.injEq]

/-- Only the last two signs are looked at. -/
theorem padSigns_append (front : List UInt8) {s : List UInt8} (h : 2 ≤ s.length) :
    padSigns (front ++ s) = padSigns s := by
  obtain ⟨s', y, rfl⟩ := List.eq_nil_or_concat' s |>.resolve_left (by rintro rfl; simp at h)
  obtain ⟨s'', x, rfl⟩ := List.eq_nil_or_concat' s' |>.resolve_left (by rintro rfl; simp at h)
  have hsplit : s'' ++ [x] ++ [y] = s'' ++ [x, y] := by simp
  rw [hsplit, ← List.append_assoc, padSigns_concat, padSigns_concat]

theorem length_encode (s : List UInt8) : (encode s).length = 4 * ((s.length + 2) / 3) := by
  fun_induction encode s with
  | case1 => rfl
  | case2 => simp
  | case3 => simp
  | case4 a b c rest ih =>
    simp only [List.length_cons, ih]
    omega

/-- The padding can be seen from the last two signs. -/
theorem padSigns_encode (s : List UInt8) : padSigns (encode s) = padding s := by
  unfold padding
  fun_induction encode s with
  | case1 => rfl
  | case2 a => rfl
  | case3 a b =>
    have hg := group_lt a b 0
    have hthird : (b &&& 15) <<< 2 ||| (0 : UInt8) >>> 6 = (b &&& 15) <<< 2 := by simp
    have hne := symbol_ne_pad (hthird ▸ hg.third)
    simp [padSigns, hne]
  | case4 a b c rest ih =>
    have hg := group_lt a b c
    by_cases hrest : rest = []
    · subst hrest
      have h3 := symbol_ne_pad hg.third
      have h4 := symbol_ne_pad hg.low
      simp [padSigns, encode, h3, h4]
    · have hlen := length_encode rest
      have hpos := List.length_pos_iff.mpr hrest
      rw [← padSigns_append [_, _, _, _] (by omega : 2 ≤ (encode rest).length)] at ih
      have hmod : (a :: b :: c :: rest).length % 3 = rest.length % 3 := by
        simp only [List.length_cons]
        omega
      rw [hmod]
      exact ih

/-! ## Decoding by blocks -/

/-- A sign of padding is taken for zero bits. -/
def blockValue (c : UInt8) : Option UInt8 := if c = pad then some 0 else value c

/-- Three bytes for each four signs; the padding is not looked at. -/
def decodeBlocks : List UInt8 → Option (List UInt8)
  | [] => some []
  | a :: b :: c :: d :: rest =>
    match blockValue a, blockValue b, blockValue c, blockValue d, decodeBlocks rest with
    | some a, some b, some c, some d, some out =>
      some ((a <<< 2 ||| b >>> 4) :: (b <<< 4 ||| c >>> 2) :: (c <<< 6 ||| d) :: out)
    | _, _, _, _, _ => none
  | _ => none

theorem blockValue_symbol {v : UInt8} (h : v < 64) : blockValue (symbol v) = some v := by
  unfold blockValue
  rw [if_neg (symbol_ne_pad h), value_symbol h]

theorem blockValue_pad : blockValue pad = some 0 := if_pos rfl

/-- The last block is filled with zero bytes. -/
theorem decodeBlocks_encode (s : List UInt8) :
    decodeBlocks (encode s) = some (s ++ List.replicate (padding s) 0) := by
  fun_induction encode s with
  | case1 => rfl
  | case2 a =>
    have hg := group_lt a 0 0
    have hfirst := first_byte a 0
    have hsecond : (a &&& 3) <<< 4 ||| (0 : UInt8) >>> 4 = (a &&& 3) <<< 4 := by simp
    have hrest := second_byte a 0 0
    rw [hsecond] at hfirst hrest
    have hzero : ((0 : UInt8) &&& 15) <<< 2 ||| (0 : UInt8) >>> 6 = 0 := by decide
    rw [hzero] at hrest
    simp only [decodeBlocks, blockValue_symbol hg.high,
      blockValue_symbol (hsecond ▸ hg.second), blockValue_pad, hfirst,
      hrest]
    rfl
  | case3 a b =>
    have hg := group_lt a b 0
    have hthird : (b &&& 15) <<< 2 ||| (0 : UInt8) >>> 6 = (b &&& 15) <<< 2 := by simp
    have hbyte := second_byte a b 0
    have hrest := third_byte b 0
    rw [hthird] at hbyte hrest
    have hzero : (0 : UInt8) &&& 63 = 0 := by decide
    rw [hzero] at hrest
    simp only [decodeBlocks, blockValue_symbol hg.high, blockValue_symbol hg.second,
      blockValue_symbol (hthird ▸ hg.third), blockValue_pad, first_byte a b, hbyte, hrest]
    rfl
  | case4 a b c rest ih =>
    have hg := group_lt a b c
    have hpad : padding (a :: b :: c :: rest) = padding rest := by
      unfold padding
      simp only [List.length_cons]
      omega
    simp only [decodeBlocks, blockValue_symbol hg.high, blockValue_symbol hg.second,
      blockValue_symbol hg.third,
      blockValue_symbol hg.low, first_byte, second_byte, third_byte, ih, hpad, List.cons_append]

/-- Zero bytes are written as the first symbol. -/
theorem encode_replicate_zero (k : ℕ) :
    encode (List.replicate (3 * k) 0) = List.replicate (4 * k) 65 := by
  induction k with
  | zero => rfl
  | succ k ih =>
    have hsymbol : symbol 0 = 65 := by decide
    rw [Nat.mul_succ, Nat.mul_succ, Nat.add_comm, Nat.add_comm (4 * k),
      List.replicate_add, List.replicate_add]
    show encode (0 :: 0 :: 0 :: List.replicate (3 * k) 0) =
        65 :: 65 :: 65 :: 65 :: List.replicate (4 * k) 65
    rw [encode, ih]
    simp [hsymbol]

end Base64
