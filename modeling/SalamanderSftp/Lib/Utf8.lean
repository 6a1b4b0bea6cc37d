import Mathlib

/-!
# UTF-8 as a partial inverse

`encode` prints scalar values as UTF-8; `decode?` reads exactly the texts that are printed so, and
nothing else (`decode?_eq_some_iff`). `utf16` are the code units of a scalar value.
-/

namespace Utf8

/-- The UTF-8 text of some scalar values. -/
def encode (cs : List Char) : List UInt8 := cs.flatMap String.utf8EncodeChar

/-- Strict decoding. -/
def decode? (s : List UInt8) : Option (List Char) := (s.toByteArray.utf8Decode?).map Array.toList

@[simp] theorem encode_nil : encode [] = [] := rfl

@[simp] theorem encode_cons (c : Char) (cs : List Char) :
    encode (c :: cs) = String.utf8EncodeChar c ++ encode cs := rfl

theorem toByteArray_encode (cs : List Char) : (encode cs).toByteArray = cs.utf8Encode := rfl

@[simp] theorem decode?_encode (cs : List Char) : decode? (encode cs) = some cs := by
  unfold decode?
  rw [toByteArray_encode, List.utf8Decode?_utf8Encode, Option.map_some]

theorem toByteArray_injective {s t : List UInt8} (h : s.toByteArray = t.toByteArray) : s = t := by
  have hdata := congrArg (fun b : ByteArray => b.data.toList) h
  simpa using hdata

theorem decode?_eq_some_iff {s : List UInt8} {cs : List Char} :
    decode? s = some cs ↔ s = encode cs := by
  constructor
  · intro h
    unfold decode? at h
    obtain ⟨chars, hchars, rfl⟩ := Option.map_eq_some_iff.mp h
    have hsome : s.toByteArray.utf8Decode?.isSome = true := by rw [hchars]; rfl
    have hback := ByteArray.utf8Encode_get_utf8Decode? (b := s.toByteArray) (h := hsome)
    apply toByteArray_injective
    rw [toByteArray_encode, ← hback]
    congr 2
    exact Option.get_of_eq_some hsome hchars
  · rintro rfl
    exact decode?_encode cs

theorem encode_injective : Function.Injective encode := by
  intro cs ds h
  have hdecode := decode?_encode cs
  rw [h, decode?_encode] at hdecode
  exact (Option.some.inj hdecode).symm

theorem decode?_eq_none_iff {s : List UInt8} : decode? s = none ↔ ∀ cs, s ≠ encode cs := by
  rw [Option.eq_none_iff_forall_ne_some]
  exact forall_congr' fun cs => not_congr decode?_eq_some_iff

theorem length_encode_le (cs : List Char) : (encode cs).length ≤ 4 * cs.length := by
  induction cs with
  | nil => simp
  | cons c cs ih =>
    have hc := Char.utf8Size_le_four c
    rw [encode_cons, List.length_append, String.length_utf8EncodeChar, List.length_cons]
    omega

theorem length_le_encode (cs : List Char) : cs.length ≤ (encode cs).length := by
  induction cs with
  | nil => simp
  | cons c cs ih =>
    have hc := Char.utf8Size_pos c
    rw [encode_cons, List.length_append, String.length_utf8EncodeChar, List.length_cons]
    omega

/-- A single byte is the text of an ASCII character only. -/
theorem lt_of_singleton_eq_encode {b : UInt8} {cs : List Char} (h : [b] = encode cs) : b < 128 := by
  rcases cs with _ | ⟨c, cs⟩
  · simp at h
  · have hlen := congrArg List.length h
    have hpos := Char.utf8Size_pos c
    rw [encode_cons, List.length_append, String.length_utf8EncodeChar,
      List.length_singleton] at hlen
    have hone : c.utf8Size = 1 := by omega
    rw [encode_cons, String.utf8EncodeChar_eq_singleton hone] at h
    obtain ⟨rfl, -⟩ := List.cons.inj h
    have hval := UInt32.le_iff_toNat_le.mp (Char.utf8Size_eq_one_iff.mp hone)
    rw [UInt8.lt_iff_toNat_lt, UInt32.toNat_toUInt8]
    change c.val.toNat % 256 < 128
    change c.val.toNat ≤ 127 at hval
    omega

/-! ## ASCII -/

theorem utf8EncodeChar_of_lt {c : Char} (hc : c.toNat < 128) :
    String.utf8EncodeChar c = [UInt8.ofNat c.toNat] := by
  unfold String.utf8EncodeChar
  exact if_pos (Nat.le_of_lt_succ hc)

theorem le_ofNat_mod_add (x : ℕ) {m k : ℕ} (hm : 0 < m) (hk : 128 ≤ k) (hmk : m + k ≤ 256) :
    128 ≤ UInt8.ofNat (x % m + k) := by
  have hx := Nat.mod_lt x hm
  rw [UInt8.le_iff_toNat_le, UInt8.toNat_ofNat', Nat.mod_eq_of_lt (by omega)]
  show 128 ≤ x % m + k
  omega

/-- The bytes of any other character are not in ASCII. -/
theorem le_of_mem_utf8EncodeChar {c : Char} (hc : 128 ≤ c.toNat) {b : UInt8}
    (hb : b ∈ String.utf8EncodeChar c) :
    128 ≤ b := by
  change 128 ≤ c.val.toNat at hc
  unfold String.utf8EncodeChar at hb
  dsimp only at hb
  split_ifs at hb
  · omega
  · simp only [List.mem_cons, List.not_mem_nil, or_false] at hb
    rcases hb with rfl | rfl
    all_goals exact le_ofNat_mod_add _ (by norm_num) (by norm_num) (by norm_num)
  · simp only [List.mem_cons, List.not_mem_nil, or_false] at hb
    rcases hb with rfl | rfl | rfl
    all_goals exact le_ofNat_mod_add _ (by norm_num) (by norm_num) (by norm_num)
  · simp only [List.mem_cons, List.not_mem_nil, or_false] at hb
    rcases hb with rfl | rfl | rfl | rfl
    all_goals exact le_ofNat_mod_add _ (by norm_num) (by norm_num) (by norm_num)

/-! ## UTF-16 -/

/-- One unit, or a pair of surrogates. -/
def utf16 (c : Char) : List UInt16 :=
  if c.toNat < 0x10000 then [c.toNat.toUInt16]
  else [(0xD800 + (c.toNat - 0x10000) / 0x400).toUInt16,
    (0xDC00 + (c.toNat - 0x10000) % 0x400).toUInt16]

theorem utf16_pos (c : Char) : 0 < (utf16 c).length := by
  unfold utf16
  split_ifs
  · exact Nat.one_pos
  · exact Nat.two_pos

theorem length_le_utf16 (cs : List Char) : cs.length ≤ (cs.flatMap utf16).length := by
  induction cs with
  | nil => simp
  | cons c cs ih =>
    have hc := utf16_pos c
    rw [List.flatMap_cons, List.length_append, List.length_cons]
    omega

theorem length_utf16_le (cs : List Char) : (cs.flatMap utf16).length ≤ (encode cs).length := by
  induction cs with
  | nil => simp
  | cons c cs ih =>
    have hc : (utf16 c).length ≤ c.utf8Size := by
      unfold utf16
      split_ifs with hbmp
      · exact Char.utf8Size_pos c
      · have hfour : c.utf8Size = 4 := by
          rw [Char.utf8Size_eq_four_iff, UInt32.lt_iff_toNat_lt]
          exact not_lt.mp hbmp
        rw [hfour]
        show 2 ≤ 4
        omega
    rw [List.flatMap_cons, encode_cons, List.length_append, List.length_append,
      String.length_utf8EncodeChar]
    omega

end Utf8
