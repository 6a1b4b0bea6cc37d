import Mathlib.Data.Nat.Size
import Mathlib.Tactic.Ring

/-!
# Numbers in big endian

The number that a word of bytes stands for, and the word of a given length for a number, which is
read as the number if there is room for it (`ofBytes_toBytes`).
-/

namespace BigEndian

/-- The number of a word. -/
def ofBytes (bytes : List UInt8) : ℕ := bytes.foldl (fun n b => n * 256 + b.toNat) 0

/-- The word of that length for a number. -/
def toBytes : ℕ → ℕ → List UInt8
  | 0, _ => []
  | len + 1, n => toBytes len (n / 256) ++ [(n % 256).toUInt8]

theorem ofBytes_concat (bytes : List UInt8) (b : UInt8) :
    ofBytes (bytes ++ [b]) = ofBytes bytes * 256 + b.toNat := by
  unfold ofBytes
  rw [List.foldl_append]
  rfl

@[simp] theorem length_toBytes (len n : ℕ) : (toBytes len n).length = len := by
  induction len generalizing n with
  | zero => rfl
  | succ len ih => rw [toBytes, List.length_append, ih, List.length_singleton]

theorem toNat_low (n : ℕ) : (n % 256).toUInt8.toNat = n % 256 := by
  rw [Nat.toUInt8_eq, UInt8.toNat_ofNat']
  omega

/-- What has no room is lost at the upper end. -/
theorem ofBytes_toBytes_mod (len n : ℕ) : ofBytes (toBytes len n) = n % 256 ^ len := by
  induction len generalizing n with
  | zero => rw [pow_zero, Nat.mod_one]; rfl
  | succ len ih =>
    rw [toBytes, ofBytes_concat, ih, toNat_low, pow_succ', Nat.mod_mul]
    ring

theorem ofBytes_toBytes {len n : ℕ} (h : n < 256 ^ len) : ofBytes (toBytes len n) = n := by
  rw [ofBytes_toBytes_mod, Nat.mod_eq_of_lt h]

end BigEndian
