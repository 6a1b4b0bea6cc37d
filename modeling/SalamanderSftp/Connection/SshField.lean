import SalamanderSftp.Text

/-!
# Fields of an SSH blob

`SshReadField` takes a field with its length in front from a blob and moves the offset behind it.
The length is added to the offset in `size_t` before the comparison, which on Win32 is also 32 bits
wide.

1. Where the sum does not wrap, a whole field is returned and anything else is refused
   (`sshReadField_whole`, `sshReadField_overlong`).
2. Where it wraps, the field is returned although it ends behind the blob (`sshReadField_wraps`).
3. So a blob is read as it should be exactly when no length that is come to wraps
   (`readsFields_iff`).
-/

namespace SalamanderSftp

/-! ## Blobs -/

/-- What the project is built for. -/
inductive Platform
  | win32
  | x64
  deriving DecidableEq

/-- The bits of `size_t`. -/
def Platform.bits : Platform → ℕ
  | .win32 => 32
  | .x64 => 64

theorem Platform.le_bits (p : Platform) : 2 ^ 32 ≤ 2 ^ p.bits := by
  cases p <;> decide

/-- A sum in `size_t`. -/
def Platform.add (p : Platform) (a b : ℕ) : ℕ := (a + b) % 2 ^ p.bits

/-- A `std::vector` of bytes, of at most `PTRDIFF_MAX` bytes. -/
structure Blob (p : Platform) where
  bytes : Bytes
  size_lt : bytes.length < 2 ^ (p.bits - 1)

namespace Blob

variable {p : Platform} (blob : Blob p)

def size : ℕ := blob.bytes.length

/-- `(unsigned)blob[i]`. -/
def byte (i : ℕ) : ℕ := (blob.bytes.getD i 0).toNat

/-- The length of the field at an offset, big endian. -/
def fieldLength (off : ℕ) : ℕ :=
  blob.byte off <<< 24 ||| blob.byte (off + 1) <<< 16 |||
    blob.byte (off + 2) <<< 8 ||| blob.byte (off + 3)

end Blob

/-- The offset of the data and their length, where the call is successful, and the offset behind the
call. -/
def sshReadField {p : Platform} (blob : Blob p) (off : ℕ) : Option (ℕ × ℕ) × ℕ :=
  if blob.size < p.add off 4 then (none, off)
  else
    let len := blob.fieldLength off
    let off := p.add off 4
    -- the offset stays behind the length of a field that is refused
    if blob.size < p.add off len then (none, off)
    else (some (off, len), p.add off len)

/-- The offset after so many calls. -/
def offsetAfter {p : Platform} (blob : Blob p) (n : ℕ) :
    ℕ := (fun off => (sshReadField blob off).2)^[n] 0

/-- A call of a sequence that starts at the offset 0. -/
def readField {p : Platform} (blob : Blob p) (n : ℕ) : Option (ℕ × ℕ) × ℕ :=
  sshReadField blob (offsetAfter blob n)

theorem offsetAfter_succ {p : Platform} (blob : Blob p) (n : ℕ) :
    offsetAfter blob (n + 1) = (readField blob n).2 :=
  Function.iterate_succ_apply' _ _ _

/-! ## One call -/

namespace Blob

variable {p : Platform} (blob : Blob p)

theorem size_lt_bits : 2 * blob.size < 2 ^ p.bits := by
  have hsize := blob.size_lt
  unfold size
  cases p <;> simp only [Platform.bits] at hsize ⊢ <;> omega

theorem byte_lt (i : ℕ) : blob.byte i < 2 ^ 8 := UInt8.toNat_lt _

theorem fieldLength_eq (off : ℕ) : blob.fieldLength off =
    blob.byte off * 2 ^ 24 + blob.byte (off + 1) * 2 ^ 16 + blob.byte
      (off + 2) * 2 ^ 8 + blob.byte (off + 3) := by
  have h1 := blob.byte_lt (off + 1)
  have h2 := blob.byte_lt (off + 2)
  have h3 := blob.byte_lt (off + 3)
  have hlow : blob.byte (off + 2) <<< 8 ||| blob.byte (off + 3) =
      blob.byte (off + 2) * 2 ^ 8 + blob.byte (off + 3) := by
    rw [← Nat.shiftLeft_add_eq_or_of_lt h3, Nat.shiftLeft_eq]
  have hmiddle :
      blob.byte (off + 1) <<< 16 ||| (blob.byte (off + 2) * 2 ^ 8 + blob.byte (off + 3)) =
      blob.byte (off + 1) * 2 ^ 16 + (blob.byte (off + 2) * 2 ^ 8 + blob.byte (off + 3)) := by
    rw [← Nat.shiftLeft_add_eq_or_of_lt (by omega), Nat.shiftLeft_eq]
  unfold fieldLength
  rw [Nat.or_assoc, Nat.or_assoc, hlow, hmiddle,
    ← Nat.shiftLeft_add_eq_or_of_lt (by omega), Nat.shiftLeft_eq]
  omega

theorem fieldLength_lt (off : ℕ) : blob.fieldLength off < 2 ^ 32 := by
  have h0 := blob.byte_lt off
  have h1 := blob.byte_lt (off + 1)
  have h2 := blob.byte_lt (off + 2)
  have h3 := blob.byte_lt (off + 3)
  rw [blob.fieldLength_eq]
  omega

/-- A field with its length lies in the blob. -/
def Whole (off : ℕ) : Prop := off + 4 + blob.fieldLength off ≤ blob.size

/-- There is a length at the offset, and in `size_t` it leads back to the front. -/
def Wraps (off : ℕ) : Prop := off + 4 ≤ blob.size ∧ 2 ^ p.bits ≤ off + 4 + blob.fieldLength off

variable {blob} {off : ℕ}

theorem Wraps.not_whole (h : blob.Wraps off) : ¬ blob.Whole off := by
  have hsize := blob.size_lt_bits
  obtain ⟨-, hwrap⟩ := h
  unfold Whole
  omega

/-- On x64 a length is short against `size_t`. -/
theorem not_wraps_x64 {blob : Blob .x64} : ¬ blob.Wraps off := by
  rintro ⟨hlen, hwrap⟩
  have hsize := blob.size_lt_bits
  have hlt := blob.fieldLength_lt off
  simp only [Platform.bits] at hsize hwrap
  omega

end Blob

section Call

variable {p : Platform} {blob : Blob p} {off : ℕ}

theorem Platform.add_of_lt {a b : ℕ} (h : a + b < 2 ^ p.bits) :
    p.add a b = a + b := Nat.mod_eq_of_lt h

theorem add_four (h : off ≤ blob.size) : p.add off 4 = off + 4 := by
  have hsize := blob.size_lt_bits
  have hbits := p.le_bits
  exact Platform.add_of_lt (by omega)

theorem sshReadField_end (hoff : off ≤ blob.size) (h : blob.size < off + 4) :
    sshReadField blob off = (none, off) := by
  unfold sshReadField
  rw [add_four hoff, if_pos h]

theorem sshReadField_length (h : off + 4 ≤ blob.size) : sshReadField blob off =
    if blob.size < p.add (off + 4) (blob.fieldLength off) then (none, off + 4)
    else (some (off + 4, blob.fieldLength off), p.add (off + 4) (blob.fieldLength off)) := by
  have hoff : off ≤ blob.size := by omega
  unfold sshReadField
  rw [add_four hoff, if_neg (by omega)]

theorem sshReadField_whole (h : blob.Whole off) :
    sshReadField blob off =
      (some (off + 4, blob.fieldLength off), off + 4 + blob.fieldLength off) := by
  have hsize := blob.size_lt_bits
  unfold Blob.Whole at h
  rw [sshReadField_length (by omega), Platform.add_of_lt (by omega), if_neg (by omega)]

theorem sshReadField_overlong (hlen : off + 4 ≤ blob.size) (h : ¬ blob.Whole off)
    (hwrap : ¬ blob.Wraps off) :
    sshReadField blob off = (none, off + 4) := by
  have hlt : off + 4 + blob.fieldLength off < 2 ^ p.bits := by
    by_contra hge
    exact hwrap ⟨hlen, not_lt.mp hge⟩
  rw [sshReadField_length hlen, Platform.add_of_lt hlt, if_pos (not_le.mp h)]

/-- The sum is less than the offset of the data. -/
theorem sshReadField_wraps (h : blob.Wraps off) : ∃ off' ≤ blob.size,
    sshReadField blob off = (some (off + 4, blob.fieldLength off), off') := by
  obtain ⟨hlen, hwrap⟩ := h
  have hlt := blob.fieldLength_lt off
  have hbits := p.le_bits
  have hsize := blob.size_lt_bits
  have hsum : p.add (off + 4) (blob.fieldLength off) =
      off + 4 + blob.fieldLength off - 2 ^ p.bits := by
    unfold Platform.add
    rw [Nat.mod_eq_sub_mod hwrap, Nat.mod_eq_of_lt (by omega)]
  refine ⟨off + 4 + blob.fieldLength off - 2 ^ p.bits, by omega, ?_⟩
  rw [sshReadField_length hlen, hsum, if_neg (by omega)]

theorem offset_le (h : off ≤ blob.size) : (sshReadField blob off).2 ≤ blob.size := by
  by_cases hlen : off + 4 ≤ blob.size
  · by_cases hwhole : blob.Whole off
    · rw [sshReadField_whole hwhole]
      exact hwhole
    · by_cases hwrap : blob.Wraps off
      · obtain ⟨off', hoff', hread⟩ := sshReadField_wraps hwrap
        rw [hread]
        exact hoff'
      · rw [sshReadField_overlong hlen hwhole hwrap]
        exact hlen
  · rw [sshReadField_end h (not_le.mp hlen)]
    exact h

/-- What is not whole is refused, if it does not wrap. -/
theorem sshReadField_refuses (hoff : off ≤ blob.size) (h : ¬ blob.Whole off)
    (hwrap : ¬ blob.Wraps off) :
    (sshReadField blob off).1 = none := by
  by_cases hlen : off + 4 ≤ blob.size
  · rw [sshReadField_overlong hlen h hwrap]
  · rw [sshReadField_end hoff (not_le.mp hlen)]

theorem offsetAfter_le (blob : Blob p) (n : ℕ) : offsetAfter blob n ≤ blob.size := by
  induction n with
  | zero => exact Nat.zero_le _
  | succ n ih =>
    rw [offsetAfter_succ]
    exact offset_le ih

end Call

/-! ## Concatenated fields -/

/-- The data of a field, whose length is 4 bytes. -/
structure SshField where
  data : Bytes
  length_lt : data.length < 2 ^ 32

/-- The field with its length in front. -/
def SshField.encode (f : SshField) : Bytes :=
  [(f.data.length / 2 ^ 24).toUInt8, (f.data.length / 2 ^ 16 % 2 ^ 8).toUInt8,
    (f.data.length / 2 ^ 8 % 2 ^ 8).toUInt8,
    (f.data.length % 2 ^ 8).toUInt8] ++ f.data

theorem SshField.length_encode (f : SshField) : f.encode.length = 4 + f.data.length := by
  unfold encode
  rw [List.length_append]
  rfl

theorem toNat_toUInt8 {n : ℕ} (h : n < 2 ^ 8) : n.toUInt8.toNat = n := by
  rw [Nat.toUInt8_eq, UInt8.toNat_ofNat']
  exact Nat.mod_eq_of_lt h

section Fields

variable {p : Platform} {blob : Blob p} {before after : Bytes} {f : SshField}

theorem byte_append (h : blob.bytes = before ++ (f.encode ++ after)) {i : ℕ} (hi : i < 4) :
    blob.byte (before.length + i) = (f.encode.getD i 0).toNat := by
  have hlen := f.length_encode
  unfold Blob.byte
  rw [h, List.getD_append_right _ _ _ _ (by omega), Nat.add_sub_cancel_left,
    List.getD_append _ _ _ _ (by omega)]

theorem fieldLength_append (h : blob.bytes = before ++ (f.encode ++ after)) :
    blob.fieldLength before.length = f.data.length := by
  have hlt := f.length_lt
  have h0 := byte_append h (i := 0) (by decide)
  have h1 := byte_append h (i := 1) (by decide)
  have h2 := byte_append h (i := 2) (by decide)
  have h3 := byte_append h (i := 3) (by decide)
  change _ = (Nat.toUInt8 _).toNat at h0 h1 h2 h3
  rw [toNat_toUInt8 (by omega)] at h0 h1 h2 h3
  rw [Nat.add_zero] at h0
  rw [blob.fieldLength_eq, h0, h1, h2, h3]
  omega

theorem whole_append (h : blob.bytes = before ++ (f.encode ++ after)) :
    blob.Whole before.length := by
  have hsize := congrArg List.length h
  rw [List.length_append, List.length_append, f.length_encode] at hsize
  unfold Blob.Whole Blob.size
  rw [fieldLength_append h]
  omega

/-- A call at a field returns it. -/
theorem sshReadField_append (h : blob.bytes = before ++ (f.encode ++ after)) :
    sshReadField blob before.length =
      (some (before.length + 4, f.data.length), (before ++ f.encode).length) := by
  rw [sshReadField_whole (whole_append h), fieldLength_append h, List.length_append,
    f.length_encode, Nat.add_assoc]

theorem data_append (h : blob.bytes = before ++ (f.encode ++ after)) :
    (blob.bytes.drop (before.length + 4)).take f.data.length = f.data := by
  rw [h, ← List.drop_drop, List.drop_left]
  unfold SshField.encode
  rw [List.append_assoc]
  exact List.take_left

end Fields

/-- The bytes that a call returns. -/
def Blob.returned {p : Platform} (blob : Blob p) (n : ℕ) : Option Bytes :=
  (readField blob n).1.map fun (data, len) => (blob.bytes.drop data).take len

section Decode

variable {p : Platform} {blob : Blob p}

/-- After as many calls the offset is behind as many fields. -/
theorem offsetAfter_fields {fields : List SshField} {rest : Bytes} :
    blob.bytes = fields.flatMap SshField.encode ++ rest →
      offsetAfter blob fields.length = (fields.flatMap SshField.encode).length := by
  induction fields using List.reverseRecOn generalizing rest with
  | nil => exact fun _ => rfl
  | append_singleton fields f ih =>
    intro h
    rw [List.flatMap_append, List.flatMap_singleton] at h ⊢
    rw [List.append_assoc] at h
    rw [List.length_append, List.length_singleton, offsetAfter_succ]
    unfold readField
    rw [ih h, sshReadField_append h]

theorem returned_field {fields rest : List SshField} {f : SshField}
    (h : blob.bytes = (fields ++ f :: rest).flatMap SshField.encode) :
    blob.returned fields.length = some f.data := by
  rw [List.flatMap_append, List.flatMap_cons] at h
  unfold Blob.returned readField
  rw [offsetAfter_fields h, sshReadField_append h]
  exact congrArg some (data_append h)

/-- Behind the last field every call fails. -/
theorem readField_end {fields : List SshField}
    (h : blob.bytes = fields.flatMap SshField.encode) (k : ℕ) :
    readField blob (fields.length + k) = (none, blob.size) := by
  have hend : sshReadField blob blob.size = (none, blob.size) := sshReadField_end le_rfl (by omega)
  have hwhole : blob.bytes = fields.flatMap SshField.encode ++ [] := by rw [List.append_nil, h]
  induction k with
  | zero =>
    unfold readField
    rw [Nat.add_zero, offsetAfter_fields hwhole, ← h]
    exact hend
  | succ k ih =>
    unfold readField
    rw [← Nat.add_assoc, offsetAfter_succ, ih]
    exact hend

end Decode

/-! ## Every sequence of calls -/

/-- What a reader of fields is to do with a blob. -/
structure ReadsFields {p : Platform} (blob : Blob p) : Prop where
  inside : ∀ n data len, (readField blob n).1 = some (data, len) →
    data + len ≤ blob.size ∧ (readField blob n).2 ≤ blob.size
  decodes : ∀ fields : List SshField, blob.bytes = fields.flatMap SshField.encode →
    ∀ n, blob.returned n = fields[n]?.map SshField.data
  refuses : ∀ n, ¬ blob.Whole (offsetAfter blob n) → (readField blob n).1 = none

theorem returned_eq {p : Platform} {blob : Blob p} {fields : List SshField}
    (h : blob.bytes = fields.flatMap SshField.encode) (n : ℕ) :
    blob.returned n = fields[n]?.map SshField.data := by
  by_cases hn : n < fields.length
  · rw [List.getElem?_eq_getElem hn, Option.map_some]
    have hsplit : fields.take n ++ fields[n] :: fields.drop (n + 1) = fields := by
      rw [List.cons_getElem_drop_succ, List.take_append_drop]
    have hbytes : blob.bytes =
        (fields.take n ++ fields[n] :: fields.drop (n + 1)).flatMap SshField.encode := by
      rw [hsplit, h]
    have hread := returned_field hbytes
    rwa [List.length_take_of_le hn.le] at hread
  · obtain ⟨k, rfl⟩ := Nat.exists_eq_add_of_le (not_lt.mp hn)
    rw [List.getElem?_eq_none (Nat.le_add_right _ _)]
    unfold Blob.returned
    rw [readField_end h]
    rfl

/-- A blob is read as it should be exactly when, on Win32, no call comes to a length that wraps. -/
theorem readsFields_iff {p : Platform} (blob : Blob p) :
    ReadsFields blob ↔ (p = .win32 → ∀ n, ¬ blob.Wraps (offsetAfter blob n)) := by
  constructor
  · rintro h - n hwrap
    obtain ⟨off', -, hread⟩ := sshReadField_wraps hwrap
    have hnone := h.refuses n hwrap.not_whole
    unfold readField at hnone
    rw [hread] at hnone
    cases hnone
  · intro h
    have hwrap : ∀ n, ¬ blob.Wraps (offsetAfter blob n) := by
      cases p with
      | win32 => exact h rfl
      | x64 => exact fun _ => Blob.not_wraps_x64
    have hrefuses : ∀ n, ¬ blob.Whole (offsetAfter blob n) → (readField blob n).1 = none :=
      fun n hwhole => sshReadField_refuses (offsetAfter_le blob n) hwhole (hwrap n)
    refine ⟨fun n data len hread => ?_, fun fields hfields => returned_eq hfields, hrefuses⟩
    have hwhole : blob.Whole (offsetAfter blob n) := by
      by_contra hnot
      rw [hrefuses n hnot] at hread
      cases hread
    refine ⟨?_, offset_le (offsetAfter_le blob n)⟩
    unfold readField at hread
    rw [sshReadField_whole hwhole] at hread
    obtain ⟨rfl, rfl⟩ := Prod.mk.inj (Option.some.inj hread)
    exact hwhole

/-- A length of `FF FF FF FC` and nothing behind it. -/
def wrappingBlob : Blob .win32 := ⟨[255, 255, 255, 252], by decide⟩

/-- The field of 4294967292 bytes is found behind the blob of 4 bytes. -/
theorem not_readsFields : ¬ ∀ (p : Platform) (blob : Blob p), ReadsFields blob := by
  intro h
  have hin := (h .win32 wrappingBlob).inside 0 4 4294967292 (by decide)
  exact absurd hin.1 (by decide)

end SalamanderSftp
