import SalamanderSftp.Lib.Utf8
import SalamanderSftp.Text

/-!
# File name encoding

`ToServerEnc` and `ToDisplayEnc` convert between the ANSI code page that Salamander shows and UTF-8.
A text that is not UTF-8 is shown as it is, but nothing is sent as it is, and what the code page
lacks is replaced when it is shown. So exactly the names that are UTF-8 and lie in the code page can
be operated on (`names_operable_iff`).
-/

namespace SalamanderSftp

open Utf8

/-! ## Conversions -/

/-- A single-byte ANSI code page, as `MultiByteToWideChar` and `WideCharToMultiByte` use it. -/
structure CodePage where
  toUnicode : Byte → Char
  /-- A unit of UTF-16; what the code page lacks becomes something similar or '?'. -/
  toAnsi : UInt16 → Byte
  /-- What is left in the buffer of a conversion that does not fit. -/
  overflow : CStr → CStr
  oneUnit : ∀ b, (toUnicode b).toNat < 0x10000
  ascii : ∀ b < 128, toUnicode b = Char.ofNat b.toNat
  back : ∀ b, toAnsi (toUnicode b).toNat.toUInt16 = b
  nul : ∀ u, toAnsi u = 0 → u = 0

/-- `MultiByteToWideChar` into 520 units takes 519 and the NUL. -/
def toServerEnc (encoding : ℤ) (cp : CodePage) (s : CStr) : CStr :=
  if encoding = 2 ∨ s = [] then s
  else if 520 ≤ s.length then s
  else
    let out := encode (s.map cp.toUnicode)
    if 1040 ≤ out.length then cp.overflow s else out

def toDisplayEnc (encoding : ℤ) (cp : CodePage) (s : CStr) : CStr :=
  if encoding = 2 ∨ s = [] then s
  else
    match decode? s with
    | none => s
    | some cs => if 520 ≤ (cs.flatMap utf16).length then s else (cs.flatMap utf16).map cp.toAnsi

/-- A character of the code page. -/
def CodePage.Has (cp : CodePage) (c : Char) : Prop := ∃ b, cp.toUnicode b = c

theorem CodePage.toUnicode_injective (cp : CodePage) : Function.Injective cp.toUnicode := by
  intro b b' h
  rw [← cp.back b, h, cp.back]

theorem CodePage.toNat_toUnicode (cp : CodePage) {b : Byte} (h : b < 128) :
    (cp.toUnicode b).toNat = b.toNat := by
  have hlt := UInt8.lt_iff_toNat_lt.mp h
  change b.toNat < 128 at hlt
  rw [cp.ascii b h, Char.toNat_ofNat, if_pos (Or.inl (by omega))]

theorem CodePage.toUnicode_lt_iff (cp : CodePage) (b : Byte) :
    (cp.toUnicode b).toNat < 128 ↔ b < 128 := by
  constructor
  · intro h
    have hsmall : UInt8.ofNat (cp.toUnicode b).toNat < 128 := by
      rw [UInt8.lt_iff_toNat_lt, UInt8.toNat_ofNat', Nat.mod_eq_of_lt (by omega)]
      exact h
    have hsame : cp.toUnicode (UInt8.ofNat (cp.toUnicode b).toNat) = cp.toUnicode b := by
      rw [cp.ascii _ hsmall, UInt8.toNat_ofNat', Nat.mod_eq_of_lt (by omega), Char.ofNat_toNat]
    rwa [cp.toUnicode_injective hsame] at hsmall
  · intro h
    rw [cp.toNat_toUnicode h]
    exact UInt8.lt_iff_toNat_lt.mp h

theorem CodePage.encode_of_lt (cp : CodePage) {b : Byte} (h : b < 128) :
    String.utf8EncodeChar (cp.toUnicode b) = [b] := by
  rw [utf8EncodeChar_of_lt ((cp.toUnicode_lt_iff b).mpr h), cp.toNat_toUnicode h, UInt8.ofNat_toNat]

theorem CodePage.le_of_mem_encode (cp : CodePage) {b : Byte} (h : ¬ b < 128) {x : Byte}
    (hx : x ∈ String.utf8EncodeChar (cp.toUnicode b)) : 128 ≤ x :=
  le_of_mem_utf8EncodeChar (not_lt.mp (mt (cp.toUnicode_lt_iff b).mp h)) hx

theorem CodePage.count_encode (cp : CodePage) {x : Byte} (hx : x < 128) (s : CStr) :
    (encode (s.map cp.toUnicode)).count x = s.count x := by
  induction s with
  | nil => rfl
  | cons b s ih =>
    rw [List.map_cons, encode_cons, List.count_append, ih,
      ← List.singleton_append, List.count_append]
    congr 1
    by_cases hb : b < 128
    · rw [cp.encode_of_lt hb]
    · rw [List.count_eq_zero_of_not_mem, List.count_eq_zero_of_not_mem]
      · rw [List.mem_singleton]
        rintro rfl
        exact hb hx
      · intro hmem
        exact absurd (cp.le_of_mem_encode hb hmem) (UInt8.not_le.mpr hx)

/-- Only texts in ASCII are sent as they are. -/
theorem CodePage.encode_eq_self_iff (cp : CodePage) (s : CStr) :
    encode (s.map cp.toUnicode) = s ↔ ∀ b ∈ s, b < 128 := by
  induction s with
  | nil => simp
  | cons b s ih =>
    rw [List.map_cons, encode_cons, List.forall_mem_cons]
    by_cases hb : b < 128
    · rw [cp.encode_of_lt hb, List.singleton_append, List.cons.injEq, ih]
      simp [hb]
    · refine iff_of_false (fun h => ?_) (fun h => hb h.1)
      -- the character takes more than one byte
      have hlen := congrArg List.length h
      have hrest := length_le_encode (s.map cp.toUnicode)
      have hsize : 1 < (cp.toUnicode b).utf8Size := by
        by_contra hone
        have hpos := Char.utf8Size_pos (cp.toUnicode b)
        have hval := UInt32.le_iff_toNat_le.mp
            (Char.utf8Size_eq_one_iff.mp (by omega : (cp.toUnicode b).utf8Size = 1))
        exact hb ((cp.toUnicode_lt_iff b).mp (Nat.lt_succ_of_le hval))
      rw [List.length_append, String.length_utf8EncodeChar, List.length_cons] at hlen
      rw [List.length_map] at hrest
      omega

theorem CodePage.has_iff (cp : CodePage) (c : Char) :
    cp.Has c ↔ (utf16 c).map (cp.toUnicode ∘ cp.toAnsi) = [c] := by
  unfold utf16
  constructor
  · rintro ⟨b, rfl⟩
    rw [if_pos (cp.oneUnit b), List.map_singleton, Function.comp_apply, cp.back]
  · intro h
    split_ifs at h
    · exact ⟨_, List.singleton_injective h⟩
    · simp at h

/-! ## Names of a directory -/

/-- Every name shown is converted back to the name on the server, and no two names look alike. -/
structure Operable (encoding : ℤ) (cp : CodePage) (names : List CStr) : Prop where
  back : ∀ raw ∈ names, toServerEnc encoding cp (toDisplayEnc encoding cp raw) = raw
  distinct : ∀ raw ∈ names, ∀ raw' ∈ names, raw ≠ raw' →
    toDisplayEnc encoding cp raw ≠ toDisplayEnc encoding cp raw'

/-- The name is UTF-8 for characters of the code page, unless nothing is converted. -/
def Representable (encoding : ℤ) (cp : CodePage) (raw : CStr) : Prop :=
  encoding = 2 ∨ ∃ cs, raw = encode cs ∧ ∀ c ∈ cs, cp.Has c

/-- Characters come back one by one when they are in the code page. -/
theorem map_utf16_eq_iff (cp : CodePage) (cs : List Char) :
    (cs.flatMap utf16).map (cp.toUnicode ∘ cp.toAnsi) = cs ↔ ∀ c ∈ cs, cp.Has c := by
  induction cs with
  | nil => simp
  | cons c cs ih =>
    rw [List.flatMap_cons, List.map_append, List.forall_mem_cons, ← ih, cp.has_iff]
    constructor
    · intro h
      have hlen := congrArg List.length h
      have hrest := length_le_utf16 cs
      have hc := utf16_pos c
      simp only [List.length_append, List.length_map, List.length_cons] at hlen
      have hone : ((utf16 c).map (cp.toUnicode ∘ cp.toAnsi)).length = [c].length := by
        rw [List.length_map, List.length_singleton]
        omega
      exact List.append_inj h hone
    · rintro ⟨hc, hcs⟩
      rw [hc, hcs]
      rfl

/-- What is sent is UTF-8 for characters of the code page. -/
theorem toServerEnc_short {encoding : ℤ} {cp : CodePage} {s : CStr}
    (henc : encoding ≠ 2) (hlen : s.length ≤ 255) :
    toServerEnc encoding cp s = encode (s.map cp.toUnicode) := by
  have hout := length_encode_le (s.map cp.toUnicode)
  rw [List.length_map] at hout
  unfold toServerEnc
  by_cases hnil : s = []
  · subst hnil
    rw [if_pos (Or.inr rfl)]
    rfl
  · rw [if_neg (by simp [henc, hnil]), if_neg (by omega)]
    dsimp only
    rw [if_neg (by omega)]

/-- A name of a server comes back exactly when it is representable. -/
theorem toServerEnc_toDisplayEnc_iff {encoding : ℤ} {cp : CodePage} {raw : CStr}
    (hlen : raw.length ≤ 255) :
    toServerEnc encoding cp (toDisplayEnc encoding cp raw) = raw ↔
    Representable encoding cp raw := by
  by_cases henc : encoding = 2
  · unfold toServerEnc toDisplayEnc Representable
    simp [henc]
  unfold Representable
  simp only [henc, false_or]
  rcases hdecode : decode? raw with _ | cs
  · -- a name that is kept is not kept when it is sent
    have hne : raw ≠ [] := by
      rintro rfl
      exact decode?_eq_none_iff.mp hdecode [] rfl
    have hshown : toDisplayEnc encoding cp raw = raw := by
      unfold toDisplayEnc
      rw [if_neg (by simp [henc, hne]), hdecode]
    rw [hshown, toServerEnc_short henc hlen]
    refine iff_of_false (fun h => ?_) ?_
    · exact decode?_eq_none_iff.mp hdecode _ h.symm
    · rintro ⟨cs, hcs, -⟩
      exact decode?_eq_none_iff.mp hdecode cs hcs
  · obtain rfl := decode?_eq_some_iff.mp hdecode
    have hunits := length_utf16_le cs
    have hshown : toDisplayEnc encoding cp (encode cs) = (cs.flatMap utf16).map cp.toAnsi := by
      unfold toDisplayEnc
      by_cases hnil : encode cs = []
      · have hcs := length_le_encode cs
        rw [hnil, List.length_nil, Nat.le_zero, List.length_eq_zero_iff] at hcs
        rw [if_pos (Or.inr hnil), hcs]
        rfl
      · rw [if_neg (by simp [henc, hnil]), hdecode]
        dsimp only
        rw [if_neg (by omega)]
    rw [hshown, toServerEnc_short henc (by rw [List.length_map]; omega), List.map_map,
      encode_injective.eq_iff,
      map_utf16_eq_iff]
    constructor
    · intro h
      exact ⟨cs, rfl, h⟩
    · rintro ⟨ds, hds, h⟩
      rwa [encode_injective hds]

/-- The names of a directory can be operated on when each of them is representable. -/
theorem names_operable_iff (encoding : ℤ) (cp : CodePage) (names : List CStr)
    (hlen : ∀ raw ∈ names, raw.length ≤ 255) :
    Operable encoding cp names ↔ ∀ raw ∈ names, Representable encoding cp raw := by
  constructor
  · intro h raw hraw
    exact (toServerEnc_toDisplayEnc_iff (hlen raw hraw)).mp (h.back raw hraw)
  · intro h
    have hback : ∀ raw ∈ names, toServerEnc encoding cp (toDisplayEnc encoding cp raw) = raw :=
      fun raw hraw =>
      (toServerEnc_toDisplayEnc_iff (hlen raw hraw)).mpr (h raw hraw)
    refine ⟨hback, fun raw hraw raw' hraw' hne heq => hne ?_⟩
    rw [← hback raw hraw, heq, hback raw' hraw']

/-- ISO 8859-1, where everything else becomes '?'. -/
def CodePage.latin1 : CodePage where
  toUnicode b := Char.ofNat b.toNat
  toAnsi u := if u < 256 then u.toUInt8 else 63
  overflow s := s
  oneUnit := by decide +kernel
  ascii _ _ := rfl
  back := by decide +kernel
  nul u h := by
    split_ifs at h with hu
    · have hbyte := congrArg UInt8.toNat h
      rw [UInt16.toNat_toUInt8] at hbyte
      have hu' := UInt16.lt_iff_toNat_lt.mp hu
      change u.toNat < 256 at hu'
      change u.toNat % 256 = 0 at hbyte
      rw [Nat.mod_eq_of_lt hu'] at hbyte
      exact UInt16.toNat_inj.mp hbyte
    · exact absurd h (by decide)

theorem names_operable_latin1 :
    Operable 0 .latin1 [encode ['a'], encode ['é'], encode ['n', 'é']] :=
  (names_operable_iff 0 .latin1 _ (by decide)).mpr
    (by
      intro raw hraw
      have ha : CodePage.latin1.Has 'a' := ⟨97, by decide⟩
      have he : CodePage.latin1.Has 'é' := ⟨233, by decide⟩
      have hn : CodePage.latin1.Has 'n' := ⟨110, by decide⟩
      simp only [List.mem_cons, List.not_mem_nil, or_false] at hraw
      rcases hraw with rfl | rfl | rfl
      · exact Or.inr ⟨_, rfl, by simp [ha]⟩
      · exact Or.inr ⟨_, rfl, by simp [he]⟩
      · exact Or.inr ⟨_, rfl, by simp [hn, he]⟩)

/-- An "é" that the server has in ISO 8859-1 itself. -/
theorem not_names_operable :
    ¬ ∀ (encoding : ℤ) (cp : CodePage) (names : List CStr), (∀ raw ∈ names, raw.length ≤ 255) →
      Operable encoding cp names := by
  intro h
  have hback := (h 0 .latin1 [[233]] (by decide)).back [233] (by decide)
  rcases (toServerEnc_toDisplayEnc_iff (by decide)).mp hback with henc | ⟨cs, hcs, -⟩
  · exact absurd henc (by decide)
  · exact absurd (lt_of_singleton_eq_encode hcs) (by decide)

end SalamanderSftp
