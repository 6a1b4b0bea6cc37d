import SalamanderSftp.Connection.HostKeySave

/-!
# The file of known hosts

`VerifyHostKey` reads the file of known hosts, and writes it anew when a key is to be saved. What is
written by `knownhost_writeline` is read by `libssh2_knownhost_readline`, as long as each entry has
a line of its own that fits the buffer and can be told from a comment and from a hash.

1. A collection of such entries is read as it was written (`knownhostReadfile_writefile`).
2. A file that is read and written anew holds what it held, but for four kinds of entries
   (`known_hosts_rewritten`).
3. A key that is saved is accepted without a question from then on, and other hosts are judged as
   before (`host_key_saved`).
-/

namespace SalamanderSftp

/-! ## The text of the file -/

/-- What is written as text is read as text, up to a Ctrl-Z. -/
theorem textRead_textWrite {s : Bytes} (h : ∀ c ∈ s, c ≠ 26) : textRead (textWrite s) = s := by
  have hne : ∀ {c : Byte} {s : Bytes}, c ≠ 26 → (c = 13 → ∀ rest, textWrite s ≠ 10 :: rest) →
      textRead (textWrite s) = s → textRead (c :: textWrite s) = c :: s := by
    intro c s hc hcr ih
    rcases hs : textWrite s with _ | ⟨d, rest⟩
    · rw [hs] at ih
      rw [textRead, if_neg hc, ← ih]
      rfl
    · rw [hs] at ih
      rw [textRead, if_neg hc, if_neg, ih]
      rintro ⟨rfl, rfl⟩
      exact hcr rfl rest hs
  have hhead : ∀ (s : Bytes) rest, textWrite s ≠ 10 :: rest := by
    intro s rest
    cases s with
    | nil => exact nofun
    | cons c s =>
      unfold textWrite
      rw [List.flatMap_cons]
      split_ifs with hc
      · exact fun heq => absurd (List.cons.inj heq).1 (by decide)
      · exact fun heq => hc (List.cons.inj heq).1
  induction s with
  | nil => rfl
  | cons c s ih =>
    obtain ⟨hc, hs⟩ := List.forall_mem_cons.mp h
    have hcons : textWrite (c :: s) = (if c = 10 then [13, 10] else [c]) ++ textWrite s := rfl
    rw [hcons]
    split_ifs with hnl
    · rw [hnl]
      show textRead (13 :: 10 :: textWrite s) = 10 :: s
      rw [textRead, if_neg (by decide), if_pos ⟨rfl, rfl⟩, ih hs]
    · exact hne hc (fun _ => hhead s) (ih hs)

theorem mem_textRead {s : Bytes} {c : Byte} (h : c ∈ textRead s) : c ≠ 26 ∧ c ∈ s := by
  fun_induction textRead s with
  | case1 => cases h
  | case2 => cases h
  | case3 d hd => exact ⟨fun hc => hd (List.mem_singleton.mp h ▸ hc), h⟩
  | case4 e rest => cases h
  | case5 d e rest hd hcrlf ih =>
    rcases List.mem_cons.mp h with rfl | h
    · exact ⟨by decide, hcrlf.2 ▸ by simp⟩
    · exact ⟨(ih h).1, List.mem_cons_of_mem _ (List.mem_cons_of_mem _ (ih h).2)⟩
  | case6 d e rest hd hcrlf ih =>
    rcases List.mem_cons.mp h with rfl | h
    · exact ⟨hd, List.mem_cons_self⟩
    · exact ⟨(ih h).1, List.mem_cons_of_mem _ (ih h).2⟩

/-- A character inside a line. -/
def LineByte (c : Byte) : Prop := c ≠ 0 ∧ c ≠ 10 ∧ c ≠ 26

/-- A line that is read in one piece. -/
structure WholeLine (line : CStr) : Prop where
  ends : ∃ text, line = text ++ [10] ∧ ∀ c ∈ text, LineByte c
  fits : line.length + 1 ≤ lineBufSize

theorem knownHostsLines_flatten {lines : List CStr} (h : ∀ line ∈ lines, WholeLine line) :
    knownHostsLines (textWrite lines.flatten) = lines := by
  have hbytes : ∀ c ∈ lines.flatten, c ≠ 26 := by
    intro c hc
    obtain ⟨line, hline, hc⟩ := List.mem_flatten.mp hc
    obtain ⟨text, rfl, htext⟩ := (h line hline).ends
    rcases List.mem_append.mp hc with hc | hc
    · exact (htext c hc).2.2
    · rw [List.mem_singleton.mp hc]
      decide
  have hpieces : BufferedLines.pieces 10 (lineBufSize - 1) lines.flatten = lines := by
    refine BufferedLines.pieces_flatten fun line hline => ?_
    have hfits := (h line hline).fits
    obtain ⟨text, rfl, htext⟩ := (h line hline).ends
    refine ⟨text, rfl, fun hmem => (htext 10 hmem).2.1 rfl, ?_⟩
    rw [List.length_append, List.length_singleton] at hfits
    omega
  unfold knownHostsLines
  rw [textRead_textWrite hbytes, hpieces]
  refine (List.map_congr_left fun line hline => ?_).trans (List.map_id lines)
  obtain ⟨text, rfl, htext⟩ := (h line hline).ends
  refine List.takeWhile_eq_self_iff.mpr fun c hc => ?_
  rcases List.mem_append.mp hc with hc | hc
  · simpa using (htext c hc).1
  · rw [List.mem_singleton.mp hc]
    decide

/-! ## One line -/

/-- Something without blanks in it. -/
structure Word (s : CStr) : Prop where
  ne_nil : s ≠ []
  noBlank : ∀ c ∈ s, isBlank c = false

theorem Word.takeWhile {s rest : CStr} (h : Word s) :
    ((s ++ 32 :: rest).takeWhile fun c => !isBlank c) = s := by
  rw [List.takeWhile_append_of_pos fun c hc =>
    by simp [h.noBlank c hc], List.takeWhile_cons_of_neg (by decide),
    List.append_nil]

theorem Word.dropWhile {s rest : CStr} (h : Word s) :
    ((s ++ 32 :: rest).dropWhile fun c => !isBlank c) = 32 :: rest := by
  rw [List.dropWhile_append_of_pos fun c hc =>
    by simp [h.noBlank c hc], List.dropWhile_cons_of_neg (by decide)]

theorem Word.takeWhile_self {s : CStr} (h : Word s) : (s.takeWhile fun c => !isBlank c) = s :=
  List.takeWhile_eq_self_iff.mpr fun c hc => by simp [h.noBlank c hc]

theorem Word.dropWhile_self {s : CStr} (h : Word s) : (s.dropWhile fun c => !isBlank c) = [] :=
  List.dropWhile_eq_nil_iff.mpr fun c hc => by simp [h.noBlank c hc]

/-- It does not begin with a blank. -/
def Flush (s : CStr) : Prop := s.dropWhile isBlank = s

theorem flush_cons {c : Byte} {s : CStr} (h : isBlank c = false) : Flush (c :: s) :=
  List.dropWhile_cons_of_neg (by simp [h])

theorem flush_dropWhile (s : CStr) :
    Flush (s.dropWhile isBlank) := List.dropWhile_idempotent isBlank s

theorem Flush.head {c : Byte} {s : CStr} (h : Flush (c :: s)) : isBlank c = false := by
  by_contra hblank
  rw [Bool.not_eq_false] at hblank
  have hlength := List.length_dropWhile_le isBlank s
  unfold Flush at h
  rw [List.dropWhile_cons_of_pos hblank] at h
  rw [h, List.length_cons] at hlength
  omega

theorem Flush.takeWhile {s : CStr} (h : Flush s) (p : Byte → Bool) : Flush (s.takeWhile p) := by
  rcases s with _ | ⟨c, s⟩
  · rfl
  by_cases hp : p c = true
  · rw [List.takeWhile_cons_of_pos hp]
    exact flush_cons h.head
  · rw [List.takeWhile_cons_of_neg hp]
    rfl

theorem Word.flush {s : CStr} (h : Word s) (rest : CStr) : Flush (s ++ rest) := by
  obtain ⟨c, s, rfl⟩ := List.exists_cons_of_ne_nil h.ne_nil
  exact flush_cons (h.noBlank c List.mem_cons_self)

theorem dropWhile_blank {s : CStr} (h : Flush s) : (32 :: s).dropWhile isBlank = s := by
  rw [List.dropWhile_cons_of_pos (by decide)]
  exact h

/-- The end of a line, behind its key. -/
def commentText : Option CStr → CStr
  | none => []
  | some c => 32 :: c

/-- A key with its type in front and its comment behind is taken apart again. -/
theorem splitKey_typed {typeName key : CStr} {comment : Option CStr} (htype : Word typeName)
    (hdigit : ∀ c ∈ typeName.head?, isDigit c = false) (hkey : Word key)
    (hcomment : ∀ c ∈ comment, Flush c) :
    splitKey (typeName ++ 32 :: (key ++ commentText comment)) =
      ⟨keyTypeOf typeName, some typeName, key, comment⟩ := by
  obtain ⟨c, cs, rfl⟩ := List.exists_cons_of_ne_nil htype.ne_nil
  have hc : isDigit c = false := hdigit c rfl
  have hsplit : ∀ rest : CStr, splitKey (c :: cs ++ 32 :: rest) =
      ⟨keyTypeOf (c :: cs), some (c :: cs), (rest.dropWhile isBlank).takeWhile fun c => !isBlank c,
        if ((rest.dropWhile isBlank).dropWhile fun c => !isBlank c) = [] then none
        else some
          (((rest.dropWhile isBlank).dropWhile fun c => !isBlank c).dropWhile isBlank)⟩ := by
    intro rest
    show splitKey (c :: (cs ++ 32 :: rest)) = _
    unfold splitKey
    dsimp only
    rw [hc, if_neg (by simp)]
    rw [← List.cons_append, htype.takeWhile, htype.dropWhile,
      List.dropWhile_cons_of_pos (by decide)]
  rw [hsplit, hkey.flush]
  cases comment with
  | none =>
    rw [commentText, List.append_nil, hkey.takeWhile_self, hkey.dropWhile_self, if_pos rfl]
  | some text =>
    rw [commentText, hkey.takeWhile, hkey.dropWhile, if_neg (by simp),
      dropWhile_blank (hcomment text rfl)]

theorem knownhostReadline_eq {host field : CStr} (hhost : Word host)
    (hstart : ∀ c ∈ host.head?, c ≠ 35 ∧ c ≠ 10)
    (hfield : Flush field) (hne : field ≠ []) (hbytes : 10 ∉ field)
    (hfits : (host ++ 32 :: (field ++ [10])).length ≤ KNOWNHOST_MAX_LEN) :
    knownhostReadline (host ++ 32 :: (field ++ [10])) = knownhostLine host field := by
  obtain ⟨c, cs, rfl⟩ := List.exists_cons_of_ne_nil hhost.ne_nil
  obtain ⟨hc, hnl⟩ := hstart c rfl
  have hflush : Flush (field ++ [10]) := by
    obtain ⟨d, ds, rfl⟩ := List.exists_cons_of_ne_nil hne
    exact flush_cons hfield.head
  have hline : (c :: cs ++ 32 :: (field ++ [10])).dropWhile isBlank =
      c :: (cs ++ 32 :: (field ++ [10])) :=
    hhost.flush _
  have hkept : ∀ d ∈ field, decide (d ≠ 10) = true := by
    intro d hd
    rw [decide_eq_true_eq]
    rintro rfl
    exact hbytes hd
  unfold knownhostReadline
  rw [if_neg (Nat.not_lt.mpr hfits), hline]
  dsimp only
  rw [if_neg (by simp [hc, hnl]), ← List.cons_append, hhost.takeWhile,
    hhost.dropWhile, dropWhile_blank hflush,
    if_neg (by simp), List.takeWhile_append_of_pos hkept,
      List.takeWhile_cons_of_neg (by decide), List.append_nil]

/-! ## An entry in its line -/

/-- The text behind the name. -/
def KnownHost.field (e : KnownHost) (typeName : CStr) : CStr :=
  (if typeName = [] then [] else typeName ++ [32]) ++ e.key ++ commentText e.comment

theorem knownhostWriteline_eq (e : KnownHost) :
    knownhostWriteline e = (e.typeText).bind fun typeName =>
    (e.name.text).bind fun host =>
      if (host ++ 32 :: (e.field typeName ++ [10])).length + 1 ≤ lineBufSize then
        some (host ++ 32 :: (e.field typeName ++ [10]))
      else none := by
  unfold knownhostWriteline KnownHost.field commentText
  rcases e.typeText with _ | typeName
  · rfl
  rcases e.name.text with _ | host
  · rfl
  simp only [bind, Option.bind, guard, List.append_assoc, List.cons_append, List.nil_append]
  cases e.comment <;> simp only [List.cons_append, List.nil_append] <;> split_ifs <;> rfl

/-- The name can be told from a comment, a hash and a list of names. -/
def KnownHostName.Readable : KnownHostName → Prop
  | .plain name =>
    Word name ∧ name.head? ≠ some 35 ∧ name.take 3 ≠ ascii "|1|" ∧ name.length < hostbufSize - 1 ∧
      44 ∉ name.dropLast
  | .sha1 salt hash =>
    (Base64.encode salt).length < saltbufSize - 1 ∧ (Base64.encode hash).length < hostbufSize - 1

/-- The key can be told from its type and its comment. -/
def KnownHost.KeyReadable (e : KnownHost) : Prop :=
  match e.key_type with
  | .RSA1 => e.key_type_name = none ∧ e.comment = none ∧ ∃ c ∈ e.key.head?, isDigit c = true
  | .UNKNOWN => Word e.key ∧ (∀ c ∈ e.comment, Flush c) ∧
      ∃ typeName, e.key_type_name = some typeName ∧ Word typeName ∧
      keyTypeOf typeName = .UNKNOWN ∧ ∀ c ∈ typeName.head?, isDigit c = false
  | _ => Word e.key ∧ (∀ c ∈ e.comment, Flush c) ∧ e.key_type_name = none

/-- An entry with a line that is read as that entry. -/
structure KnownHost.Readable (e : KnownHost) : Prop where
  line : ∃ line, knownhostWriteline e = some line ∧ ∀ c ∈ line.dropLast, LineByte c
  long : ∀ typeName ∈ e.typeText, 20 ≤ (e.field typeName).length
  name : e.name.Readable
  key : e.KeyReadable

theorem keyTypeNames_read :
    ∀ t ∈ keyTypeNames, keyTypeOf t.1 = t.2 ∧ (t.1 ≠ [] ∧ ∀ c ∈ t.1, isBlank c = false) ∧
    ∀ c ∈ t.1.head?, isDigit c = false := by
  decide +kernel

theorem typeText_cases {e : KnownHost} {typeName : CStr} (htype : e.typeText = some typeName) :
    (e.key_type = .RSA1 ∧ typeName = []) ∨
    (e.key_type = .UNKNOWN ∧ e.key_type_name = some typeName) ∨
      (typeName, e.key_type) ∈ keyTypeNames := by
  unfold KnownHost.typeText at htype
  rcases hcase : e.key_type <;> rw [hcase] at htype
  case RSA1 => exact .inl ⟨rfl, (Option.some.inj htype).symm⟩
  case UNKNOWN => exact .inr (.inl ⟨rfl, htype⟩)
  all_goals
    obtain rfl := Option.some.inj htype
    simp [keyTypeNames]

theorem keyTypeOf_typeText {e : KnownHost} {typeName : CStr} (htype : e.typeText = some typeName)
    (hrsa1 : e.key_type ≠ .RSA1)
    (hunknown : e.key_type ≠ .UNKNOWN) :
    keyTypeOf typeName = e.key_type ∧ Word typeName ∧ ∀ c ∈ typeName.head?, isDigit c = false := by
  have hmem : (typeName, e.key_type) ∈ keyTypeNames :=
    ((typeText_cases htype).resolve_left fun h => hrsa1 h.1).resolve_left fun h => hunknown h.1
  obtain ⟨hkeyType, ⟨hne, hblank⟩, hdigit⟩ := keyTypeNames_read _ hmem
  exact ⟨hkeyType, ⟨hne, hblank⟩, hdigit⟩

/-- What stands behind the name is taken apart into the key, its type and its comment. -/
theorem splitKey_field {e : KnownHost} {typeName : CStr}
    (htype : e.typeText = some typeName) (hkey : e.KeyReadable) :
    (splitKey (e.field typeName)).key_type = e.key_type ∧
    (splitKey (e.field typeName)).key = e.key ∧
      (splitKey (e.field typeName)).comment = e.comment ∧
      (if e.key_type = .UNKNOWN then (splitKey (e.field typeName)).key_type_name else none) =
        e.key_type_name ∧
      Flush (e.field typeName) ∧ e.key ≠ [] := by
  have htyped : ∀ {t : CStr}, typeName = t → Word t →
      (∀ c ∈ t.head?, isDigit c = false) → Word e.key →
      (∀ c ∈ e.comment, Flush c) →
        splitKey (e.field typeName) = ⟨keyTypeOf t, some t, e.key, e.comment⟩ ∧
        Flush (e.field typeName) := by
    rintro t rfl ht hdigit hword hcomment
    have hfield : e.field typeName = typeName ++ 32 :: (e.key ++ commentText e.comment) := by
      unfold KnownHost.field
      rw [if_neg ht.ne_nil]
      simp
    rw [hfield]
    exact ⟨splitKey_typed ht hdigit hword hcomment, ht.flush _⟩
  rcases hcase : e.key_type
  case RSA1 =>
    unfold KnownHost.KeyReadable at hkey
    rw [hcase] at hkey
    obtain ⟨hname, hcomment, c, hc, hdigit⟩ := hkey
    obtain rfl : typeName = [] := by
      unfold KnownHost.typeText at htype
      rw [hcase] at htype
      exact (Option.some.inj htype).symm
    obtain ⟨key, hkey⟩ : ∃ key, e.key = c :: key := by
      rcases hk : e.key with _ | ⟨d, key⟩
      · rw [hk] at hc
        cases hc
      · rw [hk] at hc
        obtain rfl := Option.some.inj hc
        exact ⟨key, rfl⟩
    have hfield : e.field [] = c :: key := by
      unfold KnownHost.field
      rw [if_pos rfl, hcomment, hkey]
      exact List.append_nil _
    have hblank : isBlank c = false := by
      unfold isBlank isDigit at *
      grind
    have hsplit : splitKey (c :: key) = ⟨.RSA1, none, c :: key, none⟩ := by
      unfold splitKey
      exact if_pos hdigit
    rw [hfield, hsplit, hcomment, hname, hkey]
    exact ⟨rfl, rfl, rfl, rfl, flush_cons hblank, List.cons_ne_nil _ _⟩
  case UNKNOWN =>
    unfold KnownHost.KeyReadable at hkey
    rw [hcase] at hkey
    obtain ⟨hword, hcomment, t, hname, ht, hkeyType, hdigit⟩ := hkey
    have htypeName : typeName = t := by
      unfold KnownHost.typeText at htype
      rw [hcase, hname] at htype
      exact (Option.some.inj htype).symm
    obtain ⟨heq, hflush⟩ := htyped htypeName ht hdigit hword hcomment
    rw [heq]
    exact ⟨hkeyType, rfl, rfl, hname.symm, hflush, hword.ne_nil⟩
  all_goals
    unfold KnownHost.KeyReadable at hkey
    rw [hcase] at hkey
    obtain ⟨hword, hcomment, hname⟩ := hkey
    obtain ⟨hkeyType, ht, hdigit⟩ :=
      keyTypeOf_typeText htype (by rw [hcase]; decide) (by rw [hcase]; decide)
    obtain ⟨heq, hflush⟩ := htyped rfl ht hdigit hword hcomment
    rw [heq]
    exact ⟨hkeyType.trans hcase, rfl, rfl, hname.symm, hflush, hword.ne_nil⟩

theorem knownhostAdd_eq {e : KnownHost} {type : KnownHostType} {host : CStr}
    {salt typeName : Option CStr}
    (hname : knownhostName type host salt = some e.name) (hkey : e.key ≠ [])
    (htype : (if e.key_type = .UNKNOWN then typeName else none) = e.key_type_name)
    (hfits : host.length ≤ KNOWNHOST_MAX_LEN ∧ e.key.length ≤ KNOWNHOST_MAX_LEN ∧
      (∀ t ∈ e.key_type_name, t.length ≤ KNOWNHOST_MAX_LEN) ∧
        ∀ c ∈ e.comment, c.length ≤ KNOWNHOST_MAX_LEN) :
    knownhostAdd type e.key_type true host salt typeName e.key e.comment = some e := by
  unfold knownhostAdd
  simp only [bind, Option.bind, guard, htype, hname, if_pos hkey,
    if_pos (And.intro hfits.1 hfits.2.1), if_pos hfits.2.2.1,
    if_pos hfits.2.2.2, if_true]
  rfl

theorem legacyNames_single {name : CStr} (hne : name ≠ []) (hcomma : 44 ∉ name.dropLast) :
    legacyNames [] name.reverse = [name] := by
  have hone : ∀ (rest cur : CStr) (c : Byte), 44 ∉ rest →
      legacyNames cur (c :: rest) = [rest.reverse ++ c :: cur] := by
    intro rest
    induction rest with
    | nil => exact fun cur c _ => rfl
    | cons d rest ih =>
      intro cur c hd
      have hne : d ≠ 44 := fun heq => hd (heq ▸ List.mem_cons_self)
      rw [legacyNames, if_neg hne, ih _ _ fun hmem => hd (List.mem_cons_of_mem d hmem)]
      simp
  obtain ⟨front, c, rfl⟩ := List.eq_nil_or_concat name |>.resolve_left hne
  rw [List.concat_eq_append] at hcomma ⊢
  rw [List.dropLast_concat] at hcomma
  rw [List.reverse_append, List.reverse_singleton, List.singleton_append,
    hone _ _ _ (by simpa using hcomma),
    List.reverse_reverse]

theorem ascii_hashMark : ascii "|1|" = [124, 49, 124] := by decide +kernel

theorem hashed_parts (salt hash : Bytes) :
    ((ascii "|1|" ++ Base64.encode salt ++ [124] ++ Base64.encode hash).drop 3).takeWhile
      (· ≠ 124) = Base64.encode salt ∧
      ((ascii "|1|" ++ Base64.encode salt ++ [124] ++ Base64.encode hash).drop 3).dropWhile
        (· ≠ 124) =
        124 :: Base64.encode hash := by
  have hdrop : (ascii "|1|" ++ Base64.encode salt ++ [124] ++ Base64.encode hash).drop 3 =
      Base64.encode salt ++ 124 :: Base64.encode hash := by
    rw [List.append_assoc, List.append_assoc]
    rfl
  have hbar : ∀ c ∈ Base64.encode salt, decide (c ≠ 124) = true := by
    intro c hc
    have hle := Base64.le_of_mem_encode hc
    rw [decide_eq_true_eq]
    rintro rfl
    exact absurd hle (by decide)
  rw [hdrop, List.takeWhile_append_of_pos hbar, List.dropWhile_append_of_pos hbar,
    List.takeWhile_cons_of_neg (by decide),
    List.dropWhile_cons_of_neg (by decide), List.append_nil]
  exact ⟨rfl, rfl⟩

theorem word_nameText {e : KnownHost} {host : CStr} (hname : e.name.Readable)
    (hhost : e.name.text = some host) :
    Word host ∧ ∀ c ∈ host.head?, c ≠ 35 := by
  rcases hn : e.name with name | ⟨salt, hash⟩
  · rw [hn] at hname hhost
    obtain rfl := Option.some.inj hhost
    obtain ⟨hword, hstart, -⟩ := hname
    exact ⟨hword, fun c hc heq => hstart (heq ▸ hc)⟩
  · rw [hn] at hhost
    unfold KnownHostName.text at hhost
    dsimp only at hhost
    split_ifs at hhost
    obtain rfl := Option.some.inj hhost
    have hblank : ∀ s : Bytes, ∀ c ∈ Base64.encode s, isBlank c = false := by
      intro s c hc
      have hge := Base64.ge_of_mem_encode hc
      unfold isBlank
      grind
    rw [ascii_hashMark]
    refine ⟨⟨List.cons_ne_nil _ _, fun c hc => ?_⟩, fun c hc => ?_⟩
    · simp only [List.mem_append, List.mem_cons, List.not_mem_nil, or_false] at hc
      rcases hc with (((rfl | rfl | rfl) | hc) | rfl) | hc
      · decide
      · decide
      · decide
      · exact hblank salt c hc
      · decide
      · exact hblank hash c hc
    · obtain rfl : 124 = c := Option.some.inj hc
      decide

theorem KnownHost.KeyReadable.typeName_eq {e : KnownHost} {typeName t : CStr} (h : e.KeyReadable)
    (htype : e.typeText = some typeName) (ht : t ∈ e.key_type_name) : typeName = t := by
  unfold KnownHost.KeyReadable at h
  unfold KnownHost.typeText at htype
  rcases hcase : e.key_type <;> rw [hcase] at h htype
  case UNKNOWN => exact Option.some.inj (htype.symm.trans ht)
  case RSA1 =>
    rw [h.1] at ht
    cases ht
  all_goals
    rw [h.2.2] at ht
    cases ht

theorem KnownHost.Readable.fits_fields {e : KnownHost} {typeName host name : CStr} (h : e.Readable)
    (htype : e.typeText = some typeName) (hhost : e.name.text = some host)
    (hname : name.length ≤ host.length) :
    name.length ≤ KNOWNHOST_MAX_LEN ∧ e.key.length ≤ KNOWNHOST_MAX_LEN ∧
      (∀ t ∈ e.key_type_name, t.length ≤ KNOWNHOST_MAX_LEN) ∧
      ∀ c ∈ e.comment, c.length ≤ KNOWNHOST_MAX_LEN := by
  obtain ⟨line, hline, -⟩ := h.line
  rw [knownhostWriteline_eq, htype, hhost, Option.bind_some, Option.bind_some] at hline
  split_ifs at hline with hfits
  unfold lineBufSize at hfits
  simp only [List.length_append, List.length_cons, KnownHost.field] at hfits
  unfold KNOWNHOST_MAX_LEN
  refine ⟨by omega, by omega, fun t ht => ?_, fun c hc => ?_⟩
  · obtain rfl := h.key.typeName_eq htype ht
    split_ifs at hfits with hempty
    · rw [hempty]
      exact Nat.zero_le _
    · rw [List.length_append] at hfits
      omega
  · rw [Option.mem_def] at hc
    rw [hc, commentText, List.length_cons] at hfits
    omega

theorem knownhostLine_eq {e : KnownHost} {typeName host : CStr} (h : e.Readable)
    (htype : e.typeText = some typeName)
    (hhost : e.name.text = some host) : knownhostLine host (e.field typeName) = ([e], true) := by
  obtain ⟨hkeyType, hkey, hcomment, hname, hflush, hne⟩ := splitKey_field htype h.key
  have hadd : ∀ {type : KnownHostType} {name : CStr} {salt : Option CStr},
      knownhostName type name salt = some e.name →
      name.length ≤ host.length →
        knownhostAdd type (splitKey (e.field typeName)).key_type true name salt
        (splitKey (e.field typeName)).key_type_name (splitKey (e.field typeName)).key
        (splitKey (e.field typeName)).comment = some e := by
    intro type name salt hread hlength
    rw [hkeyType, hkey, hcomment]
    exact knownhostAdd_eq hread hne hname (h.fits_fields htype hhost hlength)
  unfold knownhostLine
  rw [if_neg (Nat.not_lt.mpr (h.long typeName htype))]
  dsimp only
  rw [if_neg (by rw [hkey]; exact hne)]
  rcases hn : e.name with name | ⟨salt, hash⟩
  · have hreadable := h.name
    rw [hn] at hreadable hhost
    obtain rfl := Option.some.inj hhost
    obtain ⟨hword, -, hmark, hfits, hcomma⟩ := hreadable
    rw [if_pos (.inr hmark), knownhostLineLegacy, if_neg hword.ne_nil,
      legacyNames_single hword.ne_nil hcomma, addNames,
      if_neg (Nat.not_le.mpr hfits), hadd (by rw [hn]; rfl) le_rfl]
    rfl
  · have hreadable := h.name
    rw [hn] at hreadable hhost
    unfold KnownHostName.text at hhost
    dsimp only at hhost
    split_ifs at hhost with hempty
    obtain ⟨hsalt, hhash⟩ := not_or.mp hempty
    obtain rfl := Option.some.inj hhost
    obtain ⟨hsaltFits, hhashFits⟩ := hreadable
    have hmark : ¬ ((ascii "|1|" ++ Base64.encode salt ++ [124] ++ Base64.encode hash).length < 3 ∨
        (ascii "|1|" ++ Base64.encode salt ++ [124] ++ Base64.encode hash).take 3 ≠
          ascii "|1|") := by
      rw [ascii_hashMark]
      simp
    have hread :
        knownhostName .SHA1 (Base64.encode hash) (some (Base64.encode salt)) = some e.name := by
      rw [hn]
      unfold knownhostName
      have hsaltLength : (Base64.encode salt).length ≤ KNOWNHOST_MAX_LEN := by
        unfold saltbufSize at hsaltFits
        unfold KNOWNHOST_MAX_LEN
        omega
      simp only [Base64.decode_encode, bind, Option.bind, guard, ne_eq, hsalt, hhash, hsaltLength,
        not_false_eq_true, if_true]
      rfl
    have hlength : (Base64.encode hash).length ≤
        (ascii "|1|" ++ Base64.encode salt ++ [124] ++ Base64.encode hash).length := by
      simp only [List.length_append]
      omega
    rw [if_neg hmark, knownhostLineHashed]
    simp only [(hashed_parts salt hash).1, (hashed_parts salt hash).2]
    rw [if_neg (by omega), hadd hread hlength]

/-- What is written for an entry is read as that entry. -/
theorem knownhostReadline_writeline {e : KnownHost} (h : e.Readable) :
    ∃ line, knownhostWriteline e = some line ∧ WholeLine line ∧
    knownhostReadline line = ([e], true) := by
  obtain ⟨line, hline, hbytes⟩ := h.line
  refine ⟨line, hline, ?_⟩
  have hparts := hline
  rw [knownhostWriteline_eq] at hparts
  obtain ⟨typeName, htype, hparts⟩ := Option.bind_eq_some_iff.mp hparts
  obtain ⟨host, hhost, hparts⟩ := Option.bind_eq_some_iff.mp hparts
  split_ifs at hparts with hfits
  obtain rfl := Option.some.inj hparts
  have hdrop : (host ++ 32 :: (e.field typeName ++ [10])).dropLast =
      host ++ 32 :: e.field typeName := by
    rw [← List.cons_append, ← List.append_assoc, List.dropLast_concat]
  rw [hdrop] at hbytes
  obtain ⟨-, -, -, -, hflush, hne⟩ := splitKey_field htype h.key
  obtain ⟨hword, hstart⟩ := word_nameText h.name hhost
  refine ⟨⟨⟨host ++ 32 :: e.field typeName, by simp, hbytes⟩, hfits⟩, ?_⟩
  have hfield : e.field typeName ≠ [] := by
    unfold KnownHost.field
    simp [hne]
  have hfirst : ∀ c ∈ host.head?, c ≠ 35 ∧ c ≠ 10 := fun c hc =>
    ⟨hstart c hc, (hbytes c (List.mem_append_left _ (List.mem_of_mem_head? hc))).2.1⟩
  have hplain : 10 ∉ e.field typeName := fun hmem =>
    (hbytes 10 (List.mem_append_right _ (List.mem_cons_of_mem _ hmem))).2.1 rfl
  have hlength : (host ++ 32 :: (e.field typeName ++ [10])).length ≤ KNOWNHOST_MAX_LEN := by
    unfold lineBufSize at hfits
    unfold KNOWNHOST_MAX_LEN
    omega
  rw [knownhostReadline_eq hword hfirst hflush hfield hplain hlength]
  exact knownhostLine_eq h htype hhost

/-- A collection is read as it was written. -/
theorem knownhostReadfile_writefile {nodes : List KnownHost} (h : ∀ e ∈ nodes, e.Readable) :
    knownhostReadfile (some (knownhostWritefile nodes)) = nodes := by
  have hlines : ∃ lines : List CStr, writeLines nodes = lines.flatten ∧
      (∀ line ∈ lines, WholeLine line) ∧
      readLines lines = nodes := by
    induction nodes with
    | nil => exact ⟨[], rfl, nofun, rfl⟩
    | cons e nodes ih =>
      obtain ⟨he, hnodes⟩ := List.forall_mem_cons.mp h
      obtain ⟨lines, hwrite, hwhole, hread⟩ := ih hnodes
      obtain ⟨line, hline, hwholeLine, hreadline⟩ := knownhostReadline_writeline he
      refine ⟨line :: lines, ?_, List.forall_mem_cons.mpr ⟨hwholeLine, hwhole⟩, ?_⟩
      · rw [writeLines, hline, hwrite]
        rfl
      · rw [readLines, hreadline, if_pos rfl, hread]
        rfl
  obtain ⟨lines, hwrite, hwhole, hread⟩ := hlines
  unfold knownhostReadfile knownhostWritefile
  rw [Option.map_some, Option.getD_some, hwrite, knownHostsLines_flatten hwhole, hread]

/-! ## What is read -/

theorem mem_legacyNames {cur l : CStr} (hcur : 44 ∉ cur.dropLast)
    (hhead : cur ≠ [] → ∀ d ∈ l.head?, d ≠ 44) {n : CStr}
    (hn : n ∈ legacyNames cur l) : n ≠ [] ∧ 44 ∉ n.dropLast ∧ ∀ c ∈ n, c ∈ cur ∨ c ∈ l := by
  have hgrow : ∀ {cur : CStr} {c : Byte}, 44 ∉ cur.dropLast → (cur ≠ [] → c ≠ 44) →
      44 ∉ (c :: cur).dropLast := by
    intro cur c hcur hc
    cases cur with
    | nil => exact List.not_mem_nil
    | cons d cur =>
      rw [List.dropLast_cons_of_ne_nil (List.cons_ne_nil d cur), List.mem_cons]
      rintro (heq | hmem)
      · exact hc (List.cons_ne_nil d cur) heq.symm
      · exact hcur hmem
  fun_induction legacyNames cur l with
  | case1 => cases hn
  | case2 cur c =>
    obtain rfl := List.mem_singleton.mp hn
    refine ⟨List.cons_ne_nil c cur, hgrow hcur fun hne => hhead hne c rfl, fun d hd => ?_⟩
    rcases List.mem_cons.mp hd with rfl | hd
    · exact .inr List.mem_cons_self
    · exact .inl hd
  | case3 cur c rest ih =>
    rcases List.mem_cons.mp hn with rfl | hn
    · refine ⟨List.cons_ne_nil c cur, hgrow hcur fun hne => hhead hne c rfl, fun d hd => ?_⟩
      rcases List.mem_cons.mp hd with rfl | hd
      · exact .inr List.mem_cons_self
      · exact .inl hd
    · obtain ⟨hne, hcomma, hfrom⟩ := ih List.not_mem_nil (absurd rfl) hn
      refine ⟨hne, hcomma, fun d hd => .inr ?_⟩
      exact List.mem_cons_of_mem _
        (List.mem_cons_of_mem _ ((hfrom d hd).resolve_left List.not_mem_nil))
  | case4 cur c d rest hd ih =>
    obtain ⟨hne, hcomma, hfrom⟩ := ih (hgrow hcur fun hne => hhead hne c rfl)
      (fun _ e he => Option.some.inj he ▸ hd) hn
    refine ⟨hne, hcomma, fun e he => ?_⟩
    rcases hfrom e he with he | he
    · rcases List.mem_cons.mp he with rfl | he
      · exact .inr List.mem_cons_self
      · exact .inl he
    · exact .inr (List.mem_cons_of_mem _ he)

theorem mem_addNames {add : CStr → Option KnownHost} {names : List CStr} {e : KnownHost}
    (h : e ∈ (addNames add names).1) :
    ∃ name ∈ names, name.length < hostbufSize - 1 ∧ add name = some e := by
  induction names with
  | nil => cases h
  | cons name names ih =>
    rw [addNames] at h
    split_ifs at h with hfits
    · cases h
    · rcases hadd : add name with _ | e'
      · rw [hadd] at h
        cases h
      · rw [hadd] at h
        rcases List.mem_cons.mp h with rfl | h
        · exact ⟨name, List.mem_cons_self, Nat.lt_of_not_le hfits, hadd⟩
        · obtain ⟨name', hname', hrest⟩ := ih h
          exact ⟨name', List.mem_cons_of_mem _ hname', hrest⟩

theorem eq_of_knownhostAdd {type : KnownHostType} {key_type : KnownHostKey} {host : CStr}
    {salt typeName comment : Option CStr}
    {key : CStr} {e : KnownHost}
    (h : knownhostAdd type key_type true host salt typeName key comment = some e) :
    ∃ name, knownhostName type host salt = some name ∧ key ≠ [] ∧
      e = ⟨name, key_type, key, if key_type = .UNKNOWN then typeName else none, comment⟩ := by
  unfold knownhostAdd at h
  obtain ⟨⟨⟩, hkey, h⟩ := Option.bind_eq_some_iff.mp h
  obtain ⟨-, -, h⟩ := Option.bind_eq_some_iff.mp h
  obtain ⟨name, hname, h⟩ := Option.bind_eq_some_iff.mp h
  obtain ⟨-, -, h⟩ := Option.bind_eq_some_iff.mp h
  obtain ⟨-, -, h⟩ := Option.bind_eq_some_iff.mp h
  refine ⟨name, hname, ?_, (Option.some.inj h).symm⟩
  rintro rfl
  cases hkey

theorem keyTypeOf_ne_rsa1 (name : CStr) : keyTypeOf name ≠ .RSA1 := by
  unfold keyTypeOf
  rcases hfind : keyTypeNames.find? fun t => name.isPrefixOf t.1 with _ | t
  · rw [hfind]
    exact nofun
  · have hmem := List.mem_of_find?_eq_some hfind
    rw [hfind]
    exact (show ∀ t ∈ keyTypeNames, t.2 ≠ .RSA1 by decide) t hmem

theorem splitKey_readable {k : CStr} (hne : k ≠ []) (hflush : Flush k)
    (hkey : (splitKey k).key ≠ []) (name : KnownHostName) :
    KnownHost.KeyReadable ⟨name, (splitKey k).key_type, (splitKey k).key,
      if (splitKey k).key_type = .UNKNOWN then (splitKey k).key_type_name else none,
        (splitKey k).comment⟩ := by
  obtain ⟨c, cs, rfl⟩ := List.exists_cons_of_ne_nil hne
  have hblank : isBlank c = false := hflush.head
  have htake : ∀ s : CStr, (s.takeWhile fun c => !isBlank c) ≠ [] →
      Word (s.takeWhile fun c => !isBlank c) := by
    intro s hs
    exact ⟨hs, fun d hd => by simpa using List.mem_takeWhile_imp hd⟩
  by_cases hdigit : isDigit c = true
  · have hsplit : splitKey (c :: cs) = ⟨.RSA1, none, c :: cs, none⟩ := by
      unfold splitKey
      exact if_pos hdigit
    rw [hsplit]
    exact ⟨rfl, rfl, c, rfl, hdigit⟩
  · have hsplit := show splitKey (c :: cs) = _ from if_neg hdigit
    rw [hsplit] at hkey ⊢
    have hcomment :
        ∀ t : CStr, ∀ d ∈ (if t = [] then none else some (t.dropWhile isBlank)), Flush d := by
      intro t d hd
      split_ifs at hd
      · cases hd
      · obtain rfl := Option.some.inj hd
        exact flush_dropWhile t
    have htypeName : Word ((c :: cs).takeWhile fun c => !isBlank c) := by
      refine htake _ ?_
      rw [List.takeWhile_cons_of_pos (by simp [hblank])]
      exact List.cons_ne_nil _ _
    have hhead : ∀ d ∈ ((c :: cs).takeWhile fun c => !isBlank c).head?, isDigit d = false := by
      intro d hd
      rw [List.takeWhile_cons_of_pos (by simp [hblank])] at hd
      obtain rfl := Option.some.inj hd
      exact Bool.not_eq_true _ ▸ hdigit
    unfold KnownHost.KeyReadable
    dsimp only
    rcases hcase : keyTypeOf ((c :: cs).takeWhile fun c => !isBlank c)
    case RSA1 => exact absurd hcase (keyTypeOf_ne_rsa1 _)
    case UNKNOWN => exact ⟨htake _ hkey, hcomment _, _, rfl, htypeName, hcase, hhead⟩
    all_goals exact ⟨htake _ hkey, hcomment _, rfl⟩

theorem knownhostName_sha1 {host : CStr} {salt : Option CStr} {name : KnownHostName}
    (h : knownhostName .SHA1 host salt = some name) : ∃ salt hash, name = .sha1 salt hash := by
  unfold knownhostName at h
  obtain ⟨hash, -, h⟩ := Option.bind_eq_some_iff.mp h
  obtain ⟨-, -, h⟩ := Option.bind_eq_some_iff.mp h
  obtain ⟨text, -, h⟩ := Option.bind_eq_some_iff.mp h
  obtain ⟨-, -, h⟩ := Option.bind_eq_some_iff.mp h
  obtain ⟨salt, -, h⟩ := Option.bind_eq_some_iff.mp h
  obtain ⟨-, -, h⟩ := Option.bind_eq_some_iff.mp h
  exact ⟨salt, hash, (Option.some.inj h).symm⟩

/-- The bytes of an entry come from its line. -/
structure KnownHost.Within (e : KnownHost) (P : Byte → Prop) : Prop where
  name : ∀ name, e.name = .plain name → ∀ c ∈ name, P c
  key : ∀ c ∈ e.key, P c
  typeName : ∀ t ∈ e.key_type_name, ∀ c ∈ t, P c
  comment : ∀ t ∈ e.comment, ∀ c ∈ t, P c

theorem mem_of_mem_splitKey {k : CStr} {c : Byte} :
    (c ∈ (splitKey k).key → c ∈ k) ∧ (∀ t ∈ (splitKey k).key_type_name, c ∈ t → c ∈ k) ∧
      ∀ t ∈ (splitKey k).comment, c ∈ t → c ∈ k := by
  have htake : ∀ {p : Byte → Bool} {s : CStr}, c ∈ s.takeWhile p → c ∈ s :=
    fun h => (List.takeWhile_sublist _).mem h
  have hdrop : ∀ {p : Byte → Bool} {s : CStr}, c ∈ s.dropWhile p → c ∈ s :=
    fun h => (List.dropWhile_sublist _).mem h
  unfold splitKey
  rcases k with _ | ⟨d, ds⟩
  · simp
  · dsimp only
    split_ifs with hdigit hempty
    · simp
    · refine ⟨fun hc => hdrop (hdrop (htake hc)), fun t ht hc => ?_, nofun⟩
      obtain rfl := Option.some.inj ht
      exact htake hc
    · refine ⟨fun hc => hdrop (hdrop (htake hc)), fun t ht hc => ?_, fun t ht hc => ?_⟩
      · obtain rfl := Option.some.inj ht
        exact htake hc
      · obtain rfl := Option.some.inj ht
        exact hdrop (hdrop (hdrop (hdrop hc)))

/-- What a line gives. -/
structure KnownHost.Read (e : KnownHost) : Prop where
  key : e.KeyReadable
  within : e.Within LineByte
  name : ∀ name, e.name = .plain name → Word name ∧
    name.length < hostbufSize - 1 ∧ 44 ∉ name.dropLast

theorem read_of_knownhostLine {host k : CStr} {e : KnownHost}
    (h : e ∈ (knownhostLine host k).1) (hhost : Word host)
    (hhostBytes : ∀ c ∈ host, LineByte c) (hflush : Flush k) (hbytes : ∀ c ∈ k, LineByte c) :
    e.Read := by
  unfold knownhostLine at h
  by_cases hlong : k.length < 20
  · rw [if_pos hlong] at h
    cases h
  rw [if_neg hlong] at h
  dsimp only at h
  by_cases hkey : (splitKey k).key = []
  · rw [if_pos hkey] at h
    cases h
  rw [if_neg hkey] at h
  have hne : k ≠ [] := by
    rintro rfl
    exact hlong (by decide)
  have hread : ∀ name : KnownHostName, (∀ text, name = .plain text →
      (∀ c ∈ text, LineByte c) ∧ Word text ∧ text.length < hostbufSize - 1 ∧ 44 ∉ text.dropLast) →
      KnownHost.Read ⟨name, (splitKey k).key_type, (splitKey k).key,
        if (splitKey k).key_type = .UNKNOWN then (splitKey k).key_type_name else none,
          (splitKey k).comment⟩ := by
    intro name hname
    refine ⟨splitKey_readable hne hflush hkey name,
      ⟨fun text htext => (hname text htext).1, ?_, ?_, ?_⟩,
      fun text htext => (hname text htext).2⟩
    · exact fun c hc => hbytes c (mem_of_mem_splitKey.1 hc)
    · intro t ht c hc
      dsimp only at ht
      split_ifs at ht
      · exact hbytes c (mem_of_mem_splitKey.2.1 t ht hc)
      · cases ht
    · exact fun t ht c hc => hbytes c (mem_of_mem_splitKey.2.2 t ht hc)
  split_ifs at h
  · unfold knownhostLineLegacy at h
    rw [if_neg hhost.ne_nil] at h
    obtain ⟨name, hname, hfits, hadd⟩ := mem_addNames h
    obtain ⟨_, hplain, -, rfl⟩ := eq_of_knownhostAdd hadd
    obtain rfl := Option.some.inj hplain
    obtain ⟨hnameNe, hcomma, hfrom⟩ := mem_legacyNames List.not_mem_nil (absurd rfl) hname
    have hsub : ∀ c ∈ name, c ∈ host := fun c hc =>
      List.mem_reverse.mp ((hfrom c hc).resolve_left List.not_mem_nil)
    refine hread _ ?_
    rintro _ ⟨⟩
    exact ⟨fun c hc => hhostBytes c (hsub c hc),
      ⟨hnameNe, fun c hc => hhost.noBlank c (hsub c hc)⟩, hfits, hcomma⟩
  · unfold knownhostLineHashed at h
    dsimp only at h
    rcases hbar : (host.drop 3).dropWhile (· ≠ 124) with _ | ⟨b, hash⟩
    all_goals
      rw [hbar] at h
      dsimp only at h
    · cases h
    by_cases hfits : saltbufSize - 1 ≤ ((host.drop 3).takeWhile (· ≠ 124)).length ∨
      hostbufSize - 1 ≤ hash.length
    · rw [if_pos hfits] at h
      cases h
    rw [if_neg hfits] at h
    rcases hadd : knownhostAdd .SHA1 (splitKey k).key_type true hash
        (some ((host.drop 3).takeWhile (· ≠ 124)))
      (splitKey k).key_type_name (splitKey k).key (splitKey k).comment with _ | e'
    all_goals rw [hadd] at h
    · cases h
    obtain rfl := List.mem_singleton.mp h
    obtain ⟨name, hsha1, -, rfl⟩ := eq_of_knownhostAdd hadd
    obtain ⟨salt, hash, rfl⟩ := knownhostName_sha1 hsha1
    exact hread _ nofun

theorem read_of_knownhostReadline {line : CStr} {e : KnownHost} (h : e ∈ (knownhostReadline line).1)
    (hends : 10 ∉ line.dropLast) (hbytes : ∀ c ∈ line, c ≠ 0 ∧ c ≠ 26) : e.Read := by
  unfold knownhostReadline at h
  split_ifs at h
  · cases h
  rcases hline : line.dropWhile isBlank with _ | ⟨c, cs⟩
  all_goals rw [hline] at h
  · cases h
  dsimp only at h
  split_ifs at h with hstart hrest
  · cases h
  · cases h
  have hsub : (c :: cs).Sublist line := hline ▸ List.dropWhile_sublist _
  have hblank : isBlank c = false := Flush.head (hline ▸ flush_dropWhile line)
  set host := (c :: cs).takeWhile fun c => !isBlank c with hhost
  set rest := ((c :: cs).dropWhile fun c => !isBlank c).dropWhile isBlank with hrestDef
  -- a newline in the host would be the last character, with nothing behind it
  have hparts : c :: cs = host ++ (c :: cs).dropWhile fun c => !isBlank c :=
    (List.takeWhile_append_dropWhile ..).symm
  have hnonl : 10 ∉ host := by
    intro hmem
    have htail : ((c :: cs).dropWhile fun c => !isBlank c) ≠ [] := by
      intro hnil
      rw [hrestDef, hnil] at hrest
      exact hrest rfl
    have hwhole :
        line = line.takeWhile isBlank ++ (host ++ (c :: cs).dropWhile fun c => !isBlank c) := by
      rw [← hparts, ← hline, List.takeWhile_append_dropWhile]
    refine hends ?_
    rw [hwhole, List.dropLast_append_of_ne_nil (List.append_ne_nil_of_right_ne_nil _ htail),
      List.dropLast_append_of_ne_nil htail]
    exact List.mem_append_right _ (List.mem_append_left _ hmem)
  refine read_of_knownhostLine h ⟨?_, ?_⟩ ?_ ?_ ?_
  · rw [hhost, List.takeWhile_cons_of_pos (by simp [hblank])]
    exact List.cons_ne_nil _ _
  · exact fun d hd => by simpa using List.mem_takeWhile_imp hd
  · intro d hd
    have hmem := hbytes d (hsub.mem ((List.takeWhile_sublist _).mem hd))
    exact ⟨hmem.1, fun heq => hnonl (heq ▸ hd), hmem.2⟩
  · exact (flush_dropWhile _).takeWhile _
  · intro d hd
    have hmem := hbytes d (hsub.mem ((List.dropWhile_sublist _).mem ((List.dropWhile_sublist _).mem
      ((List.takeWhile_sublist _).mem hd))))
    exact ⟨hmem.1, by simpa using List.mem_takeWhile_imp hd, hmem.2⟩

/-- The entry has a line that fits the buffer and is read with its key, and its name can be told
from a comment and a hash. -/
structure KnownHost.Rewritable (e : KnownHost) : Prop where
  fits : (knownhostWriteline e).isSome
  long : ∀ typeName ∈ e.typeText, 20 ≤ (e.field typeName).length
  plain : ∀ name, e.name = .plain name → name.head? ≠ some 35 ∧ name.take 3 ≠ ascii "|1|"
  hashed : ∀ salt hash, e.name = .sha1 salt hash →
    (Base64.encode salt).length < saltbufSize - 1 ∧ (Base64.encode hash).length < hostbufSize - 1

theorem lineByte_encode {s : Bytes} {c : Byte} (h : c ∈ Base64.encode s) : LineByte c := by
  have hge := Base64.ge_of_mem_encode h
  unfold LineByte
  grind

theorem keyTypeNames_bytes :
    ∀ t ∈ keyTypeNames, ∀ c ∈ t.1, c ≠ 0 ∧ c ≠ 10 ∧ c ≠ 26 := by decide +kernel

/-- An entry that was read, and can be written, is read again. -/
theorem KnownHost.Rewritable.readable {e : KnownHost} (h : e.Rewritable) (hread : e.Read) :
    e.Readable where
  line := by
    obtain ⟨line, hline⟩ := Option.isSome_iff_exists.mp h.fits
    refine ⟨line, hline, ?_⟩
    rw [knownhostWriteline_eq] at hline
    obtain ⟨typeName, htype, hline⟩ := Option.bind_eq_some_iff.mp hline
    obtain ⟨host, hhost, hline⟩ := Option.bind_eq_some_iff.mp hline
    split_ifs at hline
    obtain rfl := Option.some.inj hline
    rw [← List.cons_append, ← List.append_assoc, List.dropLast_concat]
    have hhostBytes : ∀ c ∈ host, LineByte c := by
      rcases hn : e.name with name | ⟨salt, hash⟩ <;> rw [hn] at hhost
      · obtain rfl := Option.some.inj hhost
        exact hread.within.name name hn
      · unfold KnownHostName.text at hhost
        dsimp only at hhost
        split_ifs at hhost
        obtain rfl := Option.some.inj hhost
        rw [ascii_hashMark]
        intro c hc
        simp only [List.mem_append, List.mem_cons, List.not_mem_nil, or_false] at hc
        rcases hc with (((rfl | rfl | rfl) | hc) | rfl) | hc
        any_goals exact lineByte_encode hc
        all_goals exact ⟨by decide, by decide, by decide⟩
    have htypeBytes : ∀ c ∈ typeName, LineByte c := by
      rcases typeText_cases htype with ⟨-, rfl⟩ | ⟨-, hname⟩ | hmem
      · exact nofun
      · exact hread.within.typeName typeName hname
      · exact keyTypeNames_bytes _ hmem
    intro c hc
    unfold KnownHost.field at hc
    rw [List.mem_append, List.mem_cons, List.mem_append, List.mem_append] at hc
    rcases hc with hc | rfl | ((hc | hc) | hc)
    · exact hhostBytes c hc
    · exact ⟨by decide, by decide, by decide⟩
    · split_ifs at hc
      · cases hc
      · rcases List.mem_append.mp hc with hc | hc
        · exact htypeBytes c hc
        · rw [List.mem_singleton.mp hc]
          exact ⟨by decide, by decide, by decide⟩
    · exact hread.within.key c hc
    · rcases hcomment : e.comment with _ | text <;> rw [hcomment] at hc
      · cases hc
      · rcases List.mem_cons.mp hc with rfl | hc
        · exact ⟨by decide, by decide, by decide⟩
        · exact hread.within.comment text hcomment c hc
  long := h.long
  name := by
    rcases hn : e.name with name | ⟨salt, hash⟩
    · obtain ⟨hword, hfits, hcomma⟩ := hread.name name hn
      exact ⟨hword, (h.plain name hn).1, (h.plain name hn).2, hfits, hcomma⟩
    · exact h.hashed salt hash hn
  key := hread.key

theorem read_of_knownhostReadfile {file : Option Bytes} {e : KnownHost}
    (h : e ∈ knownhostReadfile file) : e.Read := by
  rcases file with _ | content
  · cases h
  obtain ⟨before, line, after, hlines, -, he⟩ := mem_readLines_iff.mp h
  have hline : line ∈ knownHostsLines content := hlines ▸ List.mem_append_right _ List.mem_cons_self
  obtain ⟨piece, hpiece, rfl⟩ := List.mem_map.mp hline
  obtain ⟨hends, hfrom⟩ := BufferedLines.mem_pieces hpiece
  have htaken : cstr piece <+: piece := List.takeWhile_prefix _
  have hlast : 10 ∉ (cstr piece).dropLast := by
    obtain ⟨rest, hrest⟩ := htaken
    rcases List.eq_nil_or_concat rest with rfl | ⟨front, c, rfl⟩
    · rw [List.append_nil] at hrest
      rwa [hrest]
    · rw [List.concat_eq_append, ← List.append_assoc] at hrest
      rw [← hrest, List.dropLast_concat, List.mem_append, not_or] at hends
      exact fun hmem => hends.1 (List.mem_of_mem_dropLast hmem)
  refine read_of_knownhostReadline he hlast fun c hc => ?_
  exact ⟨by simpa using List.mem_takeWhile_imp hc, (mem_textRead (hfrom c (htaken.subset hc))).1⟩

/-- A file of known hosts that is read and written anew is read as before, where each of its entries
can be written. -/
theorem known_hosts_rewritten (file : Option Bytes)
    (h : ∀ e ∈ knownhostReadfile file, e.Rewritable) :
    knownhostReadfile (some (knownhostWritefile (knownhostReadfile file))) =
      knownhostReadfile file :=
  knownhostReadfile_writefile fun e he => (h e he).readable (read_of_knownhostReadfile he)

/-- A comment, a host with its name and one with its hash. -/
def twoKnownHosts : Bytes :=
  ascii
    "# hosts\na ssh-rsa AQIDBAUGBwgJCgsM me\n|1|c2FsdA==|aGFzaA== ssh-ed25519 AQIDBAUGBwgJCgsM\n"

def plainHost :
    KnownHost := ⟨.plain (ascii "a"), .SSHRSA, ascii "AQIDBAUGBwgJCgsM", none, some (ascii "me")⟩

def hashedHost : KnownHost :=
  ⟨.sha1 (ascii "salt") (ascii "hash"), .ED25519, ascii "AQIDBAUGBwgJCgsM", none, none⟩

theorem read_twoKnownHosts :
    knownhostReadfile (some twoKnownHosts) = [plainHost, hashedHost] := by decide +kernel

theorem plainHost_rewritable : plainHost.Rewritable where
  fits := by decide +kernel
  long := by decide +kernel
  plain := by
    rintro _ ⟨⟩
    decide +kernel
  hashed := nofun

theorem hashedHost_rewritable : hashedHost.Rewritable where
  fits := by decide +kernel
  long := by decide +kernel
  plain := nofun
  hashed := by
    rintro _ _ ⟨⟩
    decide +kernel

theorem known_hosts_rewritten_two :
    knownhostReadfile (some (knownhostWritefile (knownhostReadfile (some twoKnownHosts)))) =
      knownhostReadfile (some twoKnownHosts) :=
  known_hosts_rewritten _ fun e he => by
    rw [read_twoKnownHosts] at he
    rcases List.mem_cons.mp he with rfl | he
    · exact plainHost_rewritable
    · exact List.mem_singleton.mp he ▸ hashedHost_rewritable

/-! ## Saving a key -/

section Saving

variable {hmac : Bytes → CStr → Bytes} {st : HostKeyStore} {s : HostKeySession}
  {host : CStr} {port : ℤ} {hk : Bytes}
  {ktype : ℤ}

/-- The entry that is added for a key. -/
def savedEntry (host : CStr) (hk : Bytes) (ktype : ℤ) : KnownHost :=
  ⟨.plain host, hostKeyBit ktype, Base64.encode hk, none, none⟩

/-- A mismatch points to an entry that was compared. -/
theorem compares_of_checkNodes {nodes : List KnownHost} {key : CStr} {key_type : KnownHostKey}
    {k i : ℕ} {badkey : Option ℕ}
    (h : checkNodes hmac host key key_type k badkey nodes = (none, some i)) :
    badkey = some i ∨ ∃ e, k ≤ i ∧ nodes[i - k]? = some e ∧
    e.compares hmac host key_type = true := by
  induction nodes generalizing k badkey with
  | nil => exact .inl (Prod.mk.inj h).2
  | cons e nodes ih =>
    have hnext : ∀ {j : ℕ},
        (∃ e', k + 1 ≤ j ∧ nodes[j - (k + 1)]? = some e' ∧ e'.compares hmac host key_type = true) →
        ∃ e', k ≤ j ∧ (e :: nodes)[j - k]? = some e' ∧ e'.compares hmac host key_type = true := by
      rintro j ⟨e', hle, hget, hcompares⟩
      refine ⟨e', by omega, ?_, hcompares⟩
      rw [show j - k = (j - (k + 1)) + 1 by omega, List.getElem?_cons_succ]
      exact hget
    rw [checkNodes] at h
    split_ifs at h with hcompares hkey
    · cases h
    · rcases ih h with hbad | hfound
      · rcases badkey with _ | j
        · have hi : k = i := Option.some.inj hbad
          exact .inr ⟨e, hi.le, by rw [hi, Nat.sub_self]; rfl, hcompares⟩
        · exact .inl hbad
      · exact .inr (hnext hfound)
    · rcases ih h with hbad | hfound
      · exact .inl hbad
      · exact .inr (hnext hfound)

theorem compares_of_checkHosts {nodes : List KnownHost} {key : CStr} {key_type : KnownHostKey}
    {hosts : List CStr} {i : ℕ}
    {badkey : Option ℕ} (h : checkHosts hmac key key_type nodes badkey hosts = (none, some i)) :
    badkey = some i ∨ ∃ name ∈ hosts, ∃ e, nodes[i]? = some e ∧
    e.compares hmac name key_type = true := by
  induction hosts generalizing badkey with
  | nil => exact .inl (Prod.mk.inj h).2
  | cons name hosts ih =>
    rw [checkHosts] at h
    rcases hnodes : checkNodes hmac name key key_type 0 badkey nodes with ⟨_ | j, badkey'⟩
    all_goals rw [hnodes] at h
    · rcases ih h with rfl | ⟨name', hname', hrest⟩
      · rcases compares_of_checkNodes hnodes with hbad | ⟨e, -, hget, hcompares⟩
        · exact .inl hbad
        · exact .inr ⟨name, List.mem_cons_self, e, hget, hcompares⟩
      · exact .inr ⟨name', List.mem_cons_of_mem _ hname', hrest⟩
    · cases h

/-- The entry that goes is one that the key was compared with. -/
theorem compared_of_mismatch {nodes : List KnownHost} {key_type : KnownHostKey}
    {check : KnownHostCheck} {i : ℕ}
    (h : knownhostCheckp hmac nodes host port hk key_type = (check, some i))
    (hcheck : check ≠ .MATCH) :
    ∃ e, nodes[i]? = some e ∧ e.Compared hmac host port key_type := by
  by_cases hcheckable : Checkable host port hk
  · rw [knownhostCheckp_eq hcheckable] at h
    rcases hhosts : checkHosts hmac (Base64.encode hk) key_type nodes none
        (hostNames host port) with ⟨_ | j, _ | badkey⟩
    all_goals rw [hhosts] at h
    · cases h
    · obtain ⟨-, hi⟩ := Prod.mk.inj h
      obtain rfl := Option.some.inj hi
      obtain ⟨name, hname, e, hget, hcompares⟩ := (compares_of_checkHosts hhosts).resolve_left nofun
      exact ⟨e, hget, name, hname, hcompares⟩
    · exact absurd (Prod.mk.inj h).1.symm hcheck
    · exact absurd (Prod.mk.inj h).1.symm hcheck
  · rw [knownhostCheckp_failure hcheckable] at h
    cases h

variable {cb : HostKeyVerifyFn}

theorem after_file (h : SavesKey hmac st s host port hk ktype cb) (hinit : s.knownhosts = true) :
    (st.after hmac s host port).file =
      saveHostKey st s (lookUp hmac st s host port hk ktype).2 host hk ktype := by
  show (verifyHostKey hmac st s host port).file = _
  unfold verifyHostKey
  rw [h.hostkey]
  dsimp only
  rw [if_neg h.asked, h.callback]
  dsimp only
  have hdecision := h.decision
  rw [if_neg fun hreject => absurd (hdecision.symm.trans hreject) (by decide),
    if_pos ⟨hdecision, hinit⟩]

theorem knownhostAddc_eq (nodes : List KnownHost) (hnew : (savedEntry host hk ktype).Readable)
    (hcheckable : Checkable host port hk) :
    knownhostAddc nodes host hk (hostKeyBit ktype) = nodes ++ [savedEntry host hk ktype] := by
  have hhost : host.length ≤ KNOWNHOST_MAX_LEN := by
    have hfits : host.length < hostbufSize - 1 := hnew.name.2.2.2.1
    unfold hostbufSize at hfits
    unfold KNOWNHOST_MAX_LEN
    omega
  have hadd : knownhostAdd .PLAIN (hostKeyBit ktype) false host none none hk none =
      some (savedEntry host hk ktype) := by
    unfold knownhostAdd knownhostName
    simp only [bind, Option.bind, guard, if_pos hcheckable.key_ne_nil,
      if_pos (And.intro hhost hcheckable.key_fits), ite_self]
    rfl
  unfold knownhostAddc
  rw [hadd]
  rfl

/-- The collection after the key is saved: what was compared with the key may be gone, and its entry
is there. -/
theorem knownHosts_after (h : SavesKey hmac st s host port hk ktype cb)
    (hinit : s.knownhosts = true)
    (hfile : st.KnownHostsFile ≠ [] ∧ st.writable = true)
    (hnodes : ∀ e ∈ knownHosts st s, e.Rewritable)
    (hnew : (savedEntry host hk ktype).Readable) (hcheckable : Checkable host port hk) :
    ∃ kept, (∀ s' : HostKeySession, s'.knownhosts = true →
        knownHosts (st.after hmac s host port) s' = kept ++ [savedEntry host hk ktype]) ∧
      (∀ e ∈ kept, e ∈ knownHosts st s) ∧
        ∀ e ∈ knownHosts st s, e ∉ kept → e.Compared hmac host port (hostKeyBit ktype) := by
  have hread : knownHosts st s = knownhostReadfile st.file := if_pos ⟨hinit, hfile.1⟩
  obtain ⟨kept, hkept, hsub, hgone⟩ : ∃ kept,
      saveHostKey st s (lookUp hmac st s host port hk ktype).2 host hk ktype =
        some (knownhostWritefile (knownhostAddc kept host hk (hostKeyBit ktype))) ∧
      (∀ e ∈ kept, e ∈ knownHosts st s) ∧
        ∀ e ∈ knownHosts st s, e ∉ kept → e.Compared hmac host port (hostKeyBit ktype) := by
    unfold saveHostKey
    rw [if_pos hfile]
    rcases hcheck : lookUp hmac st s host port hk ktype with ⟨check, _ | i⟩
    · exact ⟨_, rfl, fun e he => he, fun e he hnot => absurd he hnot⟩
    · refine ⟨_, rfl, fun e he => List.mem_of_mem_eraseIdx he, fun e he hnot => ?_⟩
      have hmatch : check ≠ .MATCH := by
        have hasked := h.asked
        rwa [hcheck] at hasked
      unfold lookUp at hcheck
      rw [if_pos hinit] at hcheck
      obtain ⟨e', hget, hcompared⟩ := compared_of_mismatch hcheck hmatch
      obtain ⟨j, hj⟩ := List.mem_iff_getElem?.mp he
      have hji : j = i := by
        by_contra hne
        exact hnot (List.mem_eraseIdx_iff_getElem?.mpr ⟨j, hne, hj⟩)
      rw [hji] at hj
      obtain rfl := Option.some.inj (hj.symm.trans hget)
      exact hcompared
  have hreadable : ∀ e ∈ kept ++ [savedEntry host hk ktype], e.Readable := by
    intro e he
    rcases List.mem_append.mp he with he | he
    · have hmem := hsub e he
      exact (hnodes e hmem).readable (read_of_knownhostReadfile (hread ▸ hmem))
    · exact List.mem_singleton.mp he ▸ hnew
  refine ⟨kept, fun s' hs' => ?_, hsub, hgone⟩
  have hafter : knownHosts (st.after hmac s host port) s' =
      knownhostReadfile (st.after hmac s host port).file :=
    if_pos ⟨hs', hfile.1⟩
  rw [hafter, after_file h hinit, hkept, knownhostAddc_eq kept hnew hcheckable,
    knownhostReadfile_writefile hreadable]

/-- The new entry is compared with the key of its host. -/
theorem compares_savedEntry (hnew : (savedEntry host hk ktype).Readable) :
    (savedEntry host hk ktype).compares hmac host (hostKeyBit ktype) = true := by
  have hkey := hnew.key
  unfold KnownHost.KeyReadable savedEntry at hkey
  unfold KnownHost.compares KnownHost.isFor savedEntry
  rcases hbit : hostKeyBit ktype <;> rw [hbit] at hkey
  case UNKNOWN =>
    obtain ⟨-, -, t, hnone, -⟩ := hkey
    cases hnone
  all_goals simp

theorem outcome_eq {st' : HostKeyStore} {s' : HostKeySession} {host' : CStr} {port' : ℤ}
    (hcb : st'.HostKeyCb = st.HostKeyCb) (hsame : ∀ hk ktype,
      ((lookUp hmac st' s' host' port' hk ktype).1 = .MATCH ↔
        (lookUp hmac st s' host' port' hk ktype).1 = .MATCH) ∧
      ((lookUp hmac st' s' host' port' hk ktype).1 = .MISMATCH ↔
        (lookUp hmac st s' host' port' hk ktype).1 = .MISMATCH)) :
    (verifyHostKey hmac st' s' host' port').outcome =
      (verifyHostKey hmac st s' host' port').outcome := by
  unfold verifyHostKey
  rcases s'.hostkey with _ | ⟨hk, ktype⟩
  · rfl
  obtain ⟨hmatch, hmismatch⟩ := hsame hk ktype
  have hstatus : statusOf (lookUp hmac st' s' host' port' hk ktype).1 =
      statusOf (lookUp hmac st s' host' port' hk ktype).1 := by
    unfold statusOf
    simp only [hmismatch]
  dsimp only
  rw [hcb, hstatus]
  by_cases hm : (lookUp hmac st s' host' port' hk ktype).1 = .MATCH
  · rw [if_pos hm, if_pos (hmatch.mpr hm)]
    rfl
  · rw [if_neg hm, if_neg fun hm' => hm (hmatch.mp hm')]
    split_ifs <;> rfl

/-- In a file that can be written, and whose entries can be written as they were read, a key that
the user trusts and saves is accepted from then on without a question. Another host, one with other
names and without an entry that is also one of the first, is judged as before, whatever its key. -/
theorem host_key_saved (h : SavesKey hmac st s host port hk ktype cb) (hinit : s.knownhosts = true)
    (hfile : st.KnownHostsFile ≠ [] ∧ st.writable = true)
    (hnodes : ∀ e ∈ knownHosts st s, e.Rewritable)
    (hnew : (savedEntry host hk ktype).Readable) (hcheckable : Checkable host port hk) :
    SaveEffective hmac st s host port ∧ ∀ (s' : HostKeySession) (host' : CStr) (port' : ℤ),
      (∀ name ∈ hostNames host' port', name ≠ host ∧ ∀ e ∈ knownHosts st s,
        e.Compared hmac host port (hostKeyBit ktype) → e.isFor hmac name = false) →
      (verifyHostKey hmac (st.after hmac s host port) s' host' port').outcome =
        (verifyHostKey hmac st s' host' port').outcome := by
  obtain ⟨kept, hafter, hsub, hgone⟩ := knownHosts_after h hinit hfile hnodes hnew hcheckable
  constructor
  · have hstored :
        Stored hmac (knownHosts (st.after hmac s host port) s) host port hk (hostKeyBit ktype) := by
      rw [hafter s hinit]
      refine ⟨savedEntry host hk ktype, by simp, ⟨host, ?_, compares_savedEntry hnew⟩, rfl⟩
      unfold hostNames
      split_ifs <;> simp
    have hmatch := lookUp_match_iff.mpr ⟨hinit, hcheckable, hstored⟩
    unfold SaveEffective
    rw [verifyHostKey_match h.hostkey hmatch]
    exact ⟨rfl, rfl⟩
  · intro s' host' port' hother
    refine outcome_eq rfl fun hk' ktype' => ?_
    rw [lookUp_match_iff, lookUp_match_iff, lookUp_mismatch_iff, lookUp_mismatch_iff]
    by_cases hs' : s'.knownhosts = true
    · have hbefore : knownHosts st s' = knownHosts st s := by
        unfold knownHosts
        rw [hs', hinit]
      have hcompared : ∀ e, e.Compared hmac host' port' (hostKeyBit ktype') →
          (e ∈ knownHosts (st.after hmac s host port) s' ↔ e ∈ knownHosts st s') := by
        rintro e ⟨name, hname, hcompares⟩
        have hfor : e.isFor hmac name = true := by
          unfold KnownHost.compares at hcompares
          rw [Bool.and_eq_true, Bool.and_eq_true] at hcompares
          exact hcompares.1.1
        rw [hafter s' hs', hbefore, List.mem_append, List.mem_singleton]
        constructor
        · rintro (he | rfl)
          · exact hsub e he
          · exact absurd (by simpa [savedEntry, KnownHost.isFor] using hfor) (hother name hname).1
        · intro he
          by_contra hnot
          have hnotKept : e ∉ kept := fun hkept => hnot (.inl hkept)
          have hno := (hother name hname).2 e he (hgone e he hnotKept)
          rw [hfor] at hno
          cases hno
      have hstored : Stored hmac (knownHosts (st.after hmac s host port) s') host' port' hk'
          (hostKeyBit ktype') ↔
          Stored hmac (knownHosts st s') host' port' hk' (hostKeyBit ktype') :=
        exists_congr fun e => ⟨fun ⟨he, hc, hk⟩ => ⟨(hcompared e hc).mp he, hc, hk⟩,
          fun ⟨he, hc, hk⟩ => ⟨(hcompared e hc).mpr he, hc, hk⟩⟩
      have hexists : (∃ e ∈ knownHosts (st.after hmac s host port) s',
          e.Compared hmac host' port' (hostKeyBit ktype')) ↔
          ∃ e ∈ knownHosts st s', e.Compared hmac host' port' (hostKeyBit ktype') :=
        exists_congr fun e => ⟨fun ⟨he, hc⟩ => ⟨(hcompared e hc).mp he, hc⟩,
          fun ⟨he, hc⟩ => ⟨(hcompared e hc).mpr he, hc⟩⟩
      rw [hstored, hexists]
      exact ⟨Iff.rfl, Iff.rfl⟩
    · simp [hs']

end Saving

/-- A file with a host by its name and one by its hash, and a user who trusts and saves. -/
def twoHostsStore : HostKeyStore := ⟨some sayYes, ascii "known_hosts", some twoKnownHosts, true⟩

/-- A key that is not the one on file for `a`. -/
def changedKey : Bytes := [12, 11, 10, 9, 8, 7, 6, 5, 4, 3, 2, 1]

def changedSession : HostKeySession := ⟨some (changedKey, LIBSSH2_HOSTKEY_TYPE_RSA), none, true⟩

theorem savesKey_changed :
    SavesKey (fun _ _ => []) twoHostsStore changedSession (ascii "a") 22 changedKey
    LIBSSH2_HOSTKEY_TYPE_RSA sayYes where
  hostkey := rfl
  callback := rfl
  asked := by decide +kernel
  decision := rfl

theorem savedEntry_readable :
    (savedEntry (ascii "a") changedKey LIBSSH2_HOSTKEY_TYPE_RSA).Readable where
  line :=
    ⟨ascii "a ssh-rsa DAsKCQgHBgUEAwIB\n", by decide +kernel, by unfold LineByte; decide +kernel⟩
  long := by decide +kernel
  name := by
    refine ⟨⟨?_, ?_⟩, ?_, ?_, ?_, ?_⟩ <;> decide +kernel
  key := ⟨⟨by decide +kernel, by decide +kernel⟩, nofun, rfl⟩

theorem knownHosts_two :
    knownHosts twoHostsStore changedSession = [plainHost, hashedHost] := by decide +kernel

/-- The changed key of `a` is saved; `b` is asked about as before. -/
theorem host_key_saved_changed :
    SaveEffective (fun _ _ => []) twoHostsStore changedSession (ascii "a") 22 ∧
    ∀ s' : HostKeySession,
      (verifyHostKey (fun _ _ => [])
        (twoHostsStore.after (fun _ _ => []) changedSession (ascii "a") 22) s'
        (ascii "b") 22).outcome =
      (verifyHostKey (fun _ _ => []) twoHostsStore s' (ascii "b") 22).outcome := by
  have hnodes : ∀ e ∈ knownHosts twoHostsStore changedSession, e.Rewritable := by
    intro e he
    rw [knownHosts_two] at he
    rcases List.mem_cons.mp he with rfl | he
    · exact plainHost_rewritable
    · exact List.mem_singleton.mp he ▸ hashedHost_rewritable
  have hother : ∀ name ∈ hostNames (ascii "b") 22, name ≠ ascii "a" ∧
      ∀ e ∈ knownHosts twoHostsStore changedSession, e.isFor (fun _ _ => []) name = false := by
    rw [knownHosts_two]
    decide +kernel
  obtain ⟨heffective, hisolated⟩ := host_key_saved savesKey_changed rfl (by decide +kernel) hnodes
    savedEntry_readable ⟨by decide, by decide, by decide +kernel⟩
  refine ⟨heffective, fun s' => hisolated s' _ _ fun name hname => ?_⟩
  exact ⟨(hother name hname).1, fun e he _ => (hother name hname).2 e he⟩

end SalamanderSftp
