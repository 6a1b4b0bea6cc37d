import SalamanderSftp.Lib.Base64
import SalamanderSftp.Lib.Components
import SalamanderSftp.Text

/-!
# PuTTY private keys

`TryPpkAuth` reads the headers of a `.ppk` file line by line and takes the sections of base64 by
their numbers of lines. `EVP_DecodeBlock` of OpenSSL, which is a parameter, decodes them to whole
blocks, and `B64Decode` cuts off what is padding.

A file written with LF or CRLF is read back, comments with a colon in them included
(`readPpk_text`), as long as the numbers in it are `int`s: the length of a text is given to
`EVP_DecodeBlock` as one.
-/

namespace SalamanderSftp

open Components

/-! ## B64Decode -/

/-- `EVP_DecodeBlock` decodes base64 to three bytes for four characters, the padding to zero
bits. -/
def DecodesBlocks (evpDecodeBlock : CStr → Option Bytes) : Prop :=
  ∀ blob, evpDecodeBlock (Base64.encode blob) =
    some (blob ++ List.replicate (Base64.padding blob) 0)

/-- `B64Decode`; `none` where `resize` throws. -/
def b64Decode (evpDecodeBlock : CStr → Option Bytes) (s : CStr) : Option Bytes :=
  -- `(int)s.size()`; there is nothing to decode in a block of negative length
  let size := (s.length : ℤ).bmod (2 ^ 32)
  match evpDecodeBlock (s.take size.toNat) with
  | none => some []
  | some out =>
    let pad :=
      (if s.getLast? = some 61 then 1 else 0) + if s.dropLast.getLast? = some 61 then 1 else 0
    if pad ≤ out.length then some (out.take (out.length - pad)) else none

/-! ## The header parser -/

/-- `getline`: a line, and the text behind it. -/
def getline (text : Bytes) : Option (CStr × Bytes) :=
  if text = [] then none
  else
    let cut := cutAt 10 text
    some (if cut.1.getLast? = some 13 then cut.1.dropLast else cut.1, cut.2.getD [])

structure PpkHeader where
  algo : CStr
  encryption : CStr
  pubB64 : CStr
  privB64 : CStr
  a2salt : CStr
  a2mem : ℕ
  a2pass : ℕ
  a2par : ℕ

def PpkHeader.empty : PpkHeader := ⟨[], [], [], [], [], 0, 0, 0⟩

/-- At most so many lines one behind the other, and the text behind them. -/
def readSection : ℕ → Bytes → CStr × Bytes
  | 0, text => ([], text)
  | n + 1, text =>
    match getline text with
    | some (l2, text) =>
      let more := readSection n text
      (l2 ++ more.1, more.2)
    | none => readSection n text

def unsigned (val : CStr) : ℕ := (atoi val % 2 ^ 32).toNat

namespace PpkHeader

/-- A key with its value, and the text behind the line. -/
def field (h : PpkHeader) (key val : CStr) (text : Bytes) : PpkHeader × Bytes :=
  if key.take 20 = ascii "PuTTY-User-Key-File-" then ({ h with algo := val }, text)
  else if key = ascii "Encryption" then ({ h with encryption := val }, text)
  else if key = ascii "Argon2-Salt" then ({ h with a2salt := val }, text)
  else if key = ascii "Argon2-Memory" then ({ h with a2mem := unsigned val }, text)
  else if key = ascii "Argon2-Passes" then ({ h with a2pass := unsigned val }, text)
  else if key = ascii "Argon2-Parallelism" then ({ h with a2par := unsigned val }, text)
  else if key = ascii "Public-Lines" ∨ key = ascii "Private-Lines" then
    let blob := readSection (atoi val).toNat text
    (if key = ascii "Public-Lines" then { h with pubB64 := blob.1 }
      else { h with privB64 := blob.1 }, blob.2)
  else (h, text)

/-- A line is cut at its first colon with a blank behind it. -/
def line (h : PpkHeader) (line : CStr) (text : Bytes) : PpkHeader × Bytes :=
  match findText (ascii ": ") line with
  | none => (h, text)
  | some (key, rest) => h.field key (rest.drop 2) text

end PpkHeader

theorem length_getline {text rest : Bytes} {line : CStr} (h : getline text = some (line, rest)) :
    rest.length < text.length := by
  unfold getline at h
  split_ifs at h with hnil
  obtain ⟨-, rfl⟩ := Prod.mk.inj (Option.some.inj h)
  have hpos := List.length_pos_iff.mpr hnil
  have hdrop : (text.dropWhile (· != 10)).length ≤ text.length :=
    (List.dropWhile_suffix _).length_le
  show ((text.dropWhile (· != 10)).tail?.getD []).length < _
  generalize text.dropWhile (· != 10) = behind at hdrop ⊢
  rcases behind with _ | ⟨c, t⟩
  · exact hpos
  · exact Nat.lt_of_succ_le hdrop

theorem length_readSection (n : ℕ) :
    ∀ text : Bytes, (readSection n text).2.length ≤ text.length := by
  induction n with
  | zero => exact fun _ => le_rfl
  | succ n ih =>
    intro text
    rw [readSection]
    rcases hline : getline text with _ | ⟨l2, rest⟩
    · exact ih text
    · exact (ih rest).trans (length_getline hline).le

theorem PpkHeader.length_line (h : PpkHeader) (l : CStr) (text : Bytes) :
    (h.line l text).2.length ≤ text.length := by
  unfold PpkHeader.line
  rcases findText (ascii ": ") l with _ | ⟨key, rest⟩
  · exact le_rfl
  · dsimp only
    unfold PpkHeader.field
    split_ifs
    any_goals exact le_rfl
    any_goals exact length_readSection _ text

/-- The loop of `TryPpkAuth` over the lines of the file. -/
def parseHeader (h : PpkHeader) (text : Bytes) : PpkHeader :=
  match _hline : getline text with
  | none => h
  | some (line, rest) => parseHeader (h.line line rest).1 (h.line line rest).2
termination_by text.length
decreasing_by exact (h.length_line line rest).trans_lt (length_getline ‹_›)

/-- What `TryPpkAuth` makes of a file before it uses the key. -/
inductive PpkRead
  /-- -1, no `.ppk`. -/
  | other
  /-- 0, "Invalid .ppk file". -/
  | invalid
  /-- An exception of `B64Decode`. -/
  | thrown
  | key (version : ℕ) (header : PpkHeader) (pub priv : Bytes)

def readPpk (evpDecodeBlock : CStr → Option Bytes) (text : Bytes) : PpkRead :=
  if text.take 20 ≠ ascii "PuTTY-User-Key-File-" then .other
  else
    let version := if text[20]? = some 51 then 3 else 2
    let header := parseHeader .empty text
    match b64Decode evpDecodeBlock header.pubB64, b64Decode evpDecodeBlock header.privB64 with
    | some pub, some priv => if pub = [] ∨ priv = [] then .invalid else .key version header pub priv
    | _, _ => .thrown

/-! ## Writing a file -/

inductive LineEnd
  | lf
  | crlf

def LineEnd.text : LineEnd → Bytes
  | .lf => [10]
  | .crlf => [13, 10]

structure OneLine (s : CStr) : Prop where
  lf : (10 : Byte) ∉ s
  cr : (13 : Byte) ∉ s

instance (s : CStr) : Decidable (OneLine s) :=
  decidable_of_iff ((10 : Byte) ∉ s ∧ (13 : Byte) ∉ s) ⟨fun h => ⟨h.1, h.2⟩, fun h => ⟨h.lf, h.cr⟩⟩

/-- The parameters of the key derivation in a file of version 3. -/
structure Argon2 where
  memory : ℕ
  passes : ℕ
  parallelism : ℕ
  salt : CStr
  salt_line : OneLine salt

/-- A private key with what is written about it. -/
structure PpkFile where
  version3 : Bool
  algo : CStr
  algo_line : OneLine algo
  encryption : CStr
  encryption_line : OneLine encryption
  comment : CStr
  comment_line : OneLine comment
  mac : CStr
  mac_line : OneLine mac
  argon2 : Option Argon2
  pub : Bytes
  pub_nonempty : pub ≠ []
  priv : Bytes
  priv_nonempty : priv ≠ []
  pubLines : List CStr
  pub_split : pubLines.flatten = Base64.encode pub
  privLines : List CStr
  priv_split : privLines.flatten = Base64.encode priv
  short : ∀ l ∈ pubLines ++ privLines, l.length ≤ 64

/-- The keys of a file behind its first line. -/
inductive PpkKey
  | encryption
  | comment
  | pubLines
  | derivation
  | memory
  | passes
  | parallelism
  | salt
  | privLines
  | mac
  deriving DecidableEq

def PpkKey.text : PpkKey → CStr
  | .encryption => ascii "Encryption"
  | .comment => ascii "Comment"
  | .pubLines => ascii "Public-Lines"
  | .derivation => ascii "Key-Derivation"
  | .memory => ascii "Argon2-Memory"
  | .passes => ascii "Argon2-Passes"
  | .parallelism => ascii "Argon2-Parallelism"
  | .salt => ascii "Argon2-Salt"
  | .privLines => ascii "Private-Lines"
  | .mac => ascii "Private-MAC"

section Write

variable (eol : LineEnd)

def headerLine (key val : CStr) : Bytes := key ++ ascii ": " ++ val ++ eol.text

def sectionText (key : PpkKey) (lines : List CStr) : Bytes :=
  headerLine eol key.text (decimal lines.length) ++ lines.flatMap (· ++ eol.text)

def Argon2.text (a : Argon2) : Bytes :=
  headerLine eol PpkKey.derivation.text (ascii "Argon2id") ++
    headerLine eol PpkKey.memory.text (decimal a.memory) ++
      headerLine eol PpkKey.passes.text (decimal a.passes) ++
    headerLine eol PpkKey.parallelism.text (decimal a.parallelism) ++
      headerLine eol PpkKey.salt.text a.salt

def PpkFile.versionKey (f : PpkFile) : CStr :=
  if f.version3 then ascii "PuTTY-User-Key-File-3" else ascii "PuTTY-User-Key-File-2"

def PpkFile.text (f : PpkFile) : Bytes :=
  headerLine eol f.versionKey f.algo ++ headerLine eol PpkKey.encryption.text f.encryption ++
    headerLine eol PpkKey.comment.text f.comment ++ sectionText eol .pubLines f.pubLines ++
    f.argon2.elim [] (Argon2.text eol) ++ sectionText eol .privLines f.privLines ++
    headerLine eol PpkKey.mac.text f.mac

end Write

/-- The numbers of lines and of characters are `int`s. -/
structure PpkFile.Fits (f : PpkFile) : Prop where
  pubLines : f.pubLines.length < 2 ^ 31
  privLines : f.privLines.length < 2 ^ 31
  pub : (Base64.encode f.pub).length < 2 ^ 31
  priv : (Base64.encode f.priv).length < 2 ^ 31

/-! ## Lines -/

section Lines

variable {eol : LineEnd} {line key val : CStr} {rest : Bytes}

theorem getline_of_cutAt {text : Bytes} {cut : CStr} (hcut : cutAt 10 text = (cut, some rest)) :
    getline text = some (if cut.getLast? = some 13 then cut.dropLast else cut, rest) := by
  have hne : text ≠ [] := by
    rintro rfl
    cases hcut
  unfold getline
  rw [if_neg hne, hcut]
  rfl

theorem getline_append (hline : OneLine line) :
    getline (line ++ (eol.text ++ rest)) = some (line, rest) := by
  cases eol with
  | lf =>
    have hcr : line.getLast? ≠ some 13 := fun h => hline.cr (List.mem_of_getLast? h)
    have hcut : cutAt 10 (line ++ (LineEnd.lf.text ++ rest)) = (line, some rest) :=
      cutAt_append hline.lf rest
    rw [getline_of_cutAt hcut, if_neg hcr]
  | crlf =>
    have hlf : (10 : Byte) ∉ line ++ [13] := by simpa using hline.lf
    have hcut : cutAt 10 (line ++ (LineEnd.crlf.text ++ rest)) = (line ++ [13], some rest) := by
      rw [← cutAt_append hlf rest, List.append_assoc]
      rfl
    rw [getline_of_cutAt hcut, List.getLast?_concat, if_pos rfl, List.dropLast_concat]

theorem parseHeader_line (h : PpkHeader) (hline : OneLine line) :
    parseHeader h (line ++ (eol.text ++ rest)) =
      parseHeader (h.line line rest).1 (h.line line rest).2 := by
  rw [parseHeader]
  split
  · next hnone =>
    rw [getline_append hline] at hnone
    cases hnone
  · next line' rest' hsome =>
    rw [getline_append hline] at hsome
    obtain ⟨rfl, rfl⟩ := Prod.mk.inj (Option.some.inj hsome)
    rfl

theorem findText_key (hkey : colon ∉ key) (val : CStr) :
    findText (ascii ": ") (key ++ (ascii ": " ++ val)) = some (key, ascii ": " ++ val) := by
  induction key with
  | nil => exact findText_of_prefix (List.prefix_append _ _)
  | cons c key ih =>
    have hc : ¬ ascii ": " <+: c :: (key ++ (ascii ": " ++ val)) := by
      intro hpre
      exact hkey ((List.cons_prefix_cons.mp hpre).1 ▸ List.mem_cons_self)
    rw [List.cons_append, findText, if_neg hc, ih fun hmem => hkey (List.mem_cons_of_mem _ hmem)]
    rfl

theorem OneLine.headerLine (hkey : OneLine key) (hval : OneLine val) :
    OneLine (key ++ (ascii ": " ++ val)) := by
  constructor
  · intro hmem
    rcases List.mem_append.mp hmem with hmem | hmem
    · exact hkey.lf hmem
    rcases List.mem_append.mp hmem with hmem | hmem
    · exact absurd hmem (by decide)
    · exact hval.lf hmem
  · intro hmem
    rcases List.mem_append.mp hmem with hmem | hmem
    · exact hkey.cr hmem
    rcases List.mem_append.mp hmem with hmem | hmem
    · exact absurd hmem (by decide)
    · exact hval.cr hmem

theorem parseHeader_headerLine (h : PpkHeader)
    (hkey : OneLine key ∧ colon ∉ key) (hval : OneLine val) :
    parseHeader h (headerLine eol key val ++ rest) =
      parseHeader (h.field key val rest).1 (h.field key val rest).2 := by
  have htext :
      headerLine eol key val ++ rest = key ++ (ascii ": " ++ val) ++ (eol.text ++ rest) := by
    unfold headerLine
    simp only [List.append_assoc]
  have hline : h.line (key ++ (ascii ": " ++ val)) rest = h.field key val rest := by
    unfold PpkHeader.line
    rw [findText_key hkey.2]
    rfl
  rw [htext, parseHeader_line h (hkey.1.headerLine hval), hline]

theorem readSection_lines (lines : List CStr) (hlines : ∀ l ∈ lines, OneLine l) :
    readSection lines.length (lines.flatMap (· ++ eol.text) ++ rest) = (lines.flatten, rest) := by
  induction lines with
  | nil => rfl
  | cons l lines ih =>
    have hmore := ih fun l' hl' => hlines l' (List.mem_cons_of_mem _ hl')
    rw [List.flatMap_cons, List.length_cons, readSection, List.append_assoc, List.append_assoc,
      getline_append (hlines l List.mem_cons_self)]
    dsimp only
    rw [hmore]
    rfl

end Lines

/-! ## The headers of a file -/

theorem oneLine_decimal (n : ℕ) : OneLine (decimal n) where
  lf h := absurd (isDigit_of_mem_decimal h) (by decide)
  cr h := absurd (isDigit_of_mem_decimal h) (by decide)

/-- Base64 has no line ends. -/
theorem oneLine_of_split {lines : List CStr} {blob : Bytes}
    (h : lines.flatten = Base64.encode blob) :
    ∀ l ∈ lines, OneLine l := by
  intro l hl
  have hge : ∀ c ∈ l, 43 ≤ c :=
    fun c hc => Base64.ge_of_mem_encode (h ▸ List.mem_flatten.mpr ⟨l, hl, hc⟩)
  exact ⟨fun hmem => absurd (hge _ hmem) (by decide), fun hmem => absurd (hge _ hmem) (by decide)⟩

section Fields

variable (h : PpkHeader) (val : CStr) (rest : Bytes)

theorem field_versionKey (f : PpkFile) :
    h.field f.versionKey val rest = ({ h with algo := val }, rest) := by
  refine if_pos ?_
  unfold PpkFile.versionKey
  cases f.version3 <;> decide +kernel

def PpkKey.all : List PpkKey :=
  [.encryption, .comment, .pubLines, .derivation, .memory, .passes,
    .parallelism, .salt, .privLines, .mac]

theorem PpkKey.mem_all (k : PpkKey) : k ∈ all := by
  cases k <;> decide

/-- None is the key of the first line. -/
theorem PpkKey.plain (k : PpkKey) :
    ¬ k.text.take 20 = ascii "PuTTY-User-Key-File-" ∧ OneLine k.text ∧ colon ∉ k.text := by
  have hall : ∀ k ∈ all, ¬ k.text.take 20 = ascii "PuTTY-User-Key-File-" ∧
      OneLine k.text ∧ colon ∉ k.text := by
    decide +kernel
  exact hall k k.mem_all

/-- What a line with the key does. -/
def PpkKey.apply : PpkKey → PpkHeader × Bytes
  | .encryption => ({ h with encryption := val }, rest)
  | .salt => ({ h with a2salt := val }, rest)
  | .memory => ({ h with a2mem := unsigned val }, rest)
  | .passes => ({ h with a2pass := unsigned val }, rest)
  | .parallelism => ({ h with a2par := unsigned val }, rest)
  | .pubLines =>
    ({ h with pubB64 := (readSection (atoi val).toNat rest).1 },
      (readSection (atoi val).toNat rest).2)
  | .privLines =>
    ({ h with privB64 := (readSection (atoi val).toNat rest).1 },
      (readSection (atoi val).toNat rest).2)
  | .comment | .derivation | .mac => (h, rest)

theorem field_text (k : PpkKey) : h.field k.text val rest = k.apply h val rest := by
  unfold PpkHeader.field
  rw [if_neg k.plain.1]
  cases k <;> rfl

end Fields

section Parse

variable (h : PpkHeader) (eol : LineEnd) {rest : Bytes} {lines : List CStr} {blob : Bytes}

/-- The lines of a section are counted right. -/
theorem readSection_decimal (hlen : lines.length < 2 ^ 31)
    (hsplit : lines.flatten = Base64.encode blob) :
    readSection (atoi (decimal lines.length)).toNat (lines.flatMap (· ++ eol.text) ++ rest) =
      (Base64.encode blob, rest) := by
  have hcount : (atoi (decimal lines.length)).toNat = lines.length := by
    rw [atoi_decimal]
    omega
  rw [hcount, readSection_lines lines (oneLine_of_split hsplit), hsplit]

theorem parseHeader_public (hlen : lines.length < 2 ^ 31)
    (hsplit : lines.flatten = Base64.encode blob) :
    parseHeader h (sectionText eol .pubLines lines ++ rest) =
      parseHeader { h with pubB64 := Base64.encode blob } rest := by
  unfold sectionText
  rw [List.append_assoc, parseHeader_headerLine h (PpkKey.plain _).2 (oneLine_decimal _),
    field_text, PpkKey.apply,
    readSection_decimal eol hlen hsplit]

theorem parseHeader_private (hlen : lines.length < 2 ^ 31)
    (hsplit : lines.flatten = Base64.encode blob) :
    parseHeader h (sectionText eol .privLines lines ++ rest) =
      parseHeader { h with privB64 := Base64.encode blob } rest := by
  unfold sectionText
  rw [List.append_assoc, parseHeader_headerLine h (PpkKey.plain _).2 (oneLine_decimal _),
    field_text, PpkKey.apply,
    readSection_decimal eol hlen hsplit]

/-- A header with the parameters of a key derivation. -/
def PpkHeader.derive (h : PpkHeader) (a : Argon2) : PpkHeader :=
  { h with
    a2mem := unsigned (decimal a.memory)
    a2pass := unsigned (decimal a.passes)
    a2par := unsigned (decimal a.parallelism)
    a2salt := a.salt }

theorem parseHeader_argon2 (a : Argon2) :
    parseHeader h (a.text eol ++ rest) = parseHeader (h.derive a) rest := by
  unfold Argon2.text
  simp only [List.append_assoc]
  rw [parseHeader_headerLine h (PpkKey.plain _).2 (by decide), field_text, PpkKey.apply,
    parseHeader_headerLine _ (PpkKey.plain _).2 (oneLine_decimal _), field_text, PpkKey.apply,
    parseHeader_headerLine _ (PpkKey.plain _).2 (oneLine_decimal _), field_text, PpkKey.apply,
    parseHeader_headerLine _ (PpkKey.plain _).2 (oneLine_decimal _), field_text, PpkKey.apply,
    parseHeader_headerLine _ (PpkKey.plain _).2 a.salt_line, field_text, PpkKey.apply]
  rfl

end Parse

def PpkFile.header (f : PpkFile) : PpkHeader :=
  let h : PpkHeader :=
    { PpkHeader.empty with
      algo := f.algo
      encryption := f.encryption
      pubB64 := Base64.encode f.pub
      privB64 := Base64.encode f.priv }
  f.argon2.elim h h.derive

theorem parseHeader_nil (h : PpkHeader) : parseHeader h [] = h := by
  rw [parseHeader]
  rfl

theorem parseHeader_text (f : PpkFile) (hpub : f.pubLines.length < 2 ^ 31)
    (hpriv : f.privLines.length < 2 ^ 31)
    (eol : LineEnd) : parseHeader .empty (f.text eol) = f.header := by
  have hkey : OneLine f.versionKey ∧ colon ∉ f.versionKey := by
    unfold PpkFile.versionKey
    cases f.version3 <;> decide +kernel
  have hmac : ∀ h : PpkHeader, parseHeader h (headerLine eol PpkKey.mac.text f.mac) = h := by
    intro h
    rw [← List.append_nil (headerLine eol PpkKey.mac.text f.mac),
      parseHeader_headerLine h (PpkKey.plain _).2 f.mac_line,
      field_text, PpkKey.apply, parseHeader_nil]
  unfold PpkFile.text
  simp only [List.append_assoc]
  rw [parseHeader_headerLine _ hkey f.algo_line, field_versionKey,
    parseHeader_headerLine _ (PpkKey.plain _).2 f.encryption_line, field_text, PpkKey.apply,
    parseHeader_headerLine _ (PpkKey.plain _).2 f.comment_line, field_text, PpkKey.apply,
    parseHeader_public _ eol hpub f.pub_split]
  unfold PpkFile.header
  rcases f.argon2 with _ | a
  · show parseHeader _ ([] ++ _) = _
    rw [List.nil_append, parseHeader_private _ eol hpriv f.priv_split, hmac]
    rfl
  · show parseHeader _ (a.text eol ++ _) = _
    rw [parseHeader_argon2, parseHeader_private _ eol hpriv f.priv_split, hmac]
    rfl

/-! ## Reading a file back -/

/-- Padding is cut off again, if the length is an `int`. -/
theorem b64Decode_encode {evpDecodeBlock : CStr → Option Bytes}
    (hevp : DecodesBlocks evpDecodeBlock) {blob : Bytes}
    (hlen : (Base64.encode blob).length < 2 ^ 31) :
    b64Decode evpDecodeBlock (Base64.encode blob) = some blob := by
  have hsize : ((Base64.encode blob).length : ℤ).bmod (2 ^ 32) = (Base64.encode blob).length :=
    Int.bmod_eq_of_le (by omega) (by omega)
  have hpad : (if (Base64.encode blob).getLast? = some 61 then 1 else 0) +
      (if (Base64.encode blob).dropLast.getLast? = some 61 then 1 else 0) = Base64.padding blob :=
    Base64.padSigns_encode blob
  unfold b64Decode
  dsimp only
  rw [hsize, Int.toNat_natCast, List.take_length, hevp blob]
  dsimp only
  rw [hpad, List.length_append, List.length_replicate, if_pos (Nat.le_add_left _ _),
    Nat.add_sub_cancel, List.take_left]

/-- A file is recognized by its first line. -/
theorem readPpk_eq (evpDecodeBlock : CStr → Option Bytes) (f : PpkFile) (eol : LineEnd) :
    readPpk evpDecodeBlock (f.text eol) =
      match b64Decode evpDecodeBlock (parseHeader .empty (f.text eol)).pubB64,
        b64Decode evpDecodeBlock (parseHeader .empty (f.text eol)).privB64 with
      | some pub, some priv =>
        if pub = [] ∨ priv = [] then .invalid
        else .key (if f.version3 then 3 else 2) (parseHeader .empty (f.text eol)) pub priv
      | _, _ => .thrown := by
  obtain ⟨behind, hbehind⟩ : ∃ behind, f.text eol = f.versionKey ++ behind := by
    unfold PpkFile.text headerLine
    simp only [List.append_assoc]
    exact ⟨_, rfl⟩
  have hlen : f.versionKey.length = 21 := by
    unfold PpkFile.versionKey
    cases f.version3 <;> decide +kernel
  have hstart : (f.text eol).take 20 = ascii "PuTTY-User-Key-File-" := by
    rw [hbehind, List.take_append_of_le_length (by omega)]
    unfold PpkFile.versionKey
    cases f.version3 <;> decide +kernel
  have hversion : (if (f.text eol)[20]? = some 51 then 3 else 2) = if f.version3 then 3 else 2 := by
    rw [hbehind, List.getElem?_append_left (by omega)]
    unfold PpkFile.versionKey
    cases f.version3 <;> decide +kernel
  unfold readPpk
  rw [if_neg (not_not_intro hstart)]
  dsimp only
  rw [hversion]

theorem PpkFile.header_pubB64 (f : PpkFile) : f.header.pubB64 = Base64.encode f.pub := by
  unfold header
  cases f.argon2 <;> rfl

theorem PpkFile.header_privB64 (f : PpkFile) : f.header.privB64 = Base64.encode f.priv := by
  unfold header
  cases f.argon2 <;> rfl

theorem readPpk_header {evpDecodeBlock : CStr → Option Bytes}
    (hevp : DecodesBlocks evpDecodeBlock) (f : PpkFile)
    (hfits : f.Fits) (eol : LineEnd) :
    readPpk evpDecodeBlock (f.text eol) =
      .key (if f.version3 then 3 else 2) f.header f.pub f.priv := by
  rw [readPpk_eq, parseHeader_text f hfits.pubLines hfits.privLines,
    f.header_pubB64, f.header_privB64,
    b64Decode_encode hevp hfits.pub, b64Decode_encode hevp hfits.priv]
  exact if_neg (not_or.mpr ⟨f.pub_nonempty, f.priv_nonempty⟩)

theorem PpkFile.header_encryption (f : PpkFile) : f.header.encryption = f.encryption := by
  unfold header
  cases f.argon2 <;> rfl

/-- What was written is read, with either line end. -/
theorem readPpk_text {evpDecodeBlock : CStr → Option Bytes}
    (hevp : DecodesBlocks evpDecodeBlock) (f : PpkFile)
    (hfits : f.Fits) (eol : LineEnd) : ∃ header,
      readPpk evpDecodeBlock (f.text eol) = .key (if f.version3 then 3 else 2) header f.pub f.priv ∧
        header.algo = f.algo ∧ header.encryption = f.encryption := by
  refine ⟨f.header, readPpk_header hevp f hfits eol, ?_, f.header_encryption⟩
  unfold PpkFile.header
  cases f.argon2 <;> rfl

/-- A key with a comment that looks like a header. -/
def commentedPpk : PpkFile where
  version3 := false
  algo := ascii "ssh-rsa"
  algo_line := by decide
  encryption := ascii "none"
  encryption_line := by decide
  comment := ascii "Encryption: aes256-cbc"
  comment_line := by decide
  mac := ascii "00"
  mac_line := by decide
  argon2 := none
  pub := [1, 2]
  pub_nonempty := by decide
  priv := [3]
  priv_nonempty := by decide
  pubLines := [ascii "AQI="]
  pub_split := by decide
  privLines := [ascii "Aw", ascii "=="]
  priv_split := by decide
  short := by decide

theorem readPpk_commented : ∃ header,
    readPpk Base64.decodeBlocks (commentedPpk.text .crlf) = .key 2 header [1, 2] [3] ∧
      header.algo = ascii "ssh-rsa" ∧ header.encryption = ascii "none" :=
  readPpk_text Base64.decodeBlocks_encode commentedPpk
    ⟨by decide, by decide, by decide, by decide⟩ .crlf

/-! ## A length that is no `int` -/

/-- A public blob of zero bytes, in full lines. -/
def zeroPpk (k : ℕ) (hk : 0 < k) : PpkFile :=
  { commentedPpk with
    pub := List.replicate (3 * (16 * k)) 0
    pub_nonempty := by
      intro hnil
      have hlen := congrArg List.length hnil
      simp only [List.length_replicate, List.length_nil] at hlen
      omega
    pubLines := List.replicate k (List.replicate 64 65)
    pub_split := by
      rw [Base64.encode_replicate_zero, List.flatten_replicate_replicate]
      congr 1
      omega
    short := by
      intro l hl
      rcases List.mem_append.mp hl with hl | hl
      · rw [List.eq_of_mem_replicate hl, List.length_replicate]
      · exact commentedPpk.short l (List.mem_append_right _ hl) }

/-- Two gigabytes of base64 are decoded to nothing. -/
theorem b64Decode_huge {evpDecodeBlock : CStr → Option Bytes}
    (hevp : DecodesBlocks evpDecodeBlock) (k : ℕ)
    (hk : 4 * k = 2 ^ 31) :
    b64Decode evpDecodeBlock (Base64.encode (List.replicate (3 * k) 0)) = some [] := by
  have hnil : evpDecodeBlock [] = some [] := hevp []
  have hlast : (List.replicate (4 * k) (65 : Byte)).getLast? ≠ some 61 := by
    intro hmem
    exact absurd (List.eq_of_mem_replicate (List.mem_of_getLast? hmem)) (by decide)
  have hlast' : (List.replicate (4 * k) (65 : Byte)).dropLast.getLast? ≠ some 61 := by
    intro hmem
    exact absurd (List.eq_of_mem_replicate (List.mem_of_mem_dropLast (List.mem_of_getLast? hmem)))
      (by decide)
  have hsize : (((List.replicate (4 * k) (65 : Byte)).length : ℤ).bmod (2 ^ 32)).toNat = 0 := by
    rw [List.length_replicate, hk]
    decide
  unfold b64Decode
  dsimp only
  rw [Base64.encode_replicate_zero, hsize, List.take_zero, hnil, if_neg hlast, if_neg hlast']
  rfl

/-- A file of two gigabytes is taken for an invalid one. -/
theorem not_readPpk_text :
    ¬ ∀ evpDecodeBlock, DecodesBlocks evpDecodeBlock → ∀ (f : PpkFile) (eol : LineEnd), ∃ header,
      readPpk evpDecodeBlock (f.text eol) = .key (if f.version3 then 3 else 2) header f.pub f.priv ∧
        header.algo = f.algo ∧ header.encryption = f.encryption := by
  intro h
  have hpos : 0 < 2 ^ 25 := Nat.two_pow_pos 25
  obtain ⟨header, hread, -⟩ :=
    h Base64.decodeBlocks Base64.decodeBlocks_encode (zeroPpk (2 ^ 25) hpos) .lf
  have hlines : (zeroPpk (2 ^ 25) hpos).pubLines.length < 2 ^ 31 := by
    show (List.replicate (2 ^ 25) _).length < _
    rw [List.length_replicate]
    omega
  have hpub : b64Decode Base64.decodeBlocks (Base64.encode (zeroPpk (2 ^ 25) hpos).pub) = some [] :=
    b64Decode_huge Base64.decodeBlocks_encode _ (by omega)
  have hlen : (Base64.encode commentedPpk.priv).length < 2 ^ 31 := by decide
  have hpriv :
      b64Decode Base64.decodeBlocks (Base64.encode (zeroPpk (2 ^ 25) hpos).priv) = some [3] :=
    b64Decode_encode Base64.decodeBlocks_encode hlen
  have hprivLines : commentedPpk.privLines.length < 2 ^ 31 := by decide
  rw [readPpk_eq, parseHeader_text _ hlines hprivLines, PpkFile.header_pubB64,
    PpkFile.header_privB64, hpub,
    hpriv] at hread
  cases hread

end SalamanderSftp
