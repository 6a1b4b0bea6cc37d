import SalamanderSftp.Connection.Listing
import SalamanderSftp.Lib.Base64
import SalamanderSftp.Lib.BufferedLines

/-!
# The known hosts of libssh2

The functions of `knownhost.c` that host key verification calls: reading the file line by line up to
the first line that cannot be parsed, looking a host and its key up, adding and deleting an entry,
and writing the collection. An allocation that fails and a write that is cut short are left out. The
keyed hash of hashed names is a parameter `hmac`, from the salt and the name.

`knownhostCheckp_match_iff` and `knownhostCheckp_mismatch_iff` say what a look-up answers by the
entries that it compares: those of one of the names of the host with the same key type.
-/

namespace SalamanderSftp

/-- `LIBSSH2_KNOWNHOST_KEY_...` -/
inductive KnownHostKey
  | RSA1
  | SSHRSA
  | SSHDSS
  | ECDSA_256
  | ECDSA_384
  | ECDSA_521
  | ED25519
  | UNKNOWN
  deriving DecidableEq

/-- The types of `LIBSSH2_KNOWNHOST_TYPE_...` that the file has. -/
inductive KnownHostType
  | PLAIN
  | SHA1
  deriving DecidableEq

/-- The name of an entry, decoded when it is a hash. -/
inductive KnownHostName
  | plain (name : CStr)
  | sha1 (salt hash : Bytes)
  deriving DecidableEq

/-- `struct known_host`; the key is kept as the text of the file. -/
structure KnownHost where
  name : KnownHostName
  key_type : KnownHostKey
  key : CStr
  key_type_name : Option CStr
  comment : Option CStr
  deriving DecidableEq

def KNOWNHOST_MAX_LEN : ℕ := 1024 * 1024

/-! ## Adding an entry -/

def knownhostName (type : KnownHostType) (host : CStr) (salt : Option CStr) :
    Option KnownHostName :=
  match type with
  | .PLAIN => some (.plain host)
  | .SHA1 => do
    let hash ← Base64.decode host
    guard (hash ≠ [])
    let salt ← salt
    guard (salt.length ≤ KNOWNHOST_MAX_LEN)
    let salt ← Base64.decode salt
    guard (salt ≠ [])
    return .sha1 salt hash

/-- `knownhost_add`; `base64` says that the key is encoded already. -/
def knownhostAdd (type : KnownHostType) (key_type : KnownHostKey) (base64 : Bool)
    (host : CStr) (salt : Option CStr)
    (key_type_name : Option CStr) (key : Bytes) (comment : Option CStr) : Option KnownHost := do
  guard (key ≠ [])
  guard (host.length ≤ KNOWNHOST_MAX_LEN ∧ key.length ≤ KNOWNHOST_MAX_LEN)
  let name ← knownhostName type host salt
  let typeName := if key_type = .UNKNOWN then key_type_name else none
  guard (∀ t ∈ typeName, t.length ≤ KNOWNHOST_MAX_LEN)
  guard (∀ c ∈ comment, c.length ≤ KNOWNHOST_MAX_LEN)
  return ⟨name, key_type, if base64 then key else Base64.encode key, typeName, comment⟩

/-! ## Reading -/

/-- What a line gives: its entries up to an error, and whether there was none. -/
abbrev LineResult := List KnownHost × Bool

/-- A name is cut off from the end at every comma with a character behind it. -/
def legacyNames : CStr → List Byte → List CStr
  | _, [] => []
  | name, [c] => [c :: name]
  | name, c :: d :: rest =>
    if d = 44 then (c :: name) :: legacyNames [] rest else legacyNames (c :: name) (d :: rest)

/-- `hostbuf` and `saltbuf` of `knownhost_line_legacy` and `knownhost_line_hashed`. -/
def hostbufSize : ℕ := 256
def saltbufSize : ℕ := 32

/-- The names of a line are added until one is too long. -/
def addNames (add : CStr → Option KnownHost) : List CStr → LineResult
  | [] => ([], true)
  | name :: names =>
    if hostbufSize - 1 ≤ name.length then ([], false)
    else match add name with
      | none => ([], false)
      | some e => (e :: (addNames add names).1, (addNames add names).2)

/-- The part of a line behind its host. -/
structure LineKey where
  key_type : KnownHostKey
  key_type_name : Option CStr
  key : CStr
  comment : Option CStr
  deriving DecidableEq

def knownhostLineLegacy (host : CStr) (k : LineKey) : LineResult :=
  if host = [] then ([], false)
  else addNames
    (fun name => knownhostAdd .PLAIN k.key_type true name none k.key_type_name k.key k.comment)
    (legacyNames [] host.reverse)

/-- `knownhost_line_hashed`: "|1|", the salt, "|" and the hash. Without the second bar nothing is
added. -/
def knownhostLineHashed (host : CStr) (k : LineKey) : LineResult :=
  let salt := (host.drop 3).takeWhile (· ≠ 124)
  match (host.drop 3).dropWhile (· ≠ 124) with
  | [] => ([], true)
  | _ :: hash =>
    if saltbufSize - 1 ≤ salt.length ∨ hostbufSize - 1 ≤ hash.length then ([], false)
    else match knownhostAdd .SHA1 k.key_type true hash
      (some salt) k.key_type_name k.key k.comment with
      | none => ([], false)
      | some e => ([e], true)

def keyTypeNames : List (CStr × KnownHostKey) :=
  [(ascii "ssh-ed25519", .ED25519), (ascii "ecdsa-sha2-nistp256", .ECDSA_256),
    (ascii "ecdsa-sha2-nistp384", .ECDSA_384), (ascii "ecdsa-sha2-nistp521", .ECDSA_521),
    (ascii "ssh-rsa", .SSHRSA), (ascii "ssh-dss", .SSHDSS)]

/-- The comparison is by `strncmp` with the length of the name in the line, so a beginning of a type
name will do. -/
def keyTypeOf (name : CStr) : KnownHostKey :=
  ((keyTypeNames.find? fun t => name.isPrefixOf t.1).map Prod.snd).getD .UNKNOWN

/-- The type, the key and the comment. A text with a digit first is an RSA1 key as a whole. -/
def splitKey (key : CStr) : LineKey :=
  match key with
  | [] => ⟨.UNKNOWN, some [], [], none⟩
  | c :: _ =>
    if isDigit c then ⟨.RSA1, none, key, none⟩
    else
      let typeName := key.takeWhile fun c => !isBlank c
      let rest := (key.dropWhile fun c => !isBlank c).dropWhile isBlank
      let tail := rest.dropWhile fun c => !isBlank c
      ⟨keyTypeOf typeName, some typeName, rest.takeWhile fun c => !isBlank c,
        if tail = [] then none else some (tail.dropWhile isBlank)⟩

def knownhostLine (host key : CStr) : LineResult :=
  if key.length < 20 then ([], false)
  else
    let k := splitKey key
    if k.key = [] then ([], false)
    else if host.length < 3 ∨ host.take 3 ≠ ascii "|1|" then knownhostLineLegacy host k
    else knownhostLineHashed host k

/-- `libssh2_knownhost_readline`. An empty line and a comment are no error. -/
def knownhostReadline (line : CStr) : LineResult :=
  if KNOWNHOST_MAX_LEN < line.length then ([], false)
  else match line.dropWhile isBlank with
    | [] => ([], true)
    | c :: cs =>
      if c = 35 ∨ c = 10 then ([], true)
      else
        let host := (c :: cs).takeWhile fun c => !isBlank c
        let rest := ((c :: cs).dropWhile fun c => !isBlank c).dropWhile isBlank
        if rest = [] then ([], false) else knownhostLine host (rest.takeWhile (· ≠ 10))

/-- The buffer of `libssh2_knownhost_readfile` and of `libssh2_knownhost_writefile`. -/
def lineBufSize : ℕ := 4092

/-- What a file opened for text gives: CR LF is a newline, and Ctrl-Z the end. -/
def textRead : Bytes → Bytes
  | [] => []
  | [c] => if c = 26 then [] else [c]
  | c :: d :: rest =>
    if c = 26 then [] else if c = 13 ∧
      d = 10 then 10 :: textRead rest else c :: textRead (d :: rest)

/-- The lines as `fgets` delivers them. -/
def knownHostsLines (content : Bytes) : List CStr :=
  (BufferedLines.pieces 10 (lineBufSize - 1) (textRead content)).map cstr

/-- Line by line, to the first that cannot be parsed. -/
def readLines : List CStr → List KnownHost
  | [] => []
  | line :: lines =>
    (knownhostReadline line).1 ++ if (knownhostReadline line).2 then readLines lines else []

/-- `libssh2_knownhost_readfile`; nothing is read from a file that cannot be opened. -/
def knownhostReadfile (file : Option Bytes) : List KnownHost :=
  (file.map fun content => readLines (knownHostsLines content)).getD []

/-! ## Looking up -/

section LookUp

variable (hmac : Bytes → CStr → Bytes)

/-- The name of the entry is this text, or its hash. -/
def KnownHost.isFor (e : KnownHost) (host : CStr) : Bool :=
  match e.name with
  | .plain name => host = name
  | .sha1 salt hash => hash.length = 20 ∧ hmac salt host = hash

/-- The entry has this name and this type of key, so that its key is compared. -/
def KnownHost.compares (e : KnownHost) (host : CStr) (key_type : KnownHostKey) : Bool :=
  e.isFor hmac host && key_type ≠ .UNKNOWN && e.key_type = key_type

/-- The inner loop of `knownhost_check`: the position of a match, and of the first mismatch. -/
def checkNodes (host : CStr) (key : CStr) (key_type : KnownHostKey) :
    ℕ → Option ℕ → List KnownHost → Option ℕ × Option ℕ
  | _, badkey, [] => (none, badkey)
  | i, badkey, e :: nodes =>
    if e.compares hmac host key_type then
      if key = e.key then (some i, none) else checkNodes host key key_type (i + 1)
        (badkey <|> some i) nodes
    else checkNodes host key key_type (i + 1) badkey nodes

def checkHosts (key : CStr) (key_type : KnownHostKey) (nodes : List KnownHost) :
    Option ℕ → List CStr → Option ℕ × Option ℕ
  | badkey, [] => (none, badkey)
  | badkey, host :: hosts =>
    match checkNodes hmac host key key_type 0 badkey nodes with
    | (some i, _) => (some i, none)
    | (none, badkey) => checkHosts key key_type nodes badkey hosts

/-- `LIBSSH2_KNOWNHOST_CHECK_...` -/
inductive KnownHostCheck
  | MATCH
  | MISMATCH
  | NOTFOUND
  | FAILURE
  deriving DecidableEq

def hostPort (host : CStr) (port : ℤ) : CStr := 91 :: host ++ [93, 58] ++ decimalInt port

def hostbuffSize : ℕ := 270

/-- The names that are looked up; none when the first does not fit its buffer. -/
def hostCombos (host : CStr) (port : ℤ) : Option (List CStr) :=
  if 0 ≤ port then if hostbuffSize ≤ (hostPort host port).length then none
    else some [hostPort host port, host]
  else some [host]

/-- `libssh2_knownhost_checkp` for a plain name and a raw key, with the position of the entry that
it stores. -/
def knownhostCheckp (nodes : List KnownHost) (host : CStr) (port : ℤ) (key : Bytes)
    (key_type : KnownHostKey) :
    KnownHostCheck × Option ℕ :=
  if KNOWNHOST_MAX_LEN < key.length then (.FAILURE, none)
  else match hostCombos host port with
    | none => (.FAILURE, none)
    | some hosts =>
      if key = [] then (.FAILURE, none)
      else match checkHosts hmac (Base64.encode key) key_type nodes none hosts with
        | (some i, _) => (.MATCH, some i)
        | (none, some i) => (.MISMATCH, some i)
        | (none, none) => (.NOTFOUND, none)

/-! ### What a look-up answers -/

variable {hmac} {host key : CStr} {key_type : KnownHostKey}

theorem checkNodes_match {nodes : List KnownHost} (i : ℕ) (badkey : Option ℕ)
    (h : ∃ e ∈ nodes, e.compares hmac host key_type = true ∧ e.key = key) :
    ∃ j, checkNodes hmac host key key_type i badkey nodes = (some j, none) := by
  induction nodes generalizing i badkey with
  | nil => simp at h
  | cons e nodes ih =>
    unfold checkNodes
    by_cases hc : e.compares hmac host key_type = true ∧ key = e.key
    · rw [if_pos hc.1, if_pos hc.2]
      exact ⟨i, rfl⟩
    · have hrest : ∃ e ∈ nodes, e.compares hmac host key_type = true ∧ e.key = key := by
        obtain ⟨e', he', hcomp, hkey⟩ := h
        rcases List.mem_cons.mp he' with rfl | hmem
        · exact absurd ⟨hcomp, hkey.symm⟩ hc
        · exact ⟨e', hmem, hcomp, hkey⟩
      split_ifs with hcomp hkey
      · exact absurd ⟨hcomp, hkey⟩ hc
      · exact ih _ _ hrest
      · exact ih _ _ hrest

theorem checkNodes_other {nodes : List KnownHost} (i : ℕ) (badkey : Option ℕ)
    (h : ∀ e ∈ nodes, e.compares hmac host key_type = true → e.key ≠ key) :
    ∃ badkey', checkNodes hmac host key key_type i badkey nodes = (none, badkey') ∧
      (badkey'.isSome ↔ badkey.isSome ∨ ∃ e ∈ nodes, e.compares hmac host key_type = true) := by
  induction nodes generalizing i badkey with
  | nil => exact ⟨badkey, rfl, by simp⟩
  | cons e nodes ih =>
    have hrest := fun e' he' => h e' (List.mem_cons_of_mem _ he')
    unfold checkNodes
    by_cases hcomp : e.compares hmac host key_type = true
    · obtain ⟨badkey', heq, hiff⟩ := ih (i + 1) (badkey <|> some i) hrest
      rw [if_pos hcomp, if_neg fun hkey => h e List.mem_cons_self hcomp hkey.symm]
      refine ⟨badkey', heq,
        hiff.trans ⟨fun _ => .inr ⟨e, List.mem_cons_self, hcomp⟩, fun _ => .inl ?_⟩⟩
      cases badkey <;> rfl
    · obtain ⟨badkey', heq, hiff⟩ := ih (i + 1) badkey hrest
      rw [if_neg hcomp]
      refine ⟨badkey', heq,
        hiff.trans (or_congr_right ⟨fun ⟨e', he', hc⟩ => ⟨e', List.mem_cons_of_mem _ he', hc⟩, ?_⟩)⟩
      rintro ⟨e', he', hc⟩
      rcases List.mem_cons.mp he' with rfl | hmem
      · exact absurd hc hcomp
      · exact ⟨e', hmem, hc⟩

theorem checkHosts_match {nodes : List KnownHost} {hosts : List CStr} (badkey : Option ℕ)
    (h : ∃ host ∈ hosts, ∃ e ∈ nodes, e.compares hmac host key_type = true ∧ e.key = key) :
    ∃ j, checkHosts hmac key key_type nodes badkey hosts = (some j, none) := by
  induction hosts generalizing badkey with
  | nil => simp at h
  | cons host hosts ih =>
    unfold checkHosts
    by_cases hhere : ∃ e ∈ nodes, e.compares hmac host key_type = true ∧ e.key = key
    · obtain ⟨j, hj⟩ := checkNodes_match 0 badkey hhere
      rw [hj]
      exact ⟨j, rfl⟩
    · have hother : ∀ e ∈ nodes, e.compares hmac host key_type = true → e.key ≠ key :=
        fun e he hcomp hkey =>
        hhere ⟨e, he, hcomp, hkey⟩
      obtain ⟨badkey', hj, -⟩ := checkNodes_other 0 badkey hother
      rw [hj]
      refine ih badkey' ?_
      obtain ⟨host', hhost', hfound⟩ := h
      rcases List.mem_cons.mp hhost' with rfl | hmem
      · exact absurd hfound hhere
      · exact ⟨host', hmem, hfound⟩

theorem checkHosts_other {nodes : List KnownHost} {hosts : List CStr} (badkey : Option ℕ)
    (h : ∀ host ∈ hosts, ∀ e ∈ nodes, e.compares hmac host key_type = true → e.key ≠ key) :
    ∃ badkey', checkHosts hmac key key_type nodes badkey hosts = (none, badkey') ∧
      (badkey'.isSome ↔
        badkey.isSome ∨ ∃ host ∈ hosts, ∃ e ∈ nodes, e.compares hmac host key_type = true) := by
  induction hosts generalizing badkey with
  | nil => exact ⟨badkey, rfl, by simp⟩
  | cons host hosts ih =>
    obtain ⟨badkey₁, hhere, hiff₁⟩ := checkNodes_other 0 badkey (h host List.mem_cons_self)
    obtain ⟨badkey₂, hrest, hiff₂⟩ :=
      ih badkey₁ fun host' hmem => h host' (List.mem_cons_of_mem _ hmem)
    refine ⟨badkey₂, ?_, ?_⟩
    · unfold checkHosts
      rw [hhere]
      exact hrest
    · rw [hiff₂, hiff₁, or_assoc]
      simp only [List.mem_cons, exists_eq_or_imp]

/-- The names that a host with a port goes by. -/
def hostNames (host : CStr) (port : ℤ) :
    List CStr := if 0 ≤ port then [hostPort host port, host] else [host]

/-- What `knownhost_check` needs to look anything up. -/
structure Checkable (host : CStr) (port : ℤ) (key : Bytes) : Prop where
  key_ne_nil : key ≠ []
  key_fits : key.length ≤ KNOWNHOST_MAX_LEN
  host_fits : 0 ≤ port → (hostPort host port).length < hostbuffSize

/-- The entry is looked up under one of the names, and its key is compared. -/
def KnownHost.Compared (hmac : Bytes → CStr → Bytes) (host : CStr) (port : ℤ)
    (key_type : KnownHostKey) (e : KnownHost) :
    Prop :=
  ∃ name ∈ hostNames host port, e.compares hmac name key_type = true

theorem hostCombos_eq (host : CStr) (port : ℤ) : hostCombos host port =
    if 0 ≤ port →
    (hostPort host port).length < hostbuffSize then some (hostNames host port) else none := by
  unfold hostCombos hostNames
  by_cases hport : 0 ≤ port
  · by_cases hfits : hostbuffSize ≤ (hostPort host port).length
    · rw [if_pos hport, if_pos hfits, if_neg fun h => absurd (h hport) (by omega)]
    · rw [if_pos hport, if_neg hfits, if_pos fun _ => by omega, if_pos hport]
  · rw [if_neg hport, if_pos fun h => absurd h hport, if_neg hport]

variable {nodes : List KnownHost} {port : ℤ} {raw : Bytes}

theorem knownhostCheckp_failure (h : ¬ Checkable host port raw) :
    knownhostCheckp hmac nodes host port raw key_type = (.FAILURE, none) := by
  unfold knownhostCheckp
  by_cases hlen : KNOWNHOST_MAX_LEN < raw.length
  · rw [if_pos hlen]
  rw [if_neg hlen, hostCombos_eq]
  by_cases hhost : 0 ≤ port → (hostPort host port).length < hostbuffSize
  · rw [if_pos hhost]
    dsimp only
    rw [if_pos (by_contra fun hne => h ⟨hne, by omega, hhost⟩)]
  · rw [if_neg hhost]

theorem knownhostCheckp_eq (h : Checkable host port raw) :
    knownhostCheckp hmac nodes host port raw key_type =
      match checkHosts hmac (Base64.encode raw) key_type nodes none (hostNames host port) with
      | (some i, _) => (.MATCH, some i)
      | (none, some i) => (.MISMATCH, some i)
      | (none, none) => (.NOTFOUND, none) := by
  have hlen := h.key_fits
  unfold knownhostCheckp
  rw [if_neg (by omega), hostCombos_eq, if_pos h.host_fits]
  dsimp only
  rw [if_neg h.key_ne_nil]

/-- The key is stored with its type under one of the names. -/
def Stored (hmac : Bytes → CStr → Bytes) (nodes : List KnownHost)
    (host : CStr) (port : ℤ) (raw : Bytes)
    (key_type : KnownHostKey) : Prop :=
  ∃ e ∈ nodes, e.Compared hmac host port key_type ∧ e.key = Base64.encode raw

theorem checkHosts_stored (h : Stored hmac nodes host port raw key_type) :
    ∃ j, checkHosts hmac (Base64.encode raw) key_type nodes none (hostNames host port) =
      (some j, none) := by
  obtain ⟨e, he, ⟨name, hname, hcomp⟩, hkey⟩ := h
  exact checkHosts_match none ⟨name, hname, e, he, hcomp, hkey⟩

theorem checkHosts_not_stored (h : ¬ Stored hmac nodes host port raw key_type) :
    ∃ badkey, checkHosts hmac (Base64.encode raw) key_type nodes none (hostNames host port) =
      (none, badkey) ∧
      (badkey.isSome ↔ ∃ e ∈ nodes, e.Compared hmac host port key_type) := by
  have hother : ∀ name ∈ hostNames host port, ∀ e ∈ nodes, e.compares hmac name key_type = true →
      e.key ≠ Base64.encode raw :=
        fun name hname e he hcomp hkey => h ⟨e, he, ⟨name, hname, hcomp⟩, hkey⟩
  obtain ⟨badkey, heq, hiff⟩ := checkHosts_other none hother
  refine ⟨badkey, heq, hiff.trans ?_⟩
  simp only [Option.isSome_none, Bool.false_eq_true, false_or]
  exact ⟨fun ⟨name, hname, e, he, hcomp⟩ => ⟨e, he, name, hname, hcomp⟩,
    fun ⟨e, he, name, hname, hcomp⟩ => ⟨name, hname, e, he, hcomp⟩⟩

theorem knownhostCheckp_match_iff : (knownhostCheckp hmac nodes host port raw key_type).1 = .MATCH ↔
    Checkable host port raw ∧ Stored hmac nodes host port raw key_type := by
  by_cases hc : Checkable host port raw
  swap
  · rw [knownhostCheckp_failure hc]
    exact ⟨fun h => (by cases h), fun h => absurd h.1 hc⟩
  rw [knownhostCheckp_eq hc]
  by_cases hs : Stored hmac nodes host port raw key_type
  · obtain ⟨j, hj⟩ := checkHosts_stored hs
    rw [hj]
    exact ⟨fun _ => ⟨hc, hs⟩, fun _ => rfl⟩
  · obtain ⟨badkey, hj, -⟩ := checkHosts_not_stored hs
    rw [hj]
    refine ⟨fun h => ?_, fun h => absurd h.2 hs⟩
    cases badkey <;> cases h

/-- A changed key is recognised by an entry whose key is compared. -/
theorem knownhostCheckp_mismatch_iff :
    (knownhostCheckp hmac nodes host port raw key_type).1 = .MISMATCH ↔
    Checkable host port raw ∧ ¬ Stored hmac nodes host port raw key_type ∧
      ∃ e ∈ nodes, e.Compared hmac host port key_type := by
  by_cases hc : Checkable host port raw
  swap
  · rw [knownhostCheckp_failure hc]
    exact ⟨fun h => (by cases h), fun h => absurd h.1 hc⟩
  rw [knownhostCheckp_eq hc]
  by_cases hs : Stored hmac nodes host port raw key_type
  · obtain ⟨j, hj⟩ := checkHosts_stored hs
    rw [hj]
    exact ⟨fun h => (by cases h), fun h => absurd hs h.2.1⟩
  · obtain ⟨badkey, hj, hiff⟩ := checkHosts_not_stored hs
    rw [hj]
    cases badkey with
    | none => exact ⟨fun h => (by cases h), fun h => absurd (hiff.mpr h.2.2) (by simp)⟩
    | some i => exact ⟨fun _ => ⟨hc, hs, hiff.mp rfl⟩, fun _ => rfl⟩

end LookUp

/-! ## Writing -/

def knownhostDel (nodes : List KnownHost) (i : ℕ) : List KnownHost := nodes.eraseIdx i

/-- `libssh2_knownhost_addc` for a plain name and a raw key without a comment. -/
def knownhostAddc (nodes : List KnownHost) (host : CStr) (key : Bytes) (key_type : KnownHostKey) :
    List KnownHost :=
  nodes ++ (knownhostAdd .PLAIN key_type false host none none key none).toList

/-- The type name in the line; it is empty for RSA1. -/
def KnownHost.typeText (e : KnownHost) : Option CStr :=
  match e.key_type with
  | .RSA1 => some []
  | .SSHRSA => some (ascii "ssh-rsa")
  | .SSHDSS => some (ascii "ssh-dss")
  | .ECDSA_256 => some (ascii "ecdsa-sha2-nistp256")
  | .ECDSA_384 => some (ascii "ecdsa-sha2-nistp384")
  | .ECDSA_521 => some (ascii "ecdsa-sha2-nistp521")
  | .ED25519 => some (ascii "ssh-ed25519")
  | .UNKNOWN => e.key_type_name

/-- The host field of the line; a salt or a hash without a byte cannot be encoded. -/
def KnownHostName.text : KnownHostName → Option CStr
  | .plain name => some name
  | .sha1 salt hash =>
    if salt = [] ∨ hash =
      [] then none else some (ascii "|1|" ++ Base64.encode salt ++ [124] ++ Base64.encode hash)

/-- `knownhost_writeline` into the buffer; the terminating NUL has to fit too. -/
def knownhostWriteline (e : KnownHost) : Option CStr := do
  let typeName ← e.typeText
  let host ← e.name.text
  let line := host ++ [32] ++ (if typeName = [] then [] else typeName ++ [32]) ++ e.key ++
    (match e.comment with | none => [] | some c => 32 :: c) ++ [10]
  guard (line.length + 1 ≤ lineBufSize)
  return line

/-- The lines up to the first that cannot be written. -/
def writeLines : List KnownHost → CStr
  | [] => []
  | e :: nodes =>
    match knownhostWriteline e with
    | none => []
    | some line => line ++ writeLines nodes

/-- What a file opened for text gets. -/
def textWrite (s : Bytes) : Bytes := s.flatMap fun c => if c = 10 then [13, 10] else [c]

def knownhostWritefile (nodes : List KnownHost) : Bytes := textWrite (writeLines nodes)

end SalamanderSftp
