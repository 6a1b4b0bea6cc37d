import SalamanderSftp.Path

/-!
# Profiles and typed addresses

A profile says how to connect to a server. `SftpHostPrefix` prints the server in front of a path, as
`//user@host:port`; `SftpStripHost` and `SftpParseHostInto` read such a text, with either slash, the
first '@' and the first ':' behind it. An `Address` is what such a text is meant to say;
`parseHost_text` is what the readers make of it.
-/

namespace SalamanderSftp

open Components

/-- A server in the connection manager. -/
structure CSftpSavedProfile where
  Name : CharBuf 128
  Host : CharBuf 256
  Port : ℤ
  User : CharBuf 128
  Password : CharBuf 256
  KeyFile : CharBuf 260
  Path : CharBuf 260
  SftpServer : CharBuf 260
  UseCompression : Bool
  Protocol : ℤ
  ScpFallback : Bool
  ExecOnEnter : Bool
  deriving DecidableEq

structure CSftpProfile extends CSftpSavedProfile where
  Valid : Bool
  deriving DecidableEq

/-- `SftpProfileFromSaved`, which overwrites every field. -/
def sftpProfileFromSaved (src : CSftpSavedProfile) : CSftpProfile := { src with Valid := true }

/-- What tells servers apart: the host without case, the port and the user. -/
structure Server where
  host : CStr
  port : ℤ
  user : CStr
  deriving DecidableEq

/-- The server a profile denotes; without a port it is 22. -/
def CSftpProfile.server (p : CSftpProfile) : Server :=
  ⟨p.Host.text.map toLower, if p.Port = 0 then 22 else p.Port, p.User.text⟩

/-! ## Printing -/

def portPart (port : ℤ) :
    CStr := if port ≠ 0 ∧ port ≠ 22 then lstrcpyn (colon :: decimalInt port) 16 else []

/-- The text between the slashes and the path. -/
def CSftpProfile.shown (p : CSftpProfile) : CStr :=
  (if p.User.text ≠ [] then p.User.text ++ [at_] else []) ++ p.Host.text ++ portPart p.Port

def sftpHostPrefix (p : CSftpProfile) (outSize : ℕ) :
    CStr := lstrcpyn (slash :: slash :: p.shown) outSize

/-! ## Reading -/

/-- The text between two slashes and the next slash, and what follows. -/
def splitHost : CStr → Option (CStr × CStr)
  | c :: d :: rest =>
    if isSlash c &&
      isSlash d then some (rest.takeWhile (!isSlash ·), rest.dropWhile (!isSlash ·)) else none
  | _ => none

/-- A text without slashes is read up to the slash behind it. -/
theorem splitHost_append {c d : Byte} {s path : CStr}
    (hc : isSlash c = true) (hd : isSlash d = true)
    (hs : ∀ e ∈ s, isSlash e = false) (hpath : ∀ e ∈ path.head?, isSlash e = true) :
    splitHost (c :: d :: (s ++ path)) = some (s, path) := by
  have hall : ∀ e ∈ s, (!isSlash e) = true := fun e he => by simp [hs e he]
  have hstop : path.takeWhile (!isSlash ·) = [] ∧ path.dropWhile (!isSlash ·) = path := by
    rcases path with _ | ⟨e, path⟩
    · exact ⟨rfl, rfl⟩
    · have he := hpath e rfl
      exact ⟨List.takeWhile_cons_of_neg (by simp [he]), List.dropWhile_cons_of_neg (by simp [he])⟩
  rw [splitHost, if_pos (by simp [hc, hd]), List.takeWhile_append_of_pos hall,
    List.dropWhile_append_of_pos hall,
    hstop.1, hstop.2, List.append_nil]

def sftpStripHost (userPart : CStr) : CStr :=
  match splitHost userPart with
  | none => userPart
  | some (_, rest) => if rest = [] then [slash] else rest

/-- `user`, `host` and the number behind a colon. -/
structure HostParts where
  user : CharBuf 128
  host : CharBuf 256
  port : Option ℤ
  deriving DecidableEq

/-- `user@host:port`, cut at the first '@' and the first ':' behind it. -/
def parseHost (buf : CStr) : HostParts :=
  let (user, hostpart) : CStr × CStr :=
    match cutAt at_ buf with
    | (user, some rest) => (user, rest)
    | (_, none) => ([], buf)
  let (host, port) := cutAt colon hostpart
  ⟨.copy 128 user, .copy 256 host, port.map atoi⟩

/-- The name of the first saved profile with this host and user. -/
def savedName (saved : List CSftpSavedProfile) (host : CharBuf 256) (user : CharBuf 128) :
    CharBuf 128 :=
  match saved.find? fun s =>
      stricmpEq host.text s.Host.text ∧ (user.text = [] ∨ stricmpEq user.text s.User.text) with
  | some s => .copy 128 s.Name.text
  | none => .copy 128 []

/-- The address names another host or user than the profile has. -/
def HostParts.Differs (a : HostParts) (p : CSftpProfile) : Prop :=
  ¬ stricmpEq a.host.text p.Host.text ∨ (a.user.text ≠ [] ∧ ¬ stricmpEq a.user.text p.User.text)

instance (a : HostParts) (p : CSftpProfile) : Decidable (a.Differs p) := by
  unfold HostParts.Differs
  infer_instance

/-- The profile after an address was typed. -/
def switchProfile (saved : List CSftpSavedProfile) (p : CSftpProfile) (a : HostParts) :
    CSftpProfile :=
  let port := a.port.getD 22
  let user := if a.user.text ≠ [] then a.user else p.User
  { p with
    Host := a.host
    User := user
    Port := if 0 < port then port else 22
    Valid := true
    Name := savedName saved a.host user }

/-- `SftpParseHostInto`: the profile, and whether the connection was dropped. -/
def sftpParseHostInto (saved : List CSftpSavedProfile) (p : CSftpProfile) (userPart : CStr) :
    CSftpProfile × Bool :=
  match splitHost userPart with
  | none => (p, false)
  | some (buf, _) =>
    if buf = [] ∨ 320 ≤ buf.length then (p, false)
    else
      let a := parseHost buf
      if a.host.text = [] then (p, false)
      else if a.Differs p then (switchProfile saved p a, true)
      else (p, false)

/-! ## Typed addresses -/

/-- `[user@]host[:port]`, without the characters that separate its parts. -/
structure Address where
  user : Option CStr
  host : CStr
  port : Option ℕ
  user_plain : ∀ u ∈ user, u ≠ [] ∧ at_ ∉ u ∧ ∀ c ∈ u, isSlash c = false
  host_plain : host ≠ [] ∧ at_ ∉ host ∧ colon ∉ host ∧ ∀ c ∈ host, isSlash c = false

namespace Address

def text (a : Address) : CStr :=
  a.user.elim [] (· ++ [at_]) ++ (a.host ++ a.port.elim [] (colon :: decimal ·))

/-- The user part is this address between slashes and a path that starts with a slash, or
nothing. -/
def Typed (a : Address) (userPart : CStr) : Prop :=
  ∃ c d rest, isSlash c = true ∧ isSlash d = true ∧ userPart = c :: d :: (a.text ++ rest) ∧
    ∀ e ∈ rest.head?, isSlash e = true

/-- The profile denotes the server of the address. -/
structure Denotes (a : Address) (p : CSftpProfile) : Prop where
  host : stricmpEq p.Host.text a.host
  user : ∀ u ∈ a.user, p.User.text = u
  port : p.Port = (a.port.getD 22 : ℕ)

theorem digit_plain {n : ℕ} {c : Byte} (h : c ∈ decimal n) : c ≠ at_ ∧ isSlash c = false := by
  have hc := isDigit_of_mem_decimal h
  constructor
  · rintro rfl
    exact absurd hc (by decide)
  · by_contra hs
    rw [Bool.not_eq_false, isSlash, Bool.or_eq_true, beq_iff_eq, beq_iff_eq] at hs
    rcases hs with rfl | rfl <;> exact absurd hc (by decide)

theorem not_slash_of_mem_text {a : Address} {c : Byte} (h : c ∈ a.text) : isSlash c = false := by
  unfold text at h
  rcases List.mem_append.mp h with h | h
  · rcases hu : a.user with _ | u
    · simp [hu] at h
    · rw [hu, Option.elim_some, List.mem_append, List.mem_singleton] at h
      rcases h with h | rfl
      · exact (a.user_plain u hu).2.2 c h
      · decide
  · rcases List.mem_append.mp h with h | h
    · exact a.host_plain.2.2.2 c h
    · rcases hp : a.port with _ | n
      · simp [hp] at h
      · rw [hp, Option.elim_some, List.mem_cons] at h
        rcases h with rfl | h
        · decide
        · exact (digit_plain h).2

theorem text_ne_nil (a : Address) : a.text ≠ [] := by
  have hhost := a.host_plain.1
  unfold text
  simp [hhost]

theorem splitHost_typed {a : Address} {userPart : CStr} (h : a.Typed userPart) :
    ∃ rest, splitHost userPart = some (a.text, rest) := by
  obtain ⟨c, d, rest, hc, hd, rfl, hrest⟩ := h
  exact ⟨rest, splitHost_append hc hd (fun _ => not_slash_of_mem_text) hrest⟩

/-- The readers understand an address, up to the sizes of their buffers and of an `int`. -/
theorem parseHost_text (a : Address) :
    parseHost a.text =
      ⟨.copy 128 (a.user.getD []), .copy 256 a.host,
        a.port.map fun n : ℕ => min (n : ℤ) (2 ^ 31 - 1)⟩ := by
  have hhostpart : cutAt colon (a.host ++ a.port.elim [] (colon :: decimal ·)) =
      (a.host, a.port.map decimal) := by
    rcases a.port with _ | n
    · rw [Option.elim_none, List.append_nil]
      exact cutAt_of_notMem a.host_plain.2.2.1
    · exact cutAt_append a.host_plain.2.2.1 _
  have hport : (a.port.map decimal).map atoi = a.port.map fun n : ℕ =>
      min (n : ℤ) (2 ^ 31 - 1) := by
    rw [Option.map_map]
    congr 1
    funext n
    exact atoi_decimal n
  unfold parseHost
  rcases hu : a.user with _ | u
  · have htext : a.text = a.host ++ a.port.elim [] (colon :: decimal ·) := by simp [text, hu]
    have hno : at_ ∉ a.text := by
      rw [htext, List.mem_append, not_or]
      refine ⟨a.host_plain.2.1, ?_⟩
      rcases a.port with _ | n
      · simp
      · rw [Option.elim_some, List.mem_cons, not_or]
        exact ⟨by decide, fun h => (digit_plain h).1 rfl⟩
    rw [cutAt_of_notMem hno]
    dsimp only
    rw [htext, hhostpart, hport]
    rfl
  · have htext : a.text = u ++ at_ :: (a.host ++ a.port.elim [] (colon :: decimal ·)) := by
      simp [text, hu]
    rw [htext, cutAt_append (a.user_plain u hu).2.1]
    dsimp only
    rw [hhostpart, hport]
    rfl

end Address

end SalamanderSftp
