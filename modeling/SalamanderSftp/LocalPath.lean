import SalamanderSftp.Path

/-!
# Local paths

The place a Windows path names, with either slash as separator (`locate`), when one path lies inside
another (`Inside`), and the documented result of `PathAppendA` (`pathAppended`): the right part
behind a backslash, or alone when it has a root of its own, with "." and ".." collapsed.
-/

namespace SalamanderSftp

open Components

/-- The root of a path (`\\\\`, `\\`, `C:\\`, `C:` or nothing) and what follows it. -/
def splitRoot : CStr → CStr × CStr
  | [] => ([], [])
  | [c] => if isSlash c then ([backslash], []) else ([], [c])
  | c :: d :: rest =>
    if isSlash c then
      if isSlash d then ([backslash, backslash], rest) else ([backslash], d :: rest)
    else if d = colon then
      match rest with
      | [] => ([c, colon], [])
      | s :: t => if isSlash s then ([c, colon, backslash], t) else ([c, colon], s :: t)
    else ([], c :: d :: rest)

/-- A place in the directory tree of a root. -/
structure Location where
  root : CStr
  parts : List CStr
  deriving DecidableEq

def locate (path : CStr) : Location :=
  ⟨(splitRoot path).1, reduce dot dotdot (tokens isSlash (splitRoot path).2)⟩

/-- The path is `dir` or lies below it. -/
def Inside (dir path : CStr) : Prop :=
  (locate path).root = (locate dir).root ∧ (locate dir).parts <+: (locate path).parts

instance (dir path : CStr) : Decidable (Inside dir path) := by unfold Inside; infer_instance

theorem Inside.refl (dir : CStr) : Inside dir dir := ⟨rfl, List.prefix_rfl⟩

/-- Whatever the directory is, some short path lies outside. -/
theorem exists_not_inside (dir : CStr) : ∃ path, ¬ Inside dir path := by
  by_cases h : (locate dir).root = []
  · refine ⟨[backslash], fun hin => ?_⟩
    rw [Inside, h] at hin
    exact absurd hin.1 (by decide)
  · exact ⟨[], fun hin => h hin.1.symm⟩

/-- `PathCanonicalizeA`: "." and ".." components between backslashes are collapsed. -/
def collapse (path : CStr) : CStr :=
  (splitRoot path).1 ++ [backslash].intercalate
    (reduce dot dotdot (tokens (· == backslash) (splitRoot path).2))

/-- What the documentation of `PathAppendA` promises, if it fits the buffer. -/
def pathAppended (path more : CStr) : CStr :=
  if (splitRoot more).1 ≠ [] then collapse more else collapse (path ++ backslash :: more)

/-! ## Plain names on a drive -/

def drivePath (letter : Byte) (parts : List CStr) :
    CStr := letter :: colon :: absolute backslash parts

/-- An ordinary file name: not "." or "..", without slashes and colons. -/
structure PlainName (name : CStr) : Prop where
  plain : PlainParts [name]
  colon : colon ∉ name

theorem splitRoot_drivePath {letter : Byte} (h : isSlash letter = false) (parts : List CStr) :
    splitRoot (drivePath letter parts) =
      ([letter, colon, backslash], [backslash].intercalate parts) := by
  simp [drivePath, absolute, splitRoot, h, show isSlash backslash = true by decide]

theorem splitRoot_plainName {name : CStr} (h : PlainName name) : (splitRoot name).1 = [] := by
  have hslash : ∀ c ∈ name, isSlash c = false := (whole_singleton.mp h.plain.whole).2
  rcases name with _ | ⟨c, _ | ⟨d, rest⟩⟩
  · rfl
  · rw [splitRoot, if_neg (by simp [hslash c (by simp)])]
  · have hd : d ≠ SalamanderSftp.colon := fun heq => h.colon (by simp [heq])
    simp [splitRoot, hslash c (by simp), hd]

theorem locate_drivePath {letter : Byte} (h : isSlash letter = false)
    {parts : List CStr} (hp : PlainParts parts) :
    locate (drivePath letter parts) = ⟨[letter, colon, backslash], parts⟩ := by
  have htokens := tokens_absolute (show isSlash backslash = true by decide) hp.whole
  rw [absolute, tokens_cons _ (by decide)] at htokens
  unfold locate
  rw [splitRoot_drivePath h, htokens, reduce_eq_self hp.clean]

/-- A plain name is appended literally. -/
theorem pathAppended_drivePath {letter : Byte} (h : isSlash letter = false)
    {parts : List CStr} {name : CStr}
    (hp : PlainParts parts) (hn : PlainName name) :
    pathAppended (drivePath letter parts) name = drivePath letter (parts ++ [name]) := by
  have hall : PlainParts (parts ++ [name]) := hp.append hn.plain
  have hwhole : Whole (· == backslash) (parts ++ [name]) :=
    fun t ht => ⟨(hall.whole t ht).1, fun c hc => by
    have := (hall.whole t ht).2 c hc
    rw [isSlash, Bool.or_eq_false_iff] at this
    exact this.2⟩
  have hsplit : splitRoot (drivePath letter parts ++ backslash :: name) =
      ([letter, colon, backslash], [backslash].intercalate parts ++ backslash :: name) := by
    simp [drivePath, absolute, splitRoot, h, show isSlash backslash = true by decide]
  have htokens : tokens (· == backslash) ([backslash].intercalate parts ++ backslash :: name) =
      parts ++ [name] := by
    have hparts : tokens (· == backslash) (absolute backslash parts) = parts :=
      tokens_absolute (by decide) fun t ht => hwhole t (List.mem_append_left _ ht)
    rw [absolute, tokens_cons _ (by decide)] at hparts
    have hname := hwhole name (by simp)
    rw [tokens_append_cons _ _ (by decide), hparts, tokens_eq_singleton hname.1 hname.2]
  unfold pathAppended collapse
  rw [if_neg (by simp [splitRoot_plainName hn]), hsplit, htokens, reduce_eq_self hall.clean]
  rfl

theorem inside_drivePath {letter : Byte} (h : isSlash letter = false) {parts more : List CStr}
    (hp : PlainParts (parts ++ more)) :
    Inside (drivePath letter parts) (drivePath letter (parts ++ more)) := by
  have hparts : PlainParts parts := hp.mono (List.subset_append_left _ _)
  unfold Inside
  rw [locate_drivePath h hp, locate_drivePath h hparts]
  exact ⟨rfl, List.prefix_append _ _⟩

end SalamanderSftp
