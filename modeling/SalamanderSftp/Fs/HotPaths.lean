import SalamanderSftp.Path

/-!
# Hot paths of the directory line

Salamander asks `GetNextDirectoryLineHotPath` where the parts of the path in the directory line end
that can be clicked. The root, up to the slash behind the server, is one part, and then come the
components but for the last, which is where the path leads anyway (`hotPaths_eq`).
-/

namespace SalamanderSftp

/-! ## The scanner -/

/-- `*p == '/' || *p == '\\'` before the end of a text. -/
def slashAt (s : CStr) (p : ℕ) : Bool := s[p]?.any isSlash

def nextSlash (s : CStr) (p : ℕ) : ℕ := p + ((s.drop p).takeWhile fun c => !isSlash c).length

/-- The end of the root portion of the path. -/
def hotRoot (text : CStr) (pathLen : ℕ) : ℕ :=
  let line := text.take pathLen
  let root := (text.takeWhile (· != colon)).length
  if text[root]? = some colon then
    let root := root + 1
    let root := if slashAt text root && slashAt text (root + 1) then root + 2 else root
    -- "user@host[:port]"
    let root := nextSlash line root
    if slashAt line root then root + 1 else root
  else root

/-- The result and the new `offset`. -/
def getNextDirectoryLineHotPath (text : CStr) (pathLen offset : ℕ) : Bool × ℕ :=
  let line := text.take pathLen
  let root := hotRoot text pathLen
  if pathLen ≤ offset then (false, offset)
  else if offset < root then (true, root)
  else
    let s := nextSlash line (if slashAt line offset then offset + 1 else offset)
    (decide (s < pathLen), s)

/-- The offsets returned with `TRUE` in calls one after the other, and the last offset; `none` out
of fuel. -/
def hotPaths (text : CStr) (pathLen : ℕ) : (fuel offset : ℕ) → Option (List ℕ × ℕ)
  | 0, _ => none
  | fuel + 1, offset =>
    match getNextDirectoryLineHotPath text pathLen offset with
    | (true, offset) => (hotPaths text pathLen fuel offset).map fun r => (offset :: r.1, r.2)
    | (false, offset) => some ([], offset)

/-! ## Directory lines -/

abbrev Separator := { c : Byte // isSlash c = true }

/-- A component of a path with the separator before it. -/
structure LinePart where
  separator : Separator
  name : CStr
  nonempty : name ≠ []
  plain : ∀ c ∈ name, isSlash c = false

def LinePart.text (p : LinePart) : CStr := p.separator.1 :: p.name

/-- A path `fsname://[user@]host[:port]/comp1/.../compN`. -/
structure DirectoryLine where
  fsName : CStr
  fsName_plain : colon ∉ fsName
  first : Separator
  second : Separator
  /-- `[user@]host[:port]`. -/
  server : CStr
  server_plain : ∀ c ∈ server, isSlash c = false
  parts : List LinePart
  /-- The slash of a path without components, which may be missing. -/
  root : Option Separator

namespace DirectoryLine

variable (l : DirectoryLine)

/-- `fsname://[user@]host[:port]`. -/
def origin : CStr := l.fsName ++ colon :: l.first.1 :: l.second.1 :: l.server

/-- What is behind the server. -/
def path :
    CStr := if l.parts = [] then l.root.toList.map Subtype.val else l.parts.flatMap LinePart.text

def text : CStr := l.origin ++ l.path

/-- The end of the root prefix, which is behind the slash behind the server. -/
def rootEnd : ℕ := l.origin.length + min 1 l.path.length

/-- The ends of components, from the end of what is before them. -/
def ends (start : ℕ) : List LinePart → List ℕ
  | [] => []
  | p :: ps => (start + p.text.length) :: ends (start + p.text.length) ps

/-- The offsets that should be returned. -/
def hotOffsets : List ℕ := l.rootEnd :: (ends l.origin.length l.parts).dropLast

end DirectoryLine

/-! ## Scanning -/

section Scan

variable {s name rest : CStr}

theorem slashAt_append (before : CStr) (c : Byte) (rest : CStr) :
    slashAt (before ++ c :: rest) before.length = isSlash c := by
  unfold slashAt
  rw [List.getElem?_append_right le_rfl, Nat.sub_self]
  rfl

theorem slashAt_end : slashAt s s.length = false := by
  unfold slashAt
  rw [List.getElem?_eq_none le_rfl]
  rfl

/-- There is nothing or a separator behind a name. -/
def Ended (rest : CStr) : Prop := ∀ c ∈ rest.head?, isSlash c = true

theorem nextSlash_append (before : CStr)
    (hname : ∀ c ∈ name, isSlash c = false) (hrest : Ended rest) :
    nextSlash (before ++ (name ++ rest)) before.length = before.length + name.length := by
  have htake : (name ++ rest).takeWhile (fun c => !isSlash c) = name := by
    rw [List.takeWhile_append_of_pos fun c hc => by simp [hname c hc]]
    rcases rest with _ | ⟨c, rest⟩
    · rw [List.takeWhile_nil, List.append_nil]
    · rw [List.takeWhile_cons_of_neg (by simp [hrest c rfl]), List.append_nil]
  unfold nextSlash
  rw [List.drop_left, htake]

end Scan

namespace DirectoryLine

variable (l : DirectoryLine)

theorem path_eq : l.path = [] ∨ ∃ c rest, l.path = c :: rest ∧ isSlash c = true := by
  unfold path
  rcases l.parts with _ | ⟨p, ps⟩
  · rw [if_pos rfl]
    rcases l.root with _ | c
    · exact .inl rfl
    · exact .inr ⟨c.1, [], rfl, c.2⟩
  · rw [if_neg (List.cons_ne_nil _ _)]
    exact .inr ⟨p.separator.1, _, rfl, p.separator.2⟩

/-- The server is skipped as a whole. -/
theorem hotRoot_eq : hotRoot l.text l.text.length = l.rootEnd := by
  have hscheme : l.text.takeWhile (· != colon) = l.fsName := by
    unfold text origin
    rw [List.append_assoc, List.takeWhile_append_of_pos fun c hc => ?_, List.cons_append,
      List.takeWhile_cons_of_neg (by simp), List.append_nil]
    rw [bne_iff_ne]
    rintro rfl
    exact l.fsName_plain hc
  have hcolon : l.text[l.fsName.length]? = some colon := by
    unfold text origin
    rw [List.append_assoc, List.getElem?_append_right le_rfl, Nat.sub_self]
    rfl
  have hfirst : slashAt l.text (l.fsName.length + 1) = true := by
    have hat := slashAt_append (l.fsName ++ [colon]) l.first.1 (l.second.1 :: l.server ++ l.path)
    rw [l.first.2, List.length_append] at hat
    rw [← hat]
    unfold text origin
    simp only [List.append_assoc, List.cons_append, List.nil_append]
    rfl
  have hsecond : slashAt l.text (l.fsName.length + 1 + 1) = true := by
    have hat := slashAt_append (l.fsName ++ [colon, l.first.1]) l.second.1 (l.server ++ l.path)
    rw [l.second.2, List.length_append] at hat
    rw [← hat]
    unfold text origin
    simp only [List.append_assoc, List.cons_append, List.nil_append]
    rfl
  have hended : Ended l.path := by
    rcases l.path_eq with hnil | ⟨c, rest, hpath, hc⟩
    · rw [hnil]
      exact fun _ h => by cases h
    · rw [hpath]
      exact fun _ h => Option.some.inj h ▸ hc
  have hserver : nextSlash l.text (l.fsName.length + 1 + 2) = l.origin.length := by
    have hnext :=
      nextSlash_append (l.fsName ++ [colon, l.first.1, l.second.1]) l.server_plain hended
    have hlen : (l.fsName ++ [colon, l.first.1, l.second.1]).length = l.fsName.length + 1 + 2 := by
      simp
    have htext : l.fsName ++ [colon, l.first.1, l.second.1] ++ (l.server ++ l.path) = l.text := by
      unfold text origin
      simp only [List.append_assoc, List.cons_append, List.nil_append]
    rw [hlen, htext] at hnext
    rw [hnext]
    unfold origin
    simp only [List.length_append, List.length_cons]
    omega
  unfold hotRoot rootEnd
  rw [List.take_length, hscheme]
  dsimp only
  rw [if_pos hcolon, hfirst, hsecond, Bool.and_self, if_pos rfl, hserver]
  rcases l.path_eq with hnil | ⟨c, rest, hpath, hc⟩
  · have hend : slashAt l.text l.origin.length = false := by
      unfold text
      rw [hnil, List.append_nil]
      exact slashAt_end
    rw [hend, hnil]
    rfl
  · have hat : slashAt l.text l.origin.length = true := by
      unfold text
      rw [hpath, slashAt_append, hc]
    rw [hat, hpath, if_pos rfl, List.length_cons]
    omega

/-- The first call ends behind the root. -/
theorem next_root : getNextDirectoryLineHotPath l.text l.text.length 0 = (true, l.rootEnd) := by
  have hlen : 0 < l.text.length := by
    unfold text origin
    simp
  have hroot : 0 < l.rootEnd := by
    unfold rootEnd origin
    simp
  unfold getNextDirectoryLineHotPath
  dsimp only
  rw [l.hotRoot_eq, if_neg (by omega), if_pos hroot]

/-- A call before or behind the separator of a component ends behind the component. -/
theorem next_part {before rest : CStr} {p : LinePart} {offset : ℕ}
    (htext : l.text = before ++ (p.text ++ rest))
    (hrest : Ended rest) (hroot : l.rootEnd ≤ offset)
    (hoffset : offset = before.length ∨ offset = before.length + 1) :
    getNextDirectoryLineHotPath l.text l.text.length offset =
      (decide (rest ≠ []), before.length + p.text.length) := by
  obtain ⟨c, name, hname⟩ := List.exists_cons_of_ne_nil p.nonempty
  have hlen : (before ++ [p.separator.1]).length = before.length + 1 := by simp
  have hbehind : l.text = before ++ [p.separator.1] ++ (p.name ++ rest) := by
    rw [htext]
    unfold LinePart.text
    rw [List.append_assoc, List.singleton_append, List.cons_append]
  have hsize : l.text.length = before.length + 1 + p.name.length + rest.length := by
    rw [hbehind]
    simp only [List.length_append, List.length_singleton]
    omega
  have hskip : (if slashAt l.text offset then offset + 1 else offset) = before.length + 1 := by
    rcases hoffset with rfl | rfl
    · have hat : slashAt l.text before.length = true := by
        rw [htext]
        exact (slashAt_append _ p.separator.1 _).trans p.separator.2
      exact if_pos hat
    · have hat : slashAt l.text (before.length + 1) = false := by
        rw [hbehind, ← hlen, hname]
        exact (slashAt_append _ c _).trans (p.plain c (hname ▸ List.mem_cons_self))
      exact if_neg (by simp [hat])
  have hend : nextSlash l.text (before.length + 1) = before.length + p.text.length := by
    rw [hbehind, ← hlen, nextSlash_append _ p.plain hrest, hlen]
    unfold LinePart.text
    rw [List.length_cons]
    omega
  have hpos : 0 < p.name.length := List.length_pos_iff.mpr p.nonempty
  have hstop : decide (before.length + p.text.length < l.text.length) = decide (rest ≠ []) := by
    rw [decide_eq_decide, ← List.length_pos_iff, hsize]
    unfold LinePart.text
    rw [List.length_cons]
    omega
  unfold getNextDirectoryLineHotPath
  dsimp only
  rw [l.hotRoot_eq, List.take_length, if_neg (by omega), if_neg (by omega), hskip, hend, hstop]

theorem ended_parts (ps : List LinePart) : Ended (ps.flatMap LinePart.text) := by
  intro c hc
  rcases ps with _ | ⟨p, ps⟩
  · cases hc
  · exact Option.some.inj hc ▸ p.separator.2

/-- From the first of some components on, the calls end behind each of them, and fail behind the
last. -/
theorem hotPaths_parts (ps : List LinePart) (k : ℕ) : ∀ (before : CStr) (offset : ℕ), ps ≠ [] →
    l.text = before ++ ps.flatMap LinePart.text → l.rootEnd ≤ offset →
    (offset = before.length ∨ offset = before.length + 1) →
    hotPaths l.text l.text.length (ps.length + k) offset =
      some ((ends before.length ps).dropLast, l.text.length) := by
  induction ps with
  | nil => exact fun _ _ hne => absurd rfl hne
  | cons p ps ih =>
    intro before offset _ htext hroot hoffset
    rw [List.flatMap_cons] at htext
    have hnext := l.next_part htext (ended_parts ps) hroot hoffset
    have hend : (before ++ p.text).length = before.length + p.text.length := List.length_append
    rw [List.length_cons, Nat.succ_add, hotPaths, hnext]
    rcases ps with _ | ⟨q, qs⟩
    · rw [List.flatMap_nil, List.append_nil] at htext
      rw [htext, hend]
      rfl
    · have hmore : (q :: qs).flatMap LinePart.text ≠ [] := List.cons_ne_nil _ _
      have hrec := ih (before ++ p.text) (before.length + p.text.length) (List.cons_ne_nil _ _)
        (by rw [htext, List.append_assoc])
        (by unfold LinePart.text; rw [List.length_cons]; omega) (.inl hend.symm)
      rw [decide_eq_true hmore]
      dsimp only
      rw [hrec, hend]
      rfl

/-! ## The hot paths -/

theorem ends_increasing (ps : List LinePart) : ∀ start : ℕ, (ends start ps).Pairwise (· < ·) ∧
    ∀ o ∈ ends start ps, start + 2 ≤ o ∧ o ≤ start + (ps.flatMap LinePart.text).length := by
  induction ps with
  | nil => exact fun _ => ⟨List.Pairwise.nil, fun _ h => absurd h List.not_mem_nil⟩
  | cons p ps ih =>
    intro start
    obtain ⟨hpair, hrange⟩ := ih (start + p.text.length)
    have hlong : 2 ≤ p.text.length := by
      have hpos : 0 < p.name.length := List.length_pos_iff.mpr p.nonempty
      unfold LinePart.text
      rw [List.length_cons]
      omega
    rw [List.flatMap_cons, List.length_append]
    refine ⟨List.pairwise_cons.mpr ⟨fun o ho => ?_, hpair⟩, fun o ho => ?_⟩
    · have := hrange o ho
      omega
    · rcases List.mem_cons.mp ho with rfl | ho
      · omega
      · have := hrange o ho
        omega

/-- What the calls should return in turn, from the offset 0. -/
structure HotPaths (l : DirectoryLine) (offsets : List ℕ) : Prop where
  eq : offsets = l.hotOffsets
  increasing : offsets.Pairwise (· < ·)
  bounds : ∀ o ∈ offsets, l.rootEnd ≤ o ∧ o ≤ l.text.length

theorem hotPaths_hotOffsets : HotPaths l l.hotOffsets where
  eq := rfl
  increasing := by
    obtain ⟨hpair, hrange⟩ := ends_increasing l.parts l.origin.length
    refine List.pairwise_cons.mpr ⟨fun o ho => ?_, hpair.sublist (List.dropLast_sublist _)⟩
    have hstart := (hrange o (List.mem_of_mem_dropLast ho)).1
    unfold rootEnd
    omega
  bounds := by
    have hsize : l.text.length = l.origin.length + l.path.length := List.length_append
    intro o ho
    rcases List.mem_cons.mp ho with rfl | ho
    · unfold rootEnd
      omega
    · have hmem := List.mem_of_mem_dropLast ho
      have hparts : l.path = l.parts.flatMap LinePart.text := if_neg fun hnil => by
        rw [hnil] at hmem
        exact absurd hmem List.not_mem_nil
      have hrange := (ends_increasing l.parts l.origin.length).2 o hmem
      rw [← hparts] at hrange
      unfold rootEnd
      omega

end DirectoryLine

/-- The calls from the offset 0 end with `FALSE` at the end of the text, and before return the end
of the root and of each component but the last. -/
theorem hotPaths_eq (l : DirectoryLine) : ∃ fuel offsets,
    hotPaths l.text l.text.length fuel 0 = some (offsets, l.text.length) ∧ l.HotPaths offsets := by
  refine ⟨l.parts.length + 2, l.hotOffsets, ?_, l.hotPaths_hotOffsets⟩
  rw [hotPaths, l.next_root]
  dsimp only
  by_cases hparts : l.parts = []
  · have hend : l.rootEnd = l.text.length := by
      have hsize : l.text.length = l.origin.length + l.path.length := List.length_append
      have hshort : l.path.length ≤ 1 := by
        unfold DirectoryLine.path
        rw [if_pos hparts]
        cases l.root <;> simp
      unfold DirectoryLine.rootEnd
      omega
    have hlast : getNextDirectoryLineHotPath l.text l.text.length l.rootEnd =
        (false, l.text.length) := by
      unfold getNextDirectoryLineHotPath
      dsimp only
      rw [hend, if_pos le_rfl]
    unfold DirectoryLine.hotOffsets
    rw [hotPaths, hlast, hparts]
    rfl
  · have hpath : l.path = l.parts.flatMap LinePart.text := if_neg hparts
    have hroot : l.rootEnd = l.origin.length + 1 := by
      obtain ⟨p, ps, hcons⟩ := List.exists_cons_of_ne_nil hparts
      unfold DirectoryLine.rootEnd
      rw [hpath, hcons, List.flatMap_cons]
      unfold LinePart.text
      rw [List.cons_append, List.length_cons]
      omega
    rw [l.hotPaths_parts l.parts 1 _ _ hparts (by rw [← hpath]; rfl) le_rfl (.inr hroot)]
    rfl

/-- The user name stays whole. -/
example :
    hotPaths (ascii "sftp://root@10.0.1.35/mnt/x") 27 3 0 = some ([22, 25], 27) := by decide +kernel

end SalamanderSftp
