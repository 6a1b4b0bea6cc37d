import SalamanderSftp.Fs.ChangePath
import SalamanderSftp.PathLaws

/-!
# The directory that ChangePath arrives at

From a normalized path the loop of `ChangePath` tries the path and its ancestors one after the
other, but not the root: below the root it gives up (`nextTried_absolute`). So it finds the longest
existing directory exactly if that is not the root, or the root is all there is
(`finds_longest_iff`).
-/

namespace SalamanderSftp

open Components

/-- The answers do not change while the loop runs. -/
def SshWorld.ofAnswers (answers : CStr → ℕ) :
    SshWorld := ⟨fun _ => true, [], fun _ path => answers path⟩

/-- The first components of the path. -/
def ancestor (start : CStr) (k : ℕ) : CStr := absolute slash ((comps start).take k)

def IsDirectory (answers : CStr → ℕ) (start : CStr) (k : ℕ) : Prop :=
  (SshWorld.ofAnswers answers).typeOf 0 (ancestor start k) = 2

/-- The ancestor with this many components is the longest that is a directory. -/
structure LongestDirectory (answers : CStr → ℕ) (start : CStr) (k : ℕ) : Prop where
  le : k ≤ (comps start).length
  isDirectory : IsDirectory answers start k
  longest : ∀ j, k < j → j ≤ (comps start).length → ¬ IsDirectory answers start j

/-- With turns enough the loop ends at the longest directory; the flag says whether it is another
path, and the file name is the last component where only that was cut off and the path is a file. -/
def FindsLongest (answers : CStr → ℕ) (start : CStr) : Prop :=
  ∃ k, LongestDirectory answers start k ∧ ∀ fuel, start.length < fuel → ∃ info,
    searchPath (.ofAnswers answers) fuel 0 start ⟨false, [], false⟩ =
      (some (ancestor start k), info) ∧
      (info.pathWasCut = true ↔ ancestor start k ≠ start) ∧
      (info.cutFileName ≠ [] ↔ k + 1 = (comps start).length ∧
        (SshWorld.ofAnswers answers).typeOf 0 start = 1) ∧
      (info.cutFileName ≠ [] → (comps start).getLast? = some info.cutFileName)

section Search

variable {answers : CStr → ℕ} {cs : List CStr}

theorem sftpIsRoot_absolute (h : PlainParts cs) (hfits : (absolute slash cs).length < MAX_PATH) :
    sftpIsRoot (absolute slash cs) = true ↔ cs = [] := by
  unfold sftpIsRoot
  rw [decide_eq_true_iff, lstrcpyn_eq_self hfits,
    sftpNormalize_absolute h hfits, ← absolute_nil slash]
  constructor
  · intro heq
    rw [← comps_absolute h, heq, comps_absolute plainParts_nil]
  · intro heq
    rw [heq]

theorem length_absolute_append_le (c : Byte) (cs ds : List CStr) :
    (absolute c cs).length ≤ (absolute c (cs ++ ds)).length := by
  by_cases hnil : cs = []
  · rw [hnil, absolute_nil]
    simp [absolute]
  · have hne : cs ++ ds ≠ [] := by simp [hnil]
    rw [length_absolute c hnil, length_absolute c hne, cost_append]
    omega

/-- Above a path comes its directory, but not the root. -/
theorem nextTried_absolute {name : CStr} (h : PlainParts (cs ++ [name]))
    (hfits : (absolute slash (cs ++ [name])).length < MAX_PATH) :
    nextTried (absolute slash (cs ++ [name])) = if cs =
      [] then none else some (absolute slash cs) := by
  have hname : slash ∉ name :=
    fun hmem => absurd ((h.whole name (by simp)).2 slash hmem) (by decide)
  obtain ⟨hsplit, hparent⟩ := sftpParent_absolute hname hfits
  have hroot : ¬ sftpIsRoot (absolute slash (cs ++ [name])) = true := by
    rw [sftpIsRoot_absolute h hfits]
    simp
  have hshort := (length_absolute_append_le slash cs [name]).trans_lt hfits
  unfold nextTried
  rw [hsplit, hparent, lstrcpyn_eq_self hshort]
  by_cases hnil : cs = []
  · simp [hnil]
  · have hne : absolute slash cs ≠ [] := by simp [absolute]
    simp [hnil, hne, hroot]

/-- What is reported when the components behind the first `k` were cut off. -/
def CutInfo.cutTo (info : CutInfo) (path : CStr) (type n k : ℕ) : CutInfo :=
  if k = n then info else if k + 1 = n then info.cut path type else ⟨true, [], true⟩

/-- After a cut the rest of the search reports what the whole search does. -/
theorem CutInfo.cutTo_cut (info : CutInfo) (path above : CStr)
    (type type' : ℕ) {n k : ℕ} (hk : k ≤ n) :
    (info.cut path type).cutTo above type' n k = info.cutTo path type (n + 1) k := by
  unfold cutTo
  rw [if_neg (by omega : k ≠ n + 1)]
  by_cases hself : k = n
  · rw [if_pos hself, if_pos (by omega)]
  · have hcut : ¬ k + 1 = n + 1 := by omega
    rw [if_neg hself, if_neg hcut]
    split_ifs <;> rfl

variable (answers) in
/-- The loop goes up to the longest directory other than the root, or gives up. -/
theorem searchPath_absolute {start : CStr} :
    ∀ {cs ds : List CStr}, comps start = cs ++ ds → cs ≠ [] →
    (absolute slash cs).length < MAX_PATH →
    ∀ (fuel n : ℕ) (info : CutInfo), (absolute slash cs).length < fuel →
    (∃ k, 0 < k ∧ k ≤ cs.length ∧ IsDirectory answers start k ∧ (∀ j, k < j → j ≤ cs.length →
      ¬ IsDirectory answers start j) ∧ searchPath (.ofAnswers answers) fuel n
    (absolute slash cs) info =
        (some (ancestor start k),
          info.cutTo (absolute slash cs) ((SshWorld.ofAnswers answers).typeOf 0 (absolute slash cs))
          cs.length k)) ∨
    ((∀ k, 0 < k → k ≤ cs.length → ¬ IsDirectory answers start k) ∧
      (searchPath (.ofAnswers answers) fuel n (absolute slash cs) info).1 = none) := by
  intro cs
  induction cs using List.reverseRecOn with
  | nil => exact fun _ hne => absurd rfl hne
  | append_singleton cs name ih =>
    intro ds hcomps _ hfits fuel n info hfuel
    obtain ⟨fuel, rfl⟩ : ∃ m, fuel = m + 1 := ⟨fuel - 1, by omega⟩
    have hplain : PlainParts (cs ++ [name]) := by
      have hall := plainParts_comps start
      rw [hcomps] at hall
      exact hall.mono (List.subset_append_left _ _)
    have hself : ancestor start (cs ++ [name]).length = absolute slash (cs ++ [name]) := by
      unfold ancestor
      rw [hcomps, List.take_left]
    have htypes : ∀ n path, (SshWorld.ofAnswers answers).typeOf n path =
        (SshWorld.ofAnswers answers).typeOf 0 path :=
      fun _ _ => rfl
    have hdir : IsDirectory answers start (cs ++ [name]).length ↔
        (SshWorld.ofAnswers answers).typeOf 0 (absolute slash (cs ++ [name])) = 2 := by
      unfold IsDirectory
      rw [hself]
    rw [searchPath, htypes n]
    by_cases htype : (SshWorld.ofAnswers answers).typeOf 0 (absolute slash (cs ++ [name])) = 2
    · left
      refine ⟨(cs ++ [name]).length,
        by simp, le_rfl, hdir.mpr htype, fun j hlt hle => absurd hlt (by omega), ?_⟩
      rw [if_pos htype, hself]
      unfold CutInfo.cutTo
      rw [if_pos rfl]
    · rw [if_neg htype, nextTried_absolute hplain hfits]
      have hnot : ¬ IsDirectory answers start (cs.length + 1) := by
        have hlen : (cs ++ [name]).length = cs.length + 1 := by simp
        rw [← hlen, hdir]
        exact htype
      by_cases hnil : cs = []
      · right
        subst hnil
        refine ⟨fun k hpos hle => ?_, rfl⟩
        obtain rfl : k = 0 + 1 := by simpa using (by simpa using hle : k ≤ 1).antisymm hpos
        exact hnot
      · rw [if_neg hnil]
        dsimp only
        have hless : (absolute slash cs).length < (absolute slash (cs ++ [name])).length := by
          rw [absolute_concat slash hnil, List.length_append, List.length_cons]
          omega
        have hrest : comps start = cs ++ name :: ds := by
          rw [hcomps, List.append_assoc, List.singleton_append]
        rcases ih hrest hnil (hless.trans hfits) fuel (n + 1)
          (info.cut (absolute slash (cs ++ [name]))
            ((SshWorld.ofAnswers answers).typeOf 0 (absolute slash (cs ++ [name]))))
          (by omega) with ⟨k, hpos, hle, hk, hlongest, hrun⟩ | ⟨hnone, hrun⟩
        · left
          refine ⟨k, hpos, by simp; omega, hk, fun j hlt hle' => ?_, ?_⟩
          · by_cases hj : j = cs.length + 1
            · rw [hj]
              exact hnot
            · exact hlongest j hlt (by simp at hle'; omega)
          · rw [hrun, CutInfo.cutTo_cut _ _ _ _ _ hle, List.length_append, List.length_singleton]
        · right
          refine ⟨fun k hpos hle => ?_, hrun⟩
          by_cases hk : k = cs.length + 1
          · rw [hk]
            exact hnot
          · exact hnone k hpos (by simp at hle; omega)

theorem LongestDirectory.unique {start : CStr} {k k' : ℕ} (h : LongestDirectory answers start k)
    (h' : LongestDirectory answers start k') : k = k' := by
  rcases lt_trichotomy k k' with hlt | heq | hgt
  · exact absurd h'.isDirectory (h.longest k' hlt h'.le)
  · exact heq
  · exact absurd h.isDirectory (h'.longest k hgt h.le)

theorem ancestor_eq_self_iff {start : CStr} (h : PlainParts cs)
    (hcs : start = absolute slash cs) {k : ℕ}
    (hk : k ≤ cs.length) : ancestor start k = start ↔ k = cs.length := by
  have hcomps : comps start = cs := by rw [hcs, comps_absolute h]
  have htake : PlainParts (cs.take k) := h.mono (List.take_subset _ _)
  unfold ancestor
  rw [hcomps]
  constructor
  · intro heq
    have hsame := congrArg comps heq
    rw [comps_absolute htake, hcomps] at hsame
    have hlen := congrArg List.length hsame
    rw [List.length_take, min_eq_left hk] at hlen
    exact hlen
  · intro heq
    rw [heq, List.take_length, ← hcs]

theorem cutTo_reports {start : CStr} (h : PlainParts cs) (hnil : cs ≠ [])
    (hcs : start = absolute slash cs)
    (hfits : start.length < MAX_PATH) (type : ℕ) {k : ℕ} (hk : k ≤ cs.length) :
    ((CutInfo.cutTo ⟨false, [], false⟩ start type cs.length k).pathWasCut = true ↔
      ancestor start k ≠ start) ∧
    ((CutInfo.cutTo ⟨false, [], false⟩ start type cs.length k).cutFileName ≠ [] ↔
      k + 1 = cs.length ∧ type = 1) ∧
    ((CutInfo.cutTo ⟨false, [], false⟩ start type cs.length k).cutFileName ≠ [] →
      cs.getLast? =
        some (CutInfo.cutTo ⟨false, [], false⟩ start type cs.length k).cutFileName) := by
  obtain ⟨ds, name, rfl⟩ := (List.eq_nil_or_concat' cs).resolve_left hnil
  have hname := h.whole name (by simp)
  have hslash : slash ∉ name := fun hmem => absurd (hname.2 slash hmem) (by decide)
  rw [hcs] at hfits
  obtain ⟨hsplit, -⟩ := sftpParent_absolute hslash hfits
  rw [← hcs] at hsplit
  have hshort : name.length < MAX_PATH := by
    have hlen := length_absolute slash (by simp : ds ++ [name] ≠ [])
    rw [cost_append, cost_cons, cost_nil] at hlen
    omega
  have hcut : (CutInfo.cut ⟨false, [], false⟩ start type).cutFileName = if type =
      1 then name else [] := by
    unfold CutInfo.cut
    rw [hsplit]
    dsimp only
    rw [if_neg (by simp), Option.map_some, Option.getD_some, lstrcpyn_eq_self hshort]
  rw [ne_eq (ancestor start k), ancestor_eq_self_iff h hcs hk]
  unfold CutInfo.cutTo
  by_cases hself : k = (ds ++ [name]).length
  · rw [if_pos hself]
    exact ⟨by simp [hself], by simp [hself], by simp⟩
  · rw [if_neg hself]
    by_cases hone : k + 1 = (ds ++ [name]).length
    · rw [if_pos hone, hcut]
      refine ⟨⟨fun _ => hself, fun _ => rfl⟩, ?_, ?_⟩
      · simp [hone, hname.1]
      · intro hne
        have htype : type = 1 := by
          by_contra hnot
          rw [if_neg hnot] at hne
          exact hne rfl
        rw [if_pos htype, List.getLast?_append, List.getLast?_singleton]
        rfl
    · rw [if_neg hone]
      exact ⟨⟨fun _ => hself, fun _ => rfl⟩,
        ⟨fun hne => absurd rfl hne, fun hb => absurd hb.1 hone⟩, fun hne => absurd rfl hne⟩

/-- The loop arrives at the longest directory if and only if there is one below the root, or the
path is the root. -/
theorem finds_longest_iff (answers : CStr → ℕ) {start : CStr}
    (hstart : sftpNormalize start = start) :
    FindsLongest answers start ↔
      start = [slash] ∨ ∃ k, 0 < k ∧ k ≤ (comps start).length ∧ IsDirectory answers start k := by
  obtain ⟨cs, hplain, hcs, hfits⟩ := exists_parts_of_canonical hstart
  have hcomps : comps start = cs := by rw [hcs, comps_absolute hplain]
  have hself : ancestor start cs.length = start := by
    unfold ancestor
    rw [hcomps, List.take_length, ← hcs]
  by_cases hnil : cs = []
  · -- the root is not asked for
    have hroot : start = [slash] := by rw [hcs, hnil, absolute_nil]
    have hzero : ancestor start 0 = start := by
      rw [hnil] at hself
      exact hself
    have hdir : (SshWorld.ofAnswers answers).typeOf 0 start = 2 := if_pos hroot
    have hfinds : FindsLongest answers start := by
      refine ⟨0, ⟨Nat.zero_le _, ?_, fun j hlt hle => ?_⟩,
        fun fuel hfuel => ⟨⟨false, [], false⟩, ?_, ?_, ?_, ?_⟩⟩
      · unfold IsDirectory
        rw [hzero]
        exact hdir
      · rw [hcomps, hnil] at hle
        exact absurd hle (by simp; omega)
      · obtain ⟨fuel, rfl⟩ : ∃ m, fuel = m + 1 := ⟨fuel - 1, by omega⟩
        rw [searchPath, if_pos hdir, hzero]
      · simp [hzero]
      · simp [hcomps, hnil]
      · simp
    exact ⟨fun _ => .inl hroot, fun _ => hfinds⟩
  · have hne : start ≠ [slash] := by
      intro hroot
      rw [hroot, ← absolute_nil slash, comps_absolute plainParts_nil] at hcomps
      exact hnil hcomps.symm
    have hsplit : comps start = cs ++ [] := by rw [hcomps, List.append_nil]
    have hrun := searchPath_absolute answers hsplit hnil (by rw [← hcs]; exact hfits)
      (start.length + 1) 0 ⟨false, [], false⟩ (by rw [← hcs]; exact Nat.lt_succ_self _)
    rw [or_iff_right hne]
    rw [← hcs] at hrun
    constructor
    · rintro ⟨k, -, hends⟩
      obtain ⟨info, hfound, -⟩ := hends (start.length + 1) (Nat.lt_succ_self _)
      rcases hrun with ⟨k', hpos, hle, hk', -⟩ | ⟨-, hnone⟩
      · exact ⟨k', hpos, by rw [hcomps]; exact hle, hk'⟩
      · rw [hfound] at hnone
        cases hnone
    · rintro ⟨k₀, hpos₀, hle₀, hk₀⟩
      rw [hcomps] at hle₀
      obtain ⟨k, hlongest⟩ : ∃ k, LongestDirectory answers start k := by
        rcases hrun with ⟨k, -, hle, hk, hlongest, -⟩ | ⟨hnone, -⟩
        · exact ⟨k, by rw [hcomps]; exact hle, hk, by rw [hcomps]; exact hlongest⟩
        · exact absurd hk₀ (hnone k₀ hpos₀ hle₀)
      refine ⟨k, hlongest, fun fuel hfuel => ?_⟩
      rw [searchPath_fuel _ hfuel (Nat.lt_succ_self start.length)]
      rcases hrun with ⟨k', -, hle, hk', hlongest', hfound⟩ | ⟨hnone, -⟩
      · have hfirst : LongestDirectory answers start k' :=
          ⟨by rw [hcomps]; exact hle, hk', by rw [hcomps]; exact hlongest'⟩
        obtain rfl := hfirst.unique hlongest
        have hreports :=
          cutTo_reports hplain hnil hcs hfits ((SshWorld.ofAnswers answers).typeOf 0 start) hle
        rw [hcomps]
        exact ⟨_, hfound, hreports⟩
      · exact absurd hk₀ (hnone k₀ hpos₀ hle₀)

/-- The file "/d/f" is cut off, and its directory found. -/
theorem finds_longest_iff_file :
    FindsLongest (fun path => if path = ascii "/d" then 2 else 1) (ascii "/d/f") := by
  refine (finds_longest_iff _ (by decide +kernel)).mpr
    (.inr ⟨1, Nat.one_pos, by decide +kernel, ?_⟩)
  unfold IsDirectory
  decide +kernel

/-- Where "/a" does not exist the root is not tried. -/
theorem not_finds_longest : ¬ ∀ (answers : CStr → ℕ) (start : CStr), sftpNormalize start = start →
    FindsLongest answers start := by
  intro h
  obtain ⟨k, -, hends⟩ := h (fun _ => 0) (ascii "/a") (by decide +kernel)
  obtain ⟨info, hfound, -⟩ := hends 3 (by decide)
  have hnone : (searchPath (.ofAnswers fun _ => 0) 3 0 (ascii "/a") ⟨false, [], false⟩).1 =
      none := by decide +kernel
  rw [hfound] at hnone
  cases hnone

end Search

end SalamanderSftp
