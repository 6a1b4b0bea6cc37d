import SalamanderSftp.Connection.LsColumns

/-!
# What the parser reads of ls

The listing of entries whose names are one line each.

1. `readName` is the name that the parser makes of an entry, and `readName_eq_iff` says when that is
   its name.
2. A listing is read back when each of its names is, and the names of owner and group fit
   (`ls_read_back_iff`).
-/

namespace SalamanderSftp

open Components

/-! ## Entries -/

inductive LsKind
  | file
  | dir
  /-- A symbolic link, with the path it holds. -/
  | link (target : CStr) (oneLine : newline ∉ target)

/-- The first letter of the permissions. -/
def LsKind.letter : LsKind → Byte
  | .file => 45
  | .dir => 100
  | .link _ _ => 108

/-- What `ls` prints of an entry. -/
structure LsEntry extends LsColumns where
  kind : LsKind
  letter_eq : letter = kind.letter
  name : CStr
  name_ne : name ≠ []
  name_plain : ∀ c ∈ name, c ≠ newline ∧ c ≠ slash ∧ c ≠ 0

namespace LsEntry

variable (e : LsEntry)

/-- The name, for a symbolic link with an arrow and what it holds. -/
def nameText : CStr :=
  match e.kind with
  | .link target _ => e.name ++ (arrow ++ target)
  | _ => e.name

def row : LsRow := ⟨e.toLsColumns, e.nameText⟩

end LsEntry

/-- The whole output, behind the line with the number of blocks. -/
def lsText (total : ℕ) (es : List LsEntry) : Bytes := rowsText total (es.map LsEntry.row)

/-! ## What is to be read back -/

/-- The parts of an entry that a listing is meant to tell. -/
structure Listed where
  name : CStr
  isDir : Bool
  isLink : Bool
  size : ℕ
  mtime : ℕ
  owner : CStr
  group : CStr
  deriving DecidableEq

def CSftpEntry.listed (x : CSftpEntry) : Listed :=
  ⟨x.Name, x.IsDir, x.IsLink, x.Size, x.MTime, x.Owner, x.Group⟩

def LsEntry.listed (e : LsEntry) : Listed where
  name := e.name
  isDir := e.kind.letter == 100
  isLink := e.kind.letter == 108
  size := e.size
  mtime := e.mtime
  owner := e.owner.text
  group := e.group.text

/-- `ScpListDir` returns the entries that `ls` printed, without the directory itself and its
parent. -/
def ReadBack (total : ℕ) (es : List LsEntry) : Prop :=
  ∀ io : ExecIo, execRaw io = (true, lsText total es, 0) →
    (scpListDir id io).1 = true ∧
      (scpListDir id io).2.map CSftpEntry.listed =
        (es.filter fun e => ¬ IsDots e.name).map LsEntry.listed

/-- Nothing of the name is lost: it starts with no blank, and it does not end with a carriage
return; for a symbolic link the first arrow in the text is the one behind the name. -/
def LsEntry.NameKept (e : LsEntry) : Prop :=
  (∀ c ∈ e.name.head?, isBlank c = false) ∧
    match e.kind with
    | .link _ _ => ¬ arrow <:+: e.name ++ [blank]
    | _ => e.name.getLast? ≠ some 13

/-! ## Names -/

theorem chompCr_length_le (s : CStr) : (chompCr s).length ≤ s.length := by
  unfold chompCr
  split_ifs
  · rw [List.length_dropLast]
    omega
  · exact le_rfl

theorem dropWhile_eq_self_iff_head {s : CStr} :
    s.dropWhile isBlank = s ↔ ∀ c ∈ s.head?, isBlank c = false := by
  rcases s with _ | ⟨c, s⟩
  · simp
  · by_cases hc : isBlank c = true
    · rw [List.dropWhile_cons_of_pos hc]
      refine iff_of_false (fun h => ?_) (fun h => by simp [h c rfl] at hc)
      have hle := (List.dropWhile_suffix isBlank (l := s)).length_le
      have hlen := congrArg List.length h
      rw [List.length_cons] at hlen
      omega
    · rw [List.dropWhile_cons_of_neg hc]
      simpa using hc

/-- The first arrow is cut off with what follows it. -/
theorem beforeArrow_eq {s before : CStr} (h : ∃ t, s = before ++ (arrow ++ t))
    (hfirst : ∀ i < before.length, (s.drop i).take 4 ≠ arrow) : beforeArrow s = before := by
  obtain ⟨t, rfl⟩ := h
  have harrow : ascii " -> " = arrow := by decide +kernel
  unfold beforeArrow
  rw [harrow]
  have hfind : (List.range (before ++ (arrow ++ t)).length).find?
      (fun i => ((before ++ (arrow ++ t)).drop i).take 4 = arrow) = some before.length := by
    rw [List.find?_range_eq_some]
    refine ⟨?_, ?_, ?_⟩
    · rw [List.drop_left]
      exact decide_eq_true rfl
    · simp [arrow]
    · intro i hi
      simpa using hfirst i hi
  rw [hfind]
  exact List.take_left

theorem prefix_beforeArrow (s : CStr) : beforeArrow s <+: s := by
  unfold beforeArrow
  split
  · exact List.take_prefix _ _
  · exact List.prefix_rfl

theorem length_beforeArrow_le {s : CStr} {i : ℕ} (h : (s.drop i).take 4 = arrow) :
    (beforeArrow s).length ≤ i := by
  have harrow : ascii " -> " = arrow := by decide +kernel
  have hi : i < s.length := by
    by_contra hle
    rw [List.drop_eq_nil_of_le (not_lt.mp hle)] at h
    exact absurd h (by decide)
  unfold beforeArrow
  rw [harrow]
  rcases hfind : (List.range s.length).find? (fun i => (s.drop i).take 4 = arrow) with _ | j
  · have hnone := List.find?_eq_none.mp hfind i (List.mem_range.mpr hi)
    exact absurd h (by simpa using hnone)
  · obtain ⟨-, -, hmin⟩ := List.find?_range_eq_some.mp hfind
    have hj : j ≤ i := by
      by_contra hlt
      have := hmin i (not_le.mp hlt)
      exact absurd h (by simpa using this)
    exact (List.length_take_le _ _).trans hj

/-- An arrow that starts inside the name ends with the name or with the blank behind it. -/
theorem exists_arrow_iff (name t : CStr) :
    (∃ i < name.length, ((name ++ (arrow ++ t)).drop i).take 4 = arrow) ↔
    arrow <:+: name ++ [blank] := by
  constructor
  · rintro ⟨i, hi, harrow⟩
    rw [List.drop_append_of_le_length hi.le] at harrow
    have hname : name.take i ++ name.drop i = name := List.take_append_drop i name
    rcases hrest : name.drop i with _ | ⟨a, _ | ⟨b, _ | ⟨c, _ | ⟨d, rest⟩⟩⟩⟩
    · rw [List.drop_eq_nil_iff] at hrest
      omega
    · rw [hrest] at harrow
      simp [arrow] at harrow
    · rw [hrest] at harrow
      simp [arrow] at harrow
    · rw [hrest] at harrow hname
      simp only [arrow, List.cons_append, List.nil_append, List.take_succ_cons, List.take_zero,
        List.cons.injEq] at harrow
      obtain ⟨rfl, rfl, rfl, -⟩ := harrow
      refine ⟨name.take i, [], ?_⟩
      conv_rhs => rw [← hname]
      simp [arrow, blank]
    · rw [hrest] at harrow hname
      simp only [arrow, List.cons_append, List.nil_append, List.take_succ_cons, List.take_zero,
        List.cons.injEq] at harrow
      obtain ⟨rfl, rfl, rfl, rfl, -⟩ := harrow
      refine ⟨name.take i, rest ++ [blank], ?_⟩
      conv_rhs => rw [← hname]
      simp [arrow]
  · rintro ⟨before, after, hsplit⟩
    have hlen := congrArg List.length hsplit
    have hfour : arrow.length = 4 := rfl
    simp only [List.length_append, List.length_singleton, hfour] at hlen
    have htext : name ++ (arrow ++ t) = before ++ (arrow ++ (after ++ ([45, 62, 32] ++ t))) := by
      have harrow : arrow ++ t = [blank] ++ ([45, 62, 32] ++ t) := rfl
      rw [harrow, ← List.append_assoc, ← hsplit, List.append_assoc, List.append_assoc]
    refine ⟨before.length, by omega, ?_⟩
    rw [htext, List.drop_left]
    rfl

/-- A name in front of nothing is read whole if it starts with no blank and ends with no carriage
return. -/
theorem readText_eq_iff {letter : Byte} (h : letter ≠ 108) (name : CStr) :
    readText letter name = name ↔
      (∀ c ∈ name.head?, isBlank c = false) ∧ name.getLast? ≠ some 13 := by
  unfold readText
  rw [if_neg h]
  constructor
  · intro hread
    have hlen := congrArg List.length hread
    have hdrop := (List.dropWhile_suffix isBlank (l := chompCr name)).length_le
    have hchomp := chompCr_length_le name
    have hwhole : chompCr name = name := by
      have hsame := (List.dropWhile_suffix isBlank (l := chompCr name)).eq_of_length (by omega)
      rw [← hsame, hread]
    rw [hwhole] at hread
    exact ⟨dropWhile_eq_self_iff_head.mp hread, chompCr_eq_self_iff.mp hwhole⟩
  · rintro ⟨hhead, hlast⟩
    rw [chompCr_eq_self_iff.mpr hlast, dropWhile_eq_self_iff_head.mpr hhead]

section Link

variable {name : CStr} (hname : name ≠ []) (target : CStr)

include hname

/-- Of a symbolic link the text is read from its first character on. -/
theorem readText_link (hhead : ∀ c ∈ name.head?, isBlank c = false) :
    readText 108 (name ++ (arrow ++ target)) = beforeArrow (name ++ (arrow ++ chompCr target)) := by
  have hchomp : chompCr (name ++ (arrow ++ target)) = name ++ (arrow ++ chompCr target) := by
    rw [chompCr_append _ (by simp [arrow])]
    by_cases hnil : target = []
    · subst hnil
      rfl
    · rw [chompCr_append _ hnil]
  unfold readText
  dsimp only
  rw [if_pos rfl, hchomp, dropWhile_eq_self_iff_head.mpr]
  rwa [List.head?_append_of_ne_nil _ hname]

theorem prefix_readText_link (hhead : ∀ c ∈ name.head?, isBlank c = false) :
    readText 108 (name ++ (arrow ++ target)) <+: name := by
  have hle : (beforeArrow (name ++ (arrow ++ chompCr target))).length ≤ name.length := by
    refine length_beforeArrow_le ?_
    rw [List.drop_left]
    rfl
  rw [readText_link hname target hhead]
  exact List.prefix_of_prefix_length_le (prefix_beforeArrow _) (List.prefix_append _ _) hle

/-- Its name is read whole if no arrow comes before the one behind it. -/
theorem readText_link_eq_iff (hhead : ∀ c ∈ name.head?, isBlank c = false) :
    readText 108 (name ++ (arrow ++ target)) = name ↔ ¬ arrow <:+: name ++ [blank] := by
  rw [readText_link hname target hhead, ← exists_arrow_iff name (chompCr target)]
  constructor
  · rintro hread ⟨i, hi, harrow⟩
    have hle := length_beforeArrow_le harrow
    rw [hread] at hle
    omega
  · intro hno
    exact beforeArrow_eq ⟨_, rfl⟩ fun i hi harrow => hno ⟨i, hi, harrow⟩

end Link

theorem head_readText {letter : Byte} {text name rest : CStr} (hne : name ≠ [])
    (h : readText letter text = name ++ rest) : ∀ c ∈ name.head?, isBlank c = false := by
  have hpre : readText letter text <+: (chompCr text).dropWhile isBlank := by
    unfold readText
    split_ifs
    · exact prefix_beforeArrow _
    · exact List.prefix_rfl
  intro c hc
  obtain ⟨tail, htail⟩ := hpre
  have hstart := List.head?_dropWhile_not isBlank (chompCr text)
  rw [← htail, h, List.append_assoc, List.head?_append_of_ne_nil _ hne,
    Option.mem_def.mp hc] at hstart
  exact hstart

theorem cstr_eq_self {s : CStr} (h : ∀ c ∈ s, c ≠ 0) : cstr s = s :=
  List.takeWhile_eq_self_iff.mpr fun c hc => by simpa using h c hc

namespace LsEntry

variable (e : LsEntry)

/-- The name that the parser makes of an entry. -/
def readName : CStr := readText e.letter e.nameText

theorem letter_cases : (∃ target hline, e.kind = .link target hline ∧ e.letter = 108 ∧
      e.nameText = e.name ++ (arrow ++ target)) ∨
    (∀ target hline, e.kind ≠ .link target hline) ∧ e.letter ≠ 108 ∧ e.nameText = e.name := by
  have hletter := e.letter_eq
  unfold nameText
  rcases hkind : e.kind with _ | _ | ⟨target, hline⟩ <;> rw [hkind] at hletter
  · exact .inr ⟨nofun, by rw [hletter]; decide, rfl⟩
  · exact .inr ⟨nofun, by rw [hletter]; decide, rfl⟩
  · exact .inl ⟨target, hline, rfl, hletter, rfl⟩

/-- The name that is read is the entry's name when nothing of it is lost. -/
theorem readName_eq_iff : e.readName = e.name ↔ e.NameKept := by
  unfold readName NameKept
  rcases e.letter_cases with ⟨target, hline, hkind, hletter, htext⟩ | ⟨hkind, hletter, htext⟩
  · rw [hkind, hletter, htext]
    dsimp only
    constructor
    · intro hread
      have hhead := head_readText e.name_ne (hread.trans (List.append_nil e.name).symm)
      exact ⟨hhead, (readText_link_eq_iff e.name_ne target hhead).mp hread⟩
    · rintro ⟨hhead, harrow⟩
      exact (readText_link_eq_iff e.name_ne target hhead).mpr harrow
  · rw [htext, readText_eq_iff hletter]
    refine and_congr_right fun _ => ?_
    rcases hcase : e.kind with _ | _ | ⟨target, hline⟩
    · rfl
    · rfl
    · exact absurd hcase (hkind target hline)

/-- No part of a name is cut off at a null character. -/
theorem cstr_readName_eq_iff : cstr e.readName = e.name ↔ e.NameKept := by
  rw [← e.readName_eq_iff]
  have hplain : ∀ c ∈ e.name, c ≠ 0 := fun c hc => (e.name_plain c hc).2.2
  constructor
  · intro hread
    rw [← hread]
    refine (cstr_eq_self fun c hc => ?_).symm
    have hsplit : e.readName = e.name ++ e.readName.dropWhile (· ≠ 0) := by
      rw [← hread]
      exact List.takeWhile_append_dropWhile.symm
    rcases e.letter_cases with ⟨target, -, -, hletter, htext⟩ | ⟨-, hletter, htext⟩
    · unfold readName at hc hsplit
      rw [hletter, htext] at hc hsplit
      have hhead := head_readText e.name_ne hsplit
      exact hplain c ((prefix_readText_link e.name_ne target hhead).subset hc)
    · unfold readName readText at hc
      rw [if_neg hletter, htext] at hc
      refine hplain c ?_
      have hmem := (List.dropWhile_suffix _).subset hc
      unfold chompCr at hmem
      split_ifs at hmem
      · exact (List.dropLast_prefix _).subset hmem
      · exact hmem
  · intro hread
    rw [hread]
    exact cstr_eq_self hplain

end LsEntry

/-! ## Lines -/

namespace LsEntry

variable {e : LsEntry}

theorem nameText_oneLine : ∀ c ∈ e.nameText, (c == newline) = false := by
  intro c hc
  rw [beq_eq_false_iff_ne]
  have hname : ∀ c ∈ e.name, c ≠ newline := fun c hc => (e.name_plain c hc).1
  rcases e.letter_cases with ⟨target, hline, -, -, htext⟩ | ⟨-, -, htext⟩
  · rw [htext] at hc
    rcases List.mem_append.mp hc with hc | hc
    · exact hname c hc
    · rcases List.mem_append.mp hc with hc | hc
      · rintro rfl
        exact absurd hc (by decide)
      · rintro rfl
        exact hline hc
  · rw [htext] at hc
    exact hname c hc

theorem row_entries : e.row.entries id = (scpEntry id e.row.line).toList := by
  have hone : textLines e.row.text = [e.nameText] :=
    List.splitOnP_eq_singleton fun c hc => nameText_oneLine c hc
  rw [LsRow.entries_eq, hone]
  exact List.append_nil _

/-- What the parser adds to the listing for a line of `ls`. -/
theorem scpEntry_row :
    (scpEntry id e.row.line).map CSftpEntry.listed =
      if IsDots e.readName then none
      else some { e.listed with
        name := cstr e.readName
        owner := lstrcpyn e.owner.text 128
        group := lstrcpyn e.group.text 128 } := by
  have hread : readText e.letter e.nameText = e.readName := rfl
  unfold LsRow.line row
  dsimp only
  rw [LsColumns.scpEntry_line, hread, e.letter_eq]
  split_ifs
  · rfl
  · rfl

theorem readName_of_isDots (h : IsDots e.name) : e.readName = e.name := by
  rw [readName_eq_iff]
  have hshort : e.name.length ≤ 2 := by rcases h with h | h <;> rw [h] <;> decide
  refine ⟨fun c hc => ?_, ?_⟩
  · rcases h with h | h
    all_goals
      rw [h] at hc
      obtain rfl := Option.some.inj hc
      decide
  · rcases e.kind with _ | _ | ⟨target, hline⟩
    · rcases h with h | h <;> rw [h] <;> decide
    · rcases h with h | h <;> rw [h] <;> decide
    · intro harrow
      have hlen := harrow.length_le
      have hfour : arrow.length = 4 := rfl
      rw [List.length_append, List.length_singleton, hfour] at hlen
      omega

/-- The entry is read as it is. -/
structure Kept (e : LsEntry) : Prop where
  name : e.NameKept
  owner : e.owner.text.length < 128
  group : e.group.text.length < 128

theorem scpEntry_line_eq_iff (h : ¬ IsDots e.name) :
    (scpEntry id e.row.line).map CSftpEntry.listed = some e.listed ↔ e.Kept := by
  rw [scpEntry_row]
  constructor
  · intro heq
    split_ifs at heq
    have hlisted := Option.some.inj heq
    have howner : lstrcpyn e.owner.text 128 = e.owner.text := congrArg Listed.owner hlisted
    have hgroup : lstrcpyn e.group.text 128 = e.group.text := congrArg Listed.group hlisted
    refine ⟨e.cstr_readName_eq_iff.mp (congrArg Listed.name hlisted), ?_, ?_⟩
    · have hlen := length_lstrcpyn_le e.owner.text 128
      rw [howner] at hlen
      omega
    · have hlen := length_lstrcpyn_le e.group.text 128
      rw [hgroup] at hlen
      omega
  · rintro ⟨hname, howner, hgroup⟩
    rw [e.cstr_readName_eq_iff.mpr hname, e.readName_eq_iff.mpr hname, if_neg h,
      lstrcpyn_eq_self howner, lstrcpyn_eq_self hgroup]
    rfl

end LsEntry

/-! ## Listings -/

/-- A list without its unwanted members comes out of a parser that drops these when each other
member does. -/
theorem filterMap_eq_filter_iff {α β : Type*} {f : α → Option β} {p : α → Prop} [DecidablePred p]
    {g : α → β} {l : List α} (hdrop : ∀ x ∈ l, ¬ p x → f x = none) :
    l.filterMap f = (l.filter p).map g ↔ ∀ x ∈ l, p x → f x = some (g x) := by
  have hle : ∀ l : List α, (∀ x ∈ l, ¬ p x → f x = none) →
      (l.filterMap f).length ≤ (l.filter p).length := by
    intro l
    induction l with
    | nil => simp
    | cons x l ih =>
      intro hdrop
      have hrest := ih fun y hy => hdrop y (List.mem_cons_of_mem _ hy)
      by_cases hx : p x
      · rw [List.filter_cons_of_pos (by simpa using hx), List.length_cons, List.filterMap_cons]
        split
        · omega
        · rw [List.length_cons]
          omega
      · rw [List.filter_cons_of_neg (by simpa using hx),
          List.filterMap_cons_none (hdrop x List.mem_cons_self hx)]
        exact hrest
  induction l with
  | nil => simp
  | cons x l ih =>
    have hdrop' : ∀ y ∈ l, ¬ p y → f y = none := fun y hy => hdrop y (List.mem_cons_of_mem _ hy)
    rw [List.forall_mem_cons]
    refine Iff.trans ?_ (and_congr_right fun _ => ih hdrop')
    by_cases hx : p x
    · rw [List.filter_cons_of_pos (by simpa using hx), List.map_cons]
      rcases hf : f x with _ | y
      · rw [List.filterMap_cons_none hf]
        refine iff_of_false (fun h => ?_) (fun h => by simpa using h.1 hx)
        have hlen := congrArg List.length h
        have hshort := hle l hdrop'
        rw [List.length_cons, List.length_map] at hlen
        omega
      · rw [List.filterMap_cons_some hf, List.cons.injEq, Option.some.injEq]
        simp [hx]
    · rw [List.filter_cons_of_neg (by simpa using hx),
        List.filterMap_cons_none (hdrop x List.mem_cons_self hx)]
      simp [hx]

/-- The entries of a listing are read back when every one but the directory itself and its parent is
kept. -/
theorem ls_read_back_iff (total : ℕ) (es : List LsEntry) :
    ReadBack total es ↔ ∀ e ∈ es, ¬ IsDots e.name → e.Kept := by
  have hparse : ∀ io : ExecIo, execRaw io = (true, lsText total es, 0) → scpListDir id io =
      (true, es.filterMap fun e => scpEntry id e.row.line) := by
    intro io hio
    rw [scpListDir_rowsText id hio, List.flatMap_map, List.filterMap_eq_flatMap_toList]
    simp only [LsEntry.row_entries]
  have hdots : ∀ e ∈ es, ¬ ¬ IsDots e.name →
      (scpEntry id e.row.line).map CSftpEntry.listed = none := by
    intro e _ h
    have hname := not_not.mp h
    rw [e.scpEntry_row, e.readName_of_isDots hname, if_pos hname]
  have hentries : (es.filterMap fun e => scpEntry id e.row.line).map CSftpEntry.listed =
      es.filterMap fun e => (scpEntry id e.row.line).map CSftpEntry.listed := List.map_filterMap
  have hkept : (es.filterMap fun e => (scpEntry id e.row.line).map CSftpEntry.listed) =
      (es.filter fun e => ¬ IsDots e.name).map LsEntry.listed ↔
        ∀ e ∈ es, ¬ IsDots e.name → e.Kept := by
    rw [filterMap_eq_filter_iff hdots]
    exact forall₂_congr fun e _ => imp_congr_right fun hname => e.scpEntry_line_eq_iff hname
  rw [← hkept, ← hentries]
  constructor
  · intro h
    have hio : execRaw ⟨true, [], [.data (lsText total es)], [], 0⟩ =
        (true, lsText total es, 0) := by
      have hne : (lsText total es).length ≠ 0 := by simp [lsText, rowsText]
      simp [execRaw, execLoop, drainLoop, hne]
    obtain ⟨-, hlist⟩ := h _ hio
    rw [hparse _ hio] at hlist
    exact hlist
  · intro h io hio
    rw [hparse io hio]
    exact ⟨rfl, h⟩

/-- An empty file whose name is a blank and an `x`. -/
def LsEntry.blankX : LsEntry where
  letter := 45
  letter_mem := by decide
  kind := .file
  letter_eq := rfl
  rwx := [114, 119, 45]
  rwx_plain := by decide +kernel
  links := 0
  owner := ⟨[109], by decide, by decide +kernel⟩
  group := ⟨[117], by decide, by decide +kernel⟩
  size := 0
  size_lt := by norm_num
  mtime := 0
  mtime_lt := by norm_num
  name := [blank, 120]
  name_ne := by decide
  name_plain := by decide +kernel
  pad _ := 0

/-- The blank is lost. -/
theorem not_ls_read_back : ¬ ∀ (total : ℕ) (es : List LsEntry), ReadBack total es := by
  intro h
  have hlist := (h 0 [.blankX] ⟨true, [], [.data (lsText 0 [.blankX])], [], 0⟩
    (by decide +kernel)).2
  exact absurd hlist (by decide +kernel)

end SalamanderSftp
