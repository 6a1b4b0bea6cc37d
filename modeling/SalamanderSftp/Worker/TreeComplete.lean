import SalamanderSftp.Worker.MoveTree

/-!
# Is every file of a tree transferred?

A walk that returned true has made every call to its end (`activations_true`), so whatever it was
told about was transferred or skipped. It looks at no other result: an upload takes a directory that
it cannot look into for an empty one, and neither walk asks whether a listing is complete or a path
still names its file. So every file of the tree is handled exactly once if and only if the
enumerations name it exactly once.
-/

namespace SalamanderSftp

open Procedure FileTree

/-- The calls of a walk, each with the state in which it starts, when all before it returned
true. -/
def activations (host : Host) (type : TaskType) :
    ℕ → WalkCall → WorkerState → List (WalkCall × WorkerState)
  | 0, _, _ => []
  | n + 1, c, w =>
    (c, w) ::
      if c.isDir then
        (turns (turn host (walk host type n) c) ((host.entries type w.tick c).getD [])
          (makeTarget host type w.tick c w.next)).flatMap fun a =>
            activations host type n (childCall host c a.1.1 a.1.2)
              (a.2.next.record (.descend c (childCall host c a.1.1 a.1.2)))
      else []

/-- The calls for what an enumeration names. -/
def children (host : Host) (type : TaskType) (a : WalkCall × WorkerState) : List WalkCall :=
  if a.1.isDir then ((host.entries type a.2.tick a.1).getD []).map fun e =>
    childCall host a.1 e.1 e.2 else []

theorem turn_true {host : Host} {rec : Proc WalkCall WorkerState} {c : WalkCall}
    {e : CStr × Bool} {w : WorkerState}
    (h : (turn host rec c e w).1 = some true) :
    turn host rec c e w =
      rec (childCall host c e.1 e.2) (w.next.record (.descend c (childCall host c e.1 e.2))) := by
  unfold turn at h ⊢
  by_cases hcancel : (w.cancelled || host.cancelInLoop w.tick) = true
  · rw [if_pos hcancel] at h
    cases h
  · rw [if_neg hcancel]

theorem not_cancelled_of_true {host : Host} {type : TaskType} {n : ℕ}
    {c : WalkCall} {w : WorkerState}
    (h : (walk host type (n + 1) c w).1 = some true) :
    (w.cancelled || host.cancelAtStart w.tick) = false := by
  by_contra hcancel
  rw [Bool.not_eq_false] at hcancel
  rw [walk_succ, walkBody_cancelled hcancel] at h
  cases h

theorem walk_dir_true {host : Host} {type : TaskType} {n : ℕ} {c : WalkCall}
    {w : WorkerState} (hdir : c.isDir = true)
    (h : (walk host type (n + 1) c w).1 = some true) :
    walk host type (n + 1) c w =
      forEach (turn host (walk host type n) c) ((host.entries type w.tick c).getD [])
      (makeTarget host type w.tick c w.next) := by
  have hgo := not_cancelled_of_true h
  rw [walk_succ, walkBody_dir hgo hdir] at h ⊢
  rcases hl : host.entries type w.tick c with _ | entries
  · rw [hl] at h
    cases h
  · rfl

/-- The inner call of a turn that the loop has made. -/
theorem walk_turn_true {host : Host} {type : TaskType} {n : ℕ} {c : WalkCall}
    {w : WorkerState} (hdir : c.isDir = true)
    (h : (walk host type (n + 1) c w).1 = some true) {a : (CStr × Bool) × WorkerState}
    (ha : a ∈ turns (turn host (walk host type n) c) ((host.entries type w.tick c).getD [])
      (makeTarget host type w.tick c w.next)) :
    turn host (walk host type n) c a.1 a.2 = walk host type n (childCall host c a.1.1 a.1.2)
        (a.2.next.record (.descend c (childCall host c a.1.1 a.1.2))) ∧
      (turn host (walk host type n) c a.1 a.2).1 = some true := by
  rw [walk_dir_true hdir h] at h
  have htrue := forEach_true h a ha
  exact ⟨turn_true htrue, htrue⟩

theorem walk_file_true {host : Host} {type : TaskType} {n : ℕ} {c : WalkCall}
    {w : WorkerState} (hfile : c.isDir = false)
    (h : (walk host type (n + 1) c w).1 = some true) :
    walk host type (n + 1) c w = fileCall host type c w := by
  rw [walk_succ, walkBody_file (not_cancelled_of_true h) hfile]

/-! ## What a walk that returned true has done -/

theorem activations_true {host : Host} {type : TaskType} {n : ℕ} {c : WalkCall} {w : WorkerState}
    (h : (walk host type n c w).1 = some true) :
    ∀ a ∈ activations host type n c w, a.1.isDir = false →
      a.2.cancelled = false ∧ (fileCall host type a.1 a.2).1 = some true := by
  induction n generalizing c w with
  | zero => simp [activations]
  | succ n ih =>
    intro a ha hfile
    rw [activations, List.mem_cons] at ha
    rcases ha with rfl | ha
    · have hgo := not_cancelled_of_true h
      rw [walk_file_true hfile h] at h
      rw [Bool.or_eq_false_iff] at hgo
      exact ⟨hgo.1, h⟩
    · split_ifs at ha with hdir
      · obtain ⟨b, hb, ha⟩ := List.mem_flatMap.mp ha
        obtain ⟨heq, htrue⟩ := walk_turn_true hdir h hb
        exact ih (heq ▸ htrue) a ha hfile
      · cases ha

/-- The calls of a walk are the first one and those for what the enumerations name. -/
theorem activations_perm {host : Host} {type : TaskType} {n : ℕ} {c : WalkCall} {w : WorkerState}
    (h : (walk host type n c w).1 = some true) :
    ((activations host type n c w).map Prod.fst).Perm
      (c :: (activations host type n c w).flatMap (children host type)) := by
  induction n generalizing c w with
  | zero => cases h
  | succ n ih =>
    rw [activations, List.map_cons, List.flatMap_cons]
    refine .cons _ ?_
    by_cases hdir : c.isDir = true
    · rw [if_pos hdir, List.map_flatMap, List.flatMap_assoc, children, if_pos hdir]
      set entries := (host.entries type w.tick c).getD []
      have hchildren : entries.map (fun e => childCall host c e.1 e.2) =
          (turns (turn host (walk host type n) c) entries
            (makeTarget host type w.tick c w.next)).map
            fun a => childCall host c a.1.1 a.1.2 := by
        conv_lhs => rw [← map_fst_turns (turn host (walk host type n) c) entries
          (makeTarget host type w.tick c w.next)]
        rw [List.map_map]
        rfl
      rw [hchildren]
      refine .trans (List.Perm.flatMap_left _ fun a ha => ?_)
        (List.map_append_flatMap_perm _ _ _).symm
      obtain ⟨heq, htrue⟩ := walk_turn_true hdir h ha
      exact ih (heq ▸ htrue)
    · rw [if_neg hdir, children, if_neg hdir]
      rfl

/-! ## The transfers of a walk -/

/-- The targets of the calls of `Download` and `Upload`. -/
def transfers (log : List Event) : List CStr :=
  log.filterMap fun
    | .transfer _ path _ _ => some path
    | _ => none

theorem transfers_append (log log' : List Event) :
    transfers (log ++ log') = transfers log ++ transfers log' :=
  List.filterMap_append

theorem transfers_answers (host : Host) (b : Branch) (w : WorkerState) :
    transfers (b.answers host w) = [] := by
  unfold transfers
  rw [List.filterMap_eq_nil_iff]
  intro e he
  rcases Branch.eq_of_mem_answers he with rfl | rfl <;> rfl

/-- A file branch is skipped by a decision, or its transfer returns true. -/
inductive Handled (host : Host) (b : Branch) : Prop
  | skipped (c : Conflict) (h : b.conflict = some c) (hdecision : (b.ask host c).decision = .skip)
  | transferred (target : CStr) (resumeOffset : ℕ) (h : b.aim host = some (target, resumeOffset))
    (hgo : host.cancelBeforeTransfer b.tick = false)
    (hok : (b.transfer host target resumeOffset).ok = true)

theorem handled_of_true {host : Host} {b : Branch} {w : WorkerState} (hs : b.Starts host w)
    (hw : w.cancelled = false)
    (h : (fileBranch host b w).1 = some true) : Handled host b := by
  rcases (fileBranch_true_iff hw hs.store_eq).mp h
    with ⟨c, hc, hd⟩ | ⟨target, resumeOffset, haim, hgo, hok⟩
  · exact .skipped c hc hd
  · exact .transferred target resumeOffset haim hgo hok

/-- A branch that returned true has made the transfer that it aimed at, if any. -/
theorem fileBranch_transfers {host : Host} {b : Branch} {w : WorkerState} (hs : b.Starts host w)
    (hw : w.cancelled = false) (h : (fileBranch host b w).1 = some true) :
    transfers (fileBranch host b w).2.log =
      transfers w.log ++ ((b.aim host).map Prod.fst).toList := by
  have hlogs : ∀ log, transfers (.branch b :: log) = transfers log := fun _ => rfl
  cases handled_of_true hs hw h with
  | skipped c hc hd =>
    have haim : b.aim host = none := by simp [Branch.aim, hc, hd]
    rw [fileBranch_log_idle (.inl haim), transfers_append, hlogs, transfers_answers, haim]
    rfl
  | transferred target resumeOffset haim hgo hok =>
    rw [fileBranch_log_aim haim hgo hw hs.store_eq, transfers_append, transfers_append,
      hlogs, transfers_append,
      transfers_answers, haim]
    split_ifs <;> simp [transfers]

theorem makeTarget_transfers (host : Host) (type : TaskType) (t : ℕ)
    (c : WalkCall) (w : WorkerState) :
    transfers (makeTarget host type t c w).log = transfers w.log := by
  cases type
  · rw [makeTarget, createDirectory_log, transfers_append]
    exact List.append_nil _
  · rw [makeTarget, makeDir_log, transfers_append]
    exact List.append_nil _

/-- The transfers in the log are those that the calls for files aimed at. -/
theorem walk_transfers {host : Host} {type : TaskType} {n : ℕ} {c : WalkCall} {w : WorkerState}
    (h : (walk host type n c w).1 = some true) :
    transfers (walk host type n c w).2.log = transfers w.log ++
      ((activations host type n c w).filter fun a => !a.1.isDir).flatMap fun a =>
        (((callBranch host type a.1 a.2).aim host).map Prod.fst).toList := by
  induction n generalizing c w with
  | zero => cases h
  | succ n ih =>
    rw [activations]
    by_cases hdir : c.isDir = true
    · rw [if_pos hdir, List.filter_cons_of_neg (by simp [hdir]),
        List.filter_flatMap, List.flatMap_assoc]
      have hloop := h
      rw [walk_dir_true hdir h] at hloop ⊢
      rw [forEach_reads (fun s => transfers s.log) _ hloop, makeTarget_transfers]
      · rfl
      · intro a ha htrue
        obtain ⟨heq, -⟩ := walk_turn_true hdir h ha
        rw [heq] at htrue ⊢
        rw [ih htrue, WorkerState.record_log, transfers_append]
        simp only [List.append_assoc]
        rfl
    · rw [if_neg hdir, List.filter_cons_of_pos (by simpa using hdir), List.filter_nil,
        List.flatMap_singleton]
      have hgo := not_cancelled_of_true h
      rw [Bool.or_eq_false_iff] at hgo
      have hfile := walk_file_true (by simpa using hdir) h
      rw [hfile] at h ⊢
      exact fileBranch_transfers (callBranch_starts host type c w) hgo.1 h

/-! ## Handled once, and listed once -/

/-- The call is for a file, and its path names the object. -/
def namesFile (host : Host) (type : TaskType) (object : CStr) (c : WalkCall) : Bool :=
  !c.isDir && decide (host.key type.source (c.sourcePath type) = object)

/-- One call for a file is for the object, its target is that one, and it was skipped or transferred
there, or under the alternate name that was chosen. -/
def HandledOnce (host : Host) (type : TaskType) (calls : List (WalkCall × WorkerState))
    (object target : CStr) : Prop :=
  ∃ a, calls.filter (fun a => namesFile host type object a.1) = [a] ∧
    host.key type.target (a.1.targetPath type) = target ∧
      Handled host (callBranch host type a.1 a.2)

/-- The enumerations together name the object once, as a file, and the target that goes with it is
that one. -/
def ListedOnce (host : Host) (type : TaskType) (calls : List (WalkCall × WorkerState))
    (object target : CStr) : Prop :=
  ∃ child, (calls.flatMap (children host type)).filter (namesFile host type object) = [child] ∧
    host.key type.target (child.targetPath type) = target

theorem handledOnce_iff_listedOnce {host : Host} {type : TaskType} {n : ℕ}
    {c : WalkCall} {w : WorkerState}
    (hdir : c.isDir = true) (h : (walk host type n c w).1 = some true) (object target : CStr) :
    HandledOnce host type (activations host type n c w) object target ↔
      ListedOnce host type (activations host type n c w) object target := by
  have hperm := (activations_perm h).filter (namesFile host type object)
  rw [List.filter_cons_of_neg (by simp [namesFile, hdir]), List.filter_map] at hperm
  constructor
  · rintro ⟨a, ha, htarget, -⟩
    refine ⟨a.1, ?_, htarget⟩
    rw [show (namesFile host type object ∘ Prod.fst : WalkCall × WorkerState → Bool) =
      fun a => namesFile host type object a.1 from rfl, ha] at hperm
    exact List.perm_singleton.mp hperm.symm
  · rintro ⟨child, hchild, htarget⟩
    rw [hchild] at hperm
    obtain ⟨a, ha, rfl⟩ := List.map_eq_singleton_iff.mp (List.perm_singleton.mp hperm)
    refine ⟨a, ha, htarget, ?_⟩
    have hmem : a ∈ (activations host type n c w).filter fun a =>
        namesFile host type object a.1 := by
      rw [show (fun a : WalkCall × WorkerState => namesFile host type object a.1) =
        namesFile host type object ∘ Prod.fst from rfl, ha]
      exact List.mem_cons_self
    obtain ⟨hmem, hnames⟩ := List.mem_filter.mp hmem
    have hfile : a.1.isDir = false := by
      rw [namesFile, Bool.and_eq_true] at hnames
      simpa using hnames.1
    obtain ⟨hgo, htrue⟩ := activations_true h a hmem hfile
    exact handled_of_true (callBranch_starts host type a.1 a.2) hgo htrue

/-- `DoDownloadRecursive` and `DoUploadRecursive`. -/
def doRecursive (host : Host) : TaskType → ℕ → Proc WalkCall WorkerState
  | .download => doDownloadRecursive host
  | .upload => doUploadRecursive host

theorem doRecursive_eq (host : Host) (type : TaskType) (depth : ℕ) :
    doRecursive host type depth = walk host type depth := by
  cases type
  · exact doDownloadRecursive_eq host depth
  · exact doUploadRecursive_eq host depth

/-! ## Complete enumerations -/

section WellListed

variable {host : Host} {type : TaskType} {T : Tree CStr Bytes} {place place' : List CStr → CStr}

/-- The call is for the location `q` of the tree. -/
structure Located (host : Host) (type : TaskType) (T : Tree CStr Bytes)
    (place place' : List CStr → CStr) (c : WalkCall)
    (q : List CStr) : Prop where
  source : host.key type.source (c.sourcePath type) = place q
  target : host.key type.target (c.targetPath type) = place' q
  isDir : c.isDir = true ↔ T.lookup q = some .dir
  there : (T.lookup q).isSome = true

/-- The enumeration of a call for `q` names what is in `q`, each name once, and the paths are those
of what it names. -/
structure WellListed (host : Host) (type : TaskType) (T : Tree CStr Bytes)
    (place place' : List CStr → CStr)
    (a : WalkCall × WorkerState) (q : List CStr) : Prop where
  complete : ∀ n ∈ T.names q, n ∈ ((host.entries type a.2.tick a.1).getD []).map Prod.fst
  nodup : (((host.entries type a.2.tick a.1).getD []).map Prod.fst).Nodup
  located : ∀ e ∈ (host.entries type a.2.tick a.1).getD [],
    Located host type T place place' (childCall host a.1 e.1 e.2) (q ++ [e.1])

/-- Every enumeration that the walk makes is complete. -/
def AllWellListed (host : Host) (type : TaskType) (T : Tree CStr Bytes)
    (place place' : List CStr → CStr)
    (calls : List (WalkCall × WorkerState)) : Prop :=
  ∀ a ∈ calls, a.1.isDir = true → ∀ q, Located host type T place place' a.1 q →
    WellListed host type T place place' a q

theorem AllWellListed.child {n : ℕ} {c : WalkCall} {w : WorkerState} (hdir : c.isDir = true)
    (h : AllWellListed host type T place place' (activations host type (n + 1) c w))
    {a : (CStr × Bool) × WorkerState}
    (ha : a ∈ turns (turn host (walk host type n) c) ((host.entries type w.tick c).getD [])
      (makeTarget host type w.tick c w.next)) :
    AllWellListed host type T place place' (activations host type n (childCall host c a.1.1 a.1.2)
      (a.2.next.record (.descend c (childCall host c a.1.1 a.1.2)))) := by
  intro b hb
  refine h b ?_
  rw [activations, if_pos hdir]
  exact List.mem_cons_of_mem _ (List.mem_flatMap.mpr ⟨a, ha, hb⟩)

theorem mem_of_mem_turns {ι σ : Type*} {body : Proc ι σ} {is : List ι} {s : σ} {a : ι × σ}
    (h : a ∈ turns body is s) :
    a.1 ∈ is := by
  rw [← map_fst_turns body is s]
  exact List.mem_map_of_mem h

/-- Every call of the walk is for a location of the tree. -/
theorem exists_located {n : ℕ} {c : WalkCall} {w : WorkerState} {q : List CStr}
    (hc : Located host type T place place' c q)
    (hall : AllWellListed host type T place place' (activations host type n c w)) :
    ∀ a ∈ activations host type n c w, ∃ q', Located host type T place place' a.1 q' := by
  induction n generalizing c w q with
  | zero => simp [activations]
  | succ n ih =>
    intro a ha
    have hfirst := hall (c, w) (by rw [activations]; exact List.mem_cons_self)
    by_cases hdir : c.isDir = true
    · have hchild := fun b hb => hall.child hdir (a := b) hb
      rw [activations, if_pos hdir, List.mem_cons] at ha
      rcases ha with rfl | ha
      · exact ⟨q, hc⟩
      · obtain ⟨b, hb, ha⟩ := List.mem_flatMap.mp ha
        exact ih ((hfirst hdir q hc).located b.1 (mem_of_mem_turns hb)) (hchild b hb) a ha
    · rw [activations, if_neg hdir, List.mem_singleton] at ha
      exact ⟨q, ha ▸ hc⟩

theorem namesFile_located {c : WalkCall} {q q' : List CStr} {content : Bytes}
    (hplace : ∀ q q', (T.lookup q).isSome = true → (T.lookup q').isSome = true →
      place q = place q' → q = q')
    (hc : Located host type T place place' c q) (hq' : T.lookup q' = some (.file content)) :
    namesFile host type (place q') c = true ↔ q = q' := by
  rw [namesFile, Bool.and_eq_true, decide_eq_true_eq, hc.source]
  constructor
  · rintro ⟨-, heq⟩
    exact hplace q q' hc.there (by simp [hq']) heq
  · rintro rfl
    refine ⟨?_, rfl⟩
    have hno : ¬ c.isDir = true := by simp [hc.isDir, hq']
    simpa using hno

/-- A turn of the loop counts when the file is below its entry. -/
theorem sum_turns {is : List (CStr × Bool)}
    {body : Proc (CStr × Bool) WorkerState} {s : WorkerState}
    {count : (CStr × Bool) × WorkerState → ℕ} {p : CStr → Prop} [DecidablePred p]
    (h : ∀ a ∈ turns body is s, count a = if p a.1.1 then 1 else 0) :
    ((turns body is s).map count).sum = (is.map Prod.fst).countP fun n => p n := by
  induction is generalizing s with
  | nil => rfl
  | cons i is ih =>
    rw [turns, List.forall_mem_cons] at h
    rw [turns, List.map_cons, List.sum_cons, ih h.2, List.map_cons, List.countP_cons, h.1, add_comm]
    simp

theorem countP_located {n : ℕ} {c : WalkCall} {w : WorkerState} {q q' : List CStr} {content : Bytes}
    (hplace : ∀ q q', (T.lookup q).isSome = true → (T.lookup q').isSome = true →
      place q = place q' → q = q')
    (hc : Located host type T place place' c q)
    (hall : AllWellListed host type T place place' (activations host type n c w))
    (h : (walk host type n c w).1 = some true) (hq' : T.lookup q' = some (.file content)) :
    ((activations host type n c w).map Prod.fst).countP (namesFile host type (place q')) =
      if q <+: q' then 1 else 0 := by
  induction n generalizing c w q with
  | zero => cases h
  | succ n ih =>
    have hwell := hall (c, w) (by rw [activations]; exact List.mem_cons_self)
    have hchild := fun hdir b hb => hall.child hdir (a := b) hb
    have hnames := namesFile_located hplace hc hq'
    rw [activations]
    by_cases hdir : c.isDir = true
    · have hlisted := hwell hdir q hc
      have hdir' : T.lookup q = some .dir := hc.isDir.mp hdir
      have hne : q ≠ q' := by
        rintro rfl
        rw [hdir'] at hq'
        cases hq'
      rw [if_pos hdir, List.map_cons, List.countP_cons_of_neg (fun hyes => hne (hnames.mp hyes)),
        List.map_flatMap,
        List.countP_flatMap]
      rw [sum_turns (p := fun n => q ++ [n] <+: q')]
      · by_cases hbelow : q <+: q'
        · obtain ⟨s, rfl⟩ := hbelow
          rcases s with _ | ⟨m, r⟩
          · exact absurd (List.append_nil q).symm hne
          have hpre : q ++ [m] <+: q ++ m :: r := ⟨r, by simp⟩
          have hm : m ∈ T.names q :=
            Tree.mem_names.mpr (Tree.isSome_lookup_of_prefix hpre (by rw [hq']; rfl))
          have hone := List.count_eq_one_of_mem hlisted.nodup (hlisted.complete m hm)
          rw [if_pos (List.prefix_append q _), ← hone, List.count]
          congr 1
          funext n
          rw [Bool.eq_iff_iff]
          simp [List.prefix_append_right_inj, List.cons_prefix_cons]
        · rw [if_neg hbelow, List.countP_eq_zero]
          intro n _ hn
          exact hbelow ((List.prefix_append q [n]).trans (of_decide_eq_true hn))
      · intro a ha
        obtain ⟨heq, htrue⟩ := walk_turn_true hdir h ha
        exact ih (hlisted.located a.1 (mem_of_mem_turns ha)) (hchild hdir a ha) (heq ▸ htrue)
    · rw [if_neg hdir, List.map_singleton, List.countP_singleton]
      have hbelow : q <+: q' ↔ q = q' := by
        refine ⟨?_, fun heq => heq ▸ List.prefix_rfl⟩
        rintro ⟨s, rfl⟩
        by_cases hs : s = []
        · rw [hs, List.append_nil]
        · exact absurd (hc.isDir.mpr (Tree.lookup_dir_of_below hs hq')) hdir
      simp only [hnames, hbelow]

/-- When every enumeration is complete, every file of the tree is handled once. -/
theorem handledOnce_of_wellListed {n : ℕ} {c : WalkCall} {w : WorkerState}
    {q' : List CStr} {content : Bytes}
    (hplace : ∀ q q', (T.lookup q).isSome = true → (T.lookup q').isSome = true →
      place q = place q' → q = q')
    (hc : Located host type T place place' c [])
    (hall : AllWellListed host type T place place' (activations host type n c w))
    (h : (doRecursive host type n c w).1 = some true) (hq' : T.lookup q' = some (.file content)) :
    HandledOnce host type (activations host type n c w) (place q') (place' q') := by
  rw [doRecursive_eq] at h
  have hcount := countP_located hplace hc hall h hq'
  rw [if_pos List.nil_prefix, List.countP_map, List.countP_eq_length_filter] at hcount
  obtain ⟨a, ha⟩ := List.length_eq_one_iff.mp hcount
  have hfiltered :
      a ∈ (activations host type n c w).filter (namesFile host type (place q') ∘ Prod.fst) := by
    rw [ha]
    exact List.mem_cons_self
  obtain ⟨hmem, hnames⟩ := List.mem_filter.mp hfiltered
  obtain ⟨q, hq⟩ := exists_located hc hall a hmem
  obtain rfl := (namesFile_located hplace hq hq').mp hnames
  have hfile : a.1.isDir = false := by
    have hno : ¬ a.1.isDir = true := by simp [hq.isDir, hq']
    simpa using hno
  obtain ⟨hgo, htrue⟩ := activations_true h a hmem hfile
  exact ⟨a, ha, hq.target, handled_of_true (callBranch_starts host type a.1 a.2) hgo htrue⟩

end WellListed

/-- The walk of a directory returned true. The transfers in the log are those that its calls for
files aimed at, and every file of the tree was handled once, at its place under the target, if and
only if the enumerations name every file once, as they do when each of them is complete. -/
theorem tree_handled_iff_listed {host : Host} {type : TaskType} {depth : ℕ} {c : WalkCall}
    {w : WorkerState} (T : Tree CStr Bytes) (place place' : List CStr → CStr)
    (hdir : c.isDir = true) (htrue : (doRecursive host type depth c w).1 = some true) :
    (transfers (doRecursive host type depth c w).2.log = transfers w.log ++
      ((activations host type depth c w).filter fun a => !a.1.isDir).flatMap fun a =>
        (((callBranch host type a.1 a.2).aim host).map Prod.fst).toList) ∧
    ((∀ q content, T.lookup q = some (.file content) →
        HandledOnce host type (activations host type depth c w) (place q) (place' q)) ↔
      ∀ q content, T.lookup q = some (.file content) →
        ListedOnce host type (activations host type depth c w) (place q) (place' q)) ∧
    ((∀ q q', (T.lookup q).isSome = true → (T.lookup q').isSome = true → place q = place q' →
        q = q') →
      Located host type T place place' c [] →
      AllWellListed host type T place place' (activations host type depth c w) →
      ∀ q content, T.lookup q = some (.file content) →
        HandledOnce host type (activations host type depth c w) (place q) (place' q)) := by
  refine ⟨?_, ?_,
    fun hplace hc hall q content hq => handledOnce_of_wellListed hplace hc hall htrue hq⟩
  · rw [doRecursive_eq] at htrue ⊢
    exact walk_transfers htrue
  · rw [doRecursive_eq] at htrue
    exact forall₃_congr fun _ _ _ => handledOnce_iff_listedOnce hdir htrue _ _

/-! ## The directory with one file -/

def oneFileTarget (q : List CStr) : CStr := if q = [] then ascii "d" else ascii "d\\f"

def dirCall : WalkCall := ⟨ascii "/d", ascii "d", true⟩

/-- The download of the directory handles its file once. -/
theorem tree_handled_iff_listed_oneFile :
    (doRecursive (oneFileHost true) .download 2 dirCall oneFile).1 = some true ∧
    ∀ q content, oneFileTree.lookup q = some (.file content) →
      HandledOnce (oneFileHost true) .download
        (activations (oneFileHost true) .download 2 dirCall oneFile)
        (oneFilePlace q) (oneFileTarget q) := by
  have htrue : (doRecursive (oneFileHost true) .download 2 dirCall oneFile).1 = some true := by
    decide +kernel
  refine ⟨htrue, ?_⟩
  refine (tree_handled_iff_listed oneFileTree oneFilePlace oneFileTarget rfl htrue).2.1.mpr
    fun q content hq => ?_
  have hlocation : q = [ascii "f"] := by
    rcases oneFileTree_locations (q := q) (by rw [hq]; rfl) with rfl | rfl
    · cases hq
    · rfl
  subst hlocation
  exact ⟨⟨ascii "/d/f", ascii "d\\f", false⟩, by decide +kernel, by decide +kernel⟩

/-- The local directory `d` cannot be looked into. -/
def unreadable : Host :=
  { Host.plain with findFiles := fun _ _ => none }

def oneLocalFile : WorkerState :=
  .start (fun key => if key = ascii "d" then some .dir else if key =
    ascii "d\\f" then some (.file [1]) else none)
    (.ofFiles [])

/-- Its upload returns true, and the file `f` in it was not looked at. -/
theorem not_tree_handled : (doRecursive unreadable .upload 2 dirCall oneLocalFile).1 = some true ∧
    Stands oneLocalFile.disk oneFileTree oneFileTarget ∧
    ¬ ∀ q content, oneFileTree.lookup q = some (.file content) →
      HandledOnce unreadable .upload
        (activations unreadable .upload 2 dirCall oneLocalFile) (oneFileTarget q)
        (oneFilePlace q) := by
  refine ⟨by decide +kernel, ⟨fun q hq => ?_, fun q q' hq hq' heq => ?_⟩, fun h => ?_⟩
  · rcases oneFileTree_locations hq with rfl | rfl <;> decide +kernel
  · have hne : ascii "d" ≠ ascii "d\\f" := by decide +kernel
    rcases oneFileTree_locations hq with rfl | rfl
      <;> rcases oneFileTree_locations hq' with rfl | rfl
    · rfl
    · exact absurd heq hne
    · exact absurd heq.symm hne
    · rfl
  · obtain ⟨a, ha, -⟩ := h [ascii "f"] [1] (by decide +kernel)
    have hlength : ((activations unreadable .upload 2 dirCall oneLocalFile).filter fun a =>
        namesFile unreadable .upload (oneFileTarget [ascii "f"]) a.1).length = 0 := by
          decide +kernel
    rw [ha] at hlength
    cases hlength

end SalamanderSftp
