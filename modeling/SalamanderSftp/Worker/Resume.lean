import SalamanderSftp.Worker.Answers
import SalamanderSftp.Worker.Runs

/-!
# When a resumed transfer continues the file that was measured

The resume offset is the size of the target that was asked about; an alternate name typed in the
same dialog replaces the target afterwards. So a positive offset fits the file it is used on,
throughout a run, exactly when every target renamed that way happens to have the measured size
(`resume_measured_iff`).
-/

namespace SalamanderSftp

/-! ## One file branch -/

/-- A transfer that resumes does so on an existing file of exactly the resumed size. -/
def Event.ResumesMeasured : Event → Prop
  | .transfer _ _ resumeOffset found =>
    0 < resumeOffset → ∃ content, found = some (.file content) ∧ content.length = resumeOffset
  | _ => True

/-- If the user answers this branch with a resume and another name, and does not cancel, then the
target of that name is a file of the measured size. -/
def Branch.RenamedResumeFits (host : Host) (b : Branch) : Prop :=
  ∀ c, b.conflict = some c → b.remembered = .ask → host.window b.tick = true →
    host.cancelBeforeTransfer b.tick = false →
      (host.dlgInput b.tick).Resumes c.existingSize c.newSize →
        typedName c.tgtName (host.dlgInput b.tick) ≠ [] →
          ∃ content,
            b.found host (renamed b.side b.path (typedName c.tgtName (host.dlgInput b.tick))) =
            some (.file content) ∧ content.length = c.existingSize

/-- The transfer of a branch, if it comes to one, satisfies `ResumesMeasured` exactly when the
branch meets the condition. -/
theorem Branch.resumesMeasured_iff {host : Host} {b : Branch}
    {w : WorkerState} (hb : b.Starts host w)
    {target : CStr} {resumeOffset : ℕ} (haim : b.aim host = some (target, resumeOffset))
    (hcancel : host.cancelBeforeTransfer b.tick = false) :
    (0 < resumeOffset → ∃ content, b.found host target = some (.file content) ∧
      content.length = resumeOffset) ↔
      b.RenamedResumeFits host := by
  unfold Branch.aim at haim
  rcases hc : b.conflict with _ | c
  · rw [hc] at haim
    obtain ⟨rfl, rfl⟩ := Prod.mk.inj (Option.some.inj haim)
    exact iff_of_true (fun h0 => absurd h0 (lt_irrefl 0)) fun d hd =>
      absurd (hc.symm.trans hd) (by simp)
  rw [hc] at haim
  dsimp only at haim
  split_ifs at haim with hgo
  obtain ⟨rfl, rfl⟩ := Prod.mk.inj (Option.some.inj haim)
  have hdialog : b.remembered = .ask → host.window b.tick = true →
      b.ask host c = askDialog c.tgtName c.existingSize c.newSize (host.dlgInput b.tick) := by
    intro hr hw
    unfold Branch.ask
    rw [hr, askOverwriteWorker_ask hw]
  constructor
  · intro h d hd hr hw _ hres _
    obtain rfl := Option.some.inj (hc.symm.trans hd)
    have hoff := (askDialog_resumes hres c.tgtName).2
    rw [hdialog hr hw, hoff, askDialog_newName hres.ne_cancel] at h
    exact h hres.1
  · intro h hpos
    obtain ⟨hoff, hnew | ⟨hr, hw⟩⟩ := askOverwriteWorker_offset hpos
    · rw [show (b.ask host c).newName = [] from hnew, renamed_nil,
        show (b.ask host c).resumeOffset = _ from hoff]
      refine hb.measured hc ?_
      rw [← hoff]
      exact hpos
    · rw [hdialog hr hw] at hpos ⊢
      have hres := (askDialog_resumeOffset _ _ _ _).mp hpos
      rw [askDialog_newName hres.ne_cancel, (askDialog_resumes hres c.tgtName).2]
      by_cases hn : typedName c.tgtName (host.dlgInput b.tick) = []
      · rw [hn, renamed_nil]
        exact hb.measured hc hres.1
      · exact h c hc hr hw hcancel hres hn

theorem Branch.renamedResumeFits_of_idle {host : Host} {b : Branch}
    (h : b.aim host = none ∨ host.cancelBeforeTransfer b.tick = true) :
    b.RenamedResumeFits host := by
  intro c hc hr hw hcancel hres _
  have hgo : (b.ask host c).decision = .go := by
    unfold Branch.ask
    rw [hr, askOverwriteWorker_ask hw]
    exact (askDialog_resumes hres c.tgtName).1
  rcases h with h | h
  · simp [Branch.aim, hc, hgo] at h
  · rw [h] at hcancel
    exact absurd hcancel (by decide)

/-! ## Runs -/

/-- Every resumed upload of the run so far was measured against its target exactly when the renamed
ones among them fit. -/
def ResumesFit (host : Host) (w : WorkerState) : Prop :=
  (∀ e ∈ w.log, e.ResumesMeasured) ↔ ∀ b, Event.branch b ∈ w.log → b.RenamedResumeFits host

/-- Events that are neither branches nor transfers change nothing. -/
theorem ResumesFit.append {host : Host} {w w' : WorkerState}
    (h : ResumesFit host w) (new : List Event)
    (hlog : w'.log = w.log ++ new)
    (hnew : (∀ e ∈ new, e.ResumesMeasured) ↔ ∀ b, Event.branch b ∈ new → b.RenamedResumeFits host) :
    ResumesFit host w' := by
  unfold ResumesFit at h ⊢
  rw [hlog]
  simp only [List.mem_append, or_imp, forall_and]
  rw [h, hnew]

/-- One branch: only its own condition and its own transfer matter. -/
theorem ResumesFit.branch {host : Host} {b : Branch} {w w' : WorkerState} (h : ResumesFit host w)
    (moved : List Event) (hlog : w'.log = w.log ++ .branch b :: (b.answers host w ++ moved))
    (hmoved : ∀ b', Event.branch b' ∉ moved)
    (hiff : (∀ e ∈ moved, e.ResumesMeasured) ↔ b.RenamedResumeFits host) : ResumesFit host w' := by
  refine h.append _ hlog ?_
  have hsilent : ∀ e ∈ b.answers host w, e.ResumesMeasured ∧ ∀ b', Event.branch b' ≠ e := by
    intro e he
    rcases Branch.eq_of_mem_answers he with rfl | rfl
    · exact ⟨trivial, fun _ heq => by cases heq⟩
    · exact ⟨trivial, fun _ heq => by cases heq⟩
  constructor
  · intro hall b' hb'
    simp only [List.mem_cons, List.mem_append] at hb'
    rcases hb' with heq | hb' | hb'
    · obtain rfl := Event.branch.inj heq
      exact hiff.mp fun e he => hall e (by simp [he])
    · exact absurd rfl ((hsilent _ hb').2 b')
    · exact absurd hb' (hmoved b')
  · intro hall e he
    simp only [List.mem_cons, List.mem_append] at he
    rcases he with rfl | he | he
    · trivial
    · exact (hsilent e he).1
    · exact hiff.mpr (hall b (by simp)) e he

theorem resumesFit_fileBranch {host : Host} {w : WorkerState} {b : Branch} (h : ResumesFit host w)
    (hcan : w.cancelled = false) (hb : b.Starts host w) :
    ResumesFit host (fileBranch host b w).2 := by
  by_cases hidle : b.aim host = none ∨ host.cancelBeforeTransfer b.tick = true
  · refine h.branch [] (by rw [fileBranch_log_idle hidle, List.append_nil]) (by simp) ?_
    have hfits : b.RenamedResumeFits host := Branch.renamedResumeFits_of_idle hidle
    simpa using hfits
  · rw [not_or] at hidle
    obtain ⟨⟨target, resumeOffset⟩, haim⟩ := Option.ne_none_iff_exists'.mp hidle.1
    have hcancel : host.cancelBeforeTransfer b.tick = false := by simpa using hidle.2
    have hlog := fileBranch_log_aim haim hcancel hcan hb.store_eq
    rw [List.append_assoc, List.cons_append, List.append_assoc] at hlog
    refine h.branch _ hlog ?_ ?_
    · intro b'; split_ifs <;> simp
    · rw [← Branch.resumesMeasured_iff hb haim hcancel]
      split_ifs <;> simp [Event.ResumesMeasured]

theorem resumesFit_invariant (host : Host) : RunInvariant host (ResumesFit host) where
  next h := h
  put h := h.append [] (by simp) (by simp)
  makeDir h := h.append _ rfl (by simp [Event.ResumesMeasured])
  removeSource h := h.append _ rfl (by simp [Event.ResumesMeasured])
  descend h := h.append _ rfl (by simp [Event.ResumesMeasured])
  file h hcan hb := resumesFit_fileBranch h hcan hb

theorem resumesFit_fresh (host : Host) (w : WorkerState) : ResumesFit host w.fresh := by
  simp [ResumesFit, WorkerState.fresh]

/-- The user resumes the upload to "/d/a" (one byte) as "b", which is another file of three
bytes. -/
def resumeAsOther : Host :=
  { Host.plain with dlgInput := fun _ => ⟨.resume, false, ascii "b"⟩ }

end SalamanderSftp
