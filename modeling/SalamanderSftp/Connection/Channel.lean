import SalamanderSftp.Connection.Listing

/-!
# Running a command

`ExecRaw` and `ExecCommandStream` against the answers of the SSH channel. Their loops look for the
end of the output in different ways and treat a failed read differently: `ExecRaw` leaves its loop
at once and still returns true, `ExecCommandStream` does not look at it and goes on
(`broken_connection_iff`).

The calls of each libssh2 function are numbered. Where a loop has no end, no number of turns is
enough for it. A run of `ExecRaw` that returns is its run against a script, so a listing over a
connection that breaks is a success wherever no exit status says otherwise (`broken_listing`).
-/

namespace SalamanderSftp

/-- Negative, and not `LIBSSH2_ERROR_EAGAIN`. -/
def ChannelRead.isError : ChannelRead → Bool
  | data _ => false
  | again => false
  | error => true

/-- What libssh2 answers for one command. -/
structure ChannelIo where
  /-- The channel is opened and the command started. -/
  opened : Bool
  eof : ℕ → Bool
  read : ℕ → ChannelRead
  readStderr : ℕ → ChannelRead
  /-- `libssh2_channel_get_exit_status`: 0 as long as no status has been received. -/
  exitStatus : ℤ

/-! ## ExecRaw -/

namespace ChannelIo

/-- Where the first loop of `ExecRaw` was left, and whether at the end of the output. -/
structure LoopEnd where
  reads : ℕ
  readsStderr : ℕ
  out : Bytes
  atEof : Bool

/-- The first loop: a turn looks for the end and reads once from either stream. -/
def execLoop (io : ChannelIo) : ℕ → (turn : ℕ) → (out : Bytes) → Option LoopEnd
  | 0, _, _ => none
  | fuel + 1, turn, out =>
    if io.eof turn then some ⟨turn, turn, out, true⟩
    else if (io.read turn).isError then some ⟨turn + 1, turn, out, false⟩
    else
      let out := out ++ (io.read turn).bytes
      if (io.readStderr turn).isError then some ⟨turn + 1, turn + 1, out, false⟩
      else execLoop io fuel (turn + 1) (out ++ (io.readStderr turn).bytes)

/-- The loops behind it: read as long as something comes. -/
def drain (read : ℕ → ChannelRead) : ℕ → (next : ℕ) → (out : Bytes) → Option Bytes
  | 0, _, _ => none
  | fuel + 1, next, out =>
    if (read next).bytes = [] then some out
      else drain read fuel (next + 1) (out ++ (read next).bytes)

/-- What `ExecRaw` returns; `complete` is whether it has seen the end of the output. -/
structure ExecResult where
  ok : Bool
  exitCode : ℤ
  out : Bytes
  complete : Bool
  deriving DecidableEq

/-- `ExecRaw`, with enough turns for each of its loops. -/
def execRaw (io : ChannelIo) (fuel : ℕ) : Option ExecResult :=
  if !io.opened then some ⟨false, -1, [], false⟩
  else
    (execLoop io fuel 0 []).bind fun l =>
      (drain io.read fuel l.reads l.out).bind fun out =>
        (drain io.readStderr fuel l.readsStderr out).map fun out =>
          ⟨true, io.exitStatus, out, l.atEof⟩

/-- The answers of some calls as a script. -/
def script (io : ChannelIo) (turns reads readsStderr : List ℕ) : ExecIo where
  started := io.opened
  turns := turns.map fun t => ⟨io.eof t, io.read t, io.readStderr t⟩
  restOut := reads.map io.read
  restErr := readsStderr.map io.readStderr
  exitStatus := io.exitStatus

theorem bytes_of_isError {r : ChannelRead} (h : r.isError = true) : r.bytes = [] := by
  cases r
  · cases h
  · cases h
  · rfl

theorem execLoop_script {io : ChannelIo} (fuel : ℕ) : ∀ (turn : ℕ) (out : Bytes) {l : LoopEnd},
    io.execLoop fuel turn out = some l →
      SalamanderSftp.execLoop
        ((List.range' turn fuel).map fun t => ⟨io.eof t, io.read t, io.readStderr t⟩) out =
        l.out := by
  induction fuel with
  | zero => exact fun turn out l h => nomatch h
  | succ fuel ih =>
    intro turn out l h
    rw [execLoop] at h
    rw [List.range'_succ, List.map_cons, SalamanderSftp.execLoop]
    by_cases heof : io.eof turn = true
    · rw [if_pos heof] at h ⊢
      obtain rfl := Option.some.inj h
      rfl
    rw [if_neg heof] at h ⊢
    rcases hread : io.read turn with bs | _ | _
    all_goals simp only [hread, ChannelRead.isError, ChannelRead.bytes, if_true,
      Bool.false_eq_true, if_false] at h ⊢
    case error =>
      obtain rfl := Option.some.inj h
      rfl
    all_goals
      rcases hstderr : io.readStderr turn with bs' | _ | _
      all_goals
        simp only [hstderr, if_true, Bool.false_eq_true, if_false] at h ⊢
        first
        | exact ih _ _ h
        | obtain rfl := Option.some.inj h
          rfl

theorem drain_script {read : ℕ → ChannelRead} (fuel : ℕ) :
    ∀ (next : ℕ) (out : Bytes) {out' : Bytes},
    drain read fuel next out = some out' →
    drainLoop ((List.range' next fuel).map read) out = out' := by
  induction fuel with
  | zero => exact fun next out out' h => nomatch h
  | succ fuel ih =>
    intro next out out' h
    rw [drain] at h
    rw [List.range'_succ, List.map_cons]
    have hstops : ∀ r : ChannelRead, r.bytes = [] → r = read next → out = out' := by
      intro r hr hread
      rw [← hread, if_pos hr] at h
      exact Option.some.inj h
    rcases hread : read next with bs | _ | _
    · rw [hread, ChannelRead.bytes] at h
      rw [drainLoop]
      simp only [List.length_eq_zero_iff]
      by_cases hbs : bs = []
      · rw [if_pos hbs] at h ⊢
        exact Option.some.inj h
      · rw [if_neg hbs] at h ⊢
        exact ih _ _ h
    · exact hstops .again rfl hread.symm
    · exact hstops .error rfl hread.symm

/-- A run that returns is one against a script. -/
theorem execRaw_script {io : ChannelIo} {fuel : ℕ} {r : ExecResult} (h : io.execRaw fuel = some r) :
    ∃ turns reads readsStderr,
      SalamanderSftp.execRaw (io.script turns reads readsStderr) = (r.ok, r.out, r.exitCode) := by
  unfold execRaw at h
  by_cases ho : (!io.opened) = true
  · rw [if_pos ho] at h
    obtain rfl := Option.some.inj h
    exact ⟨[], [], [], by simp only [SalamanderSftp.execRaw, script, ho, if_true]⟩
  · rw [if_neg ho] at h
    simp only [Option.bind_eq_some_iff, Option.map_eq_some_iff] at h
    obtain ⟨l, hl, out, hout, out', hout', rfl⟩ := h
    refine ⟨List.range' 0 fuel, List.range' l.reads fuel, List.range' l.readsStderr fuel, ?_⟩
    simp only [SalamanderSftp.execRaw, script, ho, if_false, Bool.false_eq_true]
    rw [execLoop_script fuel 0 [] hl, drain_script fuel _ _ hout, drain_script fuel _ _ hout']

end ChannelIo

/-! ## ExecCommandStream -/

/-- What `ExecCommandStream` returns, and the chunks it has passed to the callback. -/
structure StreamResult where
  ok : Bool
  chunks : List Bytes
  complete : Bool

def ChannelRead.chunk (r : ChannelRead) : List Bytes := if r.bytes = [] then [] else [r.bytes]

/-- The loop. `cancelled` is what it finds at `cancelFlag` before each turn. -/
def streamLoop (io : ChannelIo) (cancelled : ℕ → Bool) :
    ℕ → (turn : ℕ) → (chunks : List Bytes) → Option StreamResult
  | 0, _, _ => none
  | fuel + 1, turn, chunks =>
    if cancelled turn then some ⟨true, chunks, false⟩
    else
      let n := io.read turn
      let ne := io.readStderr turn
      let chunks := chunks ++ n.chunk ++ ne.chunk
      if io.eof turn && n.bytes.isEmpty && ne.bytes.isEmpty then some ⟨true, chunks, true⟩
      else streamLoop io cancelled fuel (turn + 1) chunks

/-- `cancelFlag` is none for a null pointer. -/
def execCommandStream (io : ChannelIo) (cancelFlag : Option (ℕ → Bool)) (fuel : ℕ) :
    Option StreamResult :=
  if !io.opened then some ⟨false, [], false⟩
  else streamLoop io (cancelFlag.getD fun _ => false) fuel 0 []

/-! ## A broken connection -/

/-- From some call on every read fails, and the end of the output is never reported. -/
structure ChannelIo.BreaksFrom (io : ChannelIo) (k : ℕ) : Prop where
  read : ∀ i, k ≤ i → (io.read i).isError = true
  readStderr : ∀ i, k ≤ i → (io.readStderr i).isError = true
  eof : ∀ i, k ≤ i → io.eof i = false

/-- The end of the output is reported before any read has failed. -/
def ChannelIo.EndsBeforeFailure (io : ChannelIo) : Prop :=
  ∃ t, io.eof t = true ∧ ∀ i < t, (io.read i).isError = false ∧ (io.readStderr i).isError = false

/-- The end of the output is reported in a turn in which neither stream gives anything. -/
def ChannelIo.EndsAt (io : ChannelIo) (t : ℕ) : Prop :=
  io.eof t = true ∧ (io.read t).bytes = [] ∧ (io.readStderr t).bytes = []

/-- A call that returns, and does not report a success where it has not seen the end of the
output. -/
def EndsHonestly {ρ : Type} (run : ℕ → Option ρ) (success complete : ρ → Prop) : Prop :=
  (∃ fuel, (run fuel).isSome) ∧ ∀ fuel r, run fuel = some r → success r → complete r

namespace ChannelIo

variable {io : ChannelIo}

theorem isSome_drain {read : ℕ → ChannelRead} {k : ℕ}
    (h : ∀ i, k ≤ i → (read i).isError = true) (fuel : ℕ) :
    ∀ (next : ℕ) (out : Bytes), k < next + fuel → (drain read (fuel + 1) next out).isSome := by
  induction fuel with
  | zero =>
    intro next out hlt
    rw [drain, if_pos (bytes_of_isError (h next (by omega)))]
    rfl
  | succ fuel ih =>
    intro next out hlt
    rw [drain]
    split_ifs
    · rfl
    · exact ih (next + 1) _ (by omega)

theorem isSome_execLoop {k : ℕ} (h : io.BreaksFrom k) (fuel : ℕ) :
    ∀ (turn : ℕ) (out : Bytes), k ≤ turn + fuel → (execLoop io (fuel + 1) turn out).isSome := by
  induction fuel with
  | zero =>
    intro turn out hle
    rw [execLoop, if_pos (h.read turn hle)]
    split_ifs <;> rfl
  | succ fuel ih =>
    intro turn out hle
    rw [execLoop]
    split_ifs
    · rfl
    · rfl
    · rfl
    · exact ih (turn + 1) _ (by omega)

/-- The loop is left at the end of the output exactly when that is reported before a read fails. -/
theorem atEof_execLoop (fuel : ℕ) :
    ∀ (turn : ℕ) (out : Bytes) {l : LoopEnd}, execLoop io fuel turn out = some l →
    (l.atEof = true ↔ ∃ t, turn ≤ t ∧ io.eof t = true ∧
      ∀ i, turn ≤ i → i < t → (io.read i).isError = false ∧ (io.readStderr i).isError = false) := by
  induction fuel with
  | zero => exact fun turn out l h => nomatch h
  | succ fuel ih =>
    intro turn out l h
    rw [execLoop] at h
    by_cases heof : io.eof turn = true
    · rw [if_pos heof] at h
      obtain rfl := Option.some.inj h
      exact iff_of_true rfl ⟨turn, le_rfl, heof, fun i hle hlt => absurd hlt (Nat.not_lt.mpr hle)⟩
    rw [if_neg heof] at h
    have hlater : ∀ t, turn ≤ t → io.eof t = true → turn < t := by
      intro t hle ht
      rcases Nat.eq_or_lt_of_le hle with rfl | hlt
      · exact absurd ht heof
      · exact hlt
    by_cases hread : (io.read turn).isError = true
    · rw [if_pos hread] at h
      obtain rfl := Option.some.inj h
      refine iff_of_false Bool.false_ne_true ?_
      rintro ⟨t, hle, ht, hgood⟩
      exact Bool.false_ne_true ((hgood turn le_rfl (hlater t hle ht)).1.symm.trans hread)
    rw [if_neg hread] at h
    by_cases hstderr : (io.readStderr turn).isError = true
    · rw [if_pos hstderr] at h
      obtain rfl := Option.some.inj h
      refine iff_of_false Bool.false_ne_true ?_
      rintro ⟨t, hle, ht, hgood⟩
      exact Bool.false_ne_true ((hgood turn le_rfl (hlater t hle ht)).2.symm.trans hstderr)
    rw [if_neg hstderr] at h
    rw [ih _ _ h]
    constructor
    · rintro ⟨t, hle, ht, hgood⟩
      refine ⟨t, by omega, ht, fun i hi hlt => ?_⟩
      rcases Nat.eq_or_lt_of_le hi with rfl | hi
      · exact ⟨by simpa using hread, by simpa using hstderr⟩
      · exact hgood i hi hlt
    · rintro ⟨t, hle, ht, hgood⟩
      exact ⟨t, hlater t hle ht, ht, fun i hi hlt => hgood i (by omega) hlt⟩

theorem execRaw_eq_some {fuel : ℕ} {r : ExecResult} (ho : io.opened = true)
    (h : io.execRaw fuel = some r) :
    r.ok = true ∧ r.exitCode = io.exitStatus ∧ (r.complete = true ↔ io.EndsBeforeFailure) := by
  unfold execRaw at h
  rw [ho] at h
  simp only [Bool.not_true, Bool.false_eq_true, if_false, Option.bind_eq_some_iff,
    Option.map_eq_some_iff] at h
  obtain ⟨l, hl, out, -, out', -, rfl⟩ := h
  refine ⟨rfl, rfl, (atEof_execLoop fuel 0 [] hl).trans ?_⟩
  simp only [Nat.zero_le, true_and, true_imp_iff]
  rfl

theorem isSome_execRaw {k : ℕ} (h : io.BreaksFrom k) : (io.execRaw (k + 2)).isSome := by
  unfold execRaw
  by_cases ho : (!io.opened) = true
  · rw [if_pos ho]
    rfl
  · rw [if_neg ho]
    obtain ⟨l, hl⟩ := Option.isSome_iff_exists.mp (isSome_execLoop h (k + 1) 0 [] (by omega))
    obtain ⟨out, hout⟩ :=
      Option.isSome_iff_exists.mp (isSome_drain h.read (k + 1) l.reads l.out (by omega))
    obtain ⟨out', hout'⟩ :=
      Option.isSome_iff_exists.mp (isSome_drain h.readStderr (k + 1) l.readsStderr out (by omega))
    rw [hl, Option.bind_some, hout, Option.bind_some, hout']
    rfl

theorem execRaw_endsHonestly_iff {k : ℕ} (h : io.BreaksFrom k) :
    EndsHonestly io.execRaw (fun r => r.ok = true ∧ r.exitCode = 0) (fun r => r.complete = true) ↔
      io.opened = false ∨ io.exitStatus ≠ 0 ∨ io.EndsBeforeFailure := by
  constructor
  · rintro ⟨-, hhonest⟩
    by_cases ho : io.opened = true
    · obtain ⟨r, hr⟩ := Option.isSome_iff_exists.mp (isSome_execRaw h)
      obtain ⟨hok, hcode, hcomplete⟩ := execRaw_eq_some ho hr
      by_cases hstatus : io.exitStatus = 0
      · exact Or.inr (Or.inr (hcomplete.mp (hhonest _ r hr ⟨hok, hcode.trans hstatus⟩)))
      · exact Or.inr (Or.inl hstatus)
    · exact Or.inl (by simpa using ho)
  · intro hcond
    refine ⟨⟨_, isSome_execRaw h⟩, fun fuel r hr hsuccess => ?_⟩
    by_cases ho : io.opened = true
    · obtain ⟨-, hcode, hcomplete⟩ := execRaw_eq_some ho hr
      rcases hcond with hclosed | hstatus | hends
      · exact absurd (ho.symm.trans hclosed) (by decide)
      · exact absurd (hcode.symm.trans hsuccess.2) hstatus
      · exact hcomplete.mpr hends
    · have hclosed : io.opened = false := by simpa using ho
      unfold execRaw at hr
      rw [hclosed] at hr
      obtain rfl := Option.some.inj hr
      exact absurd hsuccess.1 Bool.false_ne_true

end ChannelIo

section ExecCommandStream

variable {io : ChannelIo}

theorem streamLoop_succ (fuel turn : ℕ) (chunks : List Bytes) [Decidable (io.EndsAt turn)] :
    streamLoop io (fun _ => false) (fuel + 1) turn chunks =
      if io.EndsAt turn then
        some ⟨true, chunks ++ (io.read turn).chunk ++ (io.readStderr turn).chunk, true⟩
      else
        streamLoop io (fun _ => false) fuel (turn + 1)
          (chunks ++ (io.read turn).chunk ++ (io.readStderr turn).chunk) := by
  rw [streamLoop]
  have hends :
      (io.eof turn && (io.read turn).bytes.isEmpty && (io.readStderr turn).bytes.isEmpty) = true ↔
      io.EndsAt turn := by
    simp [ChannelIo.EndsAt, and_assoc]
  simp only [Bool.false_eq_true, if_false, hends]

/-- The loop is left in the first turn that reports the end, and in no other way. -/
theorem streamLoop_spec (fuel : ℕ) : ∀ (turn : ℕ) (chunks : List Bytes),
    ((streamLoop io (fun _ => false) fuel turn chunks).isSome ↔
      ∃ t, turn ≤ t ∧ t < turn + fuel ∧ io.EndsAt t) ∧
      ∀ r, streamLoop io (fun _ => false) fuel turn chunks = some r →
      r.ok = true ∧ r.complete = true := by
  classical
  induction fuel with
  | zero =>
    intro turn chunks
    refine ⟨iff_of_false (by simp [streamLoop]) ?_, fun r h => nomatch h⟩
    rintro ⟨t, hle, hlt, -⟩
    omega
  | succ fuel ih =>
    intro turn chunks
    rw [streamLoop_succ]
    by_cases hends : io.EndsAt turn
    · rw [if_pos hends]
      refine ⟨iff_of_true rfl ⟨turn, le_rfl, by omega, hends⟩, fun r h => ?_⟩
      obtain rfl := Option.some.inj h
      exact ⟨rfl, rfl⟩
    · rw [if_neg hends]
      obtain ⟨hsome, hresult⟩ :=
        ih (turn + 1) (chunks ++ (io.read turn).chunk ++ (io.readStderr turn).chunk)
      refine ⟨hsome.trans ⟨?_, ?_⟩, hresult⟩
      · rintro ⟨t, hle, hlt, ht⟩
        exact ⟨t, by omega, by omega, ht⟩
      · rintro ⟨t, hle, hlt, ht⟩
        rcases Nat.eq_or_lt_of_le hle with rfl | hlt'
        · exact absurd ht hends
        · exact ⟨t, hlt', by omega, ht⟩

theorem execCommandStream_endsHonestly_iff {cancelFlag : Option (ℕ → Bool)}
    (hcancel : ∀ flag ∈ cancelFlag, ∀ t, flag t = false) :
    EndsHonestly (execCommandStream io cancelFlag) (fun r => r.ok = true)
      (fun r => r.complete = true) ↔
      io.opened = false ∨ ∃ t, io.EndsAt t := by
  have hnever : (cancelFlag.getD fun _ => false) = fun _ => false := by
    rcases cancelFlag with _ | flag
    · rfl
    · exact funext (hcancel flag rfl)
  unfold EndsHonestly execCommandStream
  rw [hnever]
  by_cases ho : io.opened = true
  · simp only [ho, Bool.not_true, Bool.false_eq_true, if_false, Bool.true_eq_false, false_or]
    constructor
    · rintro ⟨⟨fuel, hsome⟩, -⟩
      obtain ⟨t, -, -, ht⟩ := (streamLoop_spec fuel 0 []).1.mp hsome
      exact ⟨t, ht⟩
    · rintro ⟨t, ht⟩
      exact ⟨⟨t + 1, (streamLoop_spec (t + 1) 0 []).1.mpr ⟨t, by omega, by omega, ht⟩⟩,
        fun fuel r hr _ => ((streamLoop_spec fuel 0 []).2 r hr).2⟩
  · have hclosed : io.opened = false := by simpa using ho
    simp only [hclosed, Bool.not_false, if_true, true_or, iff_true]
    refine ⟨⟨0, rfl⟩, fun fuel r hr hok => ?_⟩
    obtain rfl := Option.some.inj hr
    exact absurd hok Bool.false_ne_true

end ExecCommandStream

/-- On a connection that breaks, `ExecRaw` returns, but it does not report a success only where the
output had ended before, or an exit status says otherwise; `ExecCommandStream` returns only where it
has found the end of the output. -/
theorem broken_connection_iff {io : ChannelIo} {k : ℕ} (h : io.BreaksFrom k)
    {cancelFlag : Option (ℕ → Bool)}
    (hcancel : ∀ flag ∈ cancelFlag, ∀ t, flag t = false) :
    (EndsHonestly io.execRaw (fun r => r.ok = true ∧ r.exitCode = 0) (fun r => r.complete = true) ↔
      io.opened = false ∨ io.exitStatus ≠ 0 ∨ io.EndsBeforeFailure) ∧
    (EndsHonestly (execCommandStream io cancelFlag) (fun r => r.ok = true)
      (fun r => r.complete = true) ↔
      io.opened = false ∨ ∃ t, io.EndsAt t) :=
  ⟨ChannelIo.execRaw_endsHonestly_iff h, execCommandStream_endsHonestly_iff hcancel⟩

/-- Two bytes arrive, and then the connection is gone. -/
def cutChannel : ChannelIo where
  opened := true
  eof _ := false
  read i := if i = 0 then .data (ascii "ab") else .error
  readStderr i := if i = 0 then .again else .error
  exitStatus := 0

theorem cutChannel_breaks : cutChannel.BreaksFrom 1 where
  read _ hi := congrArg ChannelRead.isError (if_neg (Nat.ne_of_gt hi))
  readStderr _ hi := congrArg ChannelRead.isError (if_neg (Nat.ne_of_gt hi))
  eof _ _ := rfl

theorem broken_connection_cutChannel :
    (EndsHonestly cutChannel.execRaw (fun r => r.ok = true ∧
      r.exitCode = 0) (fun r => r.complete = true) ↔
      cutChannel.opened = false ∨ cutChannel.exitStatus ≠ 0 ∨ cutChannel.EndsBeforeFailure) ∧
    (EndsHonestly (execCommandStream cutChannel none) (fun r => r.ok = true)
      (fun r => r.complete = true) ↔
      cutChannel.opened = false ∨ ∃ t, cutChannel.EndsAt t) :=
  broken_connection_iff cutChannel_breaks fun _ hflag => (nomatch hflag)

/-- A listing over a connection that breaks returns what had come until then, and unless an exit
status says otherwise as a success, whether the output had ended or not. -/
theorem broken_listing {io : ChannelIo} {k : ℕ} (h : io.BreaksFrom k) (toDisplay : CStr → CStr) :
    ∃ r turns reads readsStderr, io.execRaw (k + 2) = some r ∧
      scpListDir toDisplay (io.script turns reads readsStderr) =
        (if io.opened = true ∧ io.exitStatus = 0 then
          (true, (textLines r.out).filterMap (scpEntry toDisplay))
        else (false, [])) ∧
      (io.opened = true → (r.complete = true ↔ io.EndsBeforeFailure)) := by
  obtain ⟨r, hr⟩ := Option.isSome_iff_exists.mp (ChannelIo.isSome_execRaw h)
  obtain ⟨turns, reads, readsStderr, hscript⟩ := ChannelIo.execRaw_script hr
  refine ⟨r, turns, reads, readsStderr, hr, ?_, fun ho => (ChannelIo.execRaw_eq_some ho hr).2.2⟩
  unfold scpListDir
  rw [hscript]
  by_cases ho : io.opened = true
  · obtain ⟨hok, hcode, -⟩ := ChannelIo.execRaw_eq_some ho hr
    by_cases hstatus : io.exitStatus = 0
    · simp [hok, hcode, ho, hstatus]
    · simp [hok, hcode, ho, hstatus]
  · have hclosed : r.ok = false := by
      have hnot : io.opened = false := by simpa using ho
      unfold ChannelIo.execRaw at hr
      rw [hnot] at hr
      obtain rfl := Option.some.inj hr
      rfl
    simp [hclosed, ho]

/-- The two bytes are no line of a listing, and the directory is shown as empty. -/
theorem broken_listing_cutChannel : ∃ turns reads readsStderr,
    scpListDir id (cutChannel.script turns reads readsStderr) = (true, []) := by
  obtain ⟨r, turns, reads, readsStderr, hr, hlist, -⟩ := broken_listing cutChannel_breaks id
  have hcut : cutChannel.execRaw 3 = some ⟨true, 0, ascii "ab", false⟩ := by decide
  obtain rfl := Option.some.inj (hr.symm.trans hcut)
  refine ⟨turns, reads, readsStderr, hlist.trans ?_⟩
  decide +kernel

/-- `ExecRaw` takes the two bytes for the whole output, and `ExecCommandStream` does not return. -/
theorem not_broken_connection :
    (¬ ∀ (io : ChannelIo) (k : ℕ), io.BreaksFrom k →
      EndsHonestly io.execRaw (fun r => r.ok = true ∧ r.exitCode = 0)
        (fun r => r.complete = true)) ∧
    (¬ ∀ (io : ChannelIo) (k : ℕ), io.BreaksFrom k →
      ∃ fuel, (execCommandStream io none fuel).isSome) := by
  constructor
  · intro h
    have hcut : cutChannel.execRaw 3 = some ⟨true, 0, ascii "ab", false⟩ := by decide
    exact absurd ((h cutChannel 1 cutChannel_breaks).2 3 _ hcut ⟨rfl, rfl⟩) Bool.false_ne_true
  · intro h
    obtain ⟨fuel, hsome⟩ := h cutChannel 1 cutChannel_breaks
    obtain ⟨t, -, -, heof, -⟩ := (streamLoop_spec fuel 0 []).1.mp hsome
    exact absurd heof Bool.false_ne_true

end SalamanderSftp
