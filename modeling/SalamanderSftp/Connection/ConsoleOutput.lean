import SalamanderSftp.Lib.Transducer
import SalamanderSftp.Connection.Channel

/-!
# The output of a command in the console

`SftpExecStreamCallback` turns "\n" into "\r\n" for the edit control, where no "\r" stands before
it. It looks for that in the chunk it is given, so a chunk that begins with "\n" gets a second "\r"
when the one before it ended in the first (`console_output_iff`).
-/

namespace SalamanderSftp

open Transducer

def lf : Byte := 10

def cr : Byte := 13

/-- The text that `SftpExecStreamCallback` queues for a chunk. -/
def sftpExecStreamCallback (data : Bytes) : Bytes :=
  (List.range data.length).flatMap fun i =>
    if data[i]? = some lf ∧ (i = 0 ∨ data[i - 1]? ≠ some cr) then [cr, lf] else data[i]?.toList

/-- What one byte of a stream becomes behind the byte before it, if any. -/
def crLfByte (prev : Option Byte) (c : Byte) :
    Bytes := if c = lf ∧ prev ≠ some cr then [cr, lf] else [c]

/-- The stream from a byte on. -/
def crLfFrom (prev : Option Byte) (stream : Bytes) :
    Bytes := output (fun _ c => some c) crLfByte prev stream

/-- The stream with every "\n" that has no "\r" before it replaced by "\r\n". -/
def crLf (stream : Bytes) : Bytes := crLfFrom none stream

/-! ## One chunk -/

theorem foldl_some (prev : Option Byte) (stream : Bytes) :
    stream.foldl (fun _ c => some c) prev = stream.getLast?.or prev := by
  induction stream using List.reverseRecOn with
  | nil => rfl
  | append_singleton stream c _ => simp

theorem sftpExecStreamCallback_eq (data : Bytes) : sftpExecStreamCallback data = crLf data := by
  induction data using List.reverseRecOn with
  | nil => rfl
  | append_singleton data c ih =>
    have hbefore : ∀ i ∈ List.range data.length,
        (if (data ++ [c])[i]? = some lf ∧ (i = 0 ∨ (data ++ [c])[i - 1]? ≠ some cr) then [cr, lf]
          else (data ++ [c])[i]?.toList) =
        if data[i]? = some lf ∧ (i = 0 ∨ data[i - 1]? ≠ some cr)
          then [cr, lf] else data[i]?.toList := by
      intro i hi
      have hlt := List.mem_range.mp hi
      rw [List.getElem?_append_left hlt, List.getElem?_append_left (by omega)]
    have hlast : (data.length = 0 ∨ (data ++ [c])[data.length - 1]? ≠ some cr) ↔
        data.getLast? ≠ some cr := by
      rcases Nat.eq_zero_or_pos data.length with hzero | hpos
      · rw [List.length_eq_zero_iff.mp hzero]
        simp
      · rw [List.getElem?_append_left (by omega), ← List.getLast?_eq_getElem?]
        exact or_iff_right hpos.ne'
    have hstep : crLf (data ++ [c]) = crLf data ++ crLfByte data.getLast? c := by
      unfold crLf crLfFrom
      rw [output_append, foldl_some, Option.or_none]
      simp [output]
    rw [hstep, ← ih]
    unfold sftpExecStreamCallback
    rw [List.length_append, List.length_singleton, List.range_succ, List.flatMap_append,
      List.flatMap_congr hbefore, List.flatMap_singleton, List.getElem?_concat_length]
    congr 1
    unfold crLfByte
    simp only [Option.some_inj, hlast, Option.toList_some]

/-! ## A stream in chunks -/

/-- A server whose output arrives in these chunks. -/
def ChannelIo.inChunks (chunks : List Bytes) : ChannelIo where
  opened := true
  eof t := decide (chunks.length ≤ t)
  read t := (chunks[t]?).elim .again .data
  readStderr _ := .again
  exitStatus := 0

theorem streamLoop_inChunks {chunks : List Bytes} (h : ∀ chunk ∈ chunks, chunk ≠ []) :
    ∀ rest before : List Bytes, chunks = before ++ rest →
      streamLoop (.inChunks chunks) (fun _ => false) (rest.length + 1) before.length before =
        some ⟨true, chunks, true⟩ := by
  classical
  intro rest
  induction rest with
  | nil =>
    rintro before rfl
    have hends : (ChannelIo.inChunks (before ++ [])).EndsAt before.length := by
      simp [ChannelIo.EndsAt, ChannelIo.inChunks, ChannelRead.bytes]
    rw [streamLoop_succ, if_pos hends]
    simp [ChannelIo.inChunks, ChannelRead.chunk, ChannelRead.bytes]
  | cons chunk rest ih =>
    rintro before rfl
    have hgoes : ¬ (ChannelIo.inChunks (before ++ chunk :: rest)).EndsAt before.length := by
      simp [ChannelIo.EndsAt, ChannelIo.inChunks]
    have hread :
        (ChannelIo.inChunks (before ++ chunk :: rest)).read before.length = .data chunk := by
      simp [ChannelIo.inChunks]
    have hne : chunk ≠ [] := h chunk (List.mem_append_right _ List.mem_cons_self)
    rw [List.length_cons, streamLoop_succ, if_neg hgoes, hread]
    have hnext := ih (before ++ [chunk]) (by simp)
    rw [List.length_append, List.length_singleton] at hnext
    simpa [ChannelRead.chunk, ChannelRead.bytes, hne, ChannelIo.inChunks] using hnext

/-- Every splitting into chunks that are not empty is one that `ExecCommandStream` passes on. -/
theorem execCommandStream_inChunks {chunks : List Bytes} (h : ∀ chunk ∈ chunks, chunk ≠ []) :
    execCommandStream (.inChunks chunks) none (chunks.length + 1) = some ⟨true, chunks, true⟩ :=
  streamLoop_inChunks h chunks [] rfl

/-- Only the first byte depends on what was before. -/
theorem crLfFrom_cons (prev : Option Byte) (c : Byte) (stream : Bytes) :
    crLfFrom prev (c :: stream) = crLfByte prev c ++ crLfFrom (some c) stream := rfl

theorem length_crLfFrom_le (prev : Option Byte) (stream : Bytes) :
    (crLfFrom prev stream).length ≤ (crLfFrom none stream).length := by
  cases stream with
  | nil => exact le_rfl
  | cons c stream =>
    rw [crLfFrom_cons, crLfFrom_cons, List.length_append, List.length_append]
    refine Nat.add_le_add_right ?_ _
    unfold crLfByte
    split_ifs with h h'
    · exact le_rfl
    · exact absurd ⟨h.1, fun hnone => (nomatch hnone)⟩ h'
    · exact Nat.le_succ 1
    · exact le_rfl

theorem crLfFrom_eq_iff (prev : Option Byte) (stream : Bytes) :
    crLfFrom none stream = crLfFrom prev stream ↔ ¬ (prev = some cr ∧ stream.head? = some lf) := by
  cases stream with
  | nil => exact iff_of_true rfl fun h => (nomatch h.2)
  | cons c stream =>
    rw [crLfFrom_cons, crLfFrom_cons, List.append_left_inj, List.head?_cons, Option.some_inj]
    unfold crLfByte
    by_cases hc : c = lf
    · by_cases hp : prev = some cr
      · simp [hc, hp]
      · simp [hc, hp]
    · simp [hc]

/-- What is queued for the chunks of a stream is the same as for the whole stream exactly when no
chunk that begins with "\n" follows one that ends in "\r". -/
theorem console_output_iff (chunks : List Bytes) :
    chunks.flatMap sftpExecStreamCallback = crLf chunks.flatten ↔
      ∀ before chunk after, chunks = before ++ chunk :: after →
        ¬ (before.flatten.getLast? = some cr ∧ chunk.head? = some lf) := by
  have hcallback : sftpExecStreamCallback = crLfFrom none := funext sftpExecStreamCallback_eq
  rw [hcallback]
  refine ((outputEach_eq_iff length_crLfFrom_le chunks none).2).trans ?_
  refine forall_congr' fun before => forall_congr' fun chunk => forall_congr' fun after =>
    imp_congr_right fun _ => ?_
  rw [foldl_some, Option.or_none]
  exact crLfFrom_eq_iff _ chunk

/-- A line end of the server cut in two gets another "\r". -/
theorem not_console_output :
    ¬ ∀ (io : ChannelIo) (fuel : ℕ) (r : StreamResult), execCommandStream io none fuel = some r →
      (∀ chunk ∈ r.chunks, chunk ≠ [] ∧ 0 ∉ chunk) →
        r.chunks.flatMap sftpExecStreamCallback = crLf r.chunks.flatten := by
  intro h
  have hpassed := @execCommandStream_inChunks [[97, cr], [lf, 98]] (by decide)
  have heq := h _ _ _ hpassed (by decide)
  exact absurd heq (by decide)

end SalamanderSftp
