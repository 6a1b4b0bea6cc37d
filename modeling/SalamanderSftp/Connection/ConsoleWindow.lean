import SalamanderSftp.Lib.Machine
import SalamanderSftp.Connection.ConsoleOutput
import SalamanderSftp.Connection.FastDirSize
import SalamanderSftp.Connection.Lifecycle

/-!
# The console window

`ShowCommandExecDialog` opens a window for a command, and the window starts a thread with a
connection of its own. The thread queues what the command writes and posts messages; the window
appends what is queued. Both work on one `CCmdExecContext`, which the window deletes when it is
destroyed.

1. The context is not touched once it is deleted, and nothing is left behind but the connection of a
   thread that had to be terminated (`console_safe`).
2. The window shows what has been queued, in its order, each chunk up to its first NUL, and at the
   end all of this (`console_text`).
3. Who closes the window can wait for the end of the command, unless that end is never reported
   (`console_closable_iff`).
-/

namespace SalamanderSftp

open Handles

/-! ## The window and the thread -/

inductive ConsoleHandle
  | ctx
  | cs
  | hFont
  | hThread
  /-- The connection of the thread, between a `Connect` that succeeds and `Disconnect`. -/
  | connection
  deriving DecidableEq

inductive ConsoleMessage
  /-- `WM_USER_APPEND_TEXT` -/
  | appendText
  /-- `WM_USER_EXEC_DONE` -/
  | execDone
  deriving DecidableEq

/-- Where `CmdExecWorkerThread` is. -/
inductive CommandThread
  | connecting
  | opening
  /-- Before it looks at `cancelFlag` in a turn of its loop. -/
  | looking (turn : ℕ)
  | reading (turn : ℕ)
  | readingStderr (turn : ℕ)
  /-- `success` and `errorMsg` are set, and the connection is closed. -/
  | executed
  | posted
  | ended
  | terminated
  deriving DecidableEq

inductive ConsoleState
  /-- Before `CreateDialogParamW`. -/
  | opening
  | shown
  /-- In `WaitForSingleObject` of `WM_NCDESTROY`. -/
  | waiting
  | gone
  deriving DecidableEq

/-- A `CCmdExecContext` with its window and its thread. -/
structure Console where
  state : ConsoleState
  /-- The text of `IDC_CMD_OUTPUT`. -/
  output : Bytes
  /-- The text of `IDC_CMD_BTN`, and whether it is enabled. -/
  button : CStr × Bool
  /-- What is posted to the window. -/
  messages : List ConsoleMessage
  thread : Option CommandThread
  hThread : Bool
  cancelRequested : Bool
  isRunning : Bool
  pendingChunks : List Bytes
  success : Bool
  errorMsg : CStr
  /-- What was done with handles. -/
  events : List (Event ConsoleHandle)

structure CommandWorld where
  profile : CSftpProfile
  hmac : Bytes → CStr → Bytes
  connect : ConnectWorld
  io : ChannelIo
  /-- `LastError` when the command cannot be started. -/
  lastError : CStr

/-- Pure SSH, without SFTP. -/
def CommandWorld.args (w : CommandWorld) : ConnectArgs :=
  { w.profile.connectArgs with protocol := 1, scpFallback := false, sftpServer := [] }

def CommandWorld.connected (w : CommandWorld) :
    Outcome := CSftpConnection.new.connect w.hmac w.connect w.args

namespace Console

/-- `ShowCommandExecDialog` up to the window. -/
def new : Console where
  state := .opening
  output := []
  button := (ascii "&Cancel", true)
  messages := []
  thread := none
  hThread := false
  cancelRequested := false
  isRunning := false
  pendingChunks := []
  success := false
  errorMsg := []
  events := [.acquire .ctx, .acquire .cs, .rest .cs .ctx]

def does (s : Console) (events : List (Event ConsoleHandle)) :
    Console := { s with events := s.events ++ events }

/-- `PostMessage`, which fails where the queue of messages is full. -/
def post (s : Console) (posts : Bool) (message : ConsoleMessage) : Console :=
  if posts && s.state == .shown then { s with messages := s.messages ++ [message] } else s

/-- The callback, for a read that brought something. -/
def queue (s : Console) (posts : Bool) (r : ChannelRead) : Console :=
  if r.bytes = [] then s
  else
    ({ s with pendingChunks := s.pendingChunks ++ [sftpExecStreamCallback r.bytes] }.post posts
      .appendText).does
      [.use .ctx, .use .cs, .use .ctx]

/-- A step of `CmdExecWorkerThread`. An exception ends the process. -/
def threadStep (w : CommandWorld) (posts : Bool) (s : Console) : CommandThread → Option Console
  | .connecting =>
    match w.connected.result with
    | some true => some ({ s with thread := some .opening }.does [.use .ctx, .acquire .connection])
    | some false =>
      some ({ s with
          thread := some .executed, success := false, errorMsg := w.connected.conn.ErrorMsg }.does
        [.use .ctx])
    | none => none
  | .opening =>
    if w.io.opened then
      some ({ s with thread := some (.looking 0) }.does [.use .ctx, .use .connection])
    else
      some ({ s with thread := some .executed, success := false, errorMsg := w.lastError }.does
        [.use .connection, .use .ctx, .release .connection])
  | .looking turn =>
    if s.cancelRequested then
      some ({ s with thread := some .executed, success := true }.does
        [.use .ctx, .use .connection, .release .connection])
    else some ({ s with thread := some (.reading turn) }.does [.use .ctx])
  | .reading turn =>
    some (({ s with thread := some (.readingStderr turn) }.does [.use .connection]).queue posts
      (w.io.read turn))
  | .readingStderr turn =>
    if w.io.eof turn && (w.io.read turn).bytes.isEmpty && (w.io.readStderr turn).bytes.isEmpty then
      some ({ s with thread := some .executed, success := true }.does
        [.use .connection, .use .ctx, .release .connection])
    else
      some (({ s with thread := some (.looking (turn + 1)) }.does [.use .connection]).queue posts
        (w.io.readStderr turn))
  | .executed => some (({ s with thread := some .posted }.post posts .execDone).does [.use .ctx])
  | .posted => some { s with thread := some .ended }
  | .ended | .terminated => none

/-- `WM_USER_APPEND_TEXT`. A chunk is appended up to its first NUL. -/
def appendText (s : Console) : Console :=
  { s with pendingChunks := [], output := s.output ++ s.pendingChunks.flatMap cText }.does
    [.use .ctx, .use .cs]

/-- What `WM_USER_EXEC_DONE` writes where there is no output. -/
def noOutputText (success : Bool) (errorMsg : CStr) : CStr :=
  if success then ascii "(command completed with no output)\r\n"
  else lstrcpyn (ascii "Command failed:\r\n" ++ errorMsg ++ ascii "\r\n") 512

/-- `WM_USER_EXEC_DONE` -/
def execDone (s : Console) : Console :=
  let s := (s.does [.use .ctx]).appendText
  { s with
    isRunning := false
    output := if s.output = [] then noOutputText s.success s.errorMsg else s.output
    button := (ascii "Close", true) }.does [.use .ctx]

/-- The end of `WM_NCDESTROY`. -/
def delete (s : Console) (closed : List (Event ConsoleHandle)) : Console :=
  does { s with state := .gone, hThread := false } (closed ++ [.release .cs, .release .ctx])

/-- `DestroyWindow`, up to `WaitForSingleObject` where there is a thread. -/
def destroyWindow (s : Console) : Console :=
  let s := { s with messages := [] }.does [.use .ctx, .release .hFont, .use .ctx]
  if s.hThread then { s with cancelRequested := true, state := .waiting } else s.delete []

inductive Act
  /-- `CreateDialogParamW` with `WM_INITDIALOG`, whether there is a window, and whether
  `CreateThread` succeeds. -/
  | create (window thread : Bool)
  | thread (posts : Bool)
  /-- The next message is handled. -/
  | message
  /-- `WM_CLOSE`, the button or its keys. -/
  | close
  /-- The window is destroyed by someone else. -/
  | destroy
  /-- `WaitForSingleObject` returns, because the thread has ended or the time is over. -/
  | waited (ended : Bool)
  deriving DecidableEq

/-- `WM_INITDIALOG` -/
def initDialog (s : Console) (thread : Bool) : Console :=
  { s with
    state := .shown
    isRunning := true
    hThread := thread
    thread := if thread then some .connecting else none }.does
      (if thread then [.use .ctx, .acquire .hFont, .acquire .hThread]
        else [.use .ctx, .acquire .hFont])

/-- `WM_CLOSE` as long as the command runs. -/
def requestCancel (s : Console) : Console :=
  { s with cancelRequested := true, button := (ascii "Stopping...", false) }.does [.use .ctx]

/-- One step of either thread. -/
def step (w : CommandWorld) (a : Act) (s : Console) : Option Console :=
  match a with
  | .create window thread =>
    if s.state ≠ .opening then none else some (if window then s.initDialog thread else s.delete [])
  | .thread posts => s.thread.bind (s.threadStep w posts)
  | .message =>
    if s.state ≠ .shown then none
    else
      match s.messages with
      | [] => none
      | .appendText :: messages => some { s with messages := messages }.appendText
      | .execDone :: messages => some { s with messages := messages }.execDone
  | .close =>
    if s.state ≠ .shown then none
      else some (if s.isRunning then s.requestCancel else s.destroyWindow)
  | .destroy => if s.state ≠ .shown then none else some s.destroyWindow
  | .waited ended =>
    if s.state ≠ .waiting then none
    else if s.thread = some .ended then some (s.delete [.release .hThread])
    else if ended then none
    else some ({ s with thread := some .terminated }.delete [.release .hThread])

/-- What a step can do. -/
inductive Steps (w : CommandWorld) (s : Console) : Act → Console → Prop
  | notCreated (thread : Bool) (h : s.state = .opening) :
      Steps w s (.create false thread) (s.delete [])
  | created (thread : Bool) (h : s.state = .opening) : Steps w s
      (.create true thread) (s.initDialog thread)
  | thread {posts : Bool} {at_ : CommandThread} {t : Console} (hthread : s.thread = some at_)
      (hstep : s.threadStep w posts at_ = some t) : Steps w s (.thread posts) t
  | append {messages : List ConsoleMessage} (h : s.state = .shown)
      (hmessages : s.messages = .appendText :: messages) :
      Steps w s .message { s with messages := messages }.appendText
  | done {messages : List ConsoleMessage} (h : s.state = .shown)
      (hmessages : s.messages = .execDone :: messages) :
      Steps w s .message { s with messages := messages }.execDone
  | asked (h : s.state = .shown) (hrunning : s.isRunning = true) : Steps w s .close s.requestCancel
  | closed (h : s.state = .shown) (hended : s.isRunning = false) : Steps w s .close s.destroyWindow
  | destroyed (h : s.state = .shown) : Steps w s .destroy s.destroyWindow
  | joined (ended : Bool) (h : s.state = .waiting) (hthread : s.thread = some .ended) :
      Steps w s (.waited ended) (s.delete [.release .hThread])
  | terminated (h : s.state = .waiting) (hthread : s.thread ≠ some .ended) :
      Steps w s (.waited false) ({ s with thread := some .terminated }.delete [.release .hThread])

theorem steps_of_step {w : CommandWorld} {a : Act} {s t : Console} (h : step w a s = some t) :
    Steps w s a t := by
  cases a with
  | create window thread =>
    simp only [step] at h
    split_ifs at h with hopening hwindow
    · obtain rfl := Option.some.inj h
      obtain rfl : window = true := hwindow
      exact .created thread (not_not.mp hopening)
    · obtain rfl := Option.some.inj h
      obtain rfl : window = false := Bool.not_eq_true _ ▸ hwindow
      exact .notCreated thread (not_not.mp hopening)
  | thread posts =>
    obtain ⟨at_, hthread, hstep⟩ := Option.bind_eq_some_iff.mp h
    exact .thread hthread hstep
  | message =>
    simp only [step] at h
    split_ifs at h with hshown
    rcases hmessages : s.messages with _ | ⟨_ | _, messages⟩
    all_goals rw [hmessages] at h
    · cases h
    · obtain rfl := Option.some.inj h
      exact .append (not_not.mp hshown) hmessages
    · obtain rfl := Option.some.inj h
      exact .done (not_not.mp hshown) hmessages
  | close =>
    simp only [step] at h
    split_ifs at h with hshown hrunning
    · obtain rfl := Option.some.inj h
      exact .asked (not_not.mp hshown) hrunning
    · obtain rfl := Option.some.inj h
      exact .closed (not_not.mp hshown) (Bool.not_eq_true _ ▸ hrunning)
  | destroy =>
    simp only [step] at h
    split_ifs at h with hshown
    obtain rfl := Option.some.inj h
    exact .destroyed (not_not.mp hshown)
  | waited ended =>
    simp only [step] at h
    split_ifs at h with hwaiting hthread hended
    · obtain rfl := Option.some.inj h
      exact .joined ended (not_not.mp hwaiting) hthread
    · obtain rfl := Option.some.inj h
      obtain rfl : ended = false := Bool.not_eq_true _ ▸ hended
      exact .terminated (not_not.mp hwaiting) hthread

/-! ## What is held -/

/-- The connection of the thread is open. -/
def connected (s : Console) : Bool :=
  match s.thread with
  | some .opening | some (.looking _) | some (.reading _) | some (.readingStderr _) => true
  | _ => false

/-- What the window and the thread hold but the connection, with a thread or without. -/
def windowHeld : ConsoleState → Bool → Held ConsoleHandle
  | .opening, _ => ⟨{.cs, .ctx}, {(.cs, .ctx)}⟩
  | .shown, true => ⟨{.hThread, .hFont, .cs, .ctx}, {(.cs, .ctx)}⟩
  | .shown, false => ⟨{.hFont, .cs, .ctx}, {(.cs, .ctx)}⟩
  | .waiting, _ => ⟨{.hThread, .cs, .ctx}, {(.cs, .ctx)}⟩
  | .gone, _ => .none

/-- What is held in a state, with the connection or without. -/
def heldIn (state : ConsoleState) (thread connected : Bool) : Held ConsoleHandle :=
  if connected then
    { windowHeld state thread with live := insert .connection (windowHeld state thread).live }
  else windowHeld state thread

/-- The thread can make a step. -/
def Active (s : Console) : Prop := ∃ at_, s.thread = some at_ ∧ at_ ≠ .ended ∧ at_ ≠ .terminated

/-- Handles are held as the state says, and a thread is at work only as long as there is a context.
A thread that was terminated may have left its connection open. -/
structure Safe (s : Console) : Prop where
  held : ∃ open_, Held.none.follow s.events = some (heldIn s.state s.hThread open_) ∧
    (s.thread ≠ some .terminated → open_ = s.connected)
  active : s.Active → s.hThread = true ∧ (s.state = .shown ∨ s.state = .waiting)
  waiting : s.state = .waiting → s.hThread = true
  terminated : s.thread = some .terminated → s.state = .gone

variable {w : CommandWorld} {s t : Console} {a : Act} {events : List (Event ConsoleHandle)}

theorem post_eq (s : Console) (posts : Bool) (message : ConsoleMessage) :
    ∃ messages, s.post posts message = { s with messages := messages } ∧
      ∀ other ∈ messages, other ∈ s.messages ∨ other = message := by
  unfold post
  split_ifs
  · exact ⟨_, rfl, by simp⟩
  · exact ⟨s.messages, rfl, fun other hother => .inl hother⟩

theorem queue_eq (s : Console) (posts : Bool) (r : ChannelRead) :
    ∃ messages uses, s.queue posts r = { s with
        messages := messages
        pendingChunks := s.pendingChunks ++ r.chunk.map sftpExecStreamCallback
        events := s.events ++ uses } ∧
      (∀ other ∈ messages, other ∈ s.messages ∨ other = .appendText) ∧
      ∀ e ∈ uses, e = .use .ctx ∨ e = .use .cs := by
  unfold queue ChannelRead.chunk
  split_ifs with hempty
  · exact ⟨s.messages, [], by simp, fun other hother => .inl hother, nofun⟩
  · obtain ⟨messages, heq, hmessages⟩ :=
      post_eq { s with pendingChunks := s.pendingChunks ++ [sftpExecStreamCallback r.bytes] } posts
        .appendText
    rw [heq]
    exact ⟨messages, _, rfl, hmessages, by simp⟩

/-- A step that leaves the window where it is, and finds its handles held. -/
structure Works (s t : Console) : Prop where
  state : t.state = s.state
  hThread : t.hThread = s.hThread
  events : ∃ events, t.events = s.events ++ events ∧
    ∀ state thread, state = .shown ∨ state = .waiting →
    (heldIn state thread s.connected).follow events = some (heldIn state thread t.connected)

theorem Works.trans {u : Console} (h : s.Works t) (h' : t.Works u) : s.Works u := by
  obtain ⟨events, heq, hfollow⟩ := h.events
  obtain ⟨events', heq', hfollow'⟩ := h'.events
  refine ⟨h'.state.trans h.state, h'.hThread.trans h.hThread, events ++ events', ?_,
    fun state thread hstate => ?_⟩
  · rw [heq', heq, List.append_assoc]
  · rw [Held.follow_append, hfollow state thread hstate]
    exact hfollow' state thread hstate

theorem follow_uses {state : ConsoleState} {thread open_ : Bool}
    (hstate : state = .shown ∨ state = .waiting)
    {uses : List (Event ConsoleHandle)} (huses : ∀ e ∈ uses, e = .use .ctx ∨ e = .use .cs) :
    (heldIn state thread open_).follow uses = some (heldIn state thread open_) := by
  induction uses with
  | nil => rfl
  | cons e uses ih =>
    have hrest := ih fun e he => huses e (List.mem_cons_of_mem _ he)
    have htrack : (heldIn state thread open_).track e = some (heldIn state thread open_) := by
      rcases huses e List.mem_cons_self with rfl | rfl <;> refine Held.track_use.mpr ⟨?_, rfl⟩
      all_goals rcases hstate with rfl | rfl <;> cases thread <;> cases open_ <;> decide
    rw [Held.follow_cons, htrack]
    exact hrest

theorem works_uses (hstate : t.state = s.state) (hhThread : t.hThread = s.hThread)
    (hthread : t.thread = s.thread)
    (hevents : t.events = s.events ++ events) (huses : ∀ e ∈ events, e = .use .ctx ∨ e = .use .cs) :
    s.Works t := by
  have hconnected : t.connected = s.connected := by
    unfold connected
    rw [hthread]
  refine ⟨hstate, hhThread, events, hevents, fun state thread hwhere => ?_⟩
  rw [hconnected]
  exact follow_uses hwhere huses

theorem works_queue (s : Console) (posts : Bool) (r : ChannelRead) : s.Works (s.queue posts r) := by
  obtain ⟨messages, uses, heq, -, huses⟩ := s.queue_eq posts r
  rw [heq]
  exact works_uses rfl rfl rfl rfl huses

theorem works_appendText (s : Console) :
    s.Works s.appendText := works_uses rfl rfl rfl rfl (by simp)

theorem works_execDone (s : Console) : s.Works s.execDone := by
  have hfirst : s.Works (s.does [.use .ctx]) := works_uses rfl rfl rfl rfl (by simp)
  have hlast : (s.does [.use .ctx]).appendText.Works s.execDone :=
    works_uses rfl rfl rfl rfl (by simp)
  exact (hfirst.trans (works_appendText _)).trans hlast

/-- A step of the thread with some events. -/
theorem works_moved {before after : CommandThread} (hthread : s.thread = some before)
    (hstate : t.state = s.state)
    (hhThread : t.hThread = s.hThread) (hnext : t.thread = some after)
    (hevents : t.events = s.events ++ events)
    (hfollow : ∀ state thread, state = .shown ∨ state = .waiting →
      (heldIn state thread (connected { s with thread := some before })).follow events =
        some (heldIn state thread (connected { s with thread := some after }))) : s.Works t := by
  refine ⟨hstate, hhThread, events, hevents, fun state thread hwhere => ?_⟩
  have hbefore : s.connected = connected { s with thread := some before } := by
    unfold connected
    rw [hthread]
  have hafter : t.connected = connected { s with thread := some after } := by
    unfold connected
    rw [hnext]
  rw [hbefore, hafter]
  exact hfollow state thread hwhere

theorem works_read {before : CommandThread}
    (hthread : s.thread = some before) (after : CommandThread)
    (hopen : ∀ at_ ∈ [before, after], connected { s with thread := some at_ } = true)
    (hafter : after ≠ .terminated)
    (posts : Bool) (r : ChannelRead) :
    s.Works (({ s with thread := some after }.does [.use .connection]).queue posts r) ∧
      (({ s with thread := some after }.does [.use .connection]).queue posts r).thread ≠
        some .terminated := by
  have hread : s.Works ({ s with thread := some after }.does [.use .connection]) := by
    refine works_moved hthread rfl rfl rfl rfl ?_
    rw [hopen before (by simp), hopen after (by simp)]
    rintro _ thread (rfl | rfl) <;> cases thread <;> rfl
  refine ⟨hread.trans (works_queue _ _ _), ?_⟩
  obtain ⟨messages, uses, heq, -, -⟩ :=
    queue_eq ({ s with thread := some after }.does [.use .connection]) posts r
  rw [heq]
  exact fun heq => hafter (Option.some.inj heq)

theorem works_threadStep {posts : Bool} {at_ : CommandThread} (hthread : s.thread = some at_)
    (h : s.threadStep w posts at_ = some t) : s.Works t ∧ t.thread ≠ some .terminated := by
  cases at_ with
  | connecting =>
    rcases hresult : w.connected.result with _ | _ | _
    all_goals simp only [threadStep, hresult] at h
    · cases h
    all_goals
      obtain rfl := Option.some.inj h
      refine ⟨works_moved hthread rfl rfl rfl rfl ?_, nofun⟩
      rintro _ thread (rfl | rfl) <;> cases thread <;> rfl
  | opening =>
    simp only [threadStep] at h
    split_ifs at h
    all_goals
      obtain rfl := Option.some.inj h
      refine ⟨works_moved hthread rfl rfl rfl rfl ?_, nofun⟩
      rintro _ thread (rfl | rfl) <;> cases thread <;> rfl
  | looking turn =>
    simp only [threadStep] at h
    split_ifs at h
    all_goals
      obtain rfl := Option.some.inj h
      refine ⟨works_moved hthread rfl rfl rfl rfl ?_, nofun⟩
      rintro _ thread (rfl | rfl) <;> cases thread <;> rfl
  | reading turn =>
    obtain rfl := Option.some.inj h
    exact works_read hthread (.readingStderr turn) (by simp [connected]) nofun posts _
  | readingStderr turn =>
    simp only [threadStep] at h
    split_ifs at h <;> obtain rfl := Option.some.inj h
    · refine ⟨works_moved hthread rfl rfl rfl rfl ?_, nofun⟩
      rintro _ thread (rfl | rfl) <;> cases thread <;> rfl
    · exact works_read hthread (.looking (turn + 1)) (by simp [connected]) nofun posts _
  | executed =>
    obtain rfl := Option.some.inj h
    obtain ⟨messages, heq, -⟩ := post_eq { s with thread := some .posted } posts .execDone
    rw [heq]
    refine ⟨works_moved hthread rfl rfl rfl rfl ?_, nofun⟩
    rintro _ thread (rfl | rfl) <;> cases thread <;> rfl
  | posted =>
    obtain rfl := Option.some.inj h
    refine ⟨works_moved hthread rfl rfl rfl (List.append_nil _).symm ?_, nofun⟩
    rintro _ thread (rfl | rfl) <;> cases thread <;> rfl
  | ended => cases h
  | terminated => cases h

theorem active_of_threadStep {posts : Bool} {at_ : CommandThread} (hthread : s.thread = some at_)
    (h : s.threadStep w posts at_ = some t) : s.Active := by
  refine ⟨at_, hthread, ?_, ?_⟩
  · rintro rfl
    cases h
  · rintro rfl
    cases h

theorem Safe.not_terminated (hs : s.Safe) (hstate : s.state = .shown ∨ s.state = .waiting) :
    s.thread ≠ some .terminated := by
  intro hgone
  rw [hs.terminated hgone] at hstate
  simp at hstate

/-- Where the window stays, so does what is held. -/
theorem Safe.works (hs : s.Safe) (h : s.Works t) (hstate : s.state = .shown ∨ s.state = .waiting)
    (hactive : t.Active → s.Active) (hterminated : t.thread ≠ some .terminated) : t.Safe := by
  obtain ⟨events, hevents, hfollow⟩ := h.events
  obtain ⟨open_, hheld, hopen⟩ := hs.held
  obtain rfl := hopen (hs.not_terminated hstate)
  refine ⟨⟨t.connected, ?_, fun _ => rfl⟩,
    fun hat => ⟨h.hThread ▸ (hs.active (hactive hat)).1, h.state ▸ hstate⟩,
    fun hwaiting => ?_, fun hgone => absurd hgone hterminated⟩
  · rw [hevents, Held.follow_append, hheld, h.state, h.hThread]
    exact hfollow _ _ hstate
  · rw [h.hThread]
    exact hs.waiting (h.state ▸ hwaiting)

theorem Safe.delete (hstate : t.state = .gone) (hactive : ¬ t.Active) {open_ : Bool}
    (hheld : Held.none.follow t.events = some (heldIn .gone t.hThread open_))
    (hopen : t.thread ≠ some .terminated → open_ = t.connected) : t.Safe where
  held := ⟨open_, hstate ▸ hheld, hopen⟩
  active hat := absurd hat hactive
  waiting hwaiting := by rw [hstate] at hwaiting; cases hwaiting
  terminated _ := hstate

theorem not_connected_of_idle (hidle : ¬ s.Active) : s.connected = false := by
  unfold connected
  rcases hthread : s.thread with _ | at_
  · rfl
  cases at_ with
  | connecting | executed | posted | ended | terminated => rfl
  | _ => exact absurd ⟨_, hthread, by nofun, by nofun⟩ hidle

/-- What is held, where the thread was not terminated. -/
theorem Safe.held_connected (hs : s.Safe) (hstate : s.state ≠ .gone) :
    Held.none.follow s.events = some (heldIn s.state s.hThread s.connected) := by
  obtain ⟨open_, hheld, hopen⟩ := hs.held
  obtain rfl := hopen fun hterminated => hstate (hs.terminated hterminated)
  exact hheld

theorem Safe.destroyWindow (hs : s.Safe) (hshown : s.state = .shown) : s.destroyWindow.Safe := by
  have hheld := hs.held_connected (by rw [hshown]; nofun)
  have hterminated := hs.not_terminated (.inl hshown)
  rw [hshown] at hheld
  unfold Console.destroyWindow
  dsimp only
  split_ifs with hthread
  all_goals simp only [does] at hthread
  · rw [hthread] at hheld
    refine ⟨⟨s.connected, ?_, fun _ => rfl⟩, fun _ => ⟨hthread, .inr rfl⟩, fun _ => hthread,
      fun hgone => absurd hgone hterminated⟩
    show Held.none.follow (s.events ++ _) = some (heldIn .waiting s.hThread s.connected)
    rw [Held.follow_append, hheld]
    cases s.connected <;> rfl
  · have hidle : ¬ s.Active := fun hat => hthread (hs.active hat).1
    rw [Bool.not_eq_true] at hthread
    rw [hthread, not_connected_of_idle hidle] at hheld
    refine .delete rfl hidle ?_ fun _ => (not_connected_of_idle hidle).symm
    show Held.none.follow ((s.events ++ _) ++ _) = _
    rw [Held.follow_append, Held.follow_append, hheld]
    rfl

/-- The window goes, without a thread or behind one. -/
theorem Safe.deleted (hs : s.Safe) (hstate : s.state = .opening ∨ s.state = .waiting)
    {thread : Option CommandThread}
    (hidle : ∀ at_, thread = some at_ → at_ = .ended ∨ at_ = .terminated)
    (hthread : thread = some .terminated ∨ thread = s.thread) {closed : List (Event ConsoleHandle)}
    (hclosed : closed = if s.state = .waiting then [.release .hThread] else []) :
    ({ s with thread := thread }.delete closed).Safe := by
  have hheld := hs.held_connected (by rcases hstate with hstate | hstate <;> rw [hstate] <;> nofun)
  refine @Safe.delete _ rfl ?_ s.connected ?_ ?_
  · rintro ⟨at_, hat, hended, hterminated⟩
    exact (hidle at_ hat).elim hended hterminated
  · show Held.none.follow (s.events ++ _) = _
    rw [Held.follow_append, hheld, hclosed]
    rcases hstate with hstate | hstate <;> rw [hstate] <;> cases s.connected
      <;> cases s.hThread <;> rfl
  · intro hnot
    rcases hthread with rfl | rfl
    · exact absurd rfl hnot
    · rfl

theorem Safe.step (hs : s.Safe) (h : step w a s = some t) : t.Safe := by
  cases steps_of_step h with
  | notCreated thread hopening =>
    have hidle : ∀ at_, s.thread = some at_ → at_ = .ended ∨ at_ = .terminated := by
      intro at_ hat
      by_contra hboth
      have hstate := (hs.active ⟨at_, hat, fun h => hboth (.inl h), fun h => hboth (.inr h)⟩).2
      rw [hopening] at hstate
      simp at hstate
    exact hs.deleted (.inl hopening) hidle (.inr rfl) (by rw [hopening]; rfl)
  | created thread hopening =>
    have hheld := hs.held_connected (by rw [hopening]; nofun)
    have hidle : ¬ s.Active := by
      intro hat
      have hstate := (hs.active hat).2
      rw [hopening] at hstate
      simp at hstate
    rw [hopening, not_connected_of_idle hidle] at hheld
    refine ⟨⟨false, ?_, ?_⟩, fun hat => ?_, nofun, ?_⟩
    · show Held.none.follow (s.events ++ _) = some (heldIn .shown thread false)
      rw [Held.follow_append, hheld]
      cases thread <;> rfl
    · cases thread <;> exact fun _ => rfl
    · cases thread with
      | true => exact ⟨rfl, .inl rfl⟩
      | false =>
        obtain ⟨at_, hnone, -⟩ := hat
        cases hnone
    · cases thread <;> nofun
  | thread hthread hstep =>
    have hactive := active_of_threadStep hthread hstep
    obtain ⟨hworks, hterminated⟩ := works_threadStep hthread hstep
    exact hs.works hworks (hs.active hactive).2 (fun _ => hactive) hterminated
  | @append messages hshown hmessages =>
    have hkept : { s with messages := messages }.Safe :=
      ⟨hs.held, hs.active, hs.waiting, hs.terminated⟩
    exact hkept.works (works_appendText _) (.inl hshown) id (hkept.not_terminated (.inl hshown))
  | @done messages hshown hmessages =>
    have hkept : { s with messages := messages }.Safe :=
      ⟨hs.held, hs.active, hs.waiting, hs.terminated⟩
    exact hkept.works (works_execDone _) (.inl hshown) id (hkept.not_terminated (.inl hshown))
  | asked hshown hrunning =>
    exact hs.works (works_uses rfl rfl rfl rfl (by simp)) (.inl hshown) id
      (hs.not_terminated (.inl hshown))
  | closed hshown hended => exact hs.destroyWindow hshown
  | destroyed hshown => exact hs.destroyWindow hshown
  | joined ended hwaiting hthread =>
    refine hs.deleted (.inr hwaiting) (fun at_ hat => .inl ?_) (.inr rfl) (by rw [hwaiting]; rfl)
    exact Option.some.inj (hat.symm.trans hthread)
  | terminated hwaiting hthread =>
    refine hs.deleted (.inr hwaiting) (fun at_ hat => .inr ?_) (.inl rfl) (by rw [hwaiting]; rfl)
    exact (Option.some.inj hat).symm

theorem safe_new : new.Safe where
  held := ⟨false, rfl, fun _ => rfl⟩
  active := fun ⟨_, hnone, _⟩ => nomatch hnone
  waiting := nofun
  terminated := nofun

end Console

open Console Machine

/-- In every interleaving of the window and its thread the handles are used only as long as they are
there. When the window is gone, the context, its lock, the font and the thread have been given back
once, and so has the connection, unless the thread had to be terminated. -/
theorem console_safe (w : CommandWorld) {s : Console}
    (h : Reaches (step w) (fun _ _ => True) .new s) :
    ∃ held, Held.none.follow s.events = some held ∧ (s.state = .gone → ∀ k,
      (k = .connection → s.thread ≠ some .terminated) →
        k ∉ held.live ∧ s.events.count (.acquire k) = s.events.count (.release k)) := by
  have hsafe : s.Safe := h.invariant (fun _ _ _ hs _ hstep => hs.step hstep) safe_new
  obtain ⟨open_, hheld, hopen⟩ := hsafe.held
  refine ⟨_, hheld, fun hgone k hk => ?_⟩
  have hidle : ¬ s.Active := by
    intro hat
    have hstate := (hsafe.active hat).2
    rw [hgone] at hstate
    simp at hstate
  have hnone : k ∉ (heldIn s.state s.hThread open_).live := by
    rw [hgone]
    cases hopened : open_ with
    | false => exact Finset.notMem_empty k
    | true =>
      intro hmem
      obtain rfl : k = .connection := by simpa [heldIn, windowHeld, Held.none] using hmem
      have hclosed := hopen (hk rfl)
      rw [hopened, not_connected_of_idle hidle] at hclosed
      cases hclosed
  refine ⟨hnone, ?_⟩
  have hcount := Held.count_release hheld k
  rw [if_neg hnone, Nat.add_zero] at hcount
  exact hcount

/-- A command on a server that takes no connections. -/
def refusedCommand : CommandWorld where
  profile := .at (.copy 256 (ascii "h")) 22
  hmac _ _ := []
  connect := refusingWorld 5 7
  io := .inChunks []
  lastError := []

/-- The window is closed behind the end of the command. -/
def refusedRun :
    List Act := [.create true true, .thread true, .thread true, .message, .close, .waited false]

theorem console_safe_refused :
    ∃ s, run (step refusedCommand) (fun _ _ => True) refusedRun .new = some s ∧
    s.events.count (.acquire .ctx) = s.events.count (.release .ctx) := by
  have hrun : (run (step refusedCommand) (fun _ _ => True) refusedRun .new).isSome := rfl
  obtain ⟨held, -, hgone⟩ := console_safe refusedCommand (reaches_run hrun)
  exact ⟨_, (Option.some_get hrun).symm, (hgone rfl .ctx nofun).2⟩

/-! ## What is shown -/

namespace Console

/-- The window shows these chunks. -/
def shownText (chunks : List Bytes) : Bytes := (chunks.map sftpExecStreamCallback).flatMap cText

/-- What stands in the window when the command is over. -/
def finalText (success : Bool) (errorMsg : CStr) (chunks : List Bytes) : Bytes :=
  if shownText chunks = [] then noOutputText success errorMsg else shownText chunks

theorem noOutputText_ne_nil (success : Bool) (errorMsg : CStr) :
    noOutputText success errorMsg ≠ [] := by
  unfold noOutputText
  cases success with
  | true => simp [ascii]
  | false =>
    rw [if_neg (by simp), List.append_assoc]
    exact fun hnil => absurd (congrArg List.head? hnil) (by simp [lstrcpyn, ascii])

theorem finalText_ne_nil (success : Bool) (errorMsg : CStr) (chunks : List Bytes) :
    finalText success errorMsg chunks ≠ [] := by
  unfold finalText
  split_ifs with hempty
  · exact noOutputText_ne_nil success errorMsg
  · exact hempty

end Console

/-- What the reads of the turns before this one bring. -/
def ChannelIo.chunksBefore (io : ChannelIo) (turn : ℕ) : List Bytes :=
  (List.range turn).flatMap fun t => (io.read t).chunk ++ (io.readStderr t).chunk

/-- The turn is the last one. -/
def ChannelIo.over (io : ChannelIo) (turn : ℕ) : Bool :=
  io.eof turn && (io.read turn).bytes.isEmpty && (io.readStderr turn).bytes.isEmpty

theorem ChannelIo.chunksBefore_succ (io : ChannelIo) (turn : ℕ) :
    io.chunksBefore (turn + 1) =
      io.chunksBefore turn ++ (io.read turn).chunk ++ (io.readStderr turn).chunk := by
  unfold chunksBefore
  rw [List.range_succ, List.flatMap_append, List.flatMap_singleton, List.append_assoc]

theorem streamLoop_turns {io : ChannelIo} {cancelled : ℕ → Bool} {turn : ℕ} (fuel : ℕ)
    (hbefore : ∀ t < turn, cancelled t = false ∧ io.over t = false) :
    streamLoop io cancelled (turn + fuel) 0 [] =
      streamLoop io cancelled fuel turn (io.chunksBefore turn) := by
  induction turn generalizing fuel with
  | zero => rw [Nat.zero_add]; rfl
  | succ turn ih =>
    obtain ⟨hcancelled, hover⟩ := hbefore turn (Nat.lt_succ_self turn)
    rw [Nat.add_assoc, Nat.add_comm 1, ih (fuel + 1) fun t ht => hbefore t (Nat.lt_succ_of_lt ht),
      streamLoop, hcancelled,
      if_neg (by simp)]
    dsimp only
    unfold ChannelIo.over at hover
    rw [hover, if_neg (by simp), ChannelIo.chunksBefore_succ]

/-- What the thread can have come to; `cancel` is whether it was asked to stop. -/
def CommandWorld.Results (w : CommandWorld) (cancel success : Bool) (errorMsg : CStr)
    (chunks : List Bytes) : Prop :=
  (w.connected.result = some false ∧ success = false ∧
    errorMsg = w.connected.conn.ErrorMsg ∧ chunks = []) ∨
    (w.connected.result = some true ∧
      ∃ cancelled fuel complete, (cancel = false → ∀ t, cancelled t = false) ∧
      execCommandStream w.io (some cancelled) fuel = some ⟨success, chunks, complete⟩ ∧
      (success = false → errorMsg = w.lastError))

section Results

variable {w : CommandWorld} {cancel success : Bool} {errorMsg : CStr}
  {chunks : List Bytes} {turn : ℕ}

theorem CommandWorld.Results.cancelled (h : w.Results cancel success errorMsg chunks) :
    w.Results true success errorMsg chunks := by
  rcases h with h | ⟨hconnected, cancelled, fuel, complete, -, hrest⟩
  · exact .inl h
  · exact .inr ⟨hconnected, cancelled, fuel, complete, nofun, hrest⟩

/-- The command runs, and the loop is at this turn. -/
structure CommandWorld.Streams (w : CommandWorld) (turn : ℕ) : Prop where
  connected : w.connected.result = some true
  opened : w.io.opened = true
  before : ∀ t < turn, w.io.over t = false

theorem CommandWorld.Streams.stopped (h : w.Streams turn) :
    w.Results true true errorMsg (w.io.chunksBefore turn) := by
  refine .inr ⟨h.connected, (decide <| · = turn), turn + 1, false, nofun, ?_, nofun⟩
  unfold execCommandStream
  rw [h.opened, if_neg (by simp), Option.getD_some,
    streamLoop_turns 1 fun t ht => ⟨by simp [ht.ne], h.before t ht⟩, streamLoop,
    if_pos (by simp)]

theorem CommandWorld.Streams.over (h : w.Streams turn) (hover : w.io.over turn = true) :
    w.Results cancel true errorMsg (w.io.chunksBefore (turn + 1)) := by
  refine .inr ⟨h.connected, fun _ => false, turn + 1, true, fun _ _ => rfl, ?_, nofun⟩
  unfold execCommandStream
  rw [h.opened, if_neg (by simp), Option.getD_some,
    streamLoop_turns 1 fun t ht => ⟨rfl, h.before t ht⟩, streamLoop,
    if_neg (by simp)]
  dsimp only
  unfold ChannelIo.over at hover
  rw [if_pos hover, ChannelIo.chunksBefore_succ]

end Results

namespace Console

/-- The chunks that the thread has queued. -/
def Queued (w : CommandWorld) (s : Console) (chunks : List Bytes) : Prop :=
  match s.thread with
  | none | some .connecting => chunks = []
  | some .opening => w.connected.result = some true ∧ chunks = []
  | some (.looking turn) | some (.reading turn) => w.Streams turn ∧ chunks = w.io.chunksBefore turn
  | some (.readingStderr turn) =>
    w.Streams turn ∧ chunks = w.io.chunksBefore turn ++ (w.io.read turn).chunk
  | some .executed | some .posted | some .ended =>
    w.Results s.cancelRequested s.success s.errorMsg chunks
  | some .terminated => False

/-- The thread has reported the end. -/
def Reported (s : Console) : Prop := s.thread = some .posted ∨ s.thread = some .ended

/-- What stands in the window, and what is still queued for it. -/
structure Follows (w : CommandWorld) (s : Console) : Prop where
  running : s.isRunning = true → ∃ chunks, s.Queued w chunks ∧
    s.output ++ s.pendingChunks.flatMap cText = shownText chunks
  ended : s.isRunning = false → s.Reported ∧ s.pendingChunks = [] ∧ ∃ chunks,
    w.Results s.cancelRequested s.success s.errorMsg chunks ∧
      s.output = finalText s.success s.errorMsg chunks
  reported : .execDone ∈ s.messages → s.Reported

/-- What holds in each state of the window. -/
def Shows (w : CommandWorld) (s : Console) : Prop :=
  match s.state with
  | .opening => s = new
  | .shown | .waiting => s.Follows w
  | .gone => True

variable {w : CommandWorld} {s t : Console} {a : Act} {chunks : List Bytes}
  {posts : Bool} {at_ : CommandThread}

theorem shows_iff (hstate : s.state = .shown ∨ s.state = .waiting) : s.Shows w ↔ s.Follows w := by
  unfold Shows
  rcases hstate with hstate | hstate <;> rw [hstate]

theorem shownText_append (chunks more : List Bytes) :
    shownText (chunks ++ more) = shownText chunks ++ shownText more := by
  unfold shownText
  rw [List.map_append, List.flatMap_append]

theorem Follows.reads (hs : s.Follows w) (hrunning : s.isRunning = true)
    (hreported : ¬ s.Reported) (r : ChannelRead)
    (thread : CommandThread)
    (hqueued : ∀ chunks, s.Queued w chunks → ∀ u : Console, u.thread = some thread →
      u.Queued w (chunks ++ r.chunk)) :
    Follows w (({ s with thread := some thread }.does [.use .connection]).queue posts r) := by
  obtain ⟨chunks, hchunks, htext⟩ := hs.running hrunning
  obtain ⟨messages, uses, heq, hmessages, -⟩ :=
    queue_eq ({ s with thread := some thread }.does [.use .connection]) posts r
  rw [heq]
  refine ⟨fun _ => ⟨_, hqueued chunks hchunks _ rfl, ?_⟩, fun hended => ?_, fun hdone => ?_⟩
  · show s.output ++ (s.pendingChunks ++ r.chunk.map sftpExecStreamCallback).flatMap cText = _
    rw [List.flatMap_append, ← List.append_assoc, htext, shownText_append]
    rfl
  · exact absurd (hrunning.symm.trans hended) (by simp)
  · rcases hmessages _ hdone with hdone | hdone
    · exact absurd (hs.reported hdone) hreported
    · cases hdone

theorem Follows.moves (hs : s.Follows w) (hrunning : s.isRunning = true) (hreported : ¬ s.Reported)
    (hoh : t.output = s.output ∧ t.pendingChunks = s.pendingChunks ∧ t.messages = s.messages ∧
      t.isRunning = s.isRunning)
    (hqueued : ∀ chunks, s.Queued w chunks → t.Queued w chunks) : t.Follows w := by
  obtain ⟨chunks, hchunks, htext⟩ := hs.running hrunning
  obtain ⟨houtput, hpending, hmessages, hisRunning⟩ := hoh
  refine ⟨fun _ => ⟨chunks, hqueued chunks hchunks, by rw [houtput, hpending, htext]⟩,
    fun hended => ?_, fun hdone => ?_⟩
  · rw [hisRunning, hrunning] at hended
    cases hended
  · rw [hmessages] at hdone
    exact absurd (hs.reported hdone) hreported

theorem Follows.joins (hs : s.Follows w) (hreported : s.Reported) (hthread : s.thread = some at_)
    (hstep : s.threadStep w posts at_ = some t) : t.Follows w := by
  rcases hreported with hposted | hended
  · obtain rfl := Option.some.inj (hthread.symm.trans hposted)
    obtain rfl := Option.some.inj hstep
    refine ⟨fun hrunning => ?_, fun hrunning => ?_, fun _ => .inr rfl⟩
    · obtain ⟨chunks, hchunks, htext⟩ := hs.running hrunning
      simp only [Queued, hposted] at hchunks
      exact ⟨chunks, hchunks, htext⟩
    · exact ⟨.inr rfl, (hs.ended hrunning).2⟩
  · obtain rfl := Option.some.inj (hthread.symm.trans hended)
    cases hstep

theorem Follows.connects (hs : s.Follows w) (hrunning : s.isRunning = true)
    (hreported : ¬ s.Reported)
    (hthread : s.thread = some .connecting) (hstep : s.threadStep w posts .connecting = some t) :
    t.Follows w := by
  rcases hresult : w.connected.result with _ | _ | _
  all_goals simp only [Console.threadStep, hresult] at hstep
  · cases hstep
  all_goals
    obtain rfl := Option.some.inj hstep
    refine hs.moves hrunning hreported ⟨rfl, rfl, rfl, rfl⟩ fun chunks hchunks => ?_
    simp only [Queued, hthread] at hchunks
  · exact .inl ⟨hresult, rfl, rfl, hchunks⟩
  · exact ⟨hresult, hchunks⟩

theorem Follows.opens (hs : s.Follows w) (hrunning : s.isRunning = true) (hreported : ¬ s.Reported)
    (hthread : s.thread = some .opening) (hstep : s.threadStep w posts .opening = some t) :
    t.Follows w := by
  simp only [Console.threadStep] at hstep
  split_ifs at hstep with hopened
  all_goals
    obtain rfl := Option.some.inj hstep
    refine hs.moves hrunning hreported ⟨rfl, rfl, rfl, rfl⟩ fun chunks hchunks => ?_
    simp only [Queued, hthread] at hchunks
    obtain ⟨hconnected, rfl⟩ := hchunks
  · exact ⟨⟨hconnected, hopened, fun t ht => absurd ht t.not_lt_zero⟩, rfl⟩
  · refine .inr ⟨hconnected, fun _ => false, 0, false, fun _ _ => rfl, ?_, fun _ => rfl⟩
    unfold execCommandStream
    rw [if_pos (by simpa using hopened)]
    rfl

theorem Follows.looks {turn : ℕ} (hs : s.Follows w) (hrunning : s.isRunning = true)
    (hreported : ¬ s.Reported)
    (hthread : s.thread = some (.looking turn))
    (hstep : s.threadStep w posts (.looking turn) = some t) :
    t.Follows w := by
  simp only [Console.threadStep] at hstep
  split_ifs at hstep with hcancel
  all_goals
    obtain rfl := Option.some.inj hstep
    refine hs.moves hrunning hreported ⟨rfl, rfl, rfl, rfl⟩ fun chunks hchunks => ?_
    simp only [Queued, hthread] at hchunks
    obtain ⟨hstreams, rfl⟩ := hchunks
  · show w.Results s.cancelRequested true s.errorMsg _
    rw [hcancel]
    exact hstreams.stopped
  · exact ⟨hstreams, rfl⟩

/-- Behind the second read of a turn the output is at its end, or there is another turn. -/
theorem Follows.readsStderr {turn : ℕ} (hs : s.Follows w) (hrunning : s.isRunning = true)
    (hreported : ¬ s.Reported)
    (hthread : s.thread = some (.readingStderr turn))
    (hstep : s.threadStep w posts (.readingStderr turn) = some t) : t.Follows w := by
  simp only [Console.threadStep] at hstep
  split_ifs at hstep with hover
  all_goals obtain rfl := Option.some.inj hstep
  · refine hs.moves hrunning hreported ⟨rfl, rfl, rfl, rfl⟩ fun chunks hchunks => ?_
    simp only [Queued, hthread] at hchunks
    obtain ⟨hstreams, rfl⟩ := hchunks
    have hresults := @CommandWorld.Streams.over w s.cancelRequested s.errorMsg turn hstreams hover
    have hempty : (w.io.readStderr turn).chunk = [] := by
      rw [ChannelRead.chunk, if_pos (by simpa using (Bool.and_eq_true_iff.mp hover).2)]
    rw [ChannelIo.chunksBefore_succ, hempty, List.append_nil] at hresults
    exact hresults
  · refine hs.reads hrunning hreported _ _ fun chunks hchunks u hu => ?_
    simp only [Queued, hthread, hu] at hchunks ⊢
    obtain ⟨hstreams, rfl⟩ := hchunks
    refine ⟨⟨hstreams.connected, hstreams.opened, fun t ht => ?_⟩,
      (w.io.chunksBefore_succ turn).symm⟩
    rcases Nat.lt_succ_iff_lt_or_eq.mp ht with ht | rfl
    · exact hstreams.before t ht
    · exact Bool.not_eq_true _ ▸ hover

theorem Follows.reports (hs : s.Follows w) (hrunning : s.isRunning = true)
    (hthread : s.thread = some .executed)
    (hstep : s.threadStep w posts .executed = some t) : t.Follows w := by
  obtain rfl := Option.some.inj hstep
  obtain ⟨chunks, hchunks, htext⟩ := hs.running hrunning
  obtain ⟨messages, heq, -⟩ := post_eq { s with thread := some .posted } posts .execDone
  rw [heq]
  refine ⟨fun _ => ⟨chunks, ?_, htext⟩, fun hended => ?_, fun _ => .inl rfl⟩
  · simp only [Queued, hthread] at hchunks
    exact hchunks
  · exact absurd (hrunning.symm.trans hended) (by simp)

theorem Follows.threadStep (hs : s.Follows w) (hthread : s.thread = some at_)
    (hstep : s.threadStep w posts at_ = some t) : t.Follows w := by
  by_cases hreported : s.Reported
  · exact hs.joins hreported hthread hstep
  have hrunning : s.isRunning = true := by
    by_contra hended
    exact hreported (hs.ended (Bool.not_eq_true _ ▸ hended)).1
  cases at_ with
  | connecting => exact hs.connects hrunning hreported hthread hstep
  | opening => exact hs.opens hrunning hreported hthread hstep
  | looking turn => exact hs.looks hrunning hreported hthread hstep
  | reading turn =>
    obtain rfl := Option.some.inj hstep
    refine hs.reads hrunning hreported _ _ fun chunks hchunks u hu => ?_
    simp only [Queued, hthread, hu] at hchunks ⊢
    obtain ⟨hstreams, rfl⟩ := hchunks
    exact ⟨hstreams, rfl⟩
  | readingStderr turn => exact hs.readsStderr hrunning hreported hthread hstep
  | executed => exact hs.reports hrunning hthread hstep
  | posted => exact absurd (.inl hthread) hreported
  | ended => cases hstep
  | terminated => cases hstep

theorem Follows.appendText (hs : s.Follows w) {messages : List ConsoleMessage}
    (hmessages : ∀ message ∈ messages, message ∈ s.messages) :
    Follows w { s with messages := messages }.appendText := by
  refine ⟨fun hrunning => ?_, fun hended => ?_, fun hdone => hs.reported (hmessages _ hdone)⟩
  · obtain ⟨chunks, hchunks, htext⟩ := hs.running hrunning
    refine ⟨chunks, hchunks, ?_⟩
    show (s.output ++ s.pendingChunks.flatMap cText) ++ [] = _
    rw [List.append_nil, htext]
  · obtain ⟨hreported, hpending, chunks, hresults, houtput⟩ := hs.ended hended
    refine ⟨hreported, rfl, chunks, hresults, ?_⟩
    show s.output ++ s.pendingChunks.flatMap cText = _
    rw [hpending, houtput]
    exact List.append_nil _

/-- At the end everything is shown. -/
theorem Follows.execDone (hs : s.Follows w) {messages : List ConsoleMessage}
    (hmessages : s.messages = .execDone :: messages) :
    Follows w { s with messages := messages }.execDone := by
  have hreported : s.Reported := hs.reported (hmessages ▸ List.mem_cons_self)
  refine ⟨nofun, fun _ => ⟨hreported, rfl, ?_⟩, fun _ => hreported⟩
  show ∃ chunks, w.Results s.cancelRequested s.success s.errorMsg chunks ∧
    (if s.output ++ s.pendingChunks.flatMap cText = [] then noOutputText s.success s.errorMsg
      else s.output ++ s.pendingChunks.flatMap cText) = finalText s.success s.errorMsg chunks
  rcases hrunning : s.isRunning with _ | _
  · obtain ⟨-, hpending, chunks, hresults, houtput⟩ := hs.ended hrunning
    refine ⟨chunks, hresults, ?_⟩
    rw [hpending, List.flatMap_nil, List.append_nil,
      if_neg (houtput ▸ finalText_ne_nil _ _ _), houtput]
  · obtain ⟨chunks, hchunks, htext⟩ := hs.running hrunning
    refine ⟨chunks, ?_, ?_⟩
    · rcases hreported with hthread | hthread
      all_goals
        simp only [Queued, hthread] at hchunks
        exact hchunks
    · rw [htext]
      rfl

theorem Follows.cancelled (hs : s.Follows w) {messages : List ConsoleMessage}
    (hmessages : ∀ m ∈ messages, m ∈ s.messages)
    (state : ConsoleState) (button : CStr × Bool) (events : List (Event ConsoleHandle)) :
    Follows w { s with
      state := state, messages := messages, cancelRequested := true, button :=
        button, events := events } := by
  refine ⟨fun hrunning => ?_, fun hended => ?_, fun hdone => hs.reported (hmessages _ hdone)⟩
  · obtain ⟨chunks, hchunks, htext⟩ := hs.running hrunning
    refine ⟨chunks, ?_, htext⟩
    rcases hthread : s.thread with _ | at_
    · simpa only [Queued, hthread] using hchunks
    · cases at_ <;> simp only [Queued, hthread] at hchunks ⊢
      all_goals first | exact hchunks | exact hchunks.cancelled
  · obtain ⟨hreported, hpending, chunks, hresults, houtput⟩ := hs.ended hended
    exact ⟨hreported, hpending, chunks, hresults.cancelled, houtput⟩

theorem shows_destroyWindow (hs : s.Follows w) : s.destroyWindow.Shows w := by
  unfold Console.destroyWindow
  dsimp only
  split_ifs
  · exact hs.cancelled (fun _ hm => absurd hm List.not_mem_nil) _ _ _
  · exact trivial

theorem Shows.step (hs : s.Shows w) (hsafe : s.Safe) (h : step w a s = some t) : t.Shows w := by
  cases steps_of_step h with
  | notCreated thread hopening => exact trivial
  | created thread hopening =>
    unfold Shows at hs
    rw [hopening] at hs
    dsimp only at hs
    subst hs
    refine ⟨fun _ => ⟨[], ?_, rfl⟩, nofun, nofun⟩
    cases thread <;> rfl
  | thread hthread hstep =>
    have hstate := (hsafe.active (active_of_threadStep hthread hstep)).2
    have hnext : t.state = .shown ∨ t.state = .waiting :=
      (works_threadStep hthread hstep).1.state ▸ hstate
    rw [shows_iff hnext]
    exact ((shows_iff hstate).mp hs).threadStep hthread hstep
  | @append messages hshown hmessages =>
    have hnext : { s with messages := messages }.appendText.state = .shown := hshown
    rw [shows_iff (.inl hshown)] at hs
    exact (shows_iff (.inl hnext)).mpr
      (hs.appendText fun m hm => hmessages ▸ List.mem_cons_of_mem _ hm)
  | @done messages hshown hmessages =>
    have hnext : { s with messages := messages }.execDone.state = .shown := hshown
    rw [shows_iff (.inl hshown)] at hs
    exact (shows_iff (.inl hnext)).mpr (hs.execDone hmessages)
  | asked hshown hrunning =>
    have hnext : s.requestCancel.state = .shown := hshown
    rw [shows_iff (.inl hshown)] at hs
    exact (shows_iff (.inl hnext)).mpr (hs.cancelled (fun _ hm => hm) _ _ _)
  | closed hshown hended => exact shows_destroyWindow ((shows_iff (.inl hshown)).mp hs)
  | destroyed hshown => exact shows_destroyWindow ((shows_iff (.inl hshown)).mp hs)
  | joined ended hwaiting hthread => exact trivial
  | terminated hwaiting hthread => exact trivial

end Console

open Console Machine

/-- As long as the command runs, the window shows what the thread has queued, in its order, less
what waits to be appended. When the end is reported it shows what the command wrote before it ended
or was stopped, or says why there is nothing. Of each chunk it shows what stands before the first
NUL. -/
theorem console_text (w : CommandWorld) {s : Console}
    (h : Reaches (step w) (fun _ _ => True) .new s)
    (hshown : s.state = .shown) :
    (s.isRunning = true → ∃ chunks, s.Queued w chunks ∧
      shownText chunks = s.output ++ s.pendingChunks.flatMap cText) ∧
    (s.isRunning = false → ∃ chunks, w.Results s.cancelRequested s.success s.errorMsg chunks ∧
      s.output = finalText s.success s.errorMsg chunks) := by
  have hboth : s.Safe ∧ s.Shows w :=
    Reaches.invariant (I := fun s => s.Safe ∧ s.Shows w) h
      (fun _ _ _ hs _ hstep => ⟨hs.1.step hstep, hs.2.step hs.1 hstep⟩) ⟨safe_new, rfl⟩
  have hfollows := (shows_iff (.inl hshown)).mp hboth.2
  refine ⟨fun hrunning => ?_, fun hended => (hfollows.ended hended).2.2⟩
  obtain ⟨chunks, hchunks, htext⟩ := hfollows.running hrunning
  exact ⟨chunks, hchunks, htext.symm⟩

theorem console_text_refused : ∃ s,
    run (step refusedCommand) (fun _ _ => True) [.create true true, .thread true, .thread true,
      .message] .new = some s ∧
      ∃ chunks, s.output = finalText s.success s.errorMsg chunks := by
  have hrun : (run (step refusedCommand) (fun _ _ => True) [.create true true,
      .thread true, .thread true, .message]
      .new).isSome := rfl
  obtain ⟨-, hended⟩ := console_text refusedCommand (reaches_run hrun) rfl
  obtain ⟨chunks, -, houtput⟩ := hended rfl
  exact ⟨_, (Option.some_get hrun).symm, chunks, houtput⟩

/-! ## Closing -/

namespace Console

variable {w : CommandWorld} {s t u : Console} {a : Act} {at_ : CommandThread}

/-- The user can come to a window that is gone. -/
def Closable (w : CommandWorld) (s : Console) :
    Prop := ∃ t, Reaches (step w) (fun _ a => a ≠ .destroy) s t ∧ t.state = .gone

/-- The end of the command will not be reported. -/
structure Lost (s : Console) : Prop where
  shown : s.state = .shown
  running : s.isRunning = true
  unreported : .execDone ∉ s.messages
  thread : s.thread = none ∨ s.Reported

theorem closable_of_step (h : step w a s = some t) (ha : a ≠ .destroy) (ht : t.Closable w) :
    s.Closable w := by
  obtain ⟨u, hu, hgone⟩ := ht
  exact ⟨u, .head ⟨a, ha, h⟩ hu, hgone⟩

theorem closable_of_ended (hshown : s.state = .shown) (hended : s.isRunning = false) :
    s.Closable w := by
  have hclose : step w .close s = some s.destroyWindow := by
    simp only [step, hshown, hended, if_false, ne_eq, not_true_eq_false, Bool.false_eq_true]
  refine closable_of_step hclose nofun ?_
  unfold destroyWindow
  dsimp only
  split_ifs
  · have hwaited : ∀ v : Console, v.state = .waiting → v.Closable w := by
      intro v hwaiting
      have hnext : ∃ u, step w (.waited false) v = some u ∧ u.state = .gone := by
        simp only [step, hwaiting, ne_eq, not_true_eq_false, if_false, Bool.false_eq_true]
        split_ifs
        · exact ⟨_, rfl, rfl⟩
        · exact ⟨_, rfl, rfl⟩
      obtain ⟨u, hu, hgone⟩ := hnext
      exact closable_of_step hu nofun ⟨u, .refl, hgone⟩
    exact hwaited _ rfl
  · exact ⟨_, .refl, rfl⟩

theorem closable_of_posted (messages : List ConsoleMessage) :
    ∀ {s : Console}, s.state = .shown → s.messages = messages →
    .execDone ∈ messages → s.Closable w := by
  induction messages with
  | nil => exact fun _ _ hmem => absurd hmem List.not_mem_nil
  | cons message messages ih =>
    intro s hshown hmessages hmem
    cases message with
    | appendText =>
      have hstep : step w .message s = some { s with messages := messages }.appendText := by
        simp only [step, hshown, hmessages, ne_eq, not_true_eq_false, if_false]
      refine closable_of_step hstep nofun (ih ?_ ?_ ?_)
      · exact hshown
      · rfl
      · exact (List.mem_cons.mp hmem).resolve_left nofun
    | execDone =>
      have hstep : step w .message s = some { s with messages := messages }.execDone := by
        simp only [step, hshown, hmessages, ne_eq, not_true_eq_false, if_false]
      refine closable_of_step hstep nofun (closable_of_ended ?_ ?_)
      · exact hshown
      · rfl

theorem closable_of_threadStep (hthread : s.thread = some at_)
    (hstep : s.threadStep w true at_ = some t)
    (ht : t.Closable w) : s.Closable w :=
  closable_of_step (a := .thread true)
    (by simp only [step, hthread, Option.bind_some, hstep]) nofun ht

theorem closable_of_executed (hshown : s.state = .shown) (hthread : s.thread = some .executed) :
    s.Closable w := by
  refine closable_of_threadStep hthread rfl ?_
  refine closable_of_posted (s.messages ++ [.execDone]) ?_ ?_ (by simp)
  all_goals simp [post, does, hshown]

/-- At the next turn the loop is left, once the user has asked for it. -/
theorem closable_of_looking (turn : ℕ) (hshown : s.state = .shown)
    (hthread : s.thread = some (.looking turn)) :
    s.Closable w := by
  rcases hrunning : s.isRunning with _ | _
  · exact closable_of_ended hshown hrunning
  · have hasked : step w .close s = some s.requestCancel := by
      simp only [step, hshown, hrunning, ne_eq, not_true_eq_false, if_false, if_true]
    refine closable_of_step hasked nofun ?_
    have hstop : s.requestCancel.threadStep w true (.looking turn) =
        some ({ s.requestCancel with thread := some .executed, success := true }.does
          [.use .ctx, .use .connection, .release .connection]) := rfl
    refine closable_of_threadStep hthread hstop (closable_of_executed ?_ ?_)
    · exact hshown
    · rfl

theorem closable_of_readingStderr (turn : ℕ) (hshown : s.state = .shown)
    (hthread : s.thread = some (.readingStderr turn)) :
    s.Closable w := by
  by_cases hover : (w.io.eof turn && (w.io.read turn).bytes.isEmpty &&
    (w.io.readStderr turn).bytes.isEmpty) = true
  · refine closable_of_threadStep hthread (if_pos hover) (closable_of_executed ?_ ?_)
    · exact hshown
    · rfl
  · refine closable_of_threadStep hthread (if_neg hover) ?_
    obtain ⟨messages, uses, heq, -, -⟩ :=
      queue_eq ({ s with thread := some (.looking (turn + 1)) }.does [.use .connection]) true
        (w.io.readStderr turn)
    rw [heq]
    refine closable_of_looking (turn + 1) ?_ ?_
    · exact hshown
    · rfl

theorem closable_of_opening (hshown : s.state = .shown) (hthread : s.thread = some .opening) :
    s.Closable w := by
  by_cases hopened : w.io.opened = true
  · refine closable_of_threadStep hthread (if_pos hopened) (closable_of_looking 0 ?_ ?_)
    · exact hshown
    · rfl
  · refine closable_of_threadStep hthread (if_neg hopened) (closable_of_executed ?_ ?_)
    · exact hshown
    · rfl

/-- A thread that is at work can come to its report. -/
theorem closable_of_active (hconnect : w.connected.result ≠ none) (hshown : s.state = .shown)
    (hthread : s.thread = some at_) (hactive : at_ ≠ .posted ∧ at_ ≠ .ended ∧ at_ ≠ .terminated) :
    s.Closable w := by
  cases at_ with
  | connecting =>
    rcases hresult : w.connected.result with _ | _ | _
    · exact absurd hresult hconnect
    · refine closable_of_threadStep hthread (by simp only [threadStep, hresult]; rfl)
        (closable_of_executed ?_ ?_)
      · exact hshown
      · rfl
    · refine closable_of_threadStep hthread (by simp only [threadStep, hresult]; rfl)
        (closable_of_opening ?_ ?_)
      · exact hshown
      · rfl
  | opening => exact closable_of_opening hshown hthread
  | looking turn => exact closable_of_looking turn hshown hthread
  | reading turn =>
    refine closable_of_threadStep hthread rfl ?_
    obtain ⟨messages, uses, heq, -, -⟩ :=
      queue_eq ({ s with thread := some (.readingStderr turn) }.does [.use .connection]) true
        (w.io.read turn)
    rw [heq]
    refine closable_of_readingStderr turn ?_ ?_
    · exact hshown
    · rfl
  | readingStderr turn => exact closable_of_readingStderr turn hshown hthread
  | executed => exact closable_of_executed hshown hthread
  | posted => exact absurd rfl hactive.1
  | ended => exact absurd rfl hactive.2.1
  | terminated => exact absurd rfl hactive.2.2

theorem Lost.step (hs : s.Lost) (ha : a ≠ .destroy) (h : step w a s = some t) : t.Lost := by
  cases steps_of_step h with
  | notCreated thread hopening => exact absurd (hs.shown.symm.trans hopening) nofun
  | created thread hopening => exact absurd (hs.shown.symm.trans hopening) nofun
  | thread hthread hstep =>
    rcases hs.thread with hnone | hposted | hended
    · rw [hnone] at hthread
      cases hthread
    · obtain rfl := Option.some.inj (hthread.symm.trans hposted)
      obtain rfl := Option.some.inj hstep
      exact ⟨hs.shown, hs.running, hs.unreported, .inr (.inr rfl)⟩
    · obtain rfl := Option.some.inj (hthread.symm.trans hended)
      cases hstep
  | append hshown hmessages =>
    exact ⟨hs.shown, hs.running,
      fun hmem => hs.unreported (hmessages ▸ List.mem_cons_of_mem _ hmem), hs.thread⟩
  | done hshown hmessages => exact absurd (hmessages ▸ List.mem_cons_self) hs.unreported
  | asked hshown hrunning => exact ⟨hs.shown, hs.running, hs.unreported, hs.thread⟩
  | closed hshown hended => exact absurd (hs.running.symm.trans hended) nofun
  | destroyed hshown => exact absurd rfl ha
  | joined ended hwaiting hthread => exact absurd (hs.shown.symm.trans hwaiting) nofun
  | terminated hwaiting hthread => exact absurd (hs.shown.symm.trans hwaiting) nofun

end Console

open Console Machine

/-- The user can close the window in every state of every interleaving, unless the end of the
command is never reported: its thread could not be created, or the message about its end could not
be posted. -/
theorem console_closable_iff (w : CommandWorld) (hconnect : w.connected.result ≠ none) {s : Console}
    (h : Reaches (step w) (fun _ _ => True) .new s) (hshown : s.state = .shown) :
    s.Closable w ↔ ¬ s.Lost := by
  have hboth : s.Safe ∧ s.Shows w :=
    Reaches.invariant (I := fun s => s.Safe ∧ s.Shows w) h
      (fun _ _ _ hs _ hstep => ⟨hs.1.step hstep, hs.2.step hs.1 hstep⟩) ⟨safe_new, rfl⟩
  constructor
  · rintro ⟨t, ht, hgone⟩ hlost
    have hkept : t.Lost :=
      Reaches.invariant (I := Lost) ht (fun _ _ _ hs ha hstep => hs.step ha hstep) hlost
    exact absurd (hkept.shown.symm.trans hgone) nofun
  · intro hlost
    rcases hrunning : s.isRunning with _ | _
    · exact closable_of_ended hshown hrunning
    by_cases hdone : .execDone ∈ s.messages
    · exact closable_of_posted _ hshown rfl hdone
    rcases hthread : s.thread with _ | at_
    · exact absurd ⟨hshown, hrunning, hdone, .inl hthread⟩ hlost
    refine closable_of_active hconnect hshown hthread ⟨?_, ?_, ?_⟩
    · rintro rfl
      exact hlost ⟨hshown, hrunning, hdone, .inr (.inl hthread)⟩
    · rintro rfl
      exact hlost ⟨hshown, hrunning, hdone, .inr (.inr hthread)⟩
    · rintro rfl
      obtain ⟨chunks, hchunks, -⟩ := ((shows_iff (.inl hshown)).mp hboth.2).running hrunning
      simp only [Queued, hthread] at hchunks

theorem console_closable_refused : ¬ (Console.new.initDialog false).Closable refusedCommand := by
  have hreached :
      Reaches (step refusedCommand) (fun _ _ => True) .new (Console.new.initDialog false) :=
    .tail .refl ⟨.create true false, trivial, rfl⟩
  intro hclosable
  refine (console_closable_iff refusedCommand nofun hreached rfl).mp hclosable
    ⟨rfl, rfl, List.not_mem_nil, .inl rfl⟩

/-- When nobody but the user closes the window, the thread has reported its end by then, and every
chunk was shown up to its first NUL. -/
theorem console_closed (w : CommandWorld) {s : Console}
    (h : Reaches (step w) (fun _ a => a ≠ .destroy) .new s)
    (hwaiting : s.state = .waiting) :
    s.Reported ∧ ∃ chunks, w.Results s.cancelRequested s.success s.errorMsg chunks ∧
      s.output = finalText s.success s.errorMsg chunks := by
  have hall : s.Safe ∧ s.Shows w ∧ (s.state = .waiting → s.isRunning = false) := by
    refine Reaches.invariant (I := fun s => s.Safe ∧ s.Shows w ∧
      (s.state = .waiting → s.isRunning = false)) h ?_
      ⟨safe_new, rfl, nofun⟩
    rintro s a t ⟨hsafe, hshows, hends⟩ ha hstep
    refine ⟨hsafe.step hstep, hshows.step hsafe hstep, fun hwaiting => ?_⟩
    cases steps_of_step hstep with
    | notCreated thread hopening => cases hwaiting
    | created thread hopening => cases hwaiting
    | thread hthread hmove =>
      have hbefore : s.state = .waiting := (works_threadStep hthread hmove).1.state ▸ hwaiting
      have hended := hends hbefore
      rcases (((shows_iff (.inr hbefore)).mp hshows).ended hended).1 with hposted | hjoined
      · obtain rfl := Option.some.inj (hthread.symm.trans hposted)
        obtain rfl := Option.some.inj hmove
        exact hended
      · obtain rfl := Option.some.inj (hthread.symm.trans hjoined)
        cases hmove
    | append hshown hmessages => exact absurd (hshown.symm.trans hwaiting) nofun
    | done hshown hmessages => exact absurd (hshown.symm.trans hwaiting) nofun
    | asked hshown hrunning => exact absurd (hshown.symm.trans hwaiting) nofun
    | closed hshown hended =>
      have hkept : s.destroyWindow.isRunning = s.isRunning := by
        unfold destroyWindow
        dsimp only
        split_ifs <;> rfl
      exact hkept.trans hended
    | destroyed hshown => exact absurd rfl ha
    | joined ended hbefore hthread => cases hwaiting
    | terminated hbefore hthread => cases hwaiting
  have hfollows := (shows_iff (.inr hwaiting)).mp hall.2.1
  exact ⟨(hfollows.ended (hall.2.2 hwaiting)).1, (hfollows.ended (hall.2.2 hwaiting)).2.2⟩

theorem console_closed_refused : ∃ s, run (step refusedCommand) (fun _ a => a ≠ .destroy)
    [.create true true, .thread true, .thread true, .message,
      .close] .new = some s ∧ s.Reported := by
  have hrun : (run (step refusedCommand) (fun _ a => a ≠ .destroy)
      [.create true true, .thread true, .thread true, .message, .close] .new).isSome := rfl
  exact ⟨_, (Option.some_get hrun).symm, (console_closed refusedCommand (reaches_run hrun) rfl).1⟩

end SalamanderSftp
