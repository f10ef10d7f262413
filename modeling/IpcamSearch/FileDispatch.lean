import IpcamSearch.FilePolls

/-! The round of `aeProcessEvents` with its event table: the procedures that a poll leads to,
which may register and delete file events themselves. The timer procedures leave them alone. -/

set_option autoImplicit false

namespace IpcamSearch.FileEvents

open Memory EventLoop Run

variable {Proc Data Apidata Input TimeProc App : Type}

/-- A call of a file procedure. -/
structure Call (Proc Data : Type) where
  proc : Proc
  fd : Nat
  clientData : Option Data
  mask : Mask

/-- What the file procedures of a program do to the table and to the rest. `Input` is what
they find in the file. -/
structure FileProcs (Proc Data Apidata Input TimeProc App : Type) where
  ops : Call Proc Data → Input → Files Proc Data Apidata → AeEventLoop TimeProc → App →
    List (FileOp Proc Data)
  act : Call Proc Data → Input → Files Proc Data Apidata → AeEventLoop TimeProc → App →
    AeEventLoop TimeProc × App
  exited : App → Bool

/-- A call with the table and the program that it met. -/
structure Moment (Proc Data Apidata App : Type) where
  call : Call Proc Data
  files : Files Proc Data Apidata
  app : App

/-- `calls` only records the calls of file procedures. -/
structure LoopState (Proc Data Apidata TimeProc App : Type) where
  files : Files Proc Data Apidata
  eventLoop : AeEventLoop TimeProc
  app : App
  calls : List (Moment Proc Data Apidata App)

/-- The state after a call that leaves the table as `files`. -/
def LoopState.called (state : LoopState Proc Data Apidata TimeProc App)
    (procs : FileProcs Proc Data Apidata Input TimeProc App) (call : Call Proc Data) (input : Input)
    (files : Files Proc Data Apidata) : LoopState Proc Data Apidata TimeProc App :=
  let (eventLoop, app) := procs.act call input state.files state.eventLoop state.app
  {
    files := files
    eventLoop := eventLoop
    app := app
    calls := state.calls ++ [⟨call, state.files, state.app⟩] }

structure AeFlags where
  fileEvents : Bool
  timeEvents : Bool
  dontWait : Bool

def AE_ALL_EVENTS : AeFlags := ⟨true, true, false⟩

def AeFlags.waits (flags : AeFlags) : Bool := flags.timeEvents && !flags.dontWait

section

variable (api : AeApi Apidata) (procs : FileProcs Proc Data Apidata Input TimeProc App)

/-- A call through a pointer of the table, which may never have been stored. -/
def callProc (proc : Option Proc) (event : AeFiredEvent) (input : Input)
    (state : LoopState Proc Data Apidata TimeProc App) :
    Except Fault (LoopState Proc Data Apidata TimeProc App) :=
  match proc with
  | none => .error .nullDereference
  | some proc => do
      let fe := state.files.events event.fd
      let call := { proc := proc, fd := event.fd, clientData := fe.clientData, mask := event.mask }
      let files ← run (fileStep api) state.files
        (procs.ops call input state.files state.eventLoop state.app)
      return state.called procs call input files

def callReader (event : AeFiredEvent) (input : Input)
    (state : LoopState Proc Data Apidata TimeProc App) :
    Except Fault (LoopState Proc Data Apidata TimeProc App) :=
  let fe := state.files.events event.fd
  if (fe.mask ∩ event.mask).readable then callProc api procs fe.rfileProc event input state
  else .ok state

variable [DecidableEq Proc]

/-- `fe` points into the table, so it shows what the procedure for reading has changed. -/
def callWriter (rfired : Bool) (event : AeFiredEvent) (input : Input)
    (state : LoopState Proc Data Apidata TimeProc App) :
    Except Fault (LoopState Proc Data Apidata TimeProc App) :=
  let fe := state.files.events event.fd
  if (fe.mask ∩ event.mask).writable ∧ (rfired = false ∨ fe.wfileProc ≠ fe.rfileProc) then
    callProc api procs fe.wfileProc event input state
  else .ok state

/-- The body of the loop over `fired`. -/
def dispatchEvent (event : AeFiredEvent) (input : Input)
    (state : LoopState Proc Data Apidata TimeProc App) :
    Except Fault (LoopState Proc Data Apidata TimeProc App) := do
  let rfired := ((state.files.events event.fd).mask ∩ event.mask).readable
  let state ← callReader api procs event input state
  if procs.exited state.app then return state
  callWriter api procs rfired event input state

def dispatchFired : List (AeFiredEvent × Input) → LoopState Proc Data Apidata TimeProc App →
    Except Fault (LoopState Proc Data Apidata TimeProc App)
  | [], state => .ok state
  | (event, input) :: rest, state =>
      if procs.exited state.app then .ok state
      else do
        let state ← dispatchEvent api procs event input state
        dispatchFired rest state

variable (clock : Nat → AeTime)
  (call : TimeProc → Int → AeEventLoop TimeProc → App → Int × AeEventLoop TimeProc × App)

/-- The clock is read for the timeout of the poll. -/
def awaitNearest (flags : AeFlags) (eventLoop : AeEventLoop TimeProc) : AeEventLoop TimeProc :=
  if flags.waits ∧ ¬ eventLoop.timeEventHead.isEmpty then (aeGetTime clock eventLoop).2
  else eventLoop

/-- What `aeApiPoll` finds counts if it is called. -/
def pollFired (flags : AeFlags) (files : Files Proc Data Apidata)
    (fired : List (AeFiredEvent × Input)) : List (AeFiredEvent × Input) :=
  if files.maxfd ≠ -1 ∨ flags.waits then fired else []

def aeProcessEvents (flags : AeFlags) (fuel : Nat) (fired : List (AeFiredEvent × Input))
    (state : LoopState Proc Data Apidata TimeProc App) :
    Except Fault (Nat × LoopState Proc Data Apidata TimeProc App) := do
  if ¬ flags.timeEvents ∧ ¬ flags.fileEvents then return (0, state)
  let fired := pollFired flags state.files fired
  let state ← dispatchFired api procs fired
    { state with eventLoop := awaitNearest clock flags state.eventLoop }
  if procs.exited state.app ∨ ¬ flags.timeEvents then return (fired.length, state)
  let (processed, eventLoop, app) ←
    processTimeEvents clock call fuel state.eventLoop state.app
  return (fired.length + processed, { state with eventLoop := eventLoop, app := app })

/-- What one call of `aeProcessEvents` meets. -/
structure Round (Input : Type) where
  flags : AeFlags
  fuel : Nat
  fired : List (AeFiredEvent × Input)

/-- The loop of a program that calls `aeProcessEvents` until it exits. -/
def roundStep (state : LoopState Proc Data Apidata TimeProc App) (round : Round Input) :
    Except Fault (LoopState Proc Data Apidata TimeProc App) := do
  if procs.exited state.app then return state
  let (_, state) ← aeProcessEvents api procs clock call round.flags round.fuel round.fired state
  return state

end

/-- The call is for an event that is registered when it is made, and it is of the procedure
stored for that. -/
structure Registered (files : Files Proc Data Apidata) (call : Call Proc Data) : Prop where
  stored : ((files.events call.fd).mask ∩ call.mask).readable = true ∧
      (files.events call.fd).rfileProc = some call.proc ∨
    ((files.events call.fd).mask ∩ call.mask).writable = true ∧
      (files.events call.fd).wfileProc = some call.proc
  clientData : (files.events call.fd).clientData = call.clientData

/-- The table is as registered, whatever that is by now. -/
def Settled (tracks : Interest → Apidata → Prop) (files : Files Proc Data Apidata) : Prop :=
  ∃ interest, Agrees tracks interest files

theorem Settled.reader {tracks : Interest → Apidata → Prop} {files : Files Proc Data Apidata}
    (settled : Settled tracks files) {fd : Nat} {mask : Mask}
    (fires : ((files.events fd).mask ∩ mask).readable = true) :
    ∃ proc, (files.events fd).rfileProc = some proc := by
  obtain ⟨interest, agrees⟩ := settled
  have here : (files.events fd).mask = interest fd := congrFun agrees.table fd
  rw [here, Mask.inter_readable, Bool.and_eq_true] at fires
  exact Option.isSome_iff_exists.mp (agrees.readers fd fires.1)

theorem Settled.writer {tracks : Interest → Apidata → Prop} {files : Files Proc Data Apidata}
    (settled : Settled tracks files) {fd : Nat} {mask : Mask}
    (fires : ((files.events fd).mask ∩ mask).writable = true) :
    ∃ proc, (files.events fd).wfileProc = some proc := by
  obtain ⟨interest, agrees⟩ := settled
  have here : (files.events fd).mask = interest fd := congrFun agrees.table fd
  rw [here, Mask.inter_writable, Bool.and_eq_true] at fires
  exact Option.isSome_iff_exists.mp (agrees.writers fd fires.1)

section Rule

variable {api : AeApi Apidata} {procs : FileProcs Proc Data Apidata Input TimeProc App}
  {tracks : Interest → Apidata → Prop}
  {holds : LoopState Proc Data Apidata TimeProc App → Prop}
  (settles : ∀ state, holds state → Settled tracks state.files)
  (kept : ∀ state call input, holds state → procs.exited state.app = false →
    Registered state.files call → ∃ files, run (fileStep api) state.files
      (procs.ops call input state.files state.eventLoop state.app) = .ok files ∧
        holds (state.called procs call input files))
  {state : LoopState Proc Data Apidata TimeProc App}

include kept

theorem callProc_keeps (holding : holds state) (running : procs.exited state.app = false)
    {proc : Proc} {event : AeFiredEvent} (input : Input)
    (registered : Registered state.files
      ⟨proc, event.fd, (state.files.events event.fd).clientData, event.mask⟩) :
    ∃ after, callProc api procs (some proc) event input state = .ok after ∧ holds after := by
  obtain ⟨files, ran, holdsAfter⟩ := kept state _ input holding running registered
  refine ⟨_, ?_, holdsAfter⟩
  simp only [callProc, ran, ok_bind]
  rfl

include settles

theorem callReader_keeps (holding : holds state) (running : procs.exited state.app = false)
    (event : AeFiredEvent) (input : Input) :
    ∃ after, callReader api procs event input state = .ok after ∧ holds after := by
  rw [callReader]
  split
  · next fires =>
      obtain ⟨proc, stored⟩ := (settles state holding).reader fires
      rw [stored]
      exact callProc_keeps kept holding running input ⟨.inl ⟨fires, stored⟩, rfl⟩
  · exact ⟨state, rfl, holding⟩

variable [DecidableEq Proc]

theorem callWriter_keeps (holding : holds state) (running : procs.exited state.app = false)
    (rfired : Bool) (event : AeFiredEvent) (input : Input) :
    ∃ after, callWriter api procs rfired event input state = .ok after ∧ holds after := by
  rw [callWriter]
  split
  · next fires =>
      obtain ⟨proc, stored⟩ := (settles state holding).writer fires.1
      rw [stored]
      exact callProc_keeps kept holding running input ⟨.inr ⟨fires.1, stored⟩, rfl⟩
  · exact ⟨state, rfl, holding⟩

theorem dispatchEvent_keeps (holding : holds state) (running : procs.exited state.app = false)
    (event : AeFiredEvent) (input : Input) :
    ∃ after, dispatchEvent api procs event input state = .ok after ∧ holds after := by
  obtain ⟨middle, read, holdsMiddle⟩ := callReader_keeps settles kept holding running event input
  simp only [dispatchEvent, read, ok_bind]
  cases ended : procs.exited middle.app with
  | true => exact ⟨middle, rfl, holdsMiddle⟩
  | false => exact callWriter_keeps settles kept holdsMiddle ended _ event input

/-- What the call of a registered procedure keeps, the loop over `fired` keeps, and it never
calls a procedure that was not stored. -/
theorem dispatchFired_keeps (holding : holds state) (fired : List (AeFiredEvent × Input)) :
    ∃ after, dispatchFired api procs fired state = .ok after ∧ holds after := by
  induction fired generalizing state with
  | nil => exact ⟨state, rfl, holding⟩
  | cons first fired ih =>
      obtain ⟨event, input⟩ := first
      rw [dispatchFired]
      cases ended : procs.exited state.app with
      | true => exact ⟨state, rfl, holding⟩
      | false =>
          obtain ⟨middle, dispatched, holdsMiddle⟩ :=
            dispatchEvent_keeps settles kept holding ended event input
          rw [dispatched]
          exact ih holdsMiddle

end Rule

theorem writeWhen_fault {eventLoop : AeEventLoop TimeProc} {id : Int} {due : AeTime} {fault : Fault}
    (failed : writeWhen eventLoop id due = .error fault) : fault = .deadCell := by
  rw [writeWhen] at failed
  split at failed
  · cases failed
  · cases failed
    rfl

theorem fire_fault {clock : Nat → AeTime}
    {call : TimeProc → Int → AeEventLoop TimeProc → App → Int × AeEventLoop TimeProc × App}
    {te : AeTimeEvent TimeProc} {eventLoop : AeEventLoop TimeProc} {app : App} {fault : Fault}
    (failed : fire clock call te eventLoop app = .error fault) : fault = .deadCell := by
  rw [fire] at failed
  generalize call te.timeProc te.id eventLoop app = called at failed
  obtain ⟨retval, after, appAfter⟩ := called
  by_cases again : retval ≠ AE_NOMORE
  · simp only [if_pos again] at failed
    cases written : writeWhen (aeAddMillisecondsToNow clock after retval).2 te.id
        (aeAddMillisecondsToNow clock after retval).1 with
    | error early =>
        rw [written] at failed
        cases failed
        exact writeWhen_fault written
    | ok reset =>
        rw [written] at failed
        cases failed
  · simp only [if_neg again] at failed
    cases failed

/-- The two ways in which a pass over the timers goes wrong. -/
def TimerFault (fault : Fault) : Prop := fault = .divergence ∨ fault = .deadCell

theorem timeEventsLoop_fault {clock : Nat → AeTime}
    {call : TimeProc → Int → AeEventLoop TimeProc → App → Int × AeEventLoop TimeProc × App}
    {maxId : Int} (fuel : Nat) {eventLoop : AeEventLoop TimeProc} {app : App}
    {cursor : List (AeTimeEvent TimeProc)} {processed : Nat} {fault : Fault}
    (failed : timeEventsLoop clock call maxId fuel eventLoop app cursor processed = .error fault) :
    TimerFault fault := by
  induction fuel generalizing eventLoop app cursor processed with
  | zero =>
      cases failed
      exact .inl rfl
  | succ fuel ih =>
      cases cursor with
      | nil => cases failed
      | cons te rest =>
          rw [timeEventsLoop] at failed
          by_cases new : maxId < te.id
          · rw [if_pos new] at failed
            exact ih failed
          · rw [if_neg new] at failed
            by_cases due : (clock eventLoop.clockReads).reaches te.due
            · simp only [aeGetTime, due, if_true] at failed
              cases fired : fire clock call te
                  { eventLoop with clockReads := eventLoop.clockReads + 1 } app with
              | error early =>
                  rw [fired] at failed
                  cases failed
                  exact .inr (fire_fault fired)
              | ok after =>
                  rw [fired] at failed
                  exact ih failed
            · simp only [aeGetTime, due] at failed
              exact ih failed

section Rounds

variable {api : AeApi Apidata} {procs : FileProcs Proc Data Apidata Input TimeProc App}
  {clock : Nat → AeTime}
  {call : TimeProc → Int → AeEventLoop TimeProc → App → Int × AeEventLoop TimeProc × App}
  {tracks : Interest → Apidata → Prop}
  {holds : LoopState Proc Data Apidata TimeProc App → Prop}
  (settles : ∀ state, holds state → Settled tracks state.files)
  (kept : ∀ state call input, holds state → procs.exited state.app = false →
    Registered state.files call → ∃ files, run (fileStep api) state.files
      (procs.ops call input state.files state.eventLoop state.app) = .ok files ∧
        holds (state.called procs call input files))
  (timed : ∀ state eventLoop app, holds state →
    holds { state with eventLoop := eventLoop, app := app })
  {state : LoopState Proc Data Apidata TimeProc App} [DecidableEq Proc]

include settles kept timed

theorem aeProcessEvents_holds (holding : holds state) (flags : AeFlags) (fuel : Nat)
    (fired : List (AeFiredEvent × Input)) :
    (∃ fault, aeProcessEvents api procs clock call flags fuel fired state = .error fault ∧
        TimerFault fault) ∨
      ∃ count after, aeProcessEvents api procs clock call flags fuel fired state =
        .ok (count, after) ∧ holds after := by
  unfold aeProcessEvents
  by_cases nothing : ¬ flags.timeEvents ∧ ¬ flags.fileEvents
  · rw [if_pos nothing]
    exact .inr ⟨0, state, rfl, holding⟩
  · rw [if_neg nothing]
    obtain ⟨middle, dispatched, holdsMiddle⟩ :=
      dispatchFired_keeps settles kept
        (timed state (awaitNearest clock flags state.eventLoop) state.app holding)
        (pollFired flags state.files fired)
    simp only [dispatched, ok_bind]
    split
    · exact .inr ⟨_, middle, rfl, holdsMiddle⟩
    · simp only [processTimeEvents]
      cases passed : timeEventsLoop clock call (middle.eventLoop.timeEventNextId - 1) fuel
          middle.eventLoop middle.app middle.eventLoop.timeEventHead 0 with
      | error fault => exact .inl ⟨fault, rfl, timeEventsLoop_fault fuel passed⟩
      | ok result =>
          obtain ⟨processed, eventLoop, app⟩ := result
          exact .inr ⟨_, _, rfl, timed middle eventLoop app holdsMiddle⟩

/-- So a whole run keeps it, unless its timers go wrong. -/
theorem rounds_keep (holding : holds state) (rounds : List (Round Input)) :
    (∃ fault, run (roundStep api procs clock call) state rounds = .error fault ∧
        TimerFault fault) ∨
      ∃ final, run (roundStep api procs clock call) state rounds = .ok final ∧ holds final := by
  induction rounds generalizing state with
  | nil => exact .inr ⟨state, rfl, holding⟩
  | cons round rounds ih =>
      rw [run_cons, roundStep]
      split
      · exact ih holding
      · rcases aeProcessEvents_holds settles kept timed holding round.flags round.fuel round.fired with
          ⟨fault, failed, timer⟩ | ⟨count, after, ran, holdsAfter⟩
        · rw [failed]
          exact .inl ⟨fault, rfl, timer⟩
        · rw [ran]
          exact ih holdsAfter

end Rounds

/-- Whatever the procedures register and delete while a poll is worked off, each call of one is
for an event that is still registered then, of the procedure stored for it, and before the
program exits. The table never goes wrong, and no pointer is followed that was not stored. -/
theorem calls_registered (accepts : Nat → Bool)
    (procs : FileProcs Proc Data EpollSet Input TimeProc App) [DecidableEq Proc]
    (clock : Nat → AeTime)
    (call : TimeProc → Int → AeEventLoop TimeProc → App → Int × AeEventLoop TimeProc × App)
    (ops : List (FileOp Proc Data)) (eventLoop : AeEventLoop TimeProc) (app : App)
    (rounds : List (Round Input)) :
    ∃ files, run (fileStep (epollApi accepts)) (createFiles (epollApi accepts)) ops = .ok files ∧
      ((∃ fault, run (roundStep (epollApi accepts) procs clock call) ⟨files, eventLoop, app, []⟩
          rounds = .error fault ∧ TimerFault fault) ∨
        ∃ final, run (roundStep (epollApi accepts) procs clock call) ⟨files, eventLoop, app, []⟩
          rounds = .ok final ∧ Settled EpollTracks final.files ∧
          ∀ moment ∈ final.calls, procs.exited moment.app = false ∧
            Registered moment.files moment.call) := by
  obtain ⟨files, ran, agrees⟩ := epoll_exact accepts ops
  refine ⟨files, ran, ?_⟩
  refine @rounds_keep _ _ _ _ _ _ _ procs clock call EpollTracks
    (fun state => Settled EpollTracks state.files ∧ ∀ moment ∈ state.calls,
      procs.exited moment.app = false ∧ Registered moment.files moment.call)
    (fun _ holds => holds.1) ?_ ?_ _ _ ⟨⟨_, agrees⟩, ?_⟩ rounds
  · intro state call input holding running registered
    obtain ⟨⟨interest, agreesHere⟩, recorded⟩ := holding
    obtain ⟨after, ranOps, agreesAfter⟩ := epoll_run accepts agreesHere
      (procs.ops call input state.files state.eventLoop state.app)
    refine ⟨after, ranOps, ⟨_, agreesAfter⟩, ?_⟩
    intro moment member
    rcases List.mem_append.mp member with before | last
    · exact recorded moment before
    · rw [List.mem_singleton.mp last]
      exact ⟨running, registered⟩
  · exact fun _ _ _ holding => holding
  · exact List.forall_mem_nil _

end IpcamSearch.FileEvents
