import IpcamSearch.Library.Memory
import Mathlib.Data.List.Basic

/-! The event loop of `ae.c`: its list of timers, and one round of file events and timer
expiries. `Proc` stands for a timer procedure with its client data. No timer of the
programs has a finalizer, and `zmalloc` is assumed to succeed. -/

set_option autoImplicit false

namespace IpcamSearch.EventLoop

open Memory

def AE_OK : Int := 0

def AE_ERR : Int := -1

def AE_NOMORE : Int := -1

structure AeTime where
  sec : Int
  ms : Int
deriving DecidableEq

def AeTime.add (now : AeTime) (milliseconds : Int) : AeTime :=
  let whenSec := now.sec + milliseconds.tdiv 1000
  let whenMs := now.ms + milliseconds.tmod 1000
  if 1000 ≤ whenMs then ⟨whenSec + 1, whenMs - 1000⟩ else ⟨whenSec, whenMs⟩

def AeTime.reaches (now due : AeTime) : Bool :=
  decide (due.sec < now.sec ∨ now.sec = due.sec ∧ due.ms ≤ now.ms)

structure AeTimeEvent (Proc : Type) where
  id : Int
  due : AeTime
  timeProc : Proc

/-- The head of the list comes first. `clockReads` counts the calls of `gettimeofday`. -/
structure AeEventLoop (Proc : Type) where
  timeEventNextId : Int
  timeEventHead : List (AeTimeEvent Proc)
  clockReads : Nat

def aeCreateEventLoop (Proc : Type) : AeEventLoop Proc where
  timeEventNextId := 0
  timeEventHead := []
  clockReads := 0

section

variable {Proc App FileEvent : Type} (clock : Nat → AeTime)

def aeGetTime (eventLoop : AeEventLoop Proc) : AeTime × AeEventLoop Proc :=
  (clock eventLoop.clockReads, { eventLoop with clockReads := eventLoop.clockReads + 1 })

def aeAddMillisecondsToNow (eventLoop : AeEventLoop Proc) (milliseconds : Int) :
    AeTime × AeEventLoop Proc :=
  let (now, eventLoop) := aeGetTime clock eventLoop
  (now.add milliseconds, eventLoop)

def aeCreateTimeEvent (eventLoop : AeEventLoop Proc) (milliseconds : Int) (timeProc : Proc) :
    Int × AeEventLoop Proc :=
  let id := eventLoop.timeEventNextId
  let (due, eventLoop) := aeAddMillisecondsToNow clock eventLoop milliseconds
  (id, {
    timeEventNextId := id + 1
    timeEventHead := { id := id, due := due, timeProc := timeProc } :: eventLoop.timeEventHead
    clockReads := eventLoop.clockReads })

/-- The first timer with the id is unlinked and freed. -/
def aeDeleteTimeEvent (eventLoop : AeEventLoop Proc) (id : Int) : Int × AeEventLoop Proc :=
  if eventLoop.timeEventHead.any fun te => te.id = id then
    (AE_OK, { eventLoop with
      timeEventHead := eventLoop.timeEventHead.eraseP fun te => te.id = id })
  else (AE_ERR, eventLoop)

/-- The write of a new time through the pointer to a timer, which its procedure could
have freed. -/
def writeWhen (eventLoop : AeEventLoop Proc) (id : Int) (due : AeTime) :
    Except Fault (AeEventLoop Proc) :=
  if eventLoop.timeEventHead.any fun te => te.id = id then
    .ok { eventLoop with timeEventHead := eventLoop.timeEventHead.map fun te =>
      if te.id = id then { te with due := due } else te }
  else .error .deadCell

variable (call : Proc → Int → AeEventLoop Proc → App → Int × AeEventLoop Proc × App)

/-- One expiry: the procedure runs, and the timer is set again or deleted. -/
def fire (te : AeTimeEvent Proc) (eventLoop : AeEventLoop Proc) (app : App) :
    Except Fault (AeEventLoop Proc × App) := do
  let (retval, eventLoop, app) := call te.timeProc te.id eventLoop app
  if retval ≠ AE_NOMORE then
    let (due, eventLoop) := aeAddMillisecondsToNow clock eventLoop retval
    let eventLoop ← writeWhen eventLoop te.id due
    return (eventLoop, app)
  else
    let (_, eventLoop) := aeDeleteTimeEvent eventLoop te.id
    return (eventLoop, app)

/-- The loop of `processTimeEvents`. The walk restarts from the head after each expiry
and passes over the timers that were created since it began. -/
def timeEventsLoop (maxId : Int) :
    Nat → AeEventLoop Proc → App → List (AeTimeEvent Proc) → Nat →
      Except Fault (Nat × AeEventLoop Proc × App)
  | 0, _, _, _, _ => .error .divergence
  | _ + 1, eventLoop, app, [], processed => .ok (processed, eventLoop, app)
  | fuel + 1, eventLoop, app, te :: rest, processed =>
      if maxId < te.id then timeEventsLoop maxId fuel eventLoop app rest processed
      else do
        let (now, eventLoop) := aeGetTime clock eventLoop
        if now.reaches te.due then
          let (eventLoop, app) ← fire clock call te eventLoop app
          timeEventsLoop maxId fuel eventLoop app eventLoop.timeEventHead (processed + 1)
        else timeEventsLoop maxId fuel eventLoop app rest processed

def processTimeEvents (fuel : Nat) (eventLoop : AeEventLoop Proc) (app : App) :
    Except Fault (Nat × AeEventLoop Proc × App) :=
  timeEventsLoop clock call (eventLoop.timeEventNextId - 1) fuel eventLoop app
    eventLoop.timeEventHead 0

variable (fileProc : FileEvent → AeEventLoop Proc → App → AeEventLoop Proc × App)
  (exited : App → Bool)

/-- The file procedures of the polled events, one after another. A procedure that exits
the process is the last one. -/
def dispatch : List FileEvent → AeEventLoop Proc → App → AeEventLoop Proc × App
  | [], eventLoop, app => (eventLoop, app)
  | event :: events, eventLoop, app =>
      if exited app then (eventLoop, app)
      else
        let (eventLoop, app) := fileProc event eventLoop app
        dispatch events eventLoop app

/-- One round of `aeMain` with the file events that the poll returns. The clock is read
for the poll's timeout when there is a timer to wait for. -/
def aeProcessEvents (fuel : Nat) (polled : List FileEvent) (eventLoop : AeEventLoop Proc)
    (app : App) : Except Fault (Nat × AeEventLoop Proc × App) := do
  let eventLoop :=
    if eventLoop.timeEventHead.isEmpty then eventLoop else (aeGetTime clock eventLoop).2
  let (eventLoop, app) := dispatch fileProc exited polled eventLoop app
  if exited app then return (polled.length, eventLoop, app)
  let (processed, eventLoop, app) ← processTimeEvents clock call fuel eventLoop app
  return (polled.length + processed, eventLoop, app)

end

section Rules

variable {Proc App FileEvent : Type} {clock : Nat → AeTime}
  {call : Proc → Int → AeEventLoop Proc → App → Int × AeEventLoop Proc × App}
  {holds : AeEventLoop Proc → App → Prop}

theorem aeDeleteTimeEvent_listed {eventLoop : AeEventLoop Proc} {te : AeTimeEvent Proc}
    (listed : te ∈ eventLoop.timeEventHead)
    (distinct : (eventLoop.timeEventHead.map AeTimeEvent.id).Nodup) :
    ∃ rest, eventLoop.timeEventHead.Perm (te :: rest) ∧
      aeDeleteTimeEvent eventLoop te.id = (AE_OK, { eventLoop with timeEventHead := rest }) := by
  obtain ⟨found, earlier, later, _, same, split, erased⟩ :=
    List.exists_of_eraseP (p := fun other => decide (other.id = te.id)) listed (by simp)
  have foundListed : found ∈ eventLoop.timeEventHead := by simp [split]
  have unique : found = te :=
    List.inj_on_of_nodup_map distinct foundListed listed (of_decide_eq_true same)
  subst unique
  refine ⟨earlier ++ later, ?_, ?_⟩
  · rw [split]
    exact List.perm_middle
  · have present : (eventLoop.timeEventHead.any fun other => other.id = found.id) = true :=
      List.any_eq_true.mpr ⟨found, listed, by simp⟩
    simp only [aeDeleteTimeEvent, present, if_true, erased]

theorem writeWhen_listed (eventLoop : AeEventLoop Proc) {te : AeTimeEvent Proc} (due : AeTime)
    (listed : te ∈ eventLoop.timeEventHead) :
    ∃ reset, writeWhen eventLoop te.id due = .ok { eventLoop with timeEventHead := reset } ∧
      (reset.map fun other => (other.id, other.timeProc)) =
        eventLoop.timeEventHead.map fun other => (other.id, other.timeProc) := by
  have present : (eventLoop.timeEventHead.any fun other => other.id = te.id) = true :=
    List.any_eq_true.mpr ⟨te, listed, by simp⟩
  refine ⟨eventLoop.timeEventHead.map fun other =>
    if other.id = te.id then { other with due := due } else other, ?_, ?_⟩
  · simp only [writeWhen, present, if_true]
  · rw [List.map_map]
    apply List.map_congr_left
    intro other _
    by_cases same : other.id = te.id
    · simp [same]
    · simp [same]

/-- A property of the loop that looks at no clock. -/
def Timeless (holds : AeEventLoop Proc → App → Prop) : Prop :=
  ∀ eventLoop app clockReads, holds eventLoop app →
    holds { eventLoop with clockReads := clockReads } app

/-- The walk over the timers keeps what each expiry of a listed timer keeps. -/
theorem timeEventsLoop_keeps (timeless : Timeless holds)
    (expiry : ∀ te eventLoop app, holds eventLoop app → te ∈ eventLoop.timeEventHead →
      ∃ after appAfter, fire clock call te eventLoop app = .ok (after, appAfter) ∧
        holds after appAfter) (maxId : Int) (fuel : Nat)
    {eventLoop : AeEventLoop Proc} {app : App} {cursor : List (AeTimeEvent Proc)}
    (kept : holds eventLoop app) (listed : ∀ te ∈ cursor, te ∈ eventLoop.timeEventHead)
    (processed : Nat) :
    timeEventsLoop clock call maxId fuel eventLoop app cursor processed = .error .divergence ∨
      ∃ count after appAfter,
        timeEventsLoop clock call maxId fuel eventLoop app cursor processed =
          .ok (count, after, appAfter) ∧ holds after appAfter := by
  induction fuel generalizing eventLoop app cursor processed with
  | zero => exact .inl rfl
  | succ fuel ih =>
      cases cursor with
      | nil => exact .inr ⟨processed, eventLoop, app, rfl, kept⟩
      | cons te rest =>
          have restListed : ∀ other ∈ rest, other ∈ eventLoop.timeEventHead :=
            fun other member => listed other (List.mem_cons_of_mem _ member)
          have clocked := timeless eventLoop app (eventLoop.clockReads + 1) kept
          unfold timeEventsLoop
          by_cases new : maxId < te.id
          · simp only [if_pos new]
            exact ih kept restListed processed
          · by_cases due : (clock eventLoop.clockReads).reaches te.due
            · obtain ⟨after, appAfter, fired, keeps⟩ :=
                expiry te _ app clocked (listed te List.mem_cons_self)
              simp only [if_neg new, aeGetTime, due, if_true, fired, ok_bind]
              exact ih keeps (fun _ member => member) (processed + 1)
            · simp only [if_neg new, aeGetTime, due]
              exact ih clocked restListed processed

theorem dispatch_keeps {fileProc : FileEvent → AeEventLoop Proc → App → AeEventLoop Proc × App}
    (exited : App → Bool)
    (handled : ∀ event eventLoop app, holds eventLoop app →
      holds (fileProc event eventLoop app).1 (fileProc event eventLoop app).2)
    (polled : List FileEvent) {eventLoop : AeEventLoop Proc} {app : App}
    (kept : holds eventLoop app) :
    holds (dispatch fileProc exited polled eventLoop app).1
      (dispatch fileProc exited polled eventLoop app).2 := by
  induction polled generalizing eventLoop app with
  | nil => exact kept
  | cons event polled ih =>
      unfold dispatch
      split
      · exact kept
      · exact ih (handled event eventLoop app kept)

/-- So a whole round keeps it, unless its walk over the timers never ends. -/
theorem aeProcessEvents_keeps
    {fileProc : FileEvent → AeEventLoop Proc → App → AeEventLoop Proc × App}
    {exited : App → Bool} (timeless : Timeless holds)
    (expiry : ∀ te eventLoop app, holds eventLoop app → te ∈ eventLoop.timeEventHead →
      ∃ after appAfter, fire clock call te eventLoop app = .ok (after, appAfter) ∧
        holds after appAfter)
    (handled : ∀ event eventLoop app, holds eventLoop app →
      holds (fileProc event eventLoop app).1 (fileProc event eventLoop app).2)
    (fuel : Nat) (polled : List FileEvent) {eventLoop : AeEventLoop Proc} {app : App}
    (kept : holds eventLoop app) :
    aeProcessEvents clock call fileProc exited fuel polled eventLoop app = .error .divergence ∨
      ∃ count after appAfter,
        aeProcessEvents clock call fileProc exited fuel polled eventLoop app =
          .ok (count, after, appAfter) ∧ holds after appAfter := by
  have waited : holds
      (if eventLoop.timeEventHead.isEmpty then eventLoop else (aeGetTime clock eventLoop).2)
      app := by
    split
    · exact kept
    · exact timeless eventLoop app _ kept
  unfold aeProcessEvents
  generalize (if eventLoop.timeEventHead.isEmpty then eventLoop
    else (aeGetTime clock eventLoop).2) = started at waited
  have handledAll := dispatch_keeps exited handled polled waited
  rcases dispatched : dispatch fileProc exited polled started app with
    ⟨eventLoopAfter, appAfter⟩
  rw [dispatched] at handledAll
  by_cases ended : exited appAfter
  · exact .inr ⟨polled.length, eventLoopAfter, appAfter, by simp [dispatched, ended]; rfl, handledAll⟩
  · rcases timeEventsLoop_keeps timeless expiry (eventLoopAfter.timeEventNextId - 1) fuel
      handledAll (fun _ member => member) 0 with diverges | ⟨count, final, appFinal, ran, keeps⟩
    · refine .inl ?_
      simp [dispatched, ended, processTimeEvents, diverges]
    · refine .inr ⟨polled.length + count, final, appFinal, ?_, keeps⟩
      simp [dispatched, ended, processTimeEvents, ran]

end Rules

end IpcamSearch.EventLoop
