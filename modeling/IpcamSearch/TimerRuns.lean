import IpcamSearch.LoopHistory
import IpcamSearch.TimerPass

/-! Rounds of the event loop with a log of the expiries, and how far apart in time the
expiries of a chain of timers lie. -/

set_option autoImplicit false

namespace IpcamSearch.EventLoop

open Memory

variable {Proc App FileEvent : Type}

def recordedFile (fileProc : FileEvent → AeEventLoop Proc → App → AeEventLoop Proc × App)
    (event : FileEvent) (eventLoop : AeEventLoop Proc) (app : App × List (Expiry Proc)) :
    AeEventLoop Proc × App × List (Expiry Proc) :=
  let (after, appAfter) := fileProc event eventLoop app.1
  (after, appAfter, app.2)

section Recorded

variable (clock : Nat → AeTime)
  (call : Proc → Int → AeEventLoop Proc → App → Int × AeEventLoop Proc × App)
  (fileProc : FileEvent → AeEventLoop Proc → App → AeEventLoop Proc × App)
  (exited : App → Bool)

def recordedRound (fuel : Nat) (polled : List FileEvent) (eventLoop : AeEventLoop Proc)
    (app : App × List (Expiry Proc)) :
    Except Fault (Nat × AeEventLoop Proc × App × List (Expiry Proc)) :=
  aeProcessEvents clock (recorded call) (recordedFile fileProc) (fun app => exited app.1) fuel polled
    eventLoop app

theorem dispatch_recorded (polled : List FileEvent) (eventLoop : AeEventLoop Proc) (app : App)
    (log : List (Expiry Proc)) :
    dispatch (recordedFile fileProc) (fun app => exited app.1) polled eventLoop (app, log) =
      ((dispatch fileProc exited polled eventLoop app).1,
        (dispatch fileProc exited polled eventLoop app).2, log) := by
  induction polled generalizing eventLoop app with
  | nil => rfl
  | cons event polled ih =>
      unfold dispatch
      split
      · rfl
      · exact ih _ _

/-- A round does the same with and without the log. -/
theorem recordedRound_same (fuel : Nat) (polled : List FileEvent) (eventLoop : AeEventLoop Proc)
    (app : App) (log : List (Expiry Proc)) :
    (recordedRound clock call fileProc exited fuel polled eventLoop (app, log)).map
        (fun state => (state.1, state.2.1, state.2.2.1)) =
      aeProcessEvents clock call fileProc exited fuel polled eventLoop app := by
  unfold recordedRound aeProcessEvents
  simp only [dispatch_recorded]
  generalize dispatch fileProc exited polled (if eventLoop.timeEventHead.isEmpty then eventLoop
    else (aeGetTime clock eventLoop).2) app = dispatched
  obtain ⟨waited, appWaited⟩ := dispatched
  cases ended : exited appWaited with
  | true =>
      simp only [if_true]
      rfl
  | false =>
      have same := timeEventsLoop_recorded clock call (waited.timeEventNextId - 1) fuel waited
        appWaited log waited.timeEventHead 0
      simp only [Bool.false_eq_true, if_false, processTimeEvents, ← same]
      cases timeEventsLoop clock (recorded call) (waited.timeEventNextId - 1) fuel waited
        (appWaited, log) waited.timeEventHead 0 <;> rfl

end Recorded

section Rules

variable {clock : Nat → AeTime}
  {call : Proc → Int → AeEventLoop Proc → App → Int × AeEventLoop Proc × App}
  {holds : AeEventLoop Proc → App → Prop}

def ReadingKeeps (holds : AeEventLoop Proc → App → Prop) : Prop :=
  ∀ eventLoop app, holds eventLoop app →
    holds { eventLoop with clockReads := eventLoop.clockReads + 1 } app

/-- The expiry of a timer that the last clock reading found due keeps the property. -/
def DueKeeps (clock : Nat → AeTime)
    (call : Proc → Int → AeEventLoop Proc → App → Int × AeEventLoop Proc × App)
    (holds : AeEventLoop Proc → App → Prop) : Prop :=
  ∀ te eventLoop app, holds eventLoop app → te ∈ eventLoop.timeEventHead →
    0 < eventLoop.clockReads → (clock (eventLoop.clockReads - 1)).reaches te.due = true →
    ∃ after appAfter, fire clock call te eventLoop app = .ok (after, appAfter) ∧
      holds after appAfter

theorem timeEventsLoop_due (reading : ReadingKeeps holds) (expiry : DueKeeps clock call holds)
    (maxId : Int) (fuel : Nat) {eventLoop : AeEventLoop Proc} {app : App}
    {cursor : List (AeTimeEvent Proc)} (kept : holds eventLoop app)
    (listed : ∀ te ∈ cursor, te ∈ eventLoop.timeEventHead) (processed : Nat) :
    timeEventsLoop clock call maxId fuel eventLoop app cursor processed = .error .divergence ∨
      ∃ count after appAfter,
        timeEventsLoop clock call maxId fuel eventLoop app cursor processed =
          .ok (count, after, appAfter) ∧ holds after appAfter := by
  induction fuel generalizing eventLoop app cursor processed with
  | zero => exact .inl rfl
  | succ fuel ih =>
      cases cursor with
      | nil => exact .inr ⟨processed, eventLoop, app, rfl, kept⟩
      | cons te rest =>
          have restListed : ∀ other ∈ rest, other ∈ eventLoop.timeEventHead :=
            fun other member => listed other (List.mem_cons_of_mem _ member)
          have clocked := reading eventLoop app kept
          unfold timeEventsLoop
          by_cases new : maxId < te.id
          · simp only [if_pos new]
            exact ih kept restListed processed
          · by_cases due : (clock eventLoop.clockReads).reaches te.due
            · obtain ⟨after, appAfter, fired, keeps⟩ :=
                expiry te _ app clocked (listed te List.mem_cons_self) (Nat.succ_pos _) due
              simp only [if_neg new, aeGetTime, due, if_true, fired, ok_bind]
              exact ih keeps (fun _ member => member) (processed + 1)
            · simp only [if_neg new, aeGetTime, due]
              exact ih clocked restListed processed

/-- The rule for a round, where an expiry may count on its timer being due. -/
theorem aeProcessEvents_due
    {fileProc : FileEvent → AeEventLoop Proc → App → AeEventLoop Proc × App}
    {exited : App → Bool} (reading : ReadingKeeps holds) (expiry : DueKeeps clock call holds)
    (handled : ∀ event eventLoop app, holds eventLoop app →
      holds (fileProc event eventLoop app).1 (fileProc event eventLoop app).2)
    (fuel : Nat) (polled : List FileEvent) {eventLoop : AeEventLoop Proc} {app : App}
    (kept : holds eventLoop app) {count : Nat} {after : AeEventLoop Proc} {appAfter : App}
    (ran : aeProcessEvents clock call fileProc exited fuel polled eventLoop app =
      .ok (count, after, appAfter)) : holds after appAfter := by
  have waited : holds
      (if eventLoop.timeEventHead.isEmpty then eventLoop else (aeGetTime clock eventLoop).2)
      app := by
    split
    · exact kept
    · exact reading eventLoop app kept
  unfold aeProcessEvents at ran
  generalize (if eventLoop.timeEventHead.isEmpty then eventLoop
    else (aeGetTime clock eventLoop).2) = started at waited ran
  have handledAll := dispatch_keeps exited handled polled waited
  rcases dispatched : dispatch fileProc exited polled started app with ⟨eventLoopAfter, appEnd⟩
  rw [dispatched] at handledAll
  simp only [dispatched] at ran
  cases ended : exited appEnd with
  | true =>
      simp only [ended, if_true] at ran
      cases ran
      exact handledAll
  | false =>
      simp only [ended, Bool.false_eq_true, if_false] at ran
      obtain ⟨⟨processed, final, appFinal⟩, passed, returned⟩ := of_bind_ok ran
      cases returned
      rcases timeEventsLoop_due reading expiry (eventLoopAfter.timeEventNextId - 1) fuel handledAll
        (fun _ member => member) 0 with diverges | ⟨_, _, _, same, keeps⟩
      · rw [processTimeEvents, diverges] at passed
        cases passed
      · rw [processTimeEvents, same] at passed
        cases passed
        exact keeps

end Rules

section Ends

variable {clock : Nat → AeTime} {lead : Proc → Nat} {shortest perCall : Nat}
  {call : Proc → Int → AeEventLoop Proc → App → Int × AeEventLoop Proc × App}
  {fileProc : FileEvent → AeEventLoop Proc → App → AeEventLoop Proc × App}
  {exited : App → Bool}

theorem dispatch_edits
    (handled : ∀ event eventLoop app, Edits clock lead eventLoop (fileProc event eventLoop app).1)
    (polled : List FileEvent) (eventLoop : AeEventLoop Proc) (app : App) :
    Edits clock lead eventLoop (dispatch fileProc exited polled eventLoop app).1 := by
  induction polled generalizing eventLoop app with
  | nil => exact .same
  | cons event polled ih =>
      unfold dispatch
      split
      · exact .same
      · exact (handled event eventLoop app).trans (ih _ _)

/-- The state in which a round begins its pass over the timers. -/
def polledState (clock : Nat → AeTime)
    (fileProc : FileEvent → AeEventLoop Proc → App → AeEventLoop Proc × App)
    (exited : App → Bool) (polled : List FileEvent) (eventLoop : AeEventLoop Proc) (app : App) :
    AeEventLoop Proc × App :=
  dispatch fileProc exited polled
    (if eventLoop.timeEventHead.isEmpty then eventLoop else (aeGetTime clock eventLoop).2) app

end Ends

/-- Timers of the chain lie ahead of every logged expiry of the chain by their lead, and so
do its expiries among each other. -/
structure Apart (clock : Nat → AeTime) (lead : Proc → Nat) (inChain : Proc → Bool)
    (eventLoop : AeEventLoop Proc) (log : List (Expiry Proc)) : Prop where
  past : ∀ expiry ∈ log, expiry.reading < eventLoop.clockReads
  aheadOfStart : ∀ te ∈ eventLoop.timeEventHead, inChain te.timeProc = true →
    (clock 0).millis + lead te.timeProc ≤ te.due.millis
  ahead : ∀ te ∈ eventLoop.timeEventHead, inChain te.timeProc = true →
    ∀ expiry ∈ log, inChain expiry.timeProc = true →
      (clock expiry.reading).millis + lead te.timeProc ≤ te.due.millis
  behindStart : ∀ expiry ∈ log, inChain expiry.timeProc = true →
    (clock 0).millis + lead expiry.timeProc ≤ (clock expiry.reading).millis
  apart : (log.filter fun expiry => inChain expiry.timeProc).Pairwise fun earlier later =>
    (clock earlier.reading).millis + lead later.timeProc ≤ (clock later.reading).millis

namespace Apart

variable {clock : Nat → AeTime} {lead : Proc → Nat} {shortest : Nat} {inChain : Proc → Bool}
  {eventLoop after : AeEventLoop Proc} {log : List (Expiry Proc)}

theorem reading (apart : Apart clock lead inChain eventLoop log) :
    Apart clock lead inChain { eventLoop with clockReads := eventLoop.clockReads + 1 } log where
  past := fun expiry member => Nat.lt_succ_of_lt (apart.past expiry member)
  aheadOfStart := apart.aheadOfStart
  ahead := apart.ahead
  behindStart := apart.behindStart
  apart := apart.apart

theorem set_ahead (steady : Steady clock) {te : AeTimeEvent Proc}
    (set : SetSince clock lead eventLoop after te) {reading : Nat}
    (earlier : reading ≤ eventLoop.clockReads) :
    (clock reading).millis + lead te.timeProc ≤ te.due.millis := by
  obtain ⟨last, milliseconds, since, _, far, due⟩ := set
  have order := steady.later (earlier.trans since)
  rw [due, AeTime.millis_add]
  omega

theorem edits (steady : Steady clock) (apart : Apart clock lead inChain eventLoop log)
    (edits : Edits clock lead eventLoop after) : Apart clock lead inChain after log := by
  obtain ⟨_, readings, old⟩ := edits.grows
  constructor
  · exact fun expiry member => (apart.past expiry member).trans_le readings
  · intro te listed chained
    rcases old te listed with stayed | ⟨_, set⟩
    · exact apart.aheadOfStart te stayed chained
    · exact set_ahead steady set (Nat.zero_le _)
  · intro te listed chained expiry member
    rcases old te listed with stayed | ⟨_, set⟩
    · exact apart.ahead te stayed chained expiry member
    · exact fun _ => set_ahead steady set (Nat.le_of_lt (apart.past expiry member))
  · exact apart.behindStart
  · exact apart.apart

/-- An expiry keeps this as long as the chain never has a second pending timer. -/
theorem fire (steady : Steady clock) (apart : Apart clock lead inChain eventLoop log)
    (pending : Pending eventLoop) {te : AeTimeEvent Proc} (listed : te ∈ eventLoop.timeEventHead)
    (only : inChain te.timeProc = true → ∀ other ∈ eventLoop.timeEventHead,
      inChain other.timeProc = true → other.id = te.id)
    (read : 0 < eventLoop.clockReads)
    (reached : (clock (eventLoop.clockReads - 1)).reaches te.due = true)
    (readings : eventLoop.clockReads ≤ after.clockReads)
    (left : ∀ other ∈ after.timeEventHead, LeftBy clock lead shortest te eventLoop after other) :
    Apart clock lead inChain after
      (log ++ [{ id := te.id, timeProc := te.timeProc, reading := eventLoop.clockReads - 1 }]) := by
  have due := (AeTime.reaches_iff (steady.normal _) (pending.normal te listed)).mp reached
  constructor
  · intro expiry member
    rcases List.mem_append.mp member with inside | last
    · exact (apart.past expiry inside).trans_le readings
    · cases List.mem_singleton.mp last
      exact (Nat.sub_lt read Nat.one_pos).trans_le readings
  · intro other member chained
    rcases left other member with ⟨stayed, _⟩ | ⟨set, _⟩
    · exact apart.aheadOfStart other stayed chained
    · exact set_ahead steady set (Nat.zero_le _)
  · intro other member chained expiry inside chainedExpiry
    rcases left other member with ⟨stayed, different⟩ | ⟨set, _⟩
    · rcases List.mem_append.mp inside with inside | last
      · exact apart.ahead other stayed chained expiry inside chainedExpiry
      · cases List.mem_singleton.mp last
        exact absurd (only chainedExpiry other stayed chained) different
    · refine set_ahead steady set ?_
      rcases List.mem_append.mp inside with inside | last
      · exact Nat.le_of_lt (apart.past expiry inside)
      · cases List.mem_singleton.mp last
        exact Nat.sub_le _ _
  · intro expiry member chained
    rcases List.mem_append.mp member with inside | last
    · exact apart.behindStart expiry inside chained
    · cases List.mem_singleton.mp last
      exact (apart.aheadOfStart te listed chained).trans due
  · rw [List.filter_append]
    refine List.pairwise_append.mpr ⟨apart.apart, ?_, ?_⟩
    · cases chained : inChain te.timeProc <;> simp [chained]
    · intro earlier member later last
      obtain ⟨inside, chained⟩ := List.mem_filter.mp member
      obtain ⟨single, chainedTe⟩ := List.mem_filter.mp last
      cases List.mem_singleton.mp single
      exact (apart.ahead te listed chainedTe earlier inside chained).trans due

end Apart

section Runs

variable (clock : Nat → AeTime)
  (call : Proc → Int → AeEventLoop Proc → App → Int × AeEventLoop Proc × App)
  (fileProc : FileEvent → AeEventLoop Proc → App → AeEventLoop Proc × App)
  (exited : App → Bool) (started : AeEventLoop Proc → App → Prop)

/-- The runs of a program on the loop. -/
inductive Runs : AeEventLoop Proc → App → Prop where
  | start {eventLoop : AeEventLoop Proc} {app : App} (begun : started eventLoop app) :
      Runs eventLoop app
  | round {eventLoop after : AeEventLoop Proc} {app appAfter : App} {count : Nat}
      (earlier : Runs eventLoop app) (running : exited app = false) (fuel : Nat)
      (polled : List FileEvent)
      (ran : aeProcessEvents clock call fileProc exited fuel polled eventLoop app =
        .ok (count, after, appAfter)) : Runs after appAfter

/-- The same runs with a log of their expiries. -/
inductive Logged : AeEventLoop Proc → App → List (Expiry Proc) → Prop where
  | start {eventLoop : AeEventLoop Proc} {app : App} (begun : started eventLoop app) :
      Logged eventLoop app []
  | round {eventLoop after : AeEventLoop Proc} {app appAfter : App} {count : Nat}
      {log logAfter : List (Expiry Proc)} (earlier : Logged eventLoop app log)
      (running : exited app = false) (fuel : Nat) (polled : List FileEvent)
      (ran : recordedRound clock call fileProc exited fuel polled eventLoop (app, log) =
        .ok (count, after, appAfter, logAfter)) : Logged after appAfter logAfter

theorem Arrived.runs {Arrival : Type} {event : Arrival → FileEvent} {eventLoop : AeEventLoop Proc}
    {app : App} {arrivals : List Arrival}
    (reached : Arrived clock call fileProc exited started event eventLoop app arrivals) :
    Runs clock call fileProc exited started eventLoop app := by
  induction reached with
  | start begun => exact .start begun
  | round earlier running fuel arrivals ran ih => exact .round ih running fuel _ ran

/-- Every run has such a log. -/
theorem runs_iff_logged {eventLoop : AeEventLoop Proc} {app : App} :
    Runs clock call fileProc exited started eventLoop app ↔
      ∃ log, Logged clock call fileProc exited started eventLoop app log := by
  constructor
  · intro runs
    induction runs with
    | start begun => exact ⟨[], .start begun⟩
    | round earlier running fuel polled ran ih =>
        obtain ⟨log, logged⟩ := ih
        rw [← recordedRound_same _ _ _ _ _ _ _ _ log] at ran
        obtain ⟨⟨total, final, appFinal, logAfter⟩, recordedRun, same⟩ := of_map_ok ran
        cases same
        exact ⟨logAfter, .round logged running fuel polled recordedRun⟩
  · rintro ⟨log, logged⟩
    induction logged with
    | start begun => exact .start begun
    | @round eventLoop after app appAfter count log logAfter earlier running fuel polled ran ih =>
        refine @Runs.round _ _ _ _ _ _ _ _ _ _ _ _ count ih running fuel polled ?_
        rw [← recordedRound_same _ _ _ _ _ _ _ _ log, ran]
        rfl

end Runs

/-- What a program has to keep for the expiries of its chain to lie apart: a property of its
states under which the chain has no second pending timer. -/
structure KeepsChain (clock : Nat → AeTime)
    (call : Proc → Int → AeEventLoop Proc → App → Int × AeEventLoop Proc × App)
    (fileProc : FileEvent → AeEventLoop Proc → App → AeEventLoop Proc × App)
    (lead : Proc → Nat) (inChain : Proc → Bool)
    (holds : AeEventLoop Proc → App → List (Expiry Proc) → Prop) : Prop where
  edits : ∀ event eventLoop app, Edits clock lead eventLoop (fileProc event eventLoop app).1
  reading : ∀ {eventLoop app log}, holds eventLoop app log →
    holds { eventLoop with clockReads := eventLoop.clockReads + 1 } app log
  handled : ∀ {eventLoop app log} event, holds eventLoop app log →
    holds (fileProc event eventLoop app).1 (fileProc event eventLoop app).2 log
  expiry : ∀ {te eventLoop app log after appAfter}, holds eventLoop app log →
    te ∈ eventLoop.timeEventHead → fire clock call te eventLoop app = .ok (after, appAfter) →
    holds after appAfter
      (log ++ [{ id := te.id, timeProc := te.timeProc, reading := eventLoop.clockReads - 1 }])
  only : ∀ {eventLoop app log te other}, holds eventLoop app log →
    te ∈ eventLoop.timeEventHead → other ∈ eventLoop.timeEventHead →
    inChain te.timeProc = true → inChain other.timeProc = true → other.id = te.id

structure Ticking (clock : Nat → AeTime) (lead : Proc → Nat) (inChain : Proc → Bool)
    (holds : AeEventLoop Proc → App → List (Expiry Proc) → Prop) (eventLoop : AeEventLoop Proc)
    (app : App × List (Expiry Proc)) : Prop where
  program : holds eventLoop app.1 app.2
  pending : Pending eventLoop
  apart : Apart clock lead inChain eventLoop app.2

section Ticking

variable {clock : Nat → AeTime} {lead : Proc → Nat} {shortest perCall : Nat} {inChain : Proc → Bool}
  {call : Proc → Int → AeEventLoop Proc → App → Int × AeEventLoop Proc × App}
  {fileProc : FileEvent → AeEventLoop Proc → App → AeEventLoop Proc × App}
  {exited : App → Bool} {started : AeEventLoop Proc → App → Prop}
  {holds : AeEventLoop Proc → App → List (Expiry Proc) → Prop}
  {eventLoop after : AeEventLoop Proc} {app appAfter : App} {log logAfter : List (Expiry Proc)}

theorem ticking_due (client : Client clock call lead shortest perCall)
    (keeps : KeepsChain clock call fileProc lead inChain holds) (steady : Steady clock) :
    DueKeeps clock (recorded call) (Ticking clock lead inChain holds) := by
  rintro te eventLoop ⟨app, log⟩ ticking listed read reached
  obtain ⟨after, appAfter, fired, pending, ids, readings, _, left⟩ :=
    fire_client client steady ticking.pending listed app
  refine ⟨after, _, by rw [fire_recorded, fired]; rfl,
    keeps.expiry ticking.program listed fired, pending, ?_⟩
  exact ticking.apart.fire steady ticking.pending listed
    (fun chained other otherListed otherChained =>
      keeps.only ticking.program listed otherListed chained otherChained)
    read reached readings left

theorem ticking_round (client : Client clock call lead shortest perCall)
    (keeps : KeepsChain clock call fileProc lead inChain holds) (steady : Steady clock)
    {fuel count : Nat} {polled : List FileEvent}
    (ticking : Ticking clock lead inChain holds eventLoop (app, log))
    (ran : recordedRound clock call fileProc exited fuel polled eventLoop (app, log) =
      .ok (count, after, appAfter, logAfter)) :
    Ticking clock lead inChain holds after (appAfter, logAfter) := by
  have reading : ReadingKeeps (Ticking clock lead inChain holds) := fun _ _ kept =>
    ⟨keeps.reading kept.program,
      ⟨kept.pending.distinct, kept.pending.issued, kept.pending.normal⟩, kept.apart.reading⟩
  refine aeProcessEvents_due reading (ticking_due client keeps steady) ?_ fuel polled ticking ran
  intro event loop state kept
  have edits := keeps.edits event loop state.1
  exact ⟨keeps.handled event kept.program, edits.pending steady kept.pending,
    kept.apart.edits steady edits⟩

/-- The program begins with timers that it created on a new loop. -/
theorem ticking_start (steady : Steady clock)
    (edits : Edits clock lead (aeCreateEventLoop Proc) eventLoop) (kept : holds eventLoop app []) :
    Ticking clock lead inChain holds eventLoop (app, []) := by
  have nothing : Apart clock lead inChain (aeCreateEventLoop Proc) [] :=
    ⟨fun _ member => absurd member List.not_mem_nil, fun _ member => absurd member List.not_mem_nil,
      fun _ member => absurd member List.not_mem_nil, fun _ member => absurd member List.not_mem_nil,
      List.Pairwise.nil⟩
  refine ⟨kept, edits.pending steady ⟨List.nodup_nil, ?_, ?_⟩, nothing.edits steady edits⟩
  · exact fun _ member => absurd member List.not_mem_nil
  · exact fun _ member => absurd member List.not_mem_nil

theorem logged_ticking (client : Client clock call lead shortest perCall)
    (keeps : KeepsChain clock call fileProc lead inChain holds) (steady : Steady clock)
    (begins : ∀ eventLoop app, started eventLoop app →
      Edits clock lead (aeCreateEventLoop Proc) eventLoop ∧ holds eventLoop app [])
    (logged : Logged clock call fileProc exited started eventLoop app log) :
    Ticking clock lead inChain holds eventLoop (app, log) := by
  induction logged with
  | start begun =>
      obtain ⟨edits, kept⟩ := begins _ _ begun
      exact ticking_start steady edits kept
  | round earlier running fuel polled ran ih => exact ticking_round client keeps steady ih ran

/-- The log can begin anew at any state of a run. -/
theorem Ticking.anew {recent : AeEventLoop Proc → App → List (Expiry Proc) → Prop}
    (ticking : Ticking clock lead inChain holds eventLoop (app, log)) (kept : recent eventLoop app []) :
    Ticking clock lead inChain recent eventLoop (app, []) where
  program := kept
  pending := ticking.pending
  apart := ⟨fun _ member => absurd member List.not_mem_nil, ticking.apart.aheadOfStart,
    fun _ _ _ _ member => absurd member List.not_mem_nil,
    fun _ member => absurd member List.not_mem_nil, List.Pairwise.nil⟩

end Ticking

end IpcamSearch.EventLoop
