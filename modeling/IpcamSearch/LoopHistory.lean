import IpcamSearch.EventLoop

/-! How a program on the event loop is compared with what it is for: its rounds are told as
a history, which its file events and its timers make longer one entry after another. -/

set_option autoImplicit false

namespace IpcamSearch.EventLoop

open Memory

variable {Proc App FileEvent Arrival Entry Note : Type}

section

variable (clock : Nat → AeTime)
  (call : Proc → Int → AeEventLoop Proc → App → Int × AeEventLoop Proc × App)
  (fileProc : FileEvent → AeEventLoop Proc → App → AeEventLoop Proc × App)
  (exited : App → Bool) (started : AeEventLoop Proc → App → Prop) (event : Arrival → FileEvent)

/-- The states between the iterations, with everything that the polls returned so far. -/
inductive Arrived : AeEventLoop Proc → App → List Arrival → Prop where
  | start {eventLoop : AeEventLoop Proc} {app : App} (begun : started eventLoop app) :
      Arrived eventLoop app []
  | round {eventLoop after : AeEventLoop Proc} {app appAfter : App} {count : Nat}
      {earlier : List Arrival} (reached : Arrived eventLoop app earlier)
      (running : exited app = false) (fuel : Nat) (arrivals : List Arrival)
      (ran : aeProcessEvents clock call fileProc exited fuel (arrivals.map event) eventLoop app =
        .ok (count, after, appAfter)) : Arrived after appAfter (earlier ++ arrivals)

/-- The entries of the history that a file event adds bring its note, and the one that an
expiry adds brings none. -/
structure Follower (brings : Arrival → Option Note) (notes : Entry → Option Note)
    (follows : List Entry → AeEventLoop Proc → App → Prop) : Prop where
  timeless : ∀ {history eventLoop app} clockReads, follows history eventLoop app →
    follows history { eventLoop with clockReads := clockReads } app
  handled : ∀ {history eventLoop app}, follows history eventLoop app → exited app = false →
    ∀ arrival, ∃ recent, recent.filterMap notes = (brings arrival).toList ∧
      follows (history ++ recent) (fileProc (event arrival) eventLoop app).1
        (fileProc (event arrival) eventLoop app).2
  fired : ∀ {history eventLoop app te}, follows history eventLoop app → exited app = false →
    te ∈ eventLoop.timeEventHead →
    ∃ after appAfter entry, fire clock call te eventLoop app = .ok (after, appAfter) ∧
      exited appAfter = false ∧ notes entry = none ∧ follows (history ++ [entry]) after appAfter

end

namespace Follower

variable {clock : Nat → AeTime}
  {call : Proc → Int → AeEventLoop Proc → App → Int × AeEventLoop Proc × App}
  {fileProc : FileEvent → AeEventLoop Proc → App → AeEventLoop Proc × App}
  {exited : App → Bool} {started : AeEventLoop Proc → App → Prop} {event : Arrival → FileEvent}
  {brings : Arrival → Option Note} {notes : Entry → Option Note}
  {follows : List Entry → AeEventLoop Proc → App → Prop}
  {eventLoop after : AeEventLoop Proc} {app appAfter : App} {history : List Entry}

/-- What a part of a run adds to the history. After an exit the rest of the arrivals is
not handled. -/
structure Adds (exited : App → Bool) (brings : Arrival → Option Note) (notes : Entry → Option Note)
    (follows : List Entry → AeEventLoop Proc → App → Prop) (history : List Entry)
    (arrivals : List Arrival) (after : AeEventLoop Proc) (appAfter : App) (recent : List Entry) :
    Prop where
  follows : follows (history ++ recent) after appAfter
  part : recent.filterMap notes <+: arrivals.filterMap brings
  whole : exited appAfter = false → recent.filterMap notes = arrivals.filterMap brings

theorem brings_cons (brings : Arrival → Option Note) (arrival : Arrival) (arrivals : List Arrival) :
    (arrival :: arrivals).filterMap brings = (brings arrival).toList ++ arrivals.filterMap brings := by
  rw [List.filterMap_cons]
  cases brings arrival <;> rfl

theorem dispatch_adds
    (follower : Follower clock call fileProc exited event brings notes follows)
    (followed : follows history eventLoop app) (arrivals : List Arrival)
    (dispatched : dispatch fileProc exited (arrivals.map event) eventLoop app = (after, appAfter)) :
    ∃ recent, Adds exited brings notes follows history arrivals after appAfter recent := by
  induction arrivals generalizing history eventLoop app with
  | nil =>
      cases dispatched
      exact ⟨[], by rwa [List.append_nil], List.nil_prefix, fun _ => rfl⟩
  | cons arrival arrivals ih =>
      rw [List.map_cons, dispatch] at dispatched
      cases running : exited app with
      | true =>
          simp only [running, if_true] at dispatched
          cases dispatched
          refine ⟨[], by rwa [List.append_nil], List.nil_prefix, fun still => ?_⟩
          rw [running] at still
          cases still
      | false =>
          simp only [running, Bool.false_eq_true, if_false] at dispatched
          obtain ⟨first, noted, followedFirst⟩ := follower.handled followed running arrival
          obtain ⟨rest, adds⟩ := ih followedFirst dispatched
          refine ⟨first ++ rest, ?_, ?_, fun still => ?_⟩
          · rw [← List.append_assoc]
            exact adds.follows
          · rw [List.filterMap_append, brings_cons, noted]
            exact (List.prefix_append_right_inj _).mpr adds.part
          · rw [List.filterMap_append, brings_cons, noted, adds.whole still]

/-- The pass over the timers adds expiries and no notes. -/
theorem pass_adds (follower : Follower clock call fileProc exited event brings notes follows)
    (followed : follows history eventLoop app) (running : exited app = false) {fuel count : Nat}
    (passed : processTimeEvents clock call fuel eventLoop app = .ok (count, after, appAfter)) :
    ∃ expired, expired.filterMap notes = [] ∧ follows (history ++ expired) after appAfter := by
  let holds : AeEventLoop Proc → App → Prop := fun eventLoop app =>
    exited app = false ∧
      ∃ expired, expired.filterMap notes = [] ∧ follows (history ++ expired) eventLoop app
  have timeless : Timeless holds := by
    rintro loop state clockReads ⟨still, expired, quiet, kept⟩
    exact ⟨still, expired, quiet, follower.timeless clockReads kept⟩
  have expiry : ∀ te loop state, holds loop state → te ∈ loop.timeEventHead →
      ∃ next stateNext, fire clock call te loop state = .ok (next, stateNext) ∧
        holds next stateNext := by
    rintro te loop state ⟨still, expired, quiet, kept⟩ listed
    obtain ⟨next, stateNext, entry, fired, runs, silent, keeps⟩ := follower.fired kept still listed
    refine ⟨next, stateNext, fired, runs, expired ++ [entry], ?_, ?_⟩
    · rw [List.filterMap_append, quiet, List.filterMap_cons_none silent]
      rfl
    · rwa [← List.append_assoc]
  rcases timeEventsLoop_keeps timeless expiry (eventLoop.timeEventNextId - 1) fuel
    (⟨running, [], rfl, by rwa [List.append_nil]⟩ : holds eventLoop app)
    (fun _ member => member) 0 with diverges | ⟨_, _, _, same, _, expired, quiet, kept⟩
  · rw [processTimeEvents, diverges] at passed
    cases passed
  · rw [processTimeEvents, same] at passed
    cases passed
    exact ⟨expired, quiet, kept⟩

theorem round_adds (follower : Follower clock call fileProc exited event brings notes follows)
    (followed : follows history eventLoop app) (arrivals : List Arrival) {fuel count : Nat}
    (ran : aeProcessEvents clock call fileProc exited fuel (arrivals.map event) eventLoop app =
      .ok (count, after, appAfter)) :
    ∃ recent, Adds exited brings notes follows history arrivals after appAfter recent := by
  have waited : follows history
      (if eventLoop.timeEventHead.isEmpty then eventLoop else (aeGetTime clock eventLoop).2) app := by
    split
    · exact followed
    · exact follower.timeless _ followed
  unfold aeProcessEvents at ran
  generalize (if eventLoop.timeEventHead.isEmpty then eventLoop
    else (aeGetTime clock eventLoop).2) = polling at waited ran
  rcases dispatched : dispatch fileProc exited (arrivals.map event) polling app with
    ⟨handled, appHandled⟩
  obtain ⟨recent, adds⟩ := follower.dispatch_adds waited arrivals dispatched
  simp only [dispatched] at ran
  cases still : exited appHandled with
  | true =>
      simp only [still, if_true] at ran
      cases ran
      exact ⟨recent, adds⟩
  | false =>
      simp only [still, Bool.false_eq_true, if_false] at ran
      obtain ⟨⟨processed, final, appFinal⟩, passed, returned⟩ := of_bind_ok ran
      cases returned
      obtain ⟨expired, quiet, kept⟩ := follower.pass_adds adds.follows still passed
      refine ⟨recent ++ expired, ?_, ?_, fun _ => ?_⟩
      · rwa [← List.append_assoc]
      · rw [List.filterMap_append, quiet, List.append_nil]
        exact adds.part
      · rw [List.filterMap_append, quiet, List.append_nil, adds.whole still]

/-- Every run follows a history in which the notes stand in the order of arrival. -/
theorem run_follows (follower : Follower clock call fileProc exited event brings notes follows)
    (begins : ∀ eventLoop app, started eventLoop app → follows [] eventLoop app)
    {arrivals : List Arrival}
    (reached : Arrived clock call fileProc exited started event eventLoop app arrivals) :
    ∃ history, Adds exited brings notes follows [] arrivals eventLoop app history := by
  induction reached with
  | start begun => exact ⟨[], begins _ _ begun, List.nil_prefix, fun _ => rfl⟩
  | round earlier running fuel arrivals ran ih =>
      obtain ⟨history, adds⟩ := ih
      obtain ⟨recent, next⟩ := follower.round_adds adds.follows arrivals ran
      refine ⟨history ++ recent, next.follows, ?_, fun still => ?_⟩
      · rw [List.filterMap_append, List.filterMap_append, adds.whole running]
        exact (List.prefix_append_right_inj _).mpr next.part
      · rw [List.filterMap_append, List.filterMap_append, adds.whole running, next.whole still]

end Follower

end IpcamSearch.EventLoop
