import IpcamSearch.TimerRuns
import IpcamSearch.WatchTimer

/-! The times at which the watch timers of `ipcam_search_pcv2.c` fire, and the end of every
round of its loop. -/

set_option autoImplicit false

namespace IpcamSearch.WatchSchedule

open Memory SearchPc EventLoop Console SearchPcLoop WatchTimer

/-- How far ahead each procedure's timer is set, in milliseconds. -/
def timerLead : TimeProc → Nat
  | .watchIpcamLinkClear => CHECK_IPCAM_CYCLE * 1000
  | .watchIpcamLinkTest => CHECK_IPCAM_CYCLE * 1000
  | .callbackListIpcam => 150

section

variable (host : Host)

theorem call_client :
    Client host.clock (TimeProc.call host) timerLead (CHECK_IPCAM_CYCLE * 1000) 1 where
  edits := by
    intro timeProc id eventLoop app
    cases timeProc with
    | watchIpcamLinkClear => exact .create .same _ _ le_rfl
    | watchIpcamLinkTest => exact .same
    | callbackListIpcam => exact .same
  reads := by
    intro timeProc id eventLoop app
    cases timeProc with
    | watchIpcamLinkClear => exact le_rfl
    | watchIpcamLinkTest => exact Nat.le_succ _
    | callbackListIpcam => exact Nat.le_succ _
  repeats := by
    intro timeProc id eventLoop app again
    cases timeProc with
    | watchIpcamLinkClear => exact absurd rfl again
    | watchIpcamLinkTest => exact ⟨le_rfl, le_rfl⟩
    | callbackListIpcam => exact absurd rfl again
  listed := by
    intro timeProc id eventLoop app again listed
    cases timeProc with
    | watchIpcamLinkClear => exact absurd rfl again
    | watchIpcamLinkTest => exact listed
    | callbackListIpcam => exact absurd rfl again

theorem call_fired (timeProc : TimeProc) (id : Int) (eventLoop : AeEventLoop TimeProc) (app : App) :
    (TimeProc.call host timeProc id eventLoop app).2.2.fired = app.fired ++ [(id, timeProc)] := by
  cases timeProc with
  | watchIpcamLinkClear => simp [TimeProc.call, SearchPcLoop.watchIpcamLinkClear]
  | watchIpcamLinkTest => simp [TimeProc.call, SearchPcLoop.watchIpcamLinkTest]
  | callbackListIpcam => simp [TimeProc.call, SearchPcLoop.callbackListIpcam]

theorem runCmdByString_edits {start eventLoop : AeEventLoop TimeProc}
    (edits : Edits host.clock timerLead start eventLoop) (cmdString : List UInt8) (app : App) :
    Edits host.clock timerLead start (runCmdByString host cmdString eventLoop app).1 := by
  unfold runCmdByString
  cases Command.ofString cmdString with
  | renew => exact .create edits _ _ le_rfl
  | search => exact .create edits _ _ le_rfl
  | list => exact edits
  | quit => exact edits
  | help => exact edits

theorem runCommands_edits {start eventLoop : AeEventLoop TimeProc}
    (edits : Edits host.clock timerLead start eventLoop) (commands : List (List UInt8)) (app : App) :
    Edits host.clock timerLead start (runCommands host commands eventLoop app).1 := by
  induction commands generalizing eventLoop app with
  | nil => exact edits
  | cons cmdString rest ih =>
      unfold runCommands
      split
      · exact edits
      · exact ih (runCmdByString_edits host edits cmdString app) _

theorem handle_edits (event : FileEvent) (eventLoop : AeEventLoop TimeProc) (app : App) :
    Edits host.clock timerLead eventLoop (event.handle host eventLoop app).1 := by
  cases event with
  | stdin piece =>
      simp only [FileEvent.handle, dealcmd]
      split
      · exact .same
      · exact runCommands_edits host .same _ app
  | server buf received => exact .same

theorem runCmdByString_fired (cmdString : List UInt8) (eventLoop : AeEventLoop TimeProc)
    (app : App) : (runCmdByString host cmdString eventLoop app).2.fired = app.fired := by
  unfold runCmdByString
  cases Command.ofString cmdString with
  | renew => simp [searchCommand]
  | search => simp [searchCommand]
  | list => simp
  | quit => simp [releaseExit]
  | help => simp

theorem runCommands_fired (commands : List (List UInt8)) (eventLoop : AeEventLoop TimeProc)
    (app : App) : (runCommands host commands eventLoop app).2.fired = app.fired := by
  induction commands generalizing eventLoop app with
  | nil => rfl
  | cons cmdString rest ih =>
      unfold runCommands
      split
      · rfl
      · exact (ih _ _).trans (runCmdByString_fired host cmdString eventLoop app)

theorem handle_fired (event : FileEvent) (eventLoop : AeEventLoop TimeProc) (app : App) :
    (event.handle host eventLoop app).2.fired = app.fired := by
  cases event with
  | stdin piece =>
      simp only [FileEvent.handle, dealcmd]
      split
      · rfl
      · exact runCommands_fired host _ eventLoop app
  | server buf received => simp [FileEvent.handle]

/-- The runs of the program with a log of its expiries. -/
abbrev LoggedRuns : AeEventLoop TimeProc → App → List (Expiry TimeProc) → Prop :=
  Logged host.clock (TimeProc.call host) (FileEvent.handle host) App.exited
    fun eventLoop app => ∃ heap, start host heap = .ok (eventLoop, app)

end

section Runs

variable {host : Host} {eventLoop : AeEventLoop TimeProc} {app : App}
  {log : List (Expiry TimeProc)} {before : List Timer}

theorem logged_iff : Reachable host eventLoop app ↔ ∃ log, LoggedRuns host eventLoop app log := by
  rw [LoggedRuns, ← runs_iff_logged]
  constructor
  · intro reached
    induction reached with
    | start heap started => exact .start ⟨heap, started⟩
    | iterate earlier running fuel polled iterated ih => exact .round ih running fuel polled iterated
  · intro runs
    induction runs with
    | start begun =>
        obtain ⟨heap, started⟩ := begun
        exact .start heap started
    | round earlier running fuel polled ran ih => exact .iterate ih running fuel polled ran

/-- The invariant of the logged runs, where the log begins behind these expiries. -/
structure WatchLog (before : List Timer) (eventLoop : AeEventLoop TimeProc) (app : App)
    (log : List (Expiry TimeProc)) : Prop where
  chain : WatchChain (WatchTimer.pending eventLoop) eventLoop.timeEventNextId app.fired app.commands
  logged : app.fired = before ++ log.map fun expiry => (expiry.id, expiry.timeProc)

theorem watchLog_keeps :
    KeepsChain host.clock (TimeProc.call host) (FileEvent.handle host) timerLead watches
      (WatchLog before) where
  edits := handle_edits host
  reading := fun kept => ⟨kept.chain, kept.logged⟩
  handled := fun {eventLoop app log} event kept =>
    ⟨(handle_since ⟨kept.chain, [], (List.append_nil _).symm, fun _ => rfl⟩ event).chain,
      (handle_fired host event eventLoop app).trans kept.logged⟩
  expiry := by
    intro te eventLoop app log after appAfter kept listed fired
    obtain ⟨_, _, again, since⟩ :=
      fire_since ⟨kept.chain, [], (List.append_nil _).symm, fun _ => rfl⟩ listed
    rw [fired] at again
    cases again
    refine ⟨since.chain, ?_⟩
    rw [fire_app fired, call_fired, kept.logged, List.map_append, List.append_assoc]
    rfl
  only := by
    intro eventLoop app log te other kept listed otherListed watch otherWatch
    obtain ⟨single, one⟩ := watchTimers_one kept.chain
    have first : te ∈ watchTimers eventLoop := List.mem_filter.mpr ⟨listed, watch⟩
    have second : other ∈ watchTimers eventLoop := List.mem_filter.mpr ⟨otherListed, otherWatch⟩
    rw [one, List.mem_singleton] at first second
    rw [first, second]

theorem watch_ticking (steady : Steady host.clock) (logged : LoggedRuns host eventLoop app log) :
    Ticking host.clock timerLead watches (WatchLog []) eventLoop (app, log) := by
  refine logged_ticking (call_client host) watchLog_keeps steady ?_ logged
  rintro eventLoop app ⟨heap, started⟩
  have chain := start_chain started
  unfold start at started
  obtain ⟨linked, _, started⟩ := of_bind_ok started
  cases started
  exact ⟨.create .same _ _ le_rfl, chain, rfl⟩

/-- The ticks of the watch timers are the logged ones. They lie at least a cycle apart by the
clock, and the first at least a cycle behind the start. -/
theorem watch_ticks_apart (steady : Steady host.clock) (reached : Reachable host eventLoop app) :
    ∃ log, LoggedRuns host eventLoop app log ∧
      app.fired = log.map (fun expiry => (expiry.id, expiry.timeProc)) ∧
      (log.filter fun expiry => watches expiry.timeProc).Pairwise (fun earlier later =>
        (host.clock earlier.reading).millis + CHECK_IPCAM_CYCLE * 1000 ≤
          (host.clock later.reading).millis) ∧
      ∀ tick ∈ log, watches tick.timeProc = true →
        (host.clock 0).millis + CHECK_IPCAM_CYCLE * 1000 ≤ (host.clock tick.reading).millis := by
  obtain ⟨log, logged⟩ := logged_iff.mp reached
  have ticking := watch_ticking steady logged
  have leads : ∀ expiry : Expiry TimeProc, watches expiry.timeProc = true →
      timerLead expiry.timeProc = CHECK_IPCAM_CYCLE * 1000 := by
    intro expiry watch
    cases proc : expiry.timeProc with
    | watchIpcamLinkClear => rfl
    | watchIpcamLinkTest => rfl
    | callbackListIpcam =>
        rw [proc] at watch
        cases watch
  refine ⟨log, logged, ticking.program.logged, ?_, ?_⟩
  · refine ticking.apart.apart.imp_of_mem ?_
    intro earlier later _ member apart
    rw [leads later (List.mem_filter.mp member).2] at apart
    exact apart
  · intro tick member watch
    have behind := ticking.apart.behindStart tick member watch
    rw [leads tick watch] at behind
    exact behind

theorem steady_tenSecondHost : Steady tenSecondHost.clock where
  normal := fun _ => ⟨le_rfl, show (0 : Int) < 1000 by decide⟩
  ordered := by
    intro reading
    simp only [tenSecondHost, AeTime.millis]
    omega

/-- The clear timer and then the test timer have fired. -/
theorem watch_ticks_apart_two : ∃ eventLoop app log, LoggedRuns tenSecondHost eventLoop app log ∧
    app.fired = [(0, .watchIpcamLinkClear), (1, .watchIpcamLinkTest)] ∧
    (log.filter fun expiry => watches expiry.timeProc).Pairwise fun earlier later =>
      (tenSecondHost.clock earlier.reading).millis + CHECK_IPCAM_CYCLE * 1000 ≤
        (tenSecondHost.clock later.reading).millis := by
  have started : Reachable tenSecondHost _ _ := .start ∅ rfl
  have first := Reachable.iterate started rfl 10 [] rfl
  have second := Reachable.iterate first rfl 10 [] rfl
  have third := Reachable.iterate second rfl 10 [] rfl
  have fourth := Reachable.iterate third rfl 10 [] rfl
  obtain ⟨log, logged, _, apart, _⟩ := watch_ticks_apart steady_tenSecondHost fourth
  exact ⟨_, _, log, logged, rfl, apart⟩

/-- The process of `tenSecondHost` with a clock that stands still. -/
def stillHost : Host := { tenSecondHost with clock := fun _ => ⟨0, 0⟩ }

end Runs

end IpcamSearch.WatchSchedule
