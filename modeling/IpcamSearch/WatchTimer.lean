import IpcamSearch.SearchPcLoop

/-! The timers of `ipcam_search_pcv2.c` over whole runs: the chain of watch timers and the
one-shot timers that list the cameras. -/

set_option autoImplicit false

namespace IpcamSearch.WatchTimer

open Memory SearchPc EventLoop Console SearchPcLoop

def watches (timeProc : TimeProc) : Bool := timeProc ≠ .callbackListIpcam

/-- A command that starts a listing timer. -/
def searches (cmdString : List UInt8) : Bool :=
  Command.ofString cmdString = .search ∨ Command.ofString cmdString = .renew

/-- A timer or an expiry without its time. -/
abbrev Timer := Int × TimeProc

def watchProcs (timers : List Timer) : List TimeProc := (timers.map Prod.snd).filter watches

def listings (timers : List Timer) : List Timer := timers.filter fun timer => ¬ watches timer.2

def pending (eventLoop : AeEventLoop TimeProc) : List Timer :=
  eventLoop.timeEventHead.map fun te => (te.id, te.timeProc)

def watchTimers (eventLoop : AeEventLoop TimeProc) : List (AeTimeEvent TimeProc) :=
  eventLoop.timeEventHead.filter fun te => watches te.timeProc

/-- The invariant of all runs, over the pending timers, the next id, the expiries so far
and the commands so far. -/
structure WatchChain (timers : List Timer) (nextId : Int) (fired : List Timer)
    (commands : List (List UInt8)) : Prop where
  phase : watchProcs timers = [.watchIpcamLinkClear] ∧ watchProcs fired = [] ∨
    watchProcs timers = [.watchIpcamLinkTest] ∧ ∃ count, watchProcs fired =
      .watchIpcamLinkClear :: List.replicate count .watchIpcamLinkTest
  counted : (listings timers).length + (listings fired).length = commands.countP searches
  distinct : ((timers ++ listings fired).map Prod.fst).Nodup
  issued : ∀ timer ∈ timers ++ listings fired, timer.1 < nextId

section Lists

variable {timers others fired : List Timer} {id : Int} {timeProc : TimeProc}

theorem watchProcs_perm (same : timers.Perm others) :
    (watchProcs timers).Perm (watchProcs others) := (same.map _).filter _

theorem listings_perm (same : timers.Perm others) :
    (listings timers).Perm (listings others) := same.filter _

theorem watchProcs_append : watchProcs (timers ++ others) =
    watchProcs timers ++ watchProcs others := by simp [watchProcs]

theorem listings_append : listings (timers ++ others) = listings timers ++ listings others := by
  simp [listings]

theorem watchProcs_watch (watch : watches timeProc = true) :
    watchProcs ((id, timeProc) :: timers) = timeProc :: watchProcs timers := by
  simp [watchProcs, watch]

theorem watchProcs_listing (listing : watches timeProc = false) :
    watchProcs ((id, timeProc) :: timers) = watchProcs timers := by
  simp [watchProcs, listing]

theorem listings_watch (watch : watches timeProc = true) :
    listings ((id, timeProc) :: timers) = listings timers := by
  simp [listings, watch]

theorem listings_listing (listing : watches timeProc = false) :
    listings ((id, timeProc) :: timers) = (id, timeProc) :: listings timers := by
  simp [listings, listing]

end Lists

namespace WatchChain

variable {timers after fired : List Timer} {nextId id : Int} {commands : List (List UInt8)}

theorem fresh (chain : WatchChain timers nextId fired commands) (timeProc : TimeProc) :
    (((nextId, timeProc) :: (timers ++ listings fired)).map Prod.fst).Nodup := by
  rw [List.map_cons, List.nodup_cons]
  refine ⟨fun used => ?_, chain.distinct⟩
  obtain ⟨timer, member, same⟩ := List.mem_map.mp used
  have older := chain.issued timer member
  rw [same] at older
  exact Int.lt_irrefl _ older

theorem issued_next (chain : WatchChain timers nextId fired commands) (timeProc : TimeProc) :
    ∀ timer ∈ (nextId, timeProc) :: (timers ++ listings fired), timer.1 < nextId + 1 := by
  intro timer member
  rcases List.mem_cons.mp member with rfl | older
  · exact Int.lt_succ _
  · exact (chain.issued timer older).trans (Int.lt_succ _)

theorem other_command (chain : WatchChain timers nextId fired commands) {cmdString : List UInt8}
    (other : searches cmdString = false) :
    WatchChain timers nextId fired (commands ++ [cmdString]) where
  phase := chain.phase
  counted := by simpa [List.countP_append, other] using chain.counted
  distinct := chain.distinct
  issued := chain.issued

theorem search_command (chain : WatchChain timers nextId fired commands) {cmdString : List UInt8}
    (search : searches cmdString = true) :
    WatchChain ((nextId, .callbackListIpcam) :: timers) (nextId + 1) fired
      (commands ++ [cmdString]) where
  phase := by
    rw [watchProcs_listing rfl]
    exact chain.phase
  counted := by
    have counted := chain.counted
    rw [listings_listing rfl, List.countP_append, List.length_cons]
    simp only [List.countP_singleton, search, if_true]
    omega
  distinct := chain.fresh .callbackListIpcam
  issued := chain.issued_next .callbackListIpcam

theorem fire_listing (chain : WatchChain timers nextId fired commands)
    (deleted : timers.Perm ((id, .callbackListIpcam) :: after)) :
    WatchChain after nextId (fired ++ [(id, .callbackListIpcam)]) commands := by
  have moved : (timers ++ listings fired).Perm
      (after ++ listings (fired ++ [(id, .callbackListIpcam)])) := by
    rw [listings_append, listings_listing rfl, ← List.append_assoc]
    exact (deleted.append_right _).trans (List.perm_append_singleton _ _).symm
  constructor
  · have same : watchProcs after = watchProcs timers := by
      have shuffled := watchProcs_perm deleted
      rw [watchProcs_listing rfl] at shuffled
      rcases chain.phase with ⟨clear, _⟩ | ⟨test, _⟩
      · rw [clear] at shuffled ⊢
        exact List.perm_singleton.mp shuffled.symm
      · rw [test] at shuffled ⊢
        exact List.perm_singleton.mp shuffled.symm
    rw [same, watchProcs_append]
    simpa [watchProcs, watches] using chain.phase
  · have counted := chain.counted
    have shorter := (listings_perm deleted).length_eq
    rw [listings_listing rfl, List.length_cons] at shorter
    rw [listings_append, List.length_append, listings_listing rfl]
    simp only [listings, List.filter_nil, List.length_singleton] at counted shorter ⊢
    omega
  · exact (moved.map _).nodup_iff.mp chain.distinct
  · exact fun timer member => chain.issued timer (moved.mem_iff.mpr member)

theorem fire_clear (chain : WatchChain timers nextId fired commands)
    (replaced : ((nextId, TimeProc.watchIpcamLinkTest) :: timers).Perm
      ((id, .watchIpcamLinkClear) :: after)) :
    WatchChain after (nextId + 1) (fired ++ [(id, .watchIpcamLinkClear)]) commands := by
  have sameFired : listings (fired ++ [(id, TimeProc.watchIpcamLinkClear)]) = listings fired := by
    rw [listings_append, listings_watch rfl]
    exact List.append_nil _
  have moved := replaced.append_right (listings fired)
  constructor
  · have shuffled := watchProcs_perm replaced
    rw [watchProcs_watch rfl, watchProcs_watch rfl] at shuffled
    rcases chain.phase with ⟨clear, first⟩ | ⟨test, _⟩
    · refine .inr ⟨?_, 0, ?_⟩
      · rw [clear] at shuffled
        have rest := (List.perm_cons _).mp ((List.Perm.swap _ _ _).trans shuffled)
        exact List.perm_singleton.mp rest.symm
      · rw [watchProcs_append, first]
        rfl
    · rw [test] at shuffled
      exact absurd (shuffled.mem_iff.mpr List.mem_cons_self) (by decide)
  · have shorter := (listings_perm replaced).length_eq
    rw [listings_watch rfl, listings_watch rfl] at shorter
    rw [sameFired, ← shorter]
    exact chain.counted
  · rw [sameFired]
    exact (List.nodup_cons.mp ((moved.map _).nodup_iff.mp
      (chain.fresh .watchIpcamLinkTest))).2
  · rw [sameFired]
    exact fun timer member => chain.issued_next .watchIpcamLinkTest timer
      (moved.mem_iff.mpr (List.mem_cons_of_mem _ member))

theorem fire_test (chain : WatchChain timers nextId fired commands)
    (listed : (id, .watchIpcamLinkTest) ∈ timers) :
    WatchChain timers nextId (fired ++ [(id, .watchIpcamLinkTest)]) commands := by
  have sameFired : listings (fired ++ [(id, TimeProc.watchIpcamLinkTest)]) = listings fired := by
    rw [listings_append, listings_watch rfl]
    exact List.append_nil _
  constructor
  · have member : TimeProc.watchIpcamLinkTest ∈ watchProcs timers :=
      List.mem_filter.mpr ⟨List.mem_map_of_mem listed, rfl⟩
    rcases chain.phase with ⟨clear, _⟩ | ⟨test, count, first⟩
    · rw [clear] at member
      exact absurd member (by decide)
    · refine .inr ⟨test, count + 1, ?_⟩
      rw [watchProcs_append, first, List.replicate_succ']
      rfl
  · rw [sameFired]
    exact chain.counted
  · rw [sameFired]
    exact chain.distinct
  · rw [sameFired]
    exact chain.issued

end WatchChain

/-- The invariant together with what has changed since the log was `log` and the watch
timers were `watchers`: nothing, as long as no watch timer has fired. -/
structure Since (log : List Timer) (watchers : List (AeTimeEvent TimeProc))
    (eventLoop : AeEventLoop TimeProc) (app : App) : Prop where
  chain : WatchChain (pending eventLoop) eventLoop.timeEventNextId app.fired app.commands
  unchanged : ∃ recent, app.fired = log ++ recent ∧
    ((∀ timer ∈ recent, watches timer.2 = false) → watchTimers eventLoop = watchers)

section Steps

variable {host : Host} {log : List Timer} {watchers : List (AeTimeEvent TimeProc)}
  {eventLoop : AeEventLoop TimeProc} {app : App}

theorem watchTimers_one (chain : WatchChain (pending eventLoop) eventLoop.timeEventNextId app.fired
    app.commands) : ∃ watch, watchTimers eventLoop = [watch] := by
  have procs : watchProcs (pending eventLoop) =
      (watchTimers eventLoop).map AeTimeEvent.timeProc := by
    simp only [watchProcs, pending, watchTimers, List.map_map, List.filter_map]
    rfl
  have one : (watchTimers eventLoop).length = 1 := by
    rw [← List.length_map, ← procs]
    rcases chain.phase with ⟨clear, _⟩ | ⟨test, _⟩
    · rw [clear]; rfl
    · rw [test]; rfl
  exact List.length_eq_one_iff.mp one

theorem Since.search (since : Since log watchers eventLoop app) (cmdString : List UInt8)
    (search : searches cmdString = true) {appAfter : App} (sameFired : appAfter.fired = app.fired)
    (logged : appAfter.commands = app.commands ++ [cmdString]) :
    Since log watchers (searchCommand host eventLoop appAfter).1
      (searchCommand host eventLoop appAfter).2 := by
  obtain ⟨recent, longer, quiet⟩ := since.unchanged
  constructor
  · have chain := since.chain.search_command search
    rw [← sameFired, ← logged] at chain
    exact chain
  · exact ⟨recent, sameFired.trans longer, quiet⟩

theorem Since.other (since : Since log watchers eventLoop app) (cmdString : List UInt8)
    (other : searches cmdString = false) {appAfter : App} (sameFired : appAfter.fired = app.fired)
    (logged : appAfter.commands = app.commands ++ [cmdString]) :
    Since log watchers eventLoop appAfter := by
  obtain ⟨recent, longer, quiet⟩ := since.unchanged
  constructor
  · have chain := since.chain.other_command other
    rw [← sameFired, ← logged] at chain
    exact chain
  · exact ⟨recent, sameFired.trans longer, quiet⟩

theorem Since.unlogged (since : Since log watchers eventLoop app) {appAfter : App}
    (sameFired : appAfter.fired = app.fired) (sameCommands : appAfter.commands = app.commands) :
    Since log watchers eventLoop appAfter := by
  constructor
  · rw [sameFired, sameCommands]
    exact since.chain
  · rw [sameFired]
    exact since.unchanged

theorem runCmdByString_since (since : Since log watchers eventLoop app)
    (cmdString : List UInt8) :
    Since log watchers (runCmdByString host cmdString eventLoop app).1
      (runCmdByString host cmdString eventLoop app).2 := by
  unfold runCmdByString
  cases command : Command.ofString cmdString with
  | renew => exact since.search cmdString (by simp [searches, command]) (by simp) (by simp)
  | search => exact since.search cmdString (by simp [searches, command]) rfl rfl
  | list => exact since.other cmdString (by simp [searches, command]) (by simp) (by simp)
  | quit =>
      exact since.other cmdString (by simp [searches, command]) (by simp [releaseExit])
        (by simp [releaseExit])
  | help => exact since.other cmdString (by simp [searches, command]) rfl rfl

theorem runCommands_since (since : Since log watchers eventLoop app)
    (commands : List (List UInt8)) :
    Since log watchers (runCommands host commands eventLoop app).1
      (runCommands host commands eventLoop app).2 := by
  induction commands generalizing eventLoop app with
  | nil => exact since
  | cons cmdString rest ih =>
      unfold runCommands
      split
      · exact since
      · exact ih (runCmdByString_since since cmdString)

theorem handle_since (since : Since log watchers eventLoop app) (event : FileEvent) :
    Since log watchers (event.handle host eventLoop app).1 (event.handle host eventLoop app).2 := by
  cases event with
  | stdin piece =>
      simp only [FileEvent.handle, dealcmd]
      split
      · exact since.unlogged rfl rfl
      · exact runCommands_since since _
  | server buf received => exact since.unlogged (by simp [FileEvent.handle]) (by simp [FileEvent.handle])

theorem ids_distinct {others : List Timer}
    (distinct : ((pending eventLoop ++ others).map Prod.fst).Nodup) :
    (eventLoop.timeEventHead.map AeTimeEvent.id).Nodup := by
  rw [List.map_append, pending, List.map_map] at distinct
  exact (List.nodup_append.mp distinct).1

theorem Since.watch_fires (since : Since log watchers eventLoop app) (timer : Timer)
    (watch : watches timer.2 = true) {after : AeEventLoop TimeProc} {appAfter : App}
    (logged : appAfter.fired = app.fired ++ [timer])
    (chain : WatchChain (pending after) after.timeEventNextId appAfter.fired appAfter.commands) :
    Since log watchers after appAfter := by
  obtain ⟨recent, longer, quiet⟩ := since.unchanged
  refine ⟨chain, recent ++ [timer], ?_, fun silent => ?_⟩
  · rw [logged, longer, List.append_assoc]
  · have contradiction := silent timer (by simp)
    rw [watch] at contradiction
    cases contradiction

theorem fire_clear_since (since : Since log watchers eventLoop app) {te : AeTimeEvent TimeProc}
    (listed : te ∈ eventLoop.timeEventHead) (proc : te.timeProc = .watchIpcamLinkClear) :
    ∃ after appAfter, fire host.clock (TimeProc.call host) te eventLoop app = .ok (after, appAfter) ∧
      Since log watchers after appAfter := by
  let created := createTimer host eventLoop (CHECK_IPCAM_CYCLE * 1000) .watchIpcamLinkTest
  let logged : App := { app with fired := app.fired ++ [(te.id, .watchIpcamLinkClear)] }
  have distinct : (created.timeEventHead.map AeTimeEvent.id).Nodup :=
    ids_distinct (since.chain.fresh .watchIpcamLinkTest)
  obtain ⟨rest, replaced, deleted⟩ :=
    aeDeleteTimeEvent_listed (List.mem_cons_of_mem _ listed) distinct
  have pendingReplaced := replaced.map fun other => (other.id, other.timeProc)
  rw [List.map_cons, proc] at pendingReplaced
  refine ⟨{ created with timeEventHead := rest },
    logged.settle host (clearAllDevOnline app.heap app.ipcamDev), ?_,
    since.watch_fires (te.id, .watchIpcamLinkClear) rfl (by simp [logged]) ?_⟩
  · simp only [fire, proc, TimeProc.call, SearchPcLoop.watchIpcamLinkClear]
    rw [if_neg (by decide), deleted]
    rfl
  · rw [App.settle_fired, App.settle_commands]
    exact since.chain.fire_clear pendingReplaced

theorem fire_test_since (since : Since log watchers eventLoop app) {te : AeTimeEvent TimeProc}
    (listed : te ∈ eventLoop.timeEventHead) (proc : te.timeProc = .watchIpcamLinkTest) :
    ∃ after appAfter, fire host.clock (TimeProc.call host) te eventLoop app = .ok (after, appAfter) ∧
      Since log watchers after appAfter := by
  let logged : App := { app with fired := app.fired ++ [(te.id, .watchIpcamLinkTest)] }
  let clocked := (aeAddMillisecondsToNow host.clock eventLoop (CHECK_IPCAM_CYCLE * 1000)).2
  let due := (aeAddMillisecondsToNow host.clock eventLoop (CHECK_IPCAM_CYCLE * 1000)).1
  obtain ⟨reset, written, samePending⟩ := writeWhen_listed clocked due listed
  refine ⟨{ clocked with timeEventHead := reset },
    logged.settle host (testThenClear app.heap app.ipcamDev), ?_,
    since.watch_fires (te.id, .watchIpcamLinkTest) rfl (by simp [logged]) ?_⟩
  · simp only [fire, proc, TimeProc.call, SearchPcLoop.watchIpcamLinkTest]
    rw [if_pos (by decide)]
    show (writeWhen clocked te.id due >>= _) = _
    rw [written]
    rfl
  · rw [App.settle_fired, App.settle_commands, pending, samePending]
    exact since.chain.fire_test (List.mem_map.mpr ⟨te, listed, by rw [proc]⟩)

theorem fire_listing_since (since : Since log watchers eventLoop app) {te : AeTimeEvent TimeProc}
    (listed : te ∈ eventLoop.timeEventHead) (proc : te.timeProc = .callbackListIpcam) :
    ∃ after appAfter, fire host.clock (TimeProc.call host) te eventLoop app = .ok (after, appAfter) ∧
      Since log watchers after appAfter := by
  let logged : App := { app with fired := app.fired ++ [(te.id, .callbackListIpcam)] }
  obtain ⟨rest, removed, deleted⟩ :=
    aeDeleteTimeEvent_listed listed (ids_distinct since.chain.distinct)
  have pendingRemoved := removed.map fun other => (other.id, other.timeProc)
  rw [List.map_cons, proc] at pendingRemoved
  refine ⟨{ eventLoop with timeEventHead := rest }, (logged.showList host).print .prompt, ?_, ?_, ?_⟩
  · simp only [fire, proc, TimeProc.call, SearchPcLoop.callbackListIpcam]
    rw [if_neg (by decide), deleted]
    rfl
  · rw [App.print_fired, App.showList_fired, App.print_commands, App.showList_commands]
    exact since.chain.fire_listing pendingRemoved
  · obtain ⟨recent, longer, quiet⟩ := since.unchanged
    refine ⟨recent ++ [(te.id, .callbackListIpcam)], ?_, fun silent => ?_⟩
    · simp [logged, longer]
    · have same := quiet fun timer member => silent timer (List.mem_append_left _ member)
      obtain ⟨watch, one⟩ := watchTimers_one since.chain
      have kept : (watchTimers eventLoop).Perm (rest.filter fun other => watches other.timeProc) := by
        simpa [watchTimers, proc, watches] using removed.filter fun other => watches other.timeProc
      rw [← same, one]
      rw [one] at kept
      exact List.perm_singleton.mp kept.symm

/-- The expiry of a listed timer ends without a fault and keeps the invariant. -/
theorem fire_since (since : Since log watchers eventLoop app) {te : AeTimeEvent TimeProc}
    (listed : te ∈ eventLoop.timeEventHead) :
    ∃ after appAfter, fire host.clock (TimeProc.call host) te eventLoop app = .ok (after, appAfter) ∧
      Since log watchers after appAfter := by
  cases proc : te.timeProc with
  | watchIpcamLinkClear => exact fire_clear_since since listed proc
  | watchIpcamLinkTest => exact fire_test_since since listed proc
  | callbackListIpcam => exact fire_listing_since since listed proc

theorem iterate_since (since : Since log watchers eventLoop app) (fuel : Nat)
    (polled : List FileEvent) :
    iterate host fuel polled eventLoop app = .error .divergence ∨
      ∃ count after appAfter, iterate host fuel polled eventLoop app = .ok (count, after, appAfter) ∧
        Since log watchers after appAfter :=
  aeProcessEvents_keeps (fun _ _ _ kept => ⟨kept.chain, kept.unchanged⟩)
    (fun _ _ _ kept listed => fire_since kept listed)
    (fun event _ _ kept => handle_since kept event) fuel polled since

theorem start_chain {heap : IpcamList.IpcamHeap} (started : start host heap = .ok (eventLoop, app)) :
    WatchChain (pending eventLoop) eventLoop.timeEventNextId app.fired app.commands := by
  unfold start at started
  obtain ⟨linked, _, started⟩ := of_bind_ok started
  cases started
  constructor
  · exact .inl ⟨rfl, rfl⟩
  · rfl
  · exact List.nodup_singleton _
  · intro timer member
    cases List.mem_singleton.mp member
    exact Int.lt_succ 0

theorem reachable_chain (reached : Reachable host eventLoop app) :
    WatchChain (pending eventLoop) eventLoop.timeEventNextId app.fired app.commands := by
  induction reached with
  | start heap started => exact start_chain started
  | iterate earlier _ fuel polled iterated ih =>
      rcases iterate_since ⟨ih, [], (List.append_nil _).symm, fun _ => rfl⟩ fuel polled with
        diverges | ⟨count, after, appAfter, ran, since⟩
      · rw [iterated] at diverges
        cases diverges
      · rw [iterated] at ran
        cases ran
        exact since.chain

end Steps

theorem clear_fires_once {timers fired : List Timer} {nextId : Int} {commands : List (List UInt8)}
    (chain : WatchChain timers nextId fired commands) :
    (fired.map Prod.snd).count .watchIpcamLinkClear ≤ 1 := by
  have counted : (fired.map Prod.snd).count .watchIpcamLinkClear =
      (watchProcs fired).count .watchIpcamLinkClear := (List.count_filter rfl).symm
  rw [counted]
  rcases chain.phase with ⟨_, none⟩ | ⟨_, count, first⟩
  · rw [none]
    exact Nat.zero_le 1
  · rw [first, List.count_cons_self, List.count_replicate]
    exact le_rfl

theorem clear_before_test {timers fired : List Timer} {nextId : Int}
    {commands : List (List UInt8)} (chain : WatchChain timers nextId fired commands)
    {earlier later : List TimeProc}
    (split : fired.map Prod.snd = earlier ++ .watchIpcamLinkTest :: later) :
    .watchIpcamLinkClear ∈ earlier := by
  have parts : watchProcs fired =
      earlier.filter watches ++ .watchIpcamLinkTest :: later.filter watches := by
    rw [watchProcs, split, List.filter_append, List.filter_cons_of_pos rfl]
  rcases chain.phase with ⟨_, none⟩ | ⟨_, count, first⟩
  · rw [none] at parts
    simp at parts
  · rw [first] at parts
    cases before : earlier.filter watches with
    | nil =>
        rw [before] at parts
        cases parts
    | cons proc rest =>
        rw [before] at parts
        have head : .watchIpcamLinkClear = proc := (List.cons.inj parts).1
        have member : .watchIpcamLinkClear ∈ earlier.filter watches := by
          rw [before, head]
          exact List.mem_cons_self
        exact (List.mem_filter.mp member).1

/-- Between any two iterations there is one watch timer, the clear timer has fired at most
once and before every test, and each search command has one listing timer, which is pending
or has fired once. The next iteration touches no freed timer, and it leaves the watch timer
as it is unless that timer fires. -/
theorem watch_timer_chain (host : Host) {eventLoop : AeEventLoop TimeProc} {app : App}
    (reached : Reachable host eventLoop app) :
    (∃ watch, watchTimers eventLoop = [watch]) ∧
      (app.fired.map Prod.snd).count .watchIpcamLinkClear ≤ 1 ∧
      (∀ earlier later, app.fired.map Prod.snd = earlier ++ .watchIpcamLinkTest :: later →
        .watchIpcamLinkClear ∈ earlier) ∧
      (listings (pending eventLoop)).length + (listings app.fired).length =
        app.commands.countP searches ∧
      ((listings (pending eventLoop) ++ listings app.fired).map Prod.fst).Nodup ∧
      ∀ fuel polled, iterate host fuel polled eventLoop app = .error .divergence ∨
        ∃ count after appAfter recent,
          iterate host fuel polled eventLoop app = .ok (count, after, appAfter) ∧
            appAfter.fired = app.fired ++ recent ∧
            ((∀ timer ∈ recent, watches timer.2 = false) →
              watchTimers after = watchTimers eventLoop) := by
  have chain := reachable_chain reached
  refine ⟨watchTimers_one chain, clear_fires_once chain,
    fun earlier later split => clear_before_test chain split, chain.counted, ?_, ?_⟩
  · have sublist : (listings (pending eventLoop) ++ listings app.fired).Sublist
        (pending eventLoop ++ listings app.fired) := List.filter_sublist.append_right _
    exact (sublist.map _).nodup chain.distinct
  · intro fuel polled
    rcases iterate_since ⟨chain, [], (List.append_nil _).symm, fun _ => rfl⟩ fuel polled with
      diverges | ⟨count, after, appAfter, ran, since⟩
    · exact .inl diverges
    · obtain ⟨recent, longer, quiet⟩ := since.unchanged
      exact .inr ⟨count, after, appAfter, recent, ran, longer, quiet⟩

/-- A search command of the first iteration, in which its listing timer and then the clear
timer fire. -/
theorem watch_timer_chain_search : ∃ eventLoop app, Reachable tenSecondHost eventLoop app ∧
    app.fired = [(1, .callbackListIpcam), (0, .watchIpcamLinkClear)] ∧
    ∃ watch, watchTimers eventLoop = [watch] := by
  have started : Reachable tenSecondHost _ _ := .start ∅ rfl
  have searched := Reachable.iterate started rfl 10 [.stdin (some [0x73, newline])] rfl
  exact ⟨_, _, searched, rfl, (watch_timer_chain tenSecondHost searched).1⟩

end IpcamSearch.WatchTimer
