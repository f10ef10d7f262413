import IpcamSearch.LoopHistory
import IpcamSearch.Registry.Tool
import IpcamSearch.TearDown
import IpcamSearch.WatchSchedule

/-! The event loop of `ipcam_search_pcv2.c`, with its heap and its timers, does what the
tool does in some order of the arrivals, the commands and the expiries. -/

set_option autoImplicit false

namespace IpcamSearch.Registry

open Memory IpcamList Message SearchPc KeyedList Run Console EventLoop SearchPcLoop WatchTimer

/-- What a poll returns: a piece of console input, a failed `recvfrom`, a datagram that the
tool ignores or that of a camera whose name is a string. -/
inductive Arrival where
  | input (piece : Option (List UInt8))
  | failed (buf : Block MAX_MSG_LEN)
  | ignored (buf : Block MAX_MSG_LEN) (msg : MsgBuf) (sender : SockaddrIn)
      (unhandled : Unhandled msg)
  | message (buf : Block MAX_MSG_LEN) (announcement : Announcement)
      (terminated : Terminated announcement.msg.header.ipcamName)

namespace Arrival

def event : Arrival → FileEvent
  | input piece => .stdin piece
  | failed buf => .server buf none
  | ignored buf msg sender _ => .server buf (some (msg.bytes, sender))
  | message buf announcement _ =>
      .server buf (some (announcement.msg.bytes, announcement.sender))

def message? : Arrival → Option Announcement
  | message _ announcement _ => some announcement
  | _ => none

end Arrival

/-- The runs under such traffic. -/
abbrev Heard (host : Host) : AeEventLoop TimeProc → App → List Arrival → Prop :=
  Arrived host.clock (TimeProc.call host) (FileEvent.handle host) App.exited
    (fun eventLoop app => ∃ heap, SearchPcLoop.start host heap = .ok (eventLoop, app)) Arrival.event

/-- The program has done what the tool does in this history. -/
structure Follows (host : Host) (history : List Occasion) (eventLoop : AeEventLoop TimeProc)
    (app : App) : Prop where
  chain : WatchChain (pending eventLoop) eventLoop.timeEventNextId app.fired app.commands
  commands : history.filterMap Occasion.command? = app.commands
  fired : history.filterMap Occasion.expiry? = app.fired
  intact : app.wrecks = 0
  outputs : app.outputs = (Tool.after host.pid history).outputs
  exited : app.exited = (Tool.after host.pid history).exited
  represents : app.exited = false →
    Represents app.heap app.ipcamDev (Tool.after host.pid history).watched.2
  names : NamesTerminated (Tool.after host.pid history).watched.2

section Names

variable {cameras : List Camera}

theorem listRow_terminated {camera : Camera} (terminated : Terminated camera.nodeInfo.ipcamName) :
    listRow camera = .ok (rowOf camera) := by
  have printed : printString camera.nodeInfo.ipcamName.toList =
      .ok (camera.nodeInfo.ipcamName.toList.takeWhile fun byte => byte ≠ 0) := if_pos terminated
  simp only [listRow, printed, ok_bind]
  rfl

theorem mapM_listRow (terminated : NamesTerminated cameras) :
    cameras.mapM listRow = .ok (cameras.map rowOf) := by
  induction cameras with
  | nil => rfl
  | cons camera cameras ih =>
      rw [List.mapM_cons, listRow_terminated (terminated camera List.mem_cons_self),
        ih fun other member => terminated other (List.mem_cons_of_mem _ member)]
      rfl

end Names

section Steps

variable {host : Host} {history : List Occasion} {eventLoop : AeEventLoop TimeProc} {app : App}

theorem settle_ok (host : Host) (app : App) (heap : IpcamHeap) :
    app.settle host (.ok heap) = { app with heap := heap } := rfl

theorem showList_table {cameras : List Camera}
    (represented : Represents app.heap app.ipcamDev cameras) (names : NamesTerminated cameras) :
    app.showList host = app.print (.table (cameras.map rowOf)) := by
  have listed : listIpcam app.heap app.ipcamDev = .ok (cameras.map rowOf) :=
    (listIpcam_spec represented).trans (mapM_listRow names)
  simp only [App.showList, listed]

theorem freeIpcamLink_ok {cameras : List Camera} {heap : IpcamHeap} {link : Pointer}
    (represented : Represents heap link cameras) :
    ∃ after, freeIpcamLink heap link = .ok after := by
  obtain ⟨address, header, cells, rfl, chain, _⟩ := represented
  obtain ⟨after, freed, _⟩ := freeIpcamLink_chain chain
  exact ⟨after, freed⟩

/-- One more occasion. What is left to show is what it does to the program itself. -/
theorem Follows.react (follows : Follows host history eventLoop app) (occasion : Occasion)
    {after : AeEventLoop TimeProc} {appAfter : App}
    (chain : WatchChain (pending after) after.timeEventNextId appAfter.fired appAfter.commands)
    (commands : appAfter.commands = app.commands ++ occasion.command?.toList)
    (fired : appAfter.fired = app.fired ++ occasion.expiry?.toList)
    (intact : appAfter.wrecks = app.wrecks)
    (outputs : appAfter.outputs = app.outputs ++
      Tool.prints host.pid (Tool.after host.pid history).watched.2 occasion)
    (exited : appAfter.exited = (app.exited || occasion.command?.elim false
      fun cmdString => Command.ofString cmdString = .quit))
    (represents : appAfter.exited = false → Represents appAfter.heap appAfter.ipcamDev
      ((Tool.after host.pid history).react host.pid occasion).watched.2)
    (names : NamesTerminated ((Tool.after host.pid history).react host.pid occasion).watched.2) :
    Follows host (history ++ [occasion]) after appAfter where
  chain := chain
  commands := by
    rw [List.filterMap_append, follows.commands, commands]
    cases occasion <;> rfl
  fired := by
    rw [List.filterMap_append, follows.fired, fired]
    cases occasion <;> rfl
  intact := intact.trans follows.intact
  outputs := by rw [Tool.after_append, outputs, follows.outputs, Tool.react]
  exited := by rw [Tool.after_append, exited, follows.exited, Tool.react]
  represents := by rwa [Tool.after_append]
  names := by rwa [Tool.after_append]

/-- What a command does to the list and prints. -/
theorem runCmdByString_effect {watched : Nat × List Camera}
    (represented : Represents app.heap app.ipcamDev watched.2) (names : NamesTerminated watched.2)
    (cmdString : List UInt8) {after : AeEventLoop TimeProc} {appAfter : App}
    (ran : runCmdByString host cmdString eventLoop app = (after, appAfter)) :
    appAfter.wrecks = app.wrecks ∧
      appAfter.outputs = app.outputs ++ Tool.prints host.pid watched.2 (.command cmdString) ∧
      (Command.ofString cmdString ≠ .quit → Represents appAfter.heap appAfter.ipcamDev
        ((Occasion.command cmdString).watchEvent?.elim watched (timerSpec watched)).2) := by
  unfold runCmdByString at ran
  cases command : Command.ofString cmdString with
  | renew =>
      obtain ⟨heap, deleted, empty⟩ := deleteIpcamAllNode_spec represented
      simp only [command, deleted, Except.map, settle_ok] at ran
      cases ran
      refine ⟨rfl, by simp only [Tool.prints, command]; rfl, fun _ => ?_⟩
      simp only [Occasion.watchEvent?, command, if_true]
      exact empty
  | search =>
      simp only [command] at ran
      cases ran
      refine ⟨rfl, by simp only [Tool.prints, command]; rfl, fun _ => ?_⟩
      simp only [Occasion.watchEvent?, command]
      exact represented
  | list =>
      have shown : App.showList host { app with commands := app.commands ++ [cmdString] } =
          App.print { app with commands := app.commands ++ [cmdString] }
            (.table (watched.2.map rowOf)) := showList_table represented names
      simp only [command, shown] at ran
      cases ran
      refine ⟨rfl, ?_, fun _ => ?_⟩
      · simp [Tool.prints, command, App.print]
      · simp only [Occasion.watchEvent?, command]
        exact represented
  | quit =>
      obtain ⟨heap, freed⟩ := freeIpcamLink_ok represented
      have settled : releaseExit host
          (App.print { app with commands := app.commands ++ [cmdString] } .prompt) =
            { App.print { app with commands := app.commands ++ [cmdString] } .prompt with
              heap := heap, exited := true } := by
        simp only [releaseExit, App.print, freed, settle_ok]
      simp only [command, settled] at ran
      cases ran
      exact ⟨rfl, by simp only [Tool.prints, command]; rfl, fun other => absurd rfl other⟩
  | help =>
      simp only [command] at ran
      cases ran
      refine ⟨rfl, ?_, fun _ => ?_⟩
      · simp [Tool.prints, command, App.print]
      · simp only [Occasion.watchEvent?, command]
        exact represented

theorem names_command {watched : Nat × List Camera} (names : NamesTerminated watched.2)
    (cmdString : List UInt8) : NamesTerminated
      ((Occasion.command cmdString).watchEvent?.elim watched (timerSpec watched)).2 := by
  by_cases renew : Command.ofString cmdString = .renew
  · simp only [Occasion.watchEvent?, if_pos renew]
    exact fun _ member => absurd member List.not_mem_nil
  · simp only [Occasion.watchEvent?, if_neg renew]
    exact names

/-- A command of the running program. -/
theorem runCmdByString_follows (follows : Follows host history eventLoop app)
    (running : app.exited = false) (cmdString : List UInt8) :
    Follows host (history ++ [Occasion.command cmdString])
      (runCmdByString host cmdString eventLoop app).1
      (runCmdByString host cmdString eventLoop app).2 := by
  have chain := (@runCmdByString_since host _ _ _ _
    ⟨follows.chain, [], (List.append_nil _).symm, fun _ => rfl⟩ cmdString).chain
  obtain ⟨logged, ended⟩ := runCmdByString_records host app cmdString eventLoop
  have fired := WatchSchedule.runCmdByString_fired host cmdString eventLoop app
  rcases ran : runCmdByString host cmdString eventLoop app with ⟨after, appAfter⟩
  obtain ⟨intact, outputs, represents⟩ :=
    runCmdByString_effect (follows.represents running) follows.names cmdString ran
  rw [ran] at chain logged ended fired
  refine follows.react (.command cmdString) chain logged ?_ intact outputs ended ?_
    (names_command follows.names cmdString)
  · exact fired.trans (List.append_nil _).symm
  · intro still
    refine represents fun quit => ?_
    simp only [quit, decide_true, Bool.or_true] at ended
    rw [ended] at still
    cases still

theorem runCommands_follows (follows : Follows host history eventLoop app)
    (commands : List (List UInt8)) :
    ∃ recent, recent.filterMap Occasion.message? = [] ∧
      Follows host (history ++ recent) (runCommands host commands eventLoop app).1
        (runCommands host commands eventLoop app).2 := by
  induction commands generalizing history eventLoop app with
  | nil => exact ⟨[], rfl, by rwa [List.append_nil]⟩
  | cons cmdString rest ih =>
      unfold runCommands
      cases running : app.exited with
      | true => exact ⟨[], rfl, by simpa using follows⟩
      | false =>
          obtain ⟨recent, quiet, after⟩ := ih (runCmdByString_follows follows running cmdString)
          refine ⟨.command cmdString :: recent, quiet, ?_⟩
          rw [List.append_assoc, List.singleton_append] at after
          exact after

theorem dealcmd_follows (follows : Follows host history eventLoop app)
    (piece : Option (List UInt8)) (running : app.exited = false) :
    ∃ recent, recent.filterMap Occasion.message? = [] ∧
      Follows host (history ++ recent) (dealcmd host piece eventLoop app).1
        (dealcmd host piece eventLoop app).2 := by
  unfold dealcmd
  split
  · refine ⟨[.blank], rfl, follows.react .blank follows.chain ?_ ?_ rfl rfl ?_ ?_ follows.names⟩
    · exact (List.append_nil _).symm
    · exact (List.append_nil _).symm
    · exact (Bool.or_false _).symm
    · exact fun _ => follows.represents running
  · exact runCommands_follows follows _

/-- A datagram of the traffic. -/
theorem server_follows (follows : Follows host history eventLoop app)
    (running : app.exited = false) (arrival : Arrival) :
    ∃ recent, recent.filterMap Occasion.message? = arrival.message?.toList ∧
      Follows host (history ++ recent) (arrival.event.handle host eventLoop app).1
        (arrival.event.handle host eventLoop app).2 := by
  have represented := follows.represents running
  cases arrival with
  | input piece => exact dealcmd_follows follows piece running
  | failed buf => exact ⟨[], rfl, by rwa [List.append_nil]⟩
  | ignored buf msg sender unhandled =>
      have kept : dealnet host.allocator app.ipcamDev app.heap buf (some (msg.bytes, sender)) =
          .ok app.heap := by
        rw [dealnet_whole, dealMsgFunc_unhandled _ _ _ unhandled]
      refine ⟨[], rfl, ?_⟩
      simp only [Arrival.event, FileEvent.handle, kept, settle_ok, List.append_nil]
      exact follows
  | message buf announcement terminated =>
      obtain ⟨heap, received, represents⟩ := receive_spec host.allocator represented announcement
      have dealt : dealnet host.allocator app.ipcamDev app.heap buf
          (some (announcement.msg.bytes, announcement.sender)) = .ok heap :=
        (dealnet_whole _ _ _ _ _ _).trans received
      refine ⟨[.message announcement], rfl, ?_⟩
      simp only [Arrival.event, FileEvent.handle, dealt, settle_ok]
      refine follows.react (.message announcement) follows.chain ?_ ?_ rfl ?_ ?_ ?_ ?_
      · exact (List.append_nil _).symm
      · exact (List.append_nil _).symm
      · exact (List.append_nil _).symm
      · exact (Bool.or_false _).symm
      · exact fun _ => represents
      · exact (terminated_announce _).mpr ⟨follows.names, fun _ => terminated⟩

/-- The clear timer is the first watch timer to fire, and the test timer never is. -/
theorem Follows.phase (follows : Follows host history eventLoop app) {te : AeTimeEvent TimeProc}
    (listed : te ∈ eventLoop.timeEventHead) :
    (te.timeProc = .watchIpcamLinkClear → (Tool.after host.pid history).watched.1 = 0) ∧
      (te.timeProc = .watchIpcamLinkTest → (Tool.after host.pid history).watched.1 ≠ 0) := by
  have fired : (Tool.after host.pid history).watched.1 = (watchProcs app.fired).length := by
    rw [watched_after, fired_run, ticks_expiries, follows.fired]
  have pended : watches te.timeProc = true → te.timeProc ∈ watchProcs (pending eventLoop) := by
    intro watch
    exact List.mem_filter.mpr ⟨List.mem_map_of_mem (List.mem_map_of_mem listed), watch⟩
  rw [fired]
  constructor
  · intro clear
    have member := pended (by rw [clear]; rfl)
    rcases follows.chain.phase with ⟨_, none⟩ | ⟨test, _⟩
    · rw [none]
      rfl
    · rw [test, clear] at member
      exact absurd member (by decide)
  · intro test
    have member := pended (by rw [test]; rfl)
    rcases follows.chain.phase with ⟨clear, _⟩ | ⟨_, count, first⟩
    · rw [clear, test] at member
      exact absurd member (by decide)
    · rw [first]
      exact Nat.succ_ne_zero _

/-- What an expiry does to the list and prints. -/
theorem call_effect {watched : Nat × List Camera}
    (represented : Represents app.heap app.ipcamDev watched.2) (names : NamesTerminated watched.2)
    (timeProc : TimeProc) (id : Int)
    (clear : timeProc = .watchIpcamLinkClear → watched.1 = 0)
    (test : timeProc = .watchIpcamLinkTest → watched.1 ≠ 0)
    {retval : Int} {after : AeEventLoop TimeProc} {appAfter : App}
    (called : TimeProc.call host timeProc id eventLoop app = (retval, after, appAfter)) :
    appAfter.wrecks = app.wrecks ∧ appAfter.exited = app.exited ∧
      appAfter.outputs =
        app.outputs ++ Tool.prints host.pid watched.2 (.expiry (id, timeProc)) ∧
      Represents appAfter.heap appAfter.ipcamDev
        ((Occasion.expiry (id, timeProc)).watchEvent?.elim watched (timerSpec watched)).2 := by
  cases timeProc with
  | watchIpcamLinkClear =>
      obtain ⟨heap, cleared, represents⟩ := clearAllDevOnline_spec represented
      simp only [TimeProc.call, SearchPcLoop.watchIpcamLinkClear, cleared, settle_ok] at called
      cases called
      refine ⟨rfl, rfl, (List.append_nil _).symm, ?_⟩
      show Represents heap app.ipcamDev (timerSpec watched .tick).2
      simp only [timerSpec, WatchEvent.onTimer, clear rfl, if_true, specStep]
      exact represents
  | watchIpcamLinkTest =>
      obtain ⟨heap, tested, represents⟩ := testThenClear_spec represented
      simp only [TimeProc.call, SearchPcLoop.watchIpcamLinkTest, tested, settle_ok] at called
      cases called
      refine ⟨rfl, rfl, (List.append_nil _).symm, ?_⟩
      show Represents heap app.ipcamDev (timerSpec watched .tick).2
      simp only [timerSpec, WatchEvent.onTimer, if_neg (test rfl), specStep]
      exact represents
  | callbackListIpcam =>
      have shown : App.showList host { app with fired := app.fired ++ [(id, .callbackListIpcam)] } =
          App.print { app with fired := app.fired ++ [(id, .callbackListIpcam)] }
            (.table (watched.2.map rowOf)) := showList_table represented names
      simp only [TimeProc.call, SearchPcLoop.callbackListIpcam, shown] at called
      cases called
      refine ⟨rfl, rfl, ?_, represented⟩
      simp [App.print, Tool.prints, watches]

theorem names_expiry {watched : Nat × List Camera} (names : NamesTerminated watched.2)
    (timer : Timer) : NamesTerminated
      ((Occasion.expiry timer).watchEvent?.elim watched (timerSpec watched)).2 := by
  cases watch : watches timer.2 with
  | true =>
      simp only [Occasion.watchEvent?, watch, if_true]
      exact names_tick watched.1 names
  | false =>
      simp only [Occasion.watchEvent?, watch]
      exact names

/-- An expiry of the running program touches no freed timer, and the program runs on. -/
theorem fire_follows (follows : Follows host history eventLoop app) (running : app.exited = false)
    {te : AeTimeEvent TimeProc} (listed : te ∈ eventLoop.timeEventHead) :
    ∃ after appAfter, fire host.clock (TimeProc.call host) te eventLoop app = .ok (after, appAfter) ∧
      appAfter.exited = false ∧
      Follows host (history ++ [Occasion.expiry (te.id, te.timeProc)]) after appAfter := by
  obtain ⟨after, appAfter, fired, since⟩ := @fire_since host _ _ _ _
    ⟨follows.chain, [], (List.append_nil _).symm, fun _ => rfl⟩ te listed
  have logged := WatchSchedule.call_fired host te.timeProc te.id eventLoop app
  have commands : (TimeProc.call host te.timeProc te.id eventLoop app).2.2.commands =
      app.commands := by
    cases te.timeProc <;> simp [TimeProc.call, SearchPcLoop.watchIpcamLinkClear,
      SearchPcLoop.watchIpcamLinkTest, SearchPcLoop.callbackListIpcam]
  obtain ⟨clear, test⟩ := follows.phase listed
  have same := fire_app fired
  rcases called : TimeProc.call host te.timeProc te.id eventLoop app with ⟨retval, changed, ended⟩
  obtain ⟨intact, exited, outputs, represents⟩ := call_effect (follows.represents running)
    follows.names te.timeProc te.id clear test called
  rw [called] at same logged commands
  subst same
  refine ⟨after, appAfter, fired, exited.trans running,
    follows.react (.expiry (te.id, te.timeProc)) since.chain ?_ logged intact outputs ?_
      (fun _ => represents) (names_expiry follows.names _)⟩
  · exact commands.trans (List.append_nil _).symm
  · exact exited.trans (Bool.or_false _).symm

theorem follower : Follower host.clock (TimeProc.call host) (FileEvent.handle host) App.exited
    Arrival.event Arrival.message? Occasion.message? (Follows host) where
  timeless := fun _ kept => ⟨kept.chain, kept.commands, kept.fired, kept.intact, kept.outputs,
    kept.exited, kept.represents, kept.names⟩
  handled := fun kept running arrival => server_follows kept running arrival
  fired := by
    intro history eventLoop app te kept running listed
    obtain ⟨after, appAfter, fired, runs, keeps⟩ := fire_follows kept running listed
    exact ⟨after, appAfter, .expiry (te.id, te.timeProc), fired, runs, rfl, keeps⟩

theorem start_follows {heap : IpcamHeap}
    (started : SearchPcLoop.start host heap = .ok (eventLoop, app)) :
    Follows host [] eventLoop app := by
  have chain := start_chain started
  unfold SearchPcLoop.start at started
  obtain ⟨linked, ipcamDev, created, empty⟩ := createEmptyIpcamLink_spec host.allocator heap
  rw [created] at started
  cases started
  exact ⟨chain, rfl, rfl, rfl, rfl, rfl, fun _ => empty,
    fun _ member => absurd member List.not_mem_nil⟩

theorem heard_follows {arrivals : List Arrival} (reached : Heard host eventLoop app arrivals) :
    ∃ history, Follower.Adds App.exited Arrival.message? Occasion.message? (Follows host) []
      arrivals eventLoop app history :=
  follower.run_follows (fun _ _ ⟨_, started⟩ => start_follows started) reached

def loginsAroundQuit : List Arrival := [
  .message (Block.zeros MAX_MSG_LEN) (cameraLogin 1 ⟨Block.zeros 4, 6755⟩) (by decide),
  .input (some [0x6c, semicolon, 0x71, newline]),
  .message (Block.zeros MAX_MSG_LEN) (cameraLogin 2 ⟨Block.zeros 4, 6755⟩) (by decide)]

/-- A camera logs in and is listed, and the program quits before a second one is heard. -/
theorem heard_quit : ∃ eventLoop app, Heard tenSecondHost eventLoop app loginsAroundQuit ∧
    app.exited = true ∧ app.outputs =
      [.prompt, .table [rowOf (cameraLogin 1 ⟨Block.zeros 4, 6755⟩).camera], .prompt, .prompt] := by
  have started : Heard tenSecondHost _ _ [] := .start ⟨∅, rfl⟩
  exact ⟨_, _, .round started rfl 10 loginsAroundQuit rfl, rfl, rfl⟩

/-- The program never touches the list wrongly, and it prints what the tool prints in some
history of its commands, its expiries and the messages that arrived, each in their order. -/
theorem tool_refines {arrivals : List Arrival} (reached : Heard host eventLoop app arrivals) :
    ∃ history, history.filterMap Occasion.command? = app.commands ∧
      history.filterMap Occasion.expiry? = app.fired ∧
      history.filterMap Occasion.message? <+: arrivals.filterMap Arrival.message? ∧
      (app.exited = false →
        history.filterMap Occasion.message? = arrivals.filterMap Arrival.message?) ∧
      app.wrecks = 0 ∧ app.outputs = (Tool.after host.pid history).outputs ∧
      app.exited = (Tool.after host.pid history).exited ∧
      (app.exited = false →
        Represents app.heap app.ipcamDev (Tool.after host.pid history).watched.2) := by
  obtain ⟨history, follows, part, whole⟩ := heard_follows reached
  rw [List.nil_append] at follows
  exact ⟨history, follows.commands, follows.fired, part, whole, follows.intact, follows.outputs,
    follows.exited, follows.represents⟩

theorem tool_refines_quit : ∃ (app : App) (history : List Occasion), app.exited = true ∧ app.wrecks = 0 ∧
    history.filterMap Occasion.message? <+: loginsAroundQuit.filterMap Arrival.message? ∧
    app.outputs = (Tool.after 0 history).outputs := by
  obtain ⟨eventLoop, app, quit, exited, _⟩ := heard_quit
  obtain ⟨history, _, _, part, _, intact, outputs, _⟩ := tool_refines quit
  exact ⟨app, history, exited, intact, part, outputs⟩

end Steps

end IpcamSearch.Registry
