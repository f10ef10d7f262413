import IpcamSearch.Console
import IpcamSearch.EventLoop
import IpcamSearch.SearchPc

/-! `ipcam_search_pcv2.c` as a whole: its console, its socket and its timers on one
event loop. -/

set_option autoImplicit false

namespace IpcamSearch.SearchPcLoop

open Memory IpcamList Message SearchPc Console EventLoop

inductive TimeProc where
  | watchIpcamLinkClear
  | watchIpcamLinkTest
  | callbackListIpcam
deriving DecidableEq

inductive Output where
  | prompt
  | help
  | table (rows : List ListRow)
  | broadcast (datagram : List UInt8)
deriving DecidableEq

/-- What a run meets outside the program. C gives no meaning to an access to the list
that faults. The run then goes on with a list that `wreck` chooses. -/
structure Host where
  allocator : Allocator IpcamNode
  clock : Nat → AeTime
  wreck : Nat → IpcamHeap
  pid : UInt32

def tenSecondHost : Host where
  allocator := Allocator.bump
  clock reads := ⟨10 * reads, 0⟩
  wreck _ := ∅
  pid := 0

/-- The state behind the event loop. `commands` and `fired` only record the calls of
`run_cmd_by_string` and of the timer procedures. -/
structure App where
  ipcamDev : Pointer
  heap : IpcamHeap
  outputs : List Output
  exited : Bool
  wrecks : Nat
  commands : List (List UInt8)
  fired : List (Int × TimeProc)

def App.print (app : App) (output : Output) : App :=
  { app with outputs := app.outputs ++ [output] }

section

variable (host : Host)

def App.settle (app : App) : Except Fault IpcamHeap → App
  | .ok heap => { app with heap := heap }
  | .error _ => { app with heap := host.wreck app.wrecks, wrecks := app.wrecks + 1 }

def App.showList (app : App) : App :=
  match listIpcam app.heap app.ipcamDev with
  | .ok rows => app.print (.table rows)
  | .error fault => app.settle host (.error fault)

def createTimer (eventLoop : AeEventLoop TimeProc) (milliseconds : Int) (timeProc : TimeProc) :
    AeEventLoop TimeProc :=
  (aeCreateTimeEvent host.clock eventLoop milliseconds timeProc).2

def watchIpcamLinkClear (eventLoop : AeEventLoop TimeProc) (app : App) :
    Int × AeEventLoop TimeProc × App :=
  let app := app.settle host (clearAllDevOnline app.heap app.ipcamDev)
  let eventLoop := createTimer host eventLoop (CHECK_IPCAM_CYCLE * 1000) .watchIpcamLinkTest
  (-1, eventLoop, app)

def watchIpcamLinkTest (eventLoop : AeEventLoop TimeProc) (app : App) :
    Int × AeEventLoop TimeProc × App :=
  (CHECK_IPCAM_CYCLE * 1000, eventLoop, app.settle host (testThenClear app.heap app.ipcamDev))

def callbackListIpcam (eventLoop : AeEventLoop TimeProc) (app : App) :
    Int × AeEventLoop TimeProc × App :=
  (-1, eventLoop, (app.showList host).print .prompt)

def TimeProc.call (timeProc : TimeProc) (id : Int) (eventLoop : AeEventLoop TimeProc) (app : App) :
    Int × AeEventLoop TimeProc × App :=
  let app := { app with fired := app.fired ++ [(id, timeProc)] }
  match timeProc with
  | .watchIpcamLinkClear => SearchPcLoop.watchIpcamLinkClear host eventLoop app
  | .watchIpcamLinkTest => SearchPcLoop.watchIpcamLinkTest host eventLoop app
  | .callbackListIpcam => SearchPcLoop.callbackListIpcam host eventLoop app

def releaseExit (app : App) : App :=
  { app.settle host (freeIpcamLink app.heap app.ipcamDev) with exited := true }

/-- The case of `s`, into which that of `r` falls through. -/
def searchCommand (eventLoop : AeEventLoop TimeProc) (app : App) : AeEventLoop TimeProc × App :=
  (createTimer host eventLoop (1 * 150) .callbackListIpcam,
    app.print (.broadcast (searchIpcam host.pid)))

def runCmdByString (cmdString : List UInt8) (eventLoop : AeEventLoop TimeProc) (app : App) :
    AeEventLoop TimeProc × App :=
  let app := { app with commands := app.commands ++ [cmdString] }
  match Command.ofString cmdString with
  | .renew =>
      searchCommand host eventLoop
        (app.settle host ((deleteIpcamAllNode app.heap app.ipcamDev).map Prod.snd))
  | .search => searchCommand host eventLoop app
  | .list => (eventLoop, (app.showList host).print .prompt)
  | .quit => (eventLoop, releaseExit host (app.print .prompt))
  | .help => (eventLoop, (app.print .help).print .prompt)

/-- The commands of a line, up to one that exits. -/
def runCommands : List (List UInt8) → AeEventLoop TimeProc → App → AeEventLoop TimeProc × App
  | [], eventLoop, app => (eventLoop, app)
  | cmdString :: rest, eventLoop, app =>
      if app.exited then (eventLoop, app)
      else
        let (eventLoop, app) := runCmdByString host cmdString eventLoop app
        runCommands rest eventLoop app

/-- The commands that `dealcmd` finds in what `fgets` stored. A line whose last byte is
sought before its first one is taken to stay empty. -/
def commandsIn (piece : Option (List UInt8)) : List (List UInt8) :=
  match getLine piece with
  | .ok lineBuf => commandsOf lineBuf
  | .error _ => commandsOf []

def dealcmd (piece : Option (List UInt8)) (eventLoop : AeEventLoop TimeProc) (app : App) :
    AeEventLoop TimeProc × App :=
  match commandsIn piece with
  | [] => (eventLoop, app.print .prompt)
  | commands => runCommands host commands eventLoop app

inductive FileEvent where
  | stdin (piece : Option (List UInt8))
  | server (buf : Block MAX_MSG_LEN) (received : Option (List UInt8 × SockaddrIn))

def FileEvent.handle (event : FileEvent) (eventLoop : AeEventLoop TimeProc) (app : App) :
    AeEventLoop TimeProc × App :=
  match event with
  | .stdin piece => dealcmd host piece eventLoop app
  | .server buf received =>
      (eventLoop, app.settle host (dealnet host.allocator app.ipcamDev app.heap buf received))

/-- `main` before it enters the loop. -/
def start (heap : IpcamHeap) : Except Fault (AeEventLoop TimeProc × App) := do
  let (heap, ipcamDev) ← createEmptyIpcamLink host.allocator heap
  let eventLoop := aeCreateEventLoop TimeProc
  let app : App := {
    ipcamDev := ipcamDev
    heap := heap
    outputs := [.prompt]
    exited := false
    wrecks := 0
    commands := []
    fired := [] }
  return (createTimer host eventLoop (CHECK_IPCAM_CYCLE * 1000) .watchIpcamLinkClear, app)

/-- One iteration of `aeMain`. -/
def iterate (fuel : Nat) (polled : List FileEvent) (eventLoop : AeEventLoop TimeProc)
    (app : App) : Except Fault (Nat × AeEventLoop TimeProc × App) :=
  aeProcessEvents host.clock (TimeProc.call host) (FileEvent.handle host) App.exited fuel polled
    eventLoop app

/-- The states between the iterations, after whatever the polls returned. -/
inductive Reachable : AeEventLoop TimeProc → App → Prop where
  | start (heap : IpcamHeap) {eventLoop : AeEventLoop TimeProc} {app : App}
      (started : start host heap = .ok (eventLoop, app)) : Reachable eventLoop app
  | iterate {eventLoop after : AeEventLoop TimeProc} {app appAfter : App} {count : Nat}
      (earlier : Reachable eventLoop app) (running : app.exited = false)
      (fuel : Nat) (polled : List FileEvent)
      (iterated : iterate host fuel polled eventLoop app = .ok (count, after, appAfter)) :
      Reachable after appAfter

end

/-- The commands up to the first one that ends the process. -/
def untilQuit : List (List UInt8) → List (List UInt8)
  | [] => []
  | cmdString :: rest =>
      if Command.ofString cmdString = .quit then [cmdString] else cmdString :: untilQuit rest

section Records

variable (host : Host) (app : App)

@[simp] theorem App.print_commands (output : Output) :
    (app.print output).commands = app.commands := rfl

@[simp] theorem App.print_fired (output : Output) : (app.print output).fired = app.fired := rfl

@[simp] theorem App.print_exited (output : Output) : (app.print output).exited = app.exited := rfl

@[simp] theorem App.settle_commands (outcome : Except Fault IpcamHeap) :
    (app.settle host outcome).commands = app.commands := by cases outcome <;> rfl

@[simp] theorem App.settle_fired (outcome : Except Fault IpcamHeap) :
    (app.settle host outcome).fired = app.fired := by cases outcome <;> rfl

@[simp] theorem App.settle_exited (outcome : Except Fault IpcamHeap) :
    (app.settle host outcome).exited = app.exited := by cases outcome <;> rfl

@[simp] theorem App.showList_commands : (app.showList host).commands = app.commands := by
  unfold App.showList
  split <;> simp

@[simp] theorem App.showList_fired : (app.showList host).fired = app.fired := by
  unfold App.showList
  split <;> simp

@[simp] theorem App.showList_exited : (app.showList host).exited = app.exited := by
  unfold App.showList
  split <;> simp

theorem runCmdByString_records (cmdString : List UInt8) (eventLoop : AeEventLoop TimeProc) :
    (runCmdByString host cmdString eventLoop app).2.commands = app.commands ++ [cmdString] ∧
      (runCmdByString host cmdString eventLoop app).2.exited =
        (app.exited || Command.ofString cmdString = .quit) := by
  unfold runCmdByString
  cases command : Command.ofString cmdString with
  | renew => simp [searchCommand]
  | search => simp [searchCommand]
  | list => simp
  | quit => simp [releaseExit]
  | help => simp

theorem runCommands_exited (commands : List (List UInt8)) (eventLoop : AeEventLoop TimeProc) :
    (runCommands host commands eventLoop app).2.exited =
      (app.exited || commands.any fun cmdString => Command.ofString cmdString = .quit) := by
  induction commands generalizing eventLoop app with
  | nil => simp [runCommands]
  | cons cmdString rest ih =>
      unfold runCommands
      cases ended : app.exited with
      | true => simp [ended]
      | false => simp [ih, runCmdByString_records, ended]

/-- A piece of input ends the process when one of its commands does. -/
theorem dealcmd_exited (piece : Option (List UInt8)) (eventLoop : AeEventLoop TimeProc) :
    (dealcmd host piece eventLoop app).2.exited =
      (app.exited ||
        (commandsIn piece).any fun cmdString => Command.ofString cmdString = .quit) := by
  unfold dealcmd
  cases commandsIn piece with
  | nil => simp
  | cons cmdString rest => exact runCommands_exited host app (cmdString :: rest) eventLoop

theorem runCommands_commands (commands : List (List UInt8)) (eventLoop : AeEventLoop TimeProc) :
    (runCommands host commands eventLoop app).2.commands =
      app.commands ++ if app.exited then [] else untilQuit commands := by
  induction commands generalizing eventLoop app with
  | nil => simp [runCommands, untilQuit]
  | cons cmdString rest ih =>
      unfold runCommands
      cases ended : app.exited with
      | true => simp
      | false =>
          by_cases quits : Command.ofString cmdString = .quit
          · simp [ih, runCmdByString_records, untilQuit, ended, quits]
          · simp [ih, runCmdByString_records, untilQuit, ended, quits]

theorem dealcmd_commands (piece : Option (List UInt8)) (eventLoop : AeEventLoop TimeProc) :
    (dealcmd host piece eventLoop app).2.commands =
      app.commands ++ if app.exited then [] else untilQuit (commandsIn piece) := by
  unfold dealcmd
  cases commandsIn piece with
  | nil => simp [untilQuit]
  | cons cmdString rest => exact runCommands_commands host app (cmdString :: rest) eventLoop

theorem untilQuit_append (front back : List (List UInt8)) :
    untilQuit (front ++ back) = untilQuit front ++
      if front.any fun cmdString => Command.ofString cmdString = .quit then []
      else untilQuit back := by
  induction front with
  | nil => rfl
  | cons cmdString front ih =>
      rw [List.cons_append, untilQuit, untilQuit]
      by_cases quits : Command.ofString cmdString = .quit
      · simp [quits]
      · simp [quits, ih]

end Records

end IpcamSearch.SearchPcLoop
