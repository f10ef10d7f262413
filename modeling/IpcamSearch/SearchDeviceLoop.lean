import IpcamSearch.Library.BoundedString
import IpcamSearch.LoopHistory
import IpcamSearch.SearchDevice

/-! `ipcam_search_devicev2.c` as a whole: its messages, its socket and its heartbeat timer
on one event loop. The signals come while the process waits in its poll. -/

set_option autoImplicit false

namespace IpcamSearch.SearchDeviceLoop

open Memory Message SearchDevice EventLoop

/-- `ipcam_name_test` -/
def ipcamNameTest : List UInt8 :=
  [0x69, 0x70, 0x63, 0x61, 0x6d, 0x5f, 0x6e, 0x61, 0x6d, 0x65, 0x5f, 0x74, 0x65, 0x73, 0x74]

def getIpcamName (ipcamName : Block 64) : Except Fault (Block 64) :=
  strncpy ipcamName ipcamNameTest 32

/-- The address that `broadcast_msg` sends to. -/
def limitedBroadcast : Block 4 := Block.ofList 4 [255, 255, 255, 255]

/-- What is handed to `sendto`. -/
structure Outgoing where
  bytes : List UInt8
  target : SockaddrIn
deriving DecidableEq

def broadcastMsg (dstPort : UInt16) (bytes : List UInt8) : Outgoing where
  bytes := bytes
  target := ⟨limitedBroadcast, dstPort⟩

inductive TimeProc where
  | sendHeartbeatMsg
deriving DecidableEq

structure Host where
  clock : Nat → AeTime
  device : Device

/-- The buffer of the heartbeat timer and what was sent so far. `faults` counts the copies
that ran out of their buffer. -/
structure App where
  clientData : Block MAX_MSG_LEN
  sent : List Outgoing
  exited : Bool
  faults : Nat

def App.send (app : App) (outgoing : Outgoing) : App :=
  { app with sent := app.sent ++ [outgoing] }

def App.fault (app : App) : App := { app with faults := app.faults + 1 }

section

variable (host : Host)

def sendHeartbeatMsg (eventLoop : AeEventLoop TimeProc) (app : App) :
    Int × AeEventLoop TimeProc × App :=
  match SearchDevice.sendHeartbeatMsg app.clientData with
  | .ok (bytes, clientData) =>
      (HEARTBEAT_CYCLE * 1000, eventLoop,
        { app.send (broadcastMsg PC_SERVER_PORT bytes) with clientData := clientData })
  | .error _ => (HEARTBEAT_CYCLE * 1000, eventLoop, app.fault)

def TimeProc.call (timeProc : TimeProc) (_id : Int) (eventLoop : AeEventLoop TimeProc) (app : App) :
    Int × AeEventLoop TimeProc × App :=
  match timeProc with
  | .sendHeartbeatMsg => SearchDeviceLoop.sendHeartbeatMsg eventLoop app

/-- The socket can be read, or a signal came. `now` is `time(NULL)`, and the buffers are
those on the stack. -/
inductive FileEvent where
  | server (now : Nat) (buf : Block MAX_MSG_LEN) (received : Option (List UInt8 × SockaddrIn))
      (reply : Block MAX_MSG_LEN)
  | signal (now : Nat) (buf : Block MAX_MSG_LEN)

def recvMsgFromPc (now : Nat) (buf : Block MAX_MSG_LEN)
    (received : Option (List UInt8 × SockaddrIn)) (reply : Block MAX_MSG_LEN) :
    Except Fault (Option Outgoing) := do
  let ipcamName ← getIpcamName (Block.zeros 64)
  let answer ← SearchDevice.recvMsgFromPc host.device now ipcamName buf received reply
  return answer.map fun sent => ⟨sent.1, sent.2⟩

def releaseExit (now : Nat) (buf : Block MAX_MSG_LEN) (app : App) : App :=
  let sent : Except Fault (List UInt8) := do
    let ipcamName ← getIpcamName (Block.zeros 64)
    sendLogoutMsg host.device now ipcamName buf
  match sent with
  | .ok bytes => { app.send (broadcastMsg PC_SERVER_PORT bytes) with exited := true }
  | .error _ => { app.fault with exited := true }

def FileEvent.handle (event : FileEvent) (eventLoop : AeEventLoop TimeProc) (app : App) :
    AeEventLoop TimeProc × App :=
  match event with
  | .server now buf received reply =>
      match recvMsgFromPc host now buf received reply with
      | .ok none => (eventLoop, app)
      | .ok (some outgoing) => (eventLoop, app.send outgoing)
      | .error _ => (eventLoop, app.fault)
  | .signal now buf => (eventLoop, releaseExit host now buf app)

/-- `main` before it enters the loop. The LOGIN is built at `now` and the buffer of the
heartbeats at `builtAt`. -/
def start (now builtAt : Nat) (buf heartbeat : Block MAX_MSG_LEN) :
    Except Fault (AeEventLoop TimeProc × App) := do
  let ipcamName ← getIpcamName (Block.zeros 64)
  let login ← broadcastLoginMsg host.device now ipcamName buf
  let clientData ← heartbeatBuffer host.device builtAt ipcamName heartbeat
  let (_, eventLoop) := aeCreateTimeEvent host.clock (aeCreateEventLoop TimeProc)
    (HEARTBEAT_CYCLE * 1000) .sendHeartbeatMsg
  return (eventLoop, {
    clientData := clientData
    sent := [broadcastMsg PC_SERVER_PORT login]
    exited := false
    faults := 0 })

/-- The states between the iterations of `aeMain`, with the file events so far. The LOGIN was
built at `now` and the buffer of the heartbeats at `builtAt`. -/
abbrev Reached (now builtAt : Nat) : AeEventLoop TimeProc → App → List FileEvent → Prop :=
  Arrived host.clock TimeProc.call (FileEvent.handle host) App.exited
    (fun eventLoop app => ∃ buf heartbeat, start host now builtAt buf heartbeat = .ok (eventLoop, app))
    id

end

/-- The field that `get_ipcam_name` fills in. -/
def deviceName : Block 64 := Block.ofList 64 ipcamNameTest

theorem getIpcamName_zeros : getIpcamName (Block.zeros 64) = .ok deviceName := rfl

end IpcamSearch.SearchDeviceLoop
