import IpcamSearch.DeviceStream
import IpcamSearch.SearchPcProperties

/-! Any number of cameras and one PC tool on a local network that loses datagrams, repeats
them and delivers them in any order. -/

set_option autoImplicit false

namespace IpcamSearch.Network

open Memory IpcamList Message SearchPc SearchDeviceLoop WireRoundTrip

/-- The machines. A camera keeps its address and its MAC over its restarts. -/
structure Site (Id : Type) where
  allocator : Allocator IpcamNode
  pid : UInt32
  pcAddress : Block 4
  address : Id → Block 4
  ipcamMac : Id → Mac

structure Packet where
  bytes : List UInt8
  sender : SockaddrIn
  target : SockaddrIn
deriving DecidableEq

/-- The packet can come to a socket that is bound to the port at this address. -/
def Packet.Reaches (packet : Packet) (address : Block 4) (port : UInt16) : Prop :=
  packet.target.sinPort = port ∧
    (packet.target.sinAddr = address ∨ packet.target.sinAddr = limitedBroadcast)

instance (packet : Packet) (address : Block 4) (port : UInt16) :
    Decidable (packet.Reaches address port) := by
  unfold Packet.Reaches
  infer_instance

/-- A camera that runs, with the buffer of its heartbeat timer. -/
structure Running where
  device : SearchDevice.Device
  clientData : Block MAX_MSG_LEN

/-- What the PC tool has done to its list. -/
inductive Handled where
  | packet (packet : Packet)
  | renew

/-- A packet that was sent stays in the network, so it can arrive at any time, again or
never. `handled` only records. -/
structure Net (Id : Type) where
  running : Id → Option Running
  packets : List Packet
  ticks : Nat
  heap : IpcamHeap
  handled : List Handled

/-- `index` is the number of the packet that arrives. The buffers are those on the stack, `now`
is `time(NULL)`, and `port` is the one that the system gives to the sending socket. -/
inductive NetEvent (Id : Type) where
  | boot (id : Id) (device : SearchDevice.Device) (now builtAt : Nat) (port : UInt16)
      (buf heartbeat : Block MAX_MSG_LEN)
  | heartbeat (id : Id) (port : UInt16)
  | query (id : Id) (index now : Nat) (port : UInt16) (buf reply : Block MAX_MSG_LEN)
  | signal (id : Id) (now : Nat) (port : UInt16) (buf : Block MAX_MSG_LEN)
  | search (port : UInt16)
  | renew (port : UInt16)
  | tick
  | arrival (index : Nat) (buf : Block MAX_MSG_LEN)

section

variable {Id : Type} [DecidableEq Id]

def Net.send (net : Net Id) (address : Block 4) (port : UInt16) (outgoing : Outgoing) : Net Id :=
  { net with packets := net.packets ++
      [{ bytes := outgoing.bytes, sender := ⟨address, port⟩, target := outgoing.target }] }

def Net.set (net : Net Id) (id : Id) (running : Option Running) : Net Id :=
  { net with running := Function.update net.running id running }

variable (site : Site Id) (ipcamDev : Pointer)

/-- An event that cannot happen in a state leaves it as it is. -/
def netStep (net : Net Id) : NetEvent Id → Except Fault (Net Id)
  | .boot id device now builtAt port buf heartbeat =>
      match net.running id with
      | some _ => return net
      | none => do
          let device := { device with ipcamMac := site.ipcamMac id }
          let ipcamName ← getIpcamName (Block.zeros 64)
          let bytes ← SearchDevice.broadcastLoginMsg device now ipcamName buf
          let clientData ← SearchDevice.heartbeatBuffer device builtAt ipcamName heartbeat
          let net := net.send (site.address id) port (broadcastMsg SearchDevice.PC_SERVER_PORT bytes)
          return net.set id (some { device := device, clientData := clientData })
  | .heartbeat id port =>
      match net.running id with
      | none => return net
      | some running => do
          let (bytes, clientData) ← SearchDevice.sendHeartbeatMsg running.clientData
          let net := net.send (site.address id) port (broadcastMsg SearchDevice.PC_SERVER_PORT bytes)
          return net.set id (some { running with clientData := clientData })
  | .query id index now port buf reply =>
      match net.running id, net.packets[index]? with
      | some running, some packet =>
          if packet.Reaches (site.address id) IPCAM_SERVER_PORT then do
            let ipcamName ← getIpcamName (Block.zeros 64)
            let answer ← SearchDevice.recvMsgFromPc running.device now ipcamName buf
              (some (packet.bytes, packet.sender)) reply
            match answer with
            | none => return net
            | some (bytes, target) => return net.send (site.address id) port ⟨bytes, target⟩
          else return net
      | _, _ => return net
  | .signal id now port buf =>
      match net.running id with
      | none => return net
      | some running => do
          let ipcamName ← getIpcamName (Block.zeros 64)
          let bytes ← SearchDevice.sendLogoutMsg running.device now ipcamName buf
          let net := net.send (site.address id) port (broadcastMsg SearchDevice.PC_SERVER_PORT bytes)
          return net.set id none
  | .search port =>
      return net.send site.pcAddress port (broadcastMsg IPCAM_SERVER_PORT (searchIpcam site.pid))
  | .renew port => do
      let (_, heap) ← deleteIpcamAllNode net.heap ipcamDev
      let net := { net with heap := heap, handled := net.handled ++ [Handled.renew] }
      return net.send site.pcAddress port (broadcastMsg IPCAM_SERVER_PORT (searchIpcam site.pid))
  | .tick => do
      let heap ←
        if net.ticks = 0 then clearAllDevOnline net.heap ipcamDev
        else testThenClear net.heap ipcamDev
      return { net with heap := heap, ticks := net.ticks + 1 }
  | .arrival index buf =>
      match net.packets[index]? with
      | none => return net
      | some packet =>
          if packet.Reaches site.pcAddress PC_SERVER_PORT then do
            let heap ← dealnet site.allocator ipcamDev net.heap buf
              (some (packet.bytes, packet.sender))
            return { net with heap := heap, handled := net.handled ++ [Handled.packet packet] }
          else return net

/-- No camera runs yet, and the PC has just created its list. -/
def netStart (heap : IpcamHeap) : Net Id where
  running _ := none
  packets := []
  ticks := 0
  heap := heap
  handled := []

end

end IpcamSearch.Network
