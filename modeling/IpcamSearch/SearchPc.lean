import IpcamSearch.IpcamList
import IpcamSearch.Message

/-! What `ipcam_search_pcv2.c` does to the camera list when a datagram arrives, when
the watch timer fires and when the list is shown. `ipcam_search_pc.c` has the same
functions with a lock around each access to the list. -/

set_option autoImplicit false

namespace IpcamSearch.SearchPc

open Memory IpcamList Message

def IPCAM_SERVER_PORT : UInt16 := 6755

def PC_SERVER_PORT : UInt16 := 6756

def CHECK_IPCAM_CYCLE : Nat := 30

/-! The layout of `ipcam_info_t`: two bytes of padding stand before the number. -/

def ipcamInfoLen : Nat := 80

def ipaddrOffset : Nat := 0

def macOffset : Nat := 4

def ipcamNameOffset : Nat := 10

def startupTimeOffset : Nat := 76

def ipcamInfoOfBlock (bytes : Block ipcamInfoLen) : IpcamInfo where
  ipaddr := bytes.slice ipaddrOffset 4 (by decide)
  mac := bytes.slice macOffset 6 (by decide)
  ipcamName := bytes.slice ipcamNameOffset 64 (by decide)
  startupTime := load32 (bytes.slice startupTimeOffset 4 (by decide))

section

variable (allocator : Allocator IpcamNode) (ipcamDev : Pointer)

/-- The common end of the registering cases: the node is inserted unless its MAC is
known, and then the known node is marked alive. -/
def registerNode (heap : IpcamHeap) (remoteIpcamInfo : IpcamInfo) : Except Fault IpcamHeap := do
  let newIpcamNode : IpcamNode := {
    nodeInfo := remoteIpcamInfo
    aliveFlag := 1
    next := none }
  let (ret, heap) ← insertNodulpIpcamNode allocator heap ipcamDev newIpcamNode
  if ret then return heap
  let tmpNode ← searchIpcamNodeByMac heap ipcamDev remoteIpcamInfo.mac
  let node ← heap.read tmpNode
  heap.write tmpNode { node with aliveFlag := 1 }

/-- The bytes that the LOGIN case reads out of the extension. -/
def loginExten (msg : MsgBuf) : Except Fault (List UInt8) :=
  readBytes msg.extenMsg 0 msg.header.extenLen.toNat

/-- The copy of the extension in the LOGIN case. It has the length that the message
states, so it may run over the fields behind the MAC. -/
def loginCopy (msg : MsgBuf) (remote : Block ipcamInfoLen) : Except Fault (Block ipcamInfoLen) := do
  let exten ← loginExten msg
  memcpy remote macOffset exten

/-- The `remote_ipcam_info` of a LOGIN. -/
def remoteOfLogin (msg : MsgBuf) (sender : SockaddrIn) : Except Fault IpcamInfo := do
  let remote := Block.zeros ipcamInfoLen
  let remote ← memcpy remote ipaddrOffset sender.sinAddr.toList
  let remote ← loginCopy msg remote
  let remote ← memcpy remote ipcamNameOffset msg.header.ipcamName.toList
  let remote ← memcpy remote startupTimeOffset (store32 msg.header.timestamp).toList
  return ipcamInfoOfBlock remote

/-- The `remote_ipcam_info` of a HEARTBEAT and of an ACK_ALIVE. -/
def remoteOfExtension (msg : MsgBuf) (sender : SockaddrIn) : Except Fault IpcamInfo := do
  let remote := Block.zeros ipcamInfoLen
  let remote ← memcpy remote ipaddrOffset sender.sinAddr.toList
  let mac ← readBytes msg.extenMsg 0 6
  let remote ← memcpy remote macOffset mac
  let remote ← memcpy remote ipcamNameOffset msg.header.ipcamName.toList
  let startupTime ← readBytes msg.extenMsg 6 4
  let remote ← memcpy remote startupTimeOffset startupTime
  return ipcamInfoOfBlock remote

def dealMsgFunc (heap : IpcamHeap) (msg : MsgBuf) (sender : SockaddrIn) :
    Except Fault IpcamHeap :=
  match IpcamSearchMsgType.ofByte? msg.header.type with
  | some .login => do registerNode allocator ipcamDev heap (← remoteOfLogin msg sender)
  | some .logout => do
      let (_, heap) ← deleteIpcamNodeByMac heap ipcamDev msg.extenMsg
      return heap
  | some .heartbeat => do registerNode allocator ipcamDev heap (← remoteOfExtension msg sender)
  | some .ackAlive => do registerNode allocator ipcamDev heap (← remoteOfExtension msg sender)
  | some .ackDhcp => return heap
  | some .ackIp => return heap
  | _ => return heap

/-- The file procedure of the socket. The block for the parsed message lives apart
from the list and is freed before the return; `none` is a failed `recvfrom`. -/
def dealnet (heap : IpcamHeap) (buf : Block MAX_MSG_LEN)
    (received : Option (List UInt8 × SockaddrIn)) : Except Fault IpcamHeap :=
  match received with
  | none => return heap
  | some (datagram, peer) =>
      let (buf, ret) := recvfrom buf datagram
      dealMsgFunc allocator ipcamDev heap (parseMsg buf ret) peer

end

def clearAllDevOnline (heap : IpcamHeap) (ipcamDev : Pointer) : Except Fault IpcamHeap := do
  let header ← heap.read ipcamDev
  forEach IpcamNode.next (fun q => { q with aliveFlag := q.aliveFlag ||| ((1 : Int32) <<< (1 : Int32)) })
    (heap.liveCells + 1) heap header.next

def testAllDevOnline (heap : IpcamHeap) (ipcamDev : Pointer) : Except Fault IpcamHeap := do
  let header ← heap.read ipcamDev
  forEach IpcamNode.next
    (fun q => { q with aliveFlag := if q.aliveFlag ≠ 1 then 0 else q.aliveFlag })
    (heap.liveCells + 1) heap header.next

/-- The list part of `watch_ipcam_link_test`. That of `watch_ipcam_link_clear` is
`clear_all_dev_online` alone. -/
def testThenClear (heap : IpcamHeap) (ipcamDev : Pointer) : Except Fault IpcamHeap := do
  let heap ← testAllDevOnline heap ipcamDev
  clearAllDevOnline heap ipcamDev

/-- The `yes` or `no` of the first column. -/
def showsAlive (aliveFlag : Int32) : Bool := aliveFlag &&& 1 ≠ 0

structure ListRow where
  alive : Bool
  ipaddr : Block 4
  ipcamName : List UInt8
  mac : Mac
  startupTime : UInt32
deriving DecidableEq

/-- The bytes that `%s` prints. The array has to hold the terminator. -/
def printString (bytes : List UInt8) : Except Fault (List UInt8) :=
  if 0 ∈ bytes then .ok (bytes.takeWhile fun byte => byte ≠ 0) else .error .outOfBounds

def listLoop (heap : IpcamHeap) : Nat → Pointer → Except Fault (List ListRow)
  | 0, _ => .error .divergence
  | _ + 1, none => .ok []
  | fuel + 1, some address => do
      let q ← heap.read (some address)
      let ipcamName ← printString q.nodeInfo.ipcamName.toList
      let rows ← listLoop heap fuel q.next
      return {
        alive := showsAlive q.aliveFlag
        ipaddr := q.nodeInfo.ipaddr
        ipcamName := ipcamName
        mac := q.nodeInfo.mac
        startupTime := q.nodeInfo.startupTime } :: rows

def listIpcam (heap : IpcamHeap) (ipcamDev : Pointer) : Except Fault (List ListRow) := do
  let header ← heap.read ipcamDev
  listLoop heap (heap.liveCells + 1) header.next

/-- The query that `search_ipcam` broadcasts to `IPCAM_SERVER_PORT`. -/
def searchIpcam (ssrc : UInt32) : List UInt8 :=
  IpcamSearchMsg.toBytes {
    type := IpcamSearchMsgType.queryAlive.toByte
    dealId := 0
    flag := 0
    extenLen := 0
    ssrc := ssrc
    timestamp := 0
    heartbeatNum := 0
    ipcamName := Block.zeros 64 }

end IpcamSearch.SearchPc
