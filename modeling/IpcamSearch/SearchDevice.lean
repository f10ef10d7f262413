import IpcamSearch.Message

/-! The messages that `ipcam_search_devicev2.c` builds, the heartbeat buffer that it
sends again and again, and its answer to a query. A buffer on the stack starts with
arbitrary bytes. -/

set_option autoImplicit false

namespace IpcamSearch.SearchDevice

open Memory Message

def PC_SERVER_PORT : UInt16 := 6756

/-- In seconds. -/
def HEARTBEAT_CYCLE : Nat := 10

/-- The statics `IPCAM_MAC`, `SSRC` and `STARTUP_TIME`, with `sizeof(time_t)`. -/
structure Device where
  ipcamMac : Block 6
  ssrc : UInt32
  startupTime : Nat
  timeSize : Nat
  timeSized : timeSize = 4 ∨ timeSize = 8

namespace Device

variable (device : Device)

def startupBytes : Block device.timeSize := storeNat device.timeSize device.startupTime

/-- `sizeof(IPCAM_MAC) + sizeof(STARTUP_TIME)`. -/
def extenLen : UInt8 := UInt8.ofNat (6 + device.timeSize)

/-- The header before `exten_len` is written. `ipcamName` is the field that
`get_ipcam_name` filled in and `now` is `time(NULL)`. -/
def newMsg (type : IpcamSearchMsgType) (now : Nat) (ipcamName : Block 64) : IpcamSearchMsg where
  type := type.toByte
  dealId := 0
  flag := 0
  extenLen := 0
  ssrc := device.ssrc
  timestamp := UInt32.ofNat now
  heartbeatNum := 0
  ipcamName := ipcamName

/-- The copies into the send buffer that `replay_alive_msg`, `send_logout_msg` and
`main` make alike. -/
def packWithStartup (buf : Block MAX_MSG_LEN) (msg : IpcamSearchMsg) :
    Except Fault (Block MAX_MSG_LEN) := do
  let buf ← memcpy buf 0 msg.toBytes
  let buf ← memcpy buf headerLen device.ipcamMac.toList
  let buf ← memcpy buf (headerLen + 6) device.startupBytes.toList
  memcpy buf extenLenOffset [device.extenLen]

end Device

/-- The bytes sent when the length is taken from the header in the buffer. -/
def sentBytes (buf : Block MAX_MSG_LEN) : Except Fault (List UInt8) :=
  readBytes buf.toList 0 (headerLen + (bufferHeader buf).extenLen.toNat)

section

variable (device : Device) (now : Nat) (ipcamName : Block 64) (buf : Block MAX_MSG_LEN)

def replayAliveMsg (recvMsg : IpcamSearchMsg) (sender : SockaddrIn) :
    Except Fault (List UInt8 × SockaddrIn) := do
  let sendMsg := { device.newMsg .ackAlive now ipcamName with dealId := recvMsg.dealId }
  let buf ← device.packWithStartup buf sendMsg
  let bytes ← sentBytes buf
  return (bytes, { sender with sinPort := PC_SERVER_PORT })

def broadcastLoginMsg : Except Fault (List UInt8) := do
  let buf ← memcpy buf 0 (device.newMsg .login now ipcamName).toBytes
  let buf ← memcpy buf headerLen device.ipcamMac.toList
  let buf ← memcpy buf extenLenOffset [6]
  readBytes buf.toList 0 (headerLen + 6)

def sendLogoutMsg : Except Fault (List UInt8) := do
  let buf ← device.packWithStartup buf (device.newMsg .logout now ipcamName)
  sentBytes buf

/-- The buffer that `main` hands to the heartbeat timer. -/
def heartbeatBuffer : Except Fault (Block MAX_MSG_LEN) :=
  device.packWithStartup buf (device.newMsg .heartbeat now ipcamName)

end

/-- The timer procedure: send the buffer and count up in place. -/
def sendHeartbeatMsg (clientData : Block MAX_MSG_LEN) :
    Except Fault (List UInt8 × Block MAX_MSG_LEN) := do
  let bytes ← sentBytes clientData
  let heartbeatNum := (bufferHeader clientData).heartbeatNum + 1
  let clientData ← memcpy clientData heartbeatNumOffset (store32 heartbeatNum).toList
  return (bytes, clientData)

/-- The bytes of the heartbeat that so many others came before. -/
def heartbeatAfter (clientData : Block MAX_MSG_LEN) : Nat → Except Fault (List UInt8)
  | 0 => do
      let (bytes, _) ← sendHeartbeatMsg clientData
      return bytes
  | earlier + 1 => do
      let (_, clientData) ← sendHeartbeatMsg clientData
      heartbeatAfter clientData earlier

section

variable (device : Device) (now : Nat) (ipcamName : Block 64)

/-- The reply, if there is one. `reply` is the buffer of `replay_alive_msg`. -/
def ipcamDealMsgFunc (msg : MsgBuf) (sender : SockaddrIn) (reply : Block MAX_MSG_LEN) :
    Except Fault (Option (List UInt8 × SockaddrIn)) :=
  match IpcamSearchMsgType.ofByte? msg.header.type with
  | some .queryAlive => do
      let sent ← replayAliveMsg device now ipcamName reply msg.header sender
      return some sent
  | _ => return none

/-- The file procedure of the socket; `none` is a failed `recvfrom`. -/
def recvMsgFromPc (buf : Block MAX_MSG_LEN) (received : Option (List UInt8 × SockaddrIn))
    (reply : Block MAX_MSG_LEN) : Except Fault (Option (List UInt8 × SockaddrIn)) :=
  match received with
  | none => return none
  | some (datagram, peer) =>
      let (buf, ret) := recvfrom buf datagram
      ipcamDealMsgFunc device now ipcamName (parseMsg buf ret) peer reply

end

end IpcamSearch.SearchDevice
