import IpcamSearch.MessageProperties
import IpcamSearch.SearchDevice

/-! The exact bytes of every message that the device sends. -/

set_option autoImplicit false

namespace IpcamSearch.SearchDevice

open Memory Message

theorem toBytes_extenLen (msg : IpcamSearchMsg) (extenLen : UInt8) :
    overlay msg.toBytes extenLenOffset [extenLen] = { msg with extenLen := extenLen }.toBytes :=
  overlay_packed 3 rfl rfl rfl

theorem toBytes_heartbeatNum (msg : IpcamSearchMsg) (number : UInt32) :
    overlay msg.toBytes heartbeatNumOffset (store32 number).toList =
      { msg with heartbeatNum := number }.toBytes := by
  have start : (msg.fields.take 6).flatten.length = heartbeatNumOffset := by
    simp [IpcamSearchMsg.fields, heartbeatNumOffset]
  exact overlay_packed 6 start rfl (by simp)

namespace Device

variable (device : Device)

theorem timeSize_le : device.timeSize ≤ 8 := by
  rcases device.timeSized with narrow | wide
  · omega
  · omega

theorem extenLen_toNat : device.extenLen.toNat = 6 + device.timeSize := by
  have bound := device.timeSize_le
  rw [extenLen, UInt8.toNat_ofNat']
  omega

def withStartup (header : IpcamSearchMsg) : MsgBuf where
  header := { header with extenLen := device.extenLen }
  extenMsg := device.ipcamMac.toList ++ device.startupBytes.toList
  sized := by
    rw [List.length_append, device.ipcamMac.toList_length, device.startupBytes.toList_length]
    exact device.extenLen_toNat.symm

def withMac (header : IpcamSearchMsg) : MsgBuf where
  header := { header with extenLen := 6 }
  extenMsg := device.ipcamMac.toList
  sized := device.ipcamMac.toList_length

/-- Copying a header and the MAC in, and then setting the length byte behind any copies
that follow, is what the builders have in common. -/
theorem pack_header (buf : Block MAX_MSG_LEN) (msg : IpcamSearchMsg) :
    ∃ first second, memcpy buf 0 msg.toBytes = .ok first ∧
      memcpy first headerLen device.ipcamMac.toList = .ok second ∧
      Starts second (msg.toBytes ++ device.ipcamMac.toList) := by
  have header := msg.toBytes_length
  have mac := device.ipcamMac.toList_length
  obtain ⟨first, copied, starts⟩ := Starts.memcpy_behind (rfl : Starts buf []) msg.toBytes rfl (by
    rw [header]
    decide)
  obtain ⟨second, copiedMac, startsMac⟩ := starts.memcpy_behind device.ipcamMac.toList header (by
    rw [mac]
    decide)
  exact ⟨first, second, copied, copiedMac, startsMac⟩

theorem pack_extenLen {buf : Block MAX_MSG_LEN} {msg : IpcamSearchMsg} {exten : List UInt8}
    (starts : Starts buf (msg.toBytes ++ exten)) (extenLen : UInt8) :
    ∃ after, memcpy buf extenLenOffset [extenLen] = .ok after ∧
      Starts after ({ msg with extenLen := extenLen }.toBytes ++ exten) := by
  have inside : extenLenOffset + [extenLen].length ≤ msg.toBytes.length := by
    rw [msg.toBytes_length]
    exact (by decide : extenLenOffset + 1 ≤ headerLen)
  obtain ⟨after, copied, startsAfter⟩ := starts.memcpy_within
    (Nat.le_trans inside (by rw [List.length_append]; exact Nat.le_add_right _ _))
  rw [overlay_append inside, toBytes_extenLen] at startsAfter
  exact ⟨after, copied, startsAfter⟩

theorem packWithStartup_spec (buf : Block MAX_MSG_LEN) (msg : IpcamSearchMsg) :
    ∃ after, device.packWithStartup buf msg = .ok after ∧
      Starts after (device.withStartup msg).bytes := by
  have bound := device.timeSize_le
  obtain ⟨first, second, copied, copiedMac, starts⟩ := device.pack_header buf msg
  obtain ⟨third, copiedTime, startsTime⟩ := starts.memcpy_behind device.startupBytes.toList (by
    rw [List.length_append, msg.toBytes_length, device.ipcamMac.toList_length]) (by
    simp only [headerLen, MAX_MSG_LEN, List.Vector.toList_length]
    omega)
  rw [List.append_assoc] at startsTime
  obtain ⟨after, copiedLength, startsAfter⟩ := pack_extenLen startsTime device.extenLen
  refine ⟨after, ?_, startsAfter⟩
  simp only [packWithStartup, copied, copiedMac, copiedTime, copiedLength, ok_bind]

end Device

theorem sentBytes_spec {buf : Block MAX_MSG_LEN} {msg : MsgBuf} (starts : Starts buf msg.bytes) :
    sentBytes buf = .ok msg.bytes := by
  rw [sentBytes, starts.header, ← msg.bytes_length, starts.readBytes_front]

section Messages

variable (device : Device) (now : Nat) (ipcamName : Block 64) (buf : Block MAX_MSG_LEN)

theorem replayAliveMsg_spec (recvMsg : IpcamSearchMsg) (sender : SockaddrIn) :
    replayAliveMsg device now ipcamName buf recvMsg sender = .ok
      ((device.withStartup { device.newMsg .ackAlive now ipcamName with
        dealId := recvMsg.dealId }).bytes, { sender with sinPort := PC_SERVER_PORT }) := by
  obtain ⟨packed, copied, starts⟩ := device.packWithStartup_spec buf
    { device.newMsg .ackAlive now ipcamName with dealId := recvMsg.dealId }
  simp only [replayAliveMsg, copied, ok_bind, sentBytes_spec starts]
  rfl

theorem sendLogoutMsg_spec :
    sendLogoutMsg device now ipcamName buf =
      .ok (device.withStartup (device.newMsg .logout now ipcamName)).bytes := by
  obtain ⟨packed, copied, starts⟩ :=
    device.packWithStartup_spec buf (device.newMsg .logout now ipcamName)
  simp only [sendLogoutMsg, copied, ok_bind, sentBytes_spec starts]

theorem broadcastLoginMsg_spec :
    broadcastLoginMsg device now ipcamName buf =
      .ok (device.withMac (device.newMsg .login now ipcamName)).bytes := by
  obtain ⟨first, second, copied, copiedMac, starts⟩ :=
    device.pack_header buf (device.newMsg .login now ipcamName)
  obtain ⟨packed, copiedLength, startsAfter⟩ := Device.pack_extenLen starts 6
  have sent := startsAfter.readBytes_front
  simp only [broadcastLoginMsg, copied, copiedMac, copiedLength, ok_bind]
  rwa [List.length_append, IpcamSearchMsg.toBytes_length, device.ipcamMac.toList_length] at sent

end Messages

section Heartbeat

def counted (msg : MsgBuf) (heartbeatNum : UInt32) : MsgBuf where
  header := { msg.header with heartbeatNum := heartbeatNum }
  extenMsg := msg.extenMsg
  sized := msg.sized

theorem sendHeartbeatMsg_spec {clientData : Block MAX_MSG_LEN} {msg : MsgBuf}
    (starts : Starts clientData msg.bytes) :
    ∃ after, sendHeartbeatMsg clientData = .ok (msg.bytes, after) ∧
      Starts after (counted msg (msg.header.heartbeatNum + 1)).bytes := by
  have inside : heartbeatNumOffset + (store32 (msg.header.heartbeatNum + 1)).toList.length ≤
      msg.header.toBytes.length := by
    rw [msg.header.toBytes_length, List.Vector.toList_length]
    decide
  obtain ⟨after, copied, startsAfter⟩ := starts.memcpy_within
    (Nat.le_trans inside (by rw [MsgBuf.bytes, List.length_append]; exact Nat.le_add_right _ _))
  rw [MsgBuf.bytes, overlay_append inside, toBytes_heartbeatNum] at startsAfter
  refine ⟨after, ?_, startsAfter⟩
  simp only [sendHeartbeatMsg, sentBytes_spec starts, starts.header, copied, ok_bind]
  rfl

/-- The datagram that follows so many others. -/
def heartbeatDatagram (msg : MsgBuf) (earlier : Nat) : MsgBuf :=
  counted msg (msg.header.heartbeatNum + UInt32.ofNat earlier)

@[simp] theorem heartbeatDatagram_zero (msg : MsgBuf) : heartbeatDatagram msg 0 = msg := by
  have same : msg.header.heartbeatNum + UInt32.ofNat 0 = msg.header.heartbeatNum :=
    UInt32.add_zero _
  rw [heartbeatDatagram, same]
  rfl

theorem heartbeatDatagram_counted (msg : MsgBuf) (earlier : Nat) :
    heartbeatDatagram (counted msg (msg.header.heartbeatNum + 1)) earlier =
      heartbeatDatagram msg (earlier + 1) := by
  have next : msg.header.heartbeatNum + 1 + UInt32.ofNat earlier =
      msg.header.heartbeatNum + UInt32.ofNat (earlier + 1) := by
    rw [UInt32.ofNat_add, UInt32.add_comm (UInt32.ofNat earlier), ← UInt32.add_assoc]
    rfl
  exact congrArg (counted msg) next

/-- The heartbeats differ in their number alone, which wraps around after 2^32. -/
theorem heartbeatAfter_spec {clientData : Block MAX_MSG_LEN} {msg : MsgBuf}
    (starts : Starts clientData msg.bytes) (earlier : Nat) :
    heartbeatAfter clientData earlier =
      .ok (counted msg (msg.header.heartbeatNum + UInt32.ofNat earlier)).bytes := by
  change heartbeatAfter clientData earlier = .ok (heartbeatDatagram msg earlier).bytes
  induction earlier generalizing clientData msg with
  | zero =>
      obtain ⟨after, sent, _⟩ := sendHeartbeatMsg_spec starts
      simp only [heartbeatAfter, sent, ok_bind, heartbeatDatagram_zero]
      rfl
  | succ earlier ih =>
      obtain ⟨after, sent, startsAfter⟩ := sendHeartbeatMsg_spec starts
      simp only [heartbeatAfter, sent, ok_bind, ih startsAfter, heartbeatDatagram_counted]

end Heartbeat

end IpcamSearch.SearchDevice
