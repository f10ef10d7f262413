import IpcamSearch.SearchDeviceProperties
import IpcamSearch.SearchPcProperties

/-! From the device's buffers to the PC's list: what the device packs is what the PC
registers. -/

set_option autoImplicit false

namespace IpcamSearch.WireRoundTrip

open Memory IpcamList Message SearchPc SearchDevice

section Carried

variable (device : Device)

theorem carriedMac_withStartup (header : IpcamSearchMsg) :
    carriedMac (device.withStartup header) = device.ipcamMac :=
  Block.ofList_toList device.ipcamMac _

theorem carriedMac_withMac (header : IpcamSearchMsg) :
    carriedMac (device.withMac header) = device.ipcamMac := by
  have whole := Block.ofList_toList device.ipcamMac []
  rwa [List.append_nil] at whole

theorem carriedStartupTime_withStartup {header : IpcamSearchMsg}
    (other : IpcamSearchMsgType.ofByte? header.type ≠ some .login) :
    carriedStartupTime (device.withStartup header) = UInt32.ofNat device.startupTime := by
  have wide : 4 ≤ device.timeSize := by
    rcases device.timeSized with narrow | wide
    · omega
    · omega
  have low : Block.ofList 4 device.startupBytes.toList = storeNat 4 device.startupTime := by
    apply List.Vector.toList_injective
    rw [Block.toList_ofList, List.take_append_of_le_length (by
      rw [device.startupBytes.toList_length]
      exact wide)]
    exact littleEndian_take device.startupTime wide
  rw [carriedStartupTime, if_neg (by exact other), Device.withStartup]
  simp only [List.drop_left' device.ipcamMac.toList_length, low, load32_storeNat]

theorem registering_withStartup {header : IpcamSearchMsg}
    (type : IpcamSearchMsgType.ofByte? header.type = some .heartbeat ∨
      IpcamSearchMsgType.ofByte? header.type = some .ackAlive) :
    Registering (device.withStartup header) := by
  refine .inr ⟨type, UInt8.le_iff_toNat_le.mpr ?_⟩
  have length : (device.withStartup header).header.extenLen.toNat = 6 + device.timeSize :=
    device.extenLen_toNat
  rw [length]
  rcases device.timeSized with narrow | wide
  · exact (by omega : 10 ≤ 6 + device.timeSize)
  · exact (by omega : 10 ≤ 6 + device.timeSize)

end Carried

/-- The record that the PC makes of the device's messages. -/
def recordOf (device : Device) (ipcamName : Block 64) (peer : SockaddrIn) (startupTime : UInt32) :
    Camera where
  nodeInfo := {
    ipaddr := peer.sinAddr
    mac := device.ipcamMac
    ipcamName := ipcamName
    startupTime := startupTime }
  aliveFlag := 1

section Announced

variable (device : Device) (now : Nat) (ipcamName : Block 64) (peer : SockaddrIn)

def loginMsg : MsgBuf := device.withMac (device.newMsg .login now ipcamName)

def ackMsg (dealId : UInt8) : MsgBuf :=
  device.withStartup { device.newMsg .ackAlive now ipcamName with dealId := dealId }

def heartbeatMsg (earlier : Nat) : MsgBuf :=
  counted (device.withStartup (device.newMsg .heartbeat now ipcamName)) (UInt32.ofNat earlier)

theorem loginMsg_registering : Registering (loginMsg device now ipcamName) := .inl ⟨rfl, rfl⟩

theorem ackMsg_registering (dealId : UInt8) : Registering (ackMsg device now ipcamName dealId) :=
  registering_withStartup device (.inr rfl)

theorem heartbeatMsg_registering (earlier : Nat) :
    Registering (heartbeatMsg device now ipcamName earlier) :=
  registering_withStartup device (.inl rfl)

theorem loginMsg_announced :
    announced (loginMsg device now ipcamName) peer =
      recordOf device ipcamName peer (UInt32.ofNat now) := by
  have mac : carriedMac (loginMsg device now ipcamName) = device.ipcamMac :=
    carriedMac_withMac device _
  rw [announced, carriedInfo, mac]
  rfl

theorem ackMsg_announced (dealId : UInt8) :
    announced (ackMsg device now ipcamName dealId) peer =
      recordOf device ipcamName peer (UInt32.ofNat device.startupTime) := by
  have mac : carriedMac (ackMsg device now ipcamName dealId) = device.ipcamMac :=
    carriedMac_withStartup device _
  have startup : carriedStartupTime (ackMsg device now ipcamName dealId) =
      UInt32.ofNat device.startupTime :=
    carriedStartupTime_withStartup device (by simp [Device.newMsg])
  rw [announced, carriedInfo, mac, startup]
  rfl

theorem heartbeatMsg_announced (earlier : Nat) :
    announced (heartbeatMsg device now ipcamName earlier) peer =
      recordOf device ipcamName peer (UInt32.ofNat device.startupTime) := by
  have mac : carriedMac (heartbeatMsg device now ipcamName earlier) = device.ipcamMac :=
    carriedMac_withStartup device (device.newMsg .heartbeat now ipcamName)
  have startup : carriedStartupTime (heartbeatMsg device now ipcamName earlier) =
      UInt32.ofNat device.startupTime :=
    carriedStartupTime_withStartup device (by simp [Device.newMsg] :
      IpcamSearchMsgType.ofByte? (device.newMsg .heartbeat now ipcamName).type ≠ some .login)
  rw [announced, carriedInfo, mac, startup]
  rfl

theorem heartbeat_sent (buf : Block MAX_MSG_LEN) (earlier : Nat) :
    ∃ clientData, heartbeatBuffer device now ipcamName buf = .ok clientData ∧
      heartbeatAfter clientData earlier = .ok (heartbeatMsg device now ipcamName earlier).bytes := by
  obtain ⟨clientData, packed, starts⟩ :=
    device.packWithStartup_spec buf (device.newMsg .heartbeat now ipcamName)
  refine ⟨clientData, packed, (heartbeatAfter_spec starts earlier).trans ?_⟩
  have count : (device.withStartup (device.newMsg .heartbeat now ipcamName)).header.heartbeatNum +
      UInt32.ofNat earlier = UInt32.ofNat earlier := UInt32.zero_add _
  rw [count]
  rfl

end Announced

/-- The datagram has the length that its header states, the parser reads every byte of
it and no other, and the PC with an empty list ends up with this one record. -/
structure Arrives (allocator : Allocator IpcamNode) (ipcamDev : Pointer) (heap : IpcamHeap)
    (buf : Block MAX_MSG_LEN) (bytes : List UInt8) (peer : SockaddrIn) (record : Camera) :
    Prop where
  length : bytes.length =
    headerLen + (parseMsg (recvfrom buf bytes).1 (recvfrom buf bytes).2).header.extenLen.toNat
  read : (parseMsg (recvfrom buf bytes).1 (recvfrom buf bytes).2).bytes = bytes
  listed : ∃ after, dealnet allocator ipcamDev heap buf (some (bytes, peer)) = .ok after ∧
    Represents after ipcamDev [record]

theorem arrives (allocator : Allocator IpcamNode) {ipcamDev : Pointer} {heap : IpcamHeap}
    (empty : Represents heap ipcamDev []) (buf : Block MAX_MSG_LEN) {msg : MsgBuf}
    (registering : Registering msg) (peer : SockaddrIn) :
    Arrives allocator ipcamDev heap buf msg.bytes peer (announced msg peer) := by
  have parsed := (recvfrom_starts buf msg).parse (recvfrom buf msg.bytes).2
  refine ⟨by rw [parsed, msg.bytes_length], by rw [parsed], ?_⟩
  rw [dealnet_whole]
  exact dealMsgFunc_registering allocator empty registering peer

/-- Every message of the device, received whole, leaves one record with its MAC, its
name and the sender's address, and all but the LOGIN also with its startup time. -/
theorem wire_round_trip (allocator : Allocator IpcamNode) {ipcamDev : Pointer} {heap : IpcamHeap}
    (empty : Represents heap ipcamDev []) (device : Device)
    (inRange : device.startupTime < 2 ^ 32) (now : Nat) (ipcamName : Block 64)
    (sendBuf recvBuf : Block MAX_MSG_LEN) (peer : SockaddrIn) :
    ∃ startupTime : UInt32, startupTime.toNat = device.startupTime ∧
      (∀ earlier, ∃ clientData bytes, heartbeatBuffer device now ipcamName sendBuf = .ok clientData ∧
        heartbeatAfter clientData earlier = .ok bytes ∧
        Arrives allocator ipcamDev heap recvBuf bytes peer
          (recordOf device ipcamName peer startupTime)) ∧
      (∀ recvMsg sender, ∃ bytes target,
        replayAliveMsg device now ipcamName sendBuf recvMsg sender = .ok (bytes, target) ∧
        Arrives allocator ipcamDev heap recvBuf bytes peer
          (recordOf device ipcamName peer startupTime)) ∧
      ∃ bytes loginTime, broadcastLoginMsg device now ipcamName sendBuf = .ok bytes ∧
        Arrives allocator ipcamDev heap recvBuf bytes peer
          (recordOf device ipcamName peer loginTime) := by
  refine ⟨UInt32.ofNat device.startupTime, ?_, fun earlier => ?_, fun recvMsg sender => ?_, ?_⟩
  · rw [UInt32.toNat_ofNat']
    exact Nat.mod_eq_of_lt inRange
  · obtain ⟨clientData, packed, sent⟩ := heartbeat_sent device now ipcamName sendBuf earlier
    rw [← heartbeatMsg_announced device now ipcamName peer earlier]
    exact ⟨clientData, _, packed, sent, arrives allocator empty recvBuf
      (heartbeatMsg_registering device now ipcamName earlier) peer⟩
  · rw [← ackMsg_announced device now ipcamName peer recvMsg.dealId]
    exact ⟨_, _, replayAliveMsg_spec device now ipcamName sendBuf recvMsg sender,
      arrives allocator empty recvBuf (ackMsg_registering device now ipcamName _) peer⟩
  · refine ⟨_, UInt32.ofNat now, broadcastLoginMsg_spec device now ipcamName sendBuf, ?_⟩
    rw [← loginMsg_announced device now ipcamName peer]
    exact arrives allocator empty recvBuf (loginMsg_registering device now ipcamName) peer

/-- A device with a `time_t` of eight bytes that started at second 100. -/
def sampleDevice : Device where
  ipcamMac := Block.ofList 6 [0, 17, 34, 51, 68, 85]
  ssrc := 7
  startupTime := 100
  timeSize := 8
  timeSized := .inr rfl

theorem wire_round_trip_created :
    ∃ startupTime : UInt32, startupTime.toNat = 100 ∧ ∃ clientData bytes,
      heartbeatBuffer sampleDevice 101 (Block.zeros 64) (Block.zeros 512) = .ok clientData ∧
      heartbeatAfter clientData 3 = .ok bytes ∧
      Arrives Allocator.bump (some 1) ((∅ : IpcamHeap).insert 1 default) (Block.zeros 512) bytes
        ⟨Block.zeros 4, 6755⟩
        (recordOf sampleDevice (Block.zeros 64) ⟨Block.zeros 4, 6755⟩ startupTime) := by
  obtain ⟨startupTime, same, heartbeat, _⟩ := wire_round_trip Allocator.bump
    (represents_header 1 default rfl) sampleDevice (by decide) 101 (Block.zeros 64)
    (Block.zeros 512) (Block.zeros 512) ⟨Block.zeros 4, 6755⟩
  exact ⟨startupTime, same, heartbeat 3⟩

end IpcamSearch.WireRoundTrip
