import IpcamSearch.SearchDeviceProperties

/-! The endless row of heartbeats, from the loop of `ipcam_search_device.c` and from the
timer of `ipcam_search_devicev2.c`. Both count up in the buffer that they send. -/

set_option autoImplicit false

namespace IpcamSearch.SearchDevice

open Memory Message

/-- The first rounds of the `while (1)` in the `send_heartbeat_msg` of
`ipcam_search_device.c`, with what each hands to `broadcast_msg`. -/
def heartbeatLoop : Nat → Block MAX_MSG_LEN → Except Fault (List (List UInt8))
  | 0, _ => return []
  | rounds + 1, buf => do
      let bytes ← readBytes buf.toList 0 (headerLen + (bufferHeader buf).extenLen.toNat)
      let heartbeatNum := (bufferHeader buf).heartbeatNum + 1
      let buf ← memcpy buf heartbeatNumOffset (store32 heartbeatNum).toList
      let later ← heartbeatLoop rounds buf
      return bytes :: later

/-- So many firings of the timer that `main` of `ipcam_search_devicev2.c` creates, with the
buffer that they leave behind. -/
def heartbeatFirings (clientData : Block MAX_MSG_LEN) :
    Nat → Except Fault (List (List UInt8) × Block MAX_MSG_LEN)
  | 0 => return ([], clientData)
  | firings + 1 => do
      let (sent, clientData) ← heartbeatFirings clientData firings
      let (bytes, clientData) ← sendHeartbeatMsg clientData
      return (sent ++ [bytes], clientData)

theorem heartbeatDatagram_next (msg : MsgBuf) (earlier : Nat) :
    counted (heartbeatDatagram msg earlier)
        ((heartbeatDatagram msg earlier).header.heartbeatNum + 1) =
      heartbeatDatagram msg (earlier + 1) := by
  have next : msg.header.heartbeatNum + UInt32.ofNat earlier + 1 =
      msg.header.heartbeatNum + UInt32.ofNat (earlier + 1) := by
    rw [UInt32.ofNat_add, UInt32.add_assoc]
    rfl
  exact congrArg (counted msg) next

section Rounds

variable {buf : Block MAX_MSG_LEN} {msg : MsgBuf}

theorem heartbeatLoop_succ (rounds : Nat) (buf : Block MAX_MSG_LEN) :
    heartbeatLoop (rounds + 1) buf = (do
      let (bytes, buf) ← sendHeartbeatMsg buf
      let later ← heartbeatLoop rounds buf
      return bytes :: later) := by
  simp only [heartbeatLoop, sendHeartbeatMsg, sentBytes, bind_assoc, pure_bind]

theorem heartbeatLoop_spec (starts : Starts buf msg.bytes) (rounds : Nat) :
    heartbeatLoop rounds buf =
      .ok ((List.range rounds).map fun earlier => (heartbeatDatagram msg earlier).bytes) := by
  induction rounds generalizing buf msg with
  | zero => rfl
  | succ rounds ih =>
      obtain ⟨after, sent, startsAfter⟩ := sendHeartbeatMsg_spec starts
      have later := ih startsAfter
      simp only [heartbeatDatagram_counted] at later
      simp only [heartbeatLoop_succ, sent, later, ok_bind, List.range_succ_eq_map, List.map_cons,
        List.map_map, heartbeatDatagram_zero]
      rfl

theorem heartbeatFirings_spec (starts : Starts buf msg.bytes) (firings : Nat) :
    ∃ after, heartbeatFirings buf firings =
        .ok ((List.range firings).map fun earlier => (heartbeatDatagram msg earlier).bytes, after) ∧
      Starts after (heartbeatDatagram msg firings).bytes := by
  induction firings with
  | zero =>
      refine ⟨buf, rfl, ?_⟩
      rwa [heartbeatDatagram_zero]
  | succ firings ih =>
      obtain ⟨middle, fired, startsMiddle⟩ := ih
      obtain ⟨after, sent, startsAfter⟩ := sendHeartbeatMsg_spec startsMiddle
      rw [heartbeatDatagram_next] at startsAfter
      refine ⟨after, ?_, startsAfter⟩
      simp only [heartbeatFirings, fired, sent, ok_bind, List.range_succ, List.map_append]
      rfl

/-- A buffer always starts with some message, so neither implementation can fail. -/
theorem heartbeat_implementations_agree (buf : Block MAX_MSG_LEN) (count : Nat) :
    ∃ datagrams after, heartbeatLoop count buf = .ok datagrams ∧
      heartbeatFirings buf count = .ok (datagrams, after) := by
  have starts := starts_parse buf MAX_MSG_LEN
  obtain ⟨after, fired, _⟩ := heartbeatFirings_spec starts count
  exact ⟨_, after, heartbeatLoop_spec starts count, fired⟩

/-- The single heartbeats of the other modules are the members of this row. -/
theorem heartbeatAfter_firings (buf : Block MAX_MSG_LEN) (earlier : Nat) :
    ∃ datagrams after datagram, heartbeatFirings buf (earlier + 1) = .ok (datagrams, after) ∧
      datagrams[earlier]? = some datagram ∧ heartbeatAfter buf earlier = .ok datagram := by
  have starts := starts_parse buf MAX_MSG_LEN
  obtain ⟨after, fired, _⟩ := heartbeatFirings_spec starts (earlier + 1)
  refine ⟨_, after, _, fired, ?_, heartbeatAfter_spec starts earlier⟩
  rw [List.getElem?_map, List.getElem?_range (Nat.lt_succ_self earlier)]
  rfl

end Rounds

/-- The buffer's message with this number in it, and not a byte more. -/
structure NumberedCopy (initial : Block MAX_MSG_LEN) (number : Nat) (datagram : List UInt8) :
    Prop where
  length : datagram.length = headerLen + (bufferHeader initial).extenLen.toNat
  heartbeatNum :
    fromLittleEndian ((datagram.drop heartbeatNumOffset).take 4) = number % 2 ^ 32
  others : ∀ index, index < heartbeatNumOffset ∨ heartbeatNumOffset + 4 ≤ index →
    index < datagram.length → datagram[index]? = initial.toList[index]?

theorem counted_bytes (msg : MsgBuf) (number : UInt32) :
    (counted msg number).bytes = overlay msg.bytes heartbeatNumOffset (store32 number).toList := by
  have inside : heartbeatNumOffset + (store32 number).toList.length ≤ msg.header.toBytes.length := by
    rw [msg.header.toBytes_length, List.Vector.toList_length]
    decide
  rw [MsgBuf.bytes, MsgBuf.bytes, overlay_append inside, toBytes_heartbeatNum]
  rfl

theorem numberedCopy_counted {initial : Block MAX_MSG_LEN} {msg : MsgBuf}
    (starts : Starts initial msg.bytes) (number : Nat) :
    NumberedCopy initial number (counted msg (UInt32.ofNat number)).bytes := by
  have reached : heartbeatNumOffset ≤ msg.bytes.length := by
    rw [msg.bytes_length]
    exact Nat.le_trans (by decide : heartbeatNumOffset ≤ headerLen) (Nat.le_add_right _ _)
  have width : (store32 (UInt32.ofNat number)).toList.length = 4 := List.Vector.toList_length _
  constructor
  case length =>
    rw [starts.header]
    exact (counted msg (UInt32.ofNat number)).bytes_length
  case heartbeatNum =>
    have written := slice_overlay_self (store32 (UInt32.ofNat number)).toList reached
    rw [width] at written
    rw [counted_bytes, written, store32, toList_storeNat, fromLittleEndian_littleEndian,
      UInt32.toNat_ofNat']
    norm_num
  case others =>
    intro index outside inside
    have sameLength : (counted msg (UInt32.ofNat number)).bytes.length = msg.bytes.length := by
      rw [MsgBuf.bytes_length, MsgBuf.bytes_length]
      rfl
    rw [sameLength] at inside
    rw [counted_bytes, overlay_getElem_outside reached (by rwa [width]), ← starts,
      List.getElem?_take_of_lt inside]

/-- The implementations agree on every buffer, and on the one that the device builds each
datagram is the built message with the number of its predecessors, modulo 2^32. -/
theorem heartbeat_stream :
    (∀ buf count, ∃ datagrams after, heartbeatLoop count buf = .ok datagrams ∧
      heartbeatFirings buf count = .ok (datagrams, after)) ∧
    ∀ (device : Device) (now : Nat) (ipcamName : Block 64) (buf : Block MAX_MSG_LEN),
      ∃ initial, heartbeatBuffer device now ipcamName buf = .ok initial ∧
        ∀ n, ∃ datagrams after datagram, heartbeatLoop (n + 1) initial = .ok datagrams ∧
          heartbeatFirings initial (n + 1) = .ok (datagrams, after) ∧
          datagrams[n]? = some datagram ∧ NumberedCopy initial n datagram := by
  refine ⟨heartbeat_implementations_agree, ?_⟩
  intro device now ipcamName buf
  obtain ⟨initial, packed, starts⟩ :=
    device.packWithStartup_spec buf (device.newMsg .heartbeat now ipcamName)
  refine ⟨initial, packed, ?_⟩
  intro n
  obtain ⟨after, fired, _⟩ := heartbeatFirings_spec starts (n + 1)
  -- The device builds the message with the number zero.
  have number : (device.withStartup (device.newMsg .heartbeat now ipcamName)).header.heartbeatNum +
      UInt32.ofNat n = UInt32.ofNat n := UInt32.zero_add _
  have copy := numberedCopy_counted starts n
  rw [← number] at copy
  refine ⟨_, after, _, heartbeatLoop_spec starts (n + 1), fired, ?_, copy⟩
  rw [List.getElem?_map, List.getElem?_range (Nat.lt_succ_self n)]
  rfl

end IpcamSearch.SearchDevice
