import IpcamSearch.HeartbeatStream
import IpcamSearch.Library.Run
import IpcamSearch.WireRoundTrip

/-! The time stamps of everything that a device sends in a run. All messages but the
heartbeat are built when they are sent. -/

set_option autoImplicit false

namespace IpcamSearch.SearchDevice

open Memory Message Run WireRoundTrip

/-- What can make the device send. The heartbeat is the one of either program: the next
round of the loop or the next firing of the timer. -/
inductive Occasion where
  | login
  | heartbeat
  | receive (buf : Block MAX_MSG_LEN) (received : Option (List UInt8 × SockaddrIn))
  | logout

/-- `now` is the clock at that moment. The name and the buffer are those of a builder that
runs then. -/
structure DeviceEvent where
  occasion : Occasion
  now : Nat
  ipcamName : Block 64
  buf : Block MAX_MSG_LEN

structure SentDatagram where
  clock : Nat
  bytes : List UInt8

/-- The heartbeat buffer, and what was sent so far with the clock at the sending. -/
structure DeviceState where
  clientData : Block MAX_MSG_LEN
  sent : List SentDatagram

def DeviceState.send (state : DeviceState) (now : Nat) (bytes : List UInt8) : DeviceState :=
  { state with sent := state.sent ++ [⟨now, bytes⟩] }

def deviceStep (device : Device) (state : DeviceState) (event : DeviceEvent) :
    Except Fault DeviceState :=
  match event.occasion with
  | .login => do
      let bytes ← broadcastLoginMsg device event.now event.ipcamName event.buf
      return state.send event.now bytes
  | .heartbeat => do
      let (bytes, clientData) ← sendHeartbeatMsg state.clientData
      return { state.send event.now bytes with clientData := clientData }
  | .receive buf received => do
      let reply ← recvMsgFromPc device event.now event.ipcamName buf received event.buf
      match reply with
      | none => return state
      | some (bytes, _) => return state.send event.now bytes
  | .logout => do
      let bytes ← sendLogoutMsg device event.now event.ipcamName event.buf
      return state.send event.now bytes

/-- A run of the device, whose heartbeat buffer is built when the clock shows `builtAt`. -/
def deviceRun (device : Device) (builtAt : Nat) (ipcamName : Block 64) (buf : Block MAX_MSG_LEN)
    (events : List DeviceEvent) : Except Fault (List SentDatagram) := do
  let clientData ← heartbeatBuffer device builtAt ipcamName buf
  let final ← run (deviceStep device) ⟨clientData, []⟩ events
  return final.sent

def timestampOffset : Nat := 8

def timestampOf (datagram : List UInt8) : Nat :=
  fromLittleEndian ((datagram.drop timestampOffset).take 4)

def SentDatagram.Stamped (datagram : SentDatagram) : Prop :=
  timestampOf datagram.bytes = datagram.clock % 2 ^ 32

/-- Each datagram shows the clock of its sending, and the stamps never go back as long as
the clock fits the field. -/
structure StampedAtSending (sent : List SentDatagram) : Prop where
  stamped : ∀ datagram ∈ sent, datagram.Stamped
  ordered : (∀ datagram ∈ sent, datagram.clock < 2 ^ 32) →
    sent.Pairwise fun earlier later => timestampOf earlier.bytes ≤ timestampOf later.bytes

/-- No heartbeat of the run is sent when the clock shows another time than at the building
of the heartbeat buffer, as far as the field can tell. -/
def SentWhenBuilt (builtAt : Nat) (events : List DeviceEvent) : Prop :=
  ∀ event ∈ events, event.occasion = .heartbeat → event.now % 2 ^ 32 = builtAt % 2 ^ 32

section Stamps

theorem timestampOf_bytes (msg : MsgBuf) :
    timestampOf msg.bytes = msg.header.timestamp.toNat := by
  have field : (msg.header.toBytes.drop timestampOffset).take 4 =
      (store32 msg.header.timestamp).toList := by
    have slice : Block.slice ⟨msg.header.toBytes, msg.header.toBytes_length⟩ timestampOffset 4
        (by decide) = store32 msg.header.timestamp :=
      Block.slice_packed 5 _ rfl (by simp [IpcamSearchMsg.fields, timestampOffset]) rfl
    exact congrArg List.Vector.toList slice
  have within : timestampOffset + 4 ≤ msg.header.toBytes.length := by
    rw [msg.header.toBytes_length]
    decide
  rw [timestampOf, MsgBuf.bytes, List.drop_append_of_le_length (by omega),
    List.take_append_of_le_length (by rw [List.length_drop]; omega), field, store32,
    toList_storeNat, fromLittleEndian_littleEndian]
  exact Nat.mod_eq_of_lt msg.header.timestamp.toNat_lt

theorem stamped_iff {now stamp : Nat} {msg : MsgBuf}
    (built : msg.header.timestamp = UInt32.ofNat stamp) :
    SentDatagram.Stamped ⟨now, msg.bytes⟩ ↔ stamp % 2 ^ 32 = now % 2 ^ 32 := by
  rw [SentDatagram.Stamped, timestampOf_bytes, built, UInt32.toNat_ofNat']

theorem stamps_ordered {sent : List SentDatagram} (stamped : ∀ datagram ∈ sent, datagram.Stamped)
    (clock : (sent.map SentDatagram.clock).Pairwise (· ≤ ·))
    (inRange : ∀ datagram ∈ sent, datagram.clock < 2 ^ 32) :
    sent.Pairwise fun earlier later => timestampOf earlier.bytes ≤ timestampOf later.bytes := by
  have shows : ∀ datagram ∈ sent, timestampOf datagram.bytes = datagram.clock := by
    intro datagram member
    exact (stamped datagram member).trans (Nat.mod_eq_of_lt (inRange datagram member))
  refine (List.pairwise_map.mp clock).imp_of_mem ?_
  intro earlier later memberEarlier memberLater ascending
  rwa [shows earlier memberEarlier, shows later memberLater]

end Stamps

section Runs

variable (device : Device) {builtAt : Nat}

/-- The heartbeat buffer holds a message with the time of its building. -/
def HoldsBuilt (builtAt : Nat) (clientData : Block MAX_MSG_LEN) : Prop :=
  ∃ msg : MsgBuf, Starts clientData msg.bytes ∧ msg.header.timestamp = UInt32.ofNat builtAt

/-- What one step adds: at most one datagram, sent at the clock of the event. -/
structure Adds (builtAt : Nat) (event : DeviceEvent) (before after : DeviceState)
    (added : List SentDatagram) : Prop where
  holds : HoldsBuilt builtAt after.clientData
  sent : after.sent = before.sent ++ added
  clocks : (added.map SentDatagram.clock).Sublist [event.now]
  stamped : (∀ datagram ∈ added, datagram.Stamped) ↔
    (event.occasion = .heartbeat → event.now % 2 ^ 32 = builtAt % 2 ^ 32)

variable {state : DeviceState}

theorem adds_built (holds : HoldsBuilt builtAt state.clientData) {event : DeviceEvent}
    (other : event.occasion ≠ .heartbeat) (msg : MsgBuf)
    (built : msg.header.timestamp = UInt32.ofNat event.now) :
    Adds builtAt event state (state.send event.now msg.bytes) [⟨event.now, msg.bytes⟩] where
  holds := holds
  sent := rfl
  clocks := List.Sublist.refl _
  stamped := by
    simp [stamped_iff built, other]

theorem adds_nothing (holds : HoldsBuilt builtAt state.clientData) {event : DeviceEvent}
    (other : event.occasion ≠ .heartbeat) : Adds builtAt event state state [] where
  holds := holds
  sent := (List.append_nil _).symm
  clocks := List.nil_sublist _
  stamped := by
    simp [other]

theorem recvMsgFromPc_spec (now : Nat) (ipcamName : Block 64) (buf reply : Block MAX_MSG_LEN)
    (received : Option (List UInt8 × SockaddrIn)) :
    recvMsgFromPc device now ipcamName buf received reply = .ok none ∨
      ∃ (msg : MsgBuf) (target : SockaddrIn), msg.header.timestamp = UInt32.ofNat now ∧
        recvMsgFromPc device now ipcamName buf received reply = .ok (some (msg.bytes, target)) := by
  cases received with
  | none => exact .inl rfl
  | some arrived =>
      obtain ⟨datagram, peer⟩ := arrived
      simp only [recvMsgFromPc, ipcamDealMsgFunc, replayAliveMsg_spec, ok_bind]
      split
      · exact .inr ⟨_, _, rfl, rfl⟩
      · exact .inl rfl

theorem recvMsgFromPc_query (now : Nat) (ipcamName : Block 64) (buf reply : Block MAX_MSG_LEN)
    (msg : MsgBuf) (query : IpcamSearchMsgType.ofByte? msg.header.type = some .queryAlive)
    (peer : SockaddrIn) :
    recvMsgFromPc device now ipcamName buf (some (msg.bytes, peer)) reply =
      .ok (some ((device.withStartup { device.newMsg .ackAlive now ipcamName with
        dealId := msg.header.dealId }).bytes, { peer with sinPort := PC_SERVER_PORT })) := by
  have parsed := (recvfrom_starts buf msg).parse (recvfrom buf msg.bytes).2
  simp only [recvMsgFromPc, parsed, ipcamDealMsgFunc, query, replayAliveMsg_spec, ok_bind]
  rfl

theorem deviceStep_spec (holds : HoldsBuilt builtAt state.clientData) (event : DeviceEvent) :
    ∃ after added, deviceStep device state event = .ok after ∧
      Adds builtAt event state after added := by
  obtain ⟨occasion, now, ipcamName, buf⟩ := event
  cases occasion with
  | login =>
      have sent := broadcastLoginMsg_spec device now ipcamName buf
      refine ⟨_, _, ?_, adds_built holds (by simp)
        (device.withMac (device.newMsg .login now ipcamName)) rfl⟩
      simp only [deviceStep, sent, ok_bind]
      rfl
  | heartbeat =>
      obtain ⟨msg, starts, built⟩ := holds
      obtain ⟨after, sent, startsAfter⟩ := sendHeartbeatMsg_spec starts
      refine ⟨{ state.send now msg.bytes with clientData := after }, [⟨now, msg.bytes⟩], ?_, ?_⟩
      · simp only [deviceStep, sent, ok_bind]
        rfl
      · exact {
          holds := ⟨_, startsAfter, built⟩
          sent := rfl
          clocks := List.Sublist.refl _
          stamped := by
            simp [stamped_iff built, eq_comm] }
  | receive recvBuf received =>
      have received := recvMsgFromPc_spec device now ipcamName recvBuf buf received
      rcases received with silent | ⟨msg, target, built, answered⟩
      · refine ⟨_, _, ?_, adds_nothing holds (by simp)⟩
        simp only [deviceStep, silent, ok_bind]
        rfl
      · refine ⟨_, _, ?_, adds_built holds (by simp) msg built⟩
        simp only [deviceStep, answered, ok_bind]
        rfl
  | logout =>
      have sent := sendLogoutMsg_spec device now ipcamName buf
      refine ⟨_, _, ?_, adds_built holds (by simp)
        (device.withStartup (device.newMsg .logout now ipcamName)) rfl⟩
      simp only [deviceStep, sent, ok_bind]
      rfl

theorem run_deviceStep_spec (holds : HoldsBuilt builtAt state.clientData)
    (events : List DeviceEvent) :
    ∃ final added, run (deviceStep device) state events = .ok final ∧
      final.sent = state.sent ++ added ∧
      (added.map SentDatagram.clock).Sublist (events.map DeviceEvent.now) ∧
      ((∀ datagram ∈ added, datagram.Stamped) ↔ SentWhenBuilt builtAt events) := by
  induction events generalizing state with
  | nil =>
      refine ⟨state, [], rfl, (List.append_nil _).symm, List.Sublist.refl _, ?_⟩
      simp [SentWhenBuilt]
  | cons event events ih =>
      obtain ⟨middle, first, stepped, adds⟩ := deviceStep_spec device holds event
      obtain ⟨final, rest, ran, sent, clocks, stamped⟩ := ih adds.holds
      refine ⟨final, first ++ rest, ?_, ?_, ?_, ?_⟩
      · rw [run_cons, stepped]
        exact ran
      · rw [sent, adds.sent, List.append_assoc]
      · rw [List.map_append]
        exact adds.clocks.append clocks
      · simp only [SentWhenBuilt, List.forall_mem_append, List.forall_mem_cons] at stamped ⊢
        exact and_congr adds.stamped stamped

theorem deviceRun_spec (builtAt : Nat) (ipcamName : Block 64) (buf : Block MAX_MSG_LEN)
    (events : List DeviceEvent) :
    ∃ sent, deviceRun device builtAt ipcamName buf events = .ok sent ∧
      (sent.map SentDatagram.clock).Sublist (events.map DeviceEvent.now) ∧
      ((∀ datagram ∈ sent, datagram.Stamped) ↔ SentWhenBuilt builtAt events) := by
  obtain ⟨clientData, packed, starts⟩ :=
    device.packWithStartup_spec buf (device.newMsg .heartbeat builtAt ipcamName)
  have holds : HoldsBuilt builtAt (⟨clientData, []⟩ : DeviceState).clientData :=
    ⟨_, starts, rfl⟩
  obtain ⟨final, added, ran, sent, clocks, stamped⟩ := run_deviceStep_spec device holds events
  refine ⟨added, ?_, clocks, stamped⟩
  rw [List.nil_append] at sent
  rw [← sent]
  simp only [deviceRun, heartbeatBuffer, packed, ran, ok_bind]
  rfl

/-- With a clock that never goes back, the stamps of a run are the times of sending, and in
order, exactly if its heartbeats are all sent at the time of their building. -/
theorem stamped_at_sending_iff (builtAt : Nat) (ipcamName : Block 64) (buf : Block MAX_MSG_LEN)
    {events : List DeviceEvent}
    (clock : events.Pairwise fun earlier later => earlier.now ≤ later.now) :
    ∃ sent, deviceRun device builtAt ipcamName buf events = .ok sent ∧
      (StampedAtSending sent ↔ SentWhenBuilt builtAt events) := by
  obtain ⟨sent, ran, clocks, stamped⟩ := deviceRun_spec device builtAt ipcamName buf events
  have ascending : (sent.map SentDatagram.clock).Pairwise (· ≤ ·) :=
    (List.pairwise_map.mpr clock).sublist clocks
  refine ⟨sent, ran, ?_⟩
  constructor
  · intro atSending
    exact stamped.mp atSending.stamped
  · intro whenBuilt
    have all := stamped.mpr whenBuilt
    exact ⟨all, stamps_ordered all ascending⟩

end Runs

/-- An event of the sample device with a name and buffers of zeros. -/
def sampleEvent (occasion : Occasion) (now : Nat) : DeviceEvent where
  occasion := occasion
  now := now
  ipcamName := Block.zeros 64
  buf := Block.zeros 512

theorem stamped_at_sending_iff_login :
    ∃ sent, deviceRun sampleDevice 100 (Block.zeros 64) (Block.zeros 512)
        [sampleEvent .login 100, sampleEvent .heartbeat 110] = .ok sent ∧
      (StampedAtSending sent ↔
        SentWhenBuilt 100 [sampleEvent .login 100, sampleEvent .heartbeat 110]) :=
  stamped_at_sending_iff sampleDevice 100 (Block.zeros 64) (Block.zeros 512)
    (by simp [sampleEvent])

/-- The event of a search by the PC. -/
def sampleQuery : MsgBuf where
  header := {
    type := IpcamSearchMsgType.queryAlive.toByte
    dealId := 1
    flag := 0
    extenLen := 0
    ssrc := 9
    timestamp := 105
    heartbeatNum := 0
    ipcamName := Block.zeros 64 }
  extenMsg := []
  sized := rfl

def sampleAnswer : MsgBuf :=
  sampleDevice.withStartup
    { sampleDevice.newMsg .ackAlive 105 (Block.zeros 64) with dealId := sampleQuery.header.dealId }

def sampleHeartbeat : MsgBuf :=
  sampleDevice.withStartup (sampleDevice.newMsg .heartbeat 100 (Block.zeros 64))

def queriedBeforeHeartbeat : List DeviceEvent :=
  [sampleEvent (.receive (Block.zeros 512) (some (sampleQuery.bytes, ⟨Block.zeros 4, 6755⟩))) 105,
    sampleEvent .heartbeat 110]

theorem deviceRun_queriedBeforeHeartbeat :
    deviceRun sampleDevice 100 (Block.zeros 64) (Block.zeros 512) queriedBeforeHeartbeat =
      .ok [⟨105, sampleAnswer.bytes⟩, ⟨110, sampleHeartbeat.bytes⟩] := by
  obtain ⟨clientData, packed, starts⟩ := sampleDevice.packWithStartup_spec (Block.zeros 512)
    (sampleDevice.newMsg .heartbeat 100 (Block.zeros 64))
  obtain ⟨after, beaten, _⟩ := sendHeartbeatMsg_spec starts
  have answered : deviceStep sampleDevice ⟨clientData, []⟩
      (sampleEvent (.receive (Block.zeros 512)
        (some (sampleQuery.bytes, ⟨Block.zeros 4, 6755⟩))) 105) =
      .ok ⟨clientData, [⟨105, sampleAnswer.bytes⟩]⟩ := by
    have reply := recvMsgFromPc_query sampleDevice 105 (Block.zeros 64) (Block.zeros 512)
      (Block.zeros 512) sampleQuery rfl ⟨Block.zeros 4, 6755⟩
    simp only [deviceStep, sampleEvent, reply, ok_bind]
    rfl
  have fired : deviceStep sampleDevice ⟨clientData, [⟨105, sampleAnswer.bytes⟩]⟩
      (sampleEvent .heartbeat 110) =
      .ok ⟨after, [⟨105, sampleAnswer.bytes⟩, ⟨110, sampleHeartbeat.bytes⟩]⟩ := by
    simp only [deviceStep, sampleEvent, beaten, ok_bind]
    rfl
  simp only [deviceRun, heartbeatBuffer, packed, ok_bind, queriedBeforeHeartbeat, run_cons,
    answered, fired]
  rfl

/-- The answer to a query at second 105 is stamped so. The heartbeat that the timer sends
five seconds later still has the second of its building, which is an earlier one. -/
theorem heartbeat_stamp_goes_back :
    (queriedBeforeHeartbeat.Pairwise fun earlier later => earlier.now ≤ later.now) ∧
    ∃ sent, deviceRun sampleDevice 100 (Block.zeros 64) (Block.zeros 512)
        queriedBeforeHeartbeat = .ok sent ∧
      sent.map (fun datagram => (datagram.clock, timestampOf datagram.bytes)) =
        [(105, 105), (110, 100)] ∧ ¬ StampedAtSending sent := by
  refine ⟨by simp [queriedBeforeHeartbeat, sampleEvent], _, deviceRun_queriedBeforeHeartbeat, ?_, ?_⟩
  · simp only [List.map_cons, List.map_nil, timestampOf_bytes]
    rfl
  · intro atSending
    have beaten := atSending.stamped ⟨110, sampleHeartbeat.bytes⟩ (by simp)
    have built : sampleHeartbeat.header.timestamp = UInt32.ofNat 100 := rfl
    rw [stamped_iff built] at beaten
    exact absurd beaten (by decide)

end IpcamSearch.SearchDevice
