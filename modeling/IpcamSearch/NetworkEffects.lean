import IpcamSearch.DeleteByMac
import IpcamSearch.Network

/-! What one event does to the network, as long as its packets are those of its own machines. -/

set_option autoImplicit false

namespace IpcamSearch.Network

open Memory IpcamList Message SearchPc SearchDeviceLoop WireRoundTrip KeyedList Run

/-- The messages of a device. -/
inductive Tells (device : SearchDevice.Device) : MsgBuf → Prop where
  | login (now : Nat) : Tells device (loginMsg device now deviceName)
  | heartbeat (builtAt earlier : Nat) : Tells device (heartbeatMsg device builtAt deviceName earlier)
  | answer (now : Nat) (dealId : UInt8) : Tells device (ackMsg device now deviceName dealId)
  | logout (now : Nat) : Tells device (logoutMsg device now deviceName)

namespace Tells

variable {device : SearchDevice.Device} {msg : MsgBuf}

theorem exten (told : Tells device msg) : msg.extenMsg.take 6 = device.ipcamMac.toList := by
  have whole := device.ipcamMac.toList_length
  cases told with
  | login => exact List.take_of_length_le (Nat.le_of_eq whole)
  | heartbeat | answer | logout => exact List.take_left' whole

theorem mac (told : Tells device msg) : carriedMac msg = device.ipcamMac := by
  cases told with
  | login => exact carriedMac_withMac device _
  | heartbeat builtAt =>
      exact carriedMac_withStartup device (device.newMsg .heartbeat builtAt deviceName)
  | answer | logout => exact carriedMac_withStartup device _

theorem ipcamName (told : Tells device msg) : msg.header.ipcamName = deviceName := by
  cases told with
  | login | heartbeat | answer | logout => rfl

theorem kind (told : Tells device msg) :
    Registering msg ∨ IpcamSearchMsgType.ofByte? msg.header.type = some .logout := by
  cases told with
  | login => exact .inl (loginMsg_registering device _ _)
  | heartbeat => exact .inl (heartbeatMsg_registering device _ _ _)
  | answer => exact .inl (ackMsg_registering device _ _ _)
  | logout => exact .inr rfl

end Tells

theorem not_logout_of_registering {msg : MsgBuf} (registering : Registering msg) :
    IpcamSearchMsgType.ofByte? msg.header.type ≠ some .logout := by
  rcases registering with ⟨login, _⟩ | ⟨heartbeat | ackAlive, _⟩
  · simp [login]
  · simp [heartbeat]
  · simp [ackAlive]

namespace Packet

variable (packet : Packet)

/-- What a parser makes of the packet. -/
def message : MsgBuf :=
  parseMsg (recvfrom (Block.zeros MAX_MSG_LEN) packet.bytes).1
    (recvfrom (Block.zeros MAX_MSG_LEN) packet.bytes).2

variable {packet}

theorem message_whole {msg : MsgBuf} (whole : packet.bytes = msg.bytes) : packet.message = msg := by
  rw [message, whole]
  exact (recvfrom_starts _ msg).parse _

variable (packet)

def IsAnswer : Prop := IpcamSearchMsgType.ofByte? packet.message.header.type = some .ackAlive

def IsLogout : Prop := IpcamSearchMsgType.ofByte? packet.message.header.type = some .logout

end Packet

/-- The deletion takes one MAC for the other. -/
def Alike (mac other : Mac) : Prop := mac = other ∨ DifferBehindZero mac.toList other.toList

/-- No record that a LOGOUT takes for its own stands behind one that it does not. -/
def LogoutFirst (mac : Mac) (cameras : List Camera) : Prop :=
  cameras.Pairwise fun earlier later => Alike later.mac mac → Alike earlier.mac mac

section Logout

variable {heap : IpcamHeap} {ipcamDev : Pointer} {cameras : List Camera} {key : List UInt8} {mac : Mac}

theorem logout_first_iff (names : key.take 6 = mac.toList) (cells : List (Address × IpcamNode)) :
    SelectedFirst key cells ↔ LogoutFirst mac (camerasOf cells) := by
  rw [SelectedFirst, LogoutFirst, camerasOf, List.pairwise_map]
  simp only [selects_iff names]
  exact Iff.rfl

theorem comparable_of_names (names : key.take 6 = mac.toList) : Comparable key := by
  have length := congrArg List.length names
  rw [List.length_take, mac.toList_length] at length
  exact comparable_of_length (by omega)

/-- The deletion of a MAC ends well exactly on these lists, and leaves the other records. -/
theorem logout_ends_iff (represented : Represents heap ipcamDev cameras)
    (names : key.take 6 = mac.toList) :
    LogoutFirst mac cameras ↔ ∃ ret after, deleteIpcamNodeByMac heap ipcamDev key = .ok (ret, after) := by
  obtain ⟨address, header, cells, rfl, chain, rfl⟩ := represented
  rw [← logout_first_iff names]
  constructor
  · intro first
    obtain ⟨ret, after, deletes⟩ := delete_selected_first (comparable_of_names names) chain first
    exact ⟨ret, after, deletes.returned⟩
  · rintro ⟨ret, after, returned⟩
    by_contra behind
    rw [delete_selected_behind (comparable_of_names names) chain behind] at returned
    cases returned

theorem logout_leaves (represented : Represents heap ipcamDev cameras)
    (names : key.take 6 = mac.toList) {ret : Nat} {after : IpcamHeap}
    (returned : deleteIpcamNodeByMac heap ipcamDev key = .ok (ret, after)) :
    ∃ left, Represents after ipcamDev left ∧ left.Sublist cameras ∧
      ∀ camera, camera ∈ left ↔ camera ∈ cameras ∧ ¬ Alike camera.mac mac := by
  have first := (logout_ends_iff represented names).mpr ⟨ret, after, returned⟩
  obtain ⟨address, header, cells, rfl, chain, rfl⟩ := represented
  obtain ⟨_, other, deletes⟩ := delete_selected_first (comparable_of_names names) chain
    ((logout_first_iff names cells).mpr first)
  cases deletes.returned.symm.trans returned
  obtain ⟨headerAfter, left, chainAfter, linked⟩ := deletes.linked
  have same : camerasOf left = camerasOf (remaining key cells) := by
    have cameras := congrArg (List.map Prod.snd) linked
    rwa [List.map_map, List.map_map] at cameras
  refine ⟨camerasOf (remaining key cells), ⟨address, headerAfter, left, rfl, chainAfter, same⟩,
    List.filter_sublist.map _, fun camera => ?_⟩
  simp only [camerasOf, remaining, List.mem_map, List.mem_filter, decide_eq_true_eq,
    selects_iff names]
  constructor
  · rintro ⟨entry, ⟨inside, kept⟩, rfl⟩
    exact ⟨⟨entry, inside, rfl⟩, kept⟩
  · rintro ⟨⟨entry, inside, rfl⟩, kept⟩
    exact ⟨entry, ⟨inside, kept⟩, rfl⟩

end Logout

section Steps

variable {Id : Type} (site : Site Id)

/-- What `search_ipcam` sends. -/
def queryMsg (site : Site Id) : MsgBuf where
  header := {
    type := IpcamSearchMsgType.queryAlive.toByte
    dealId := 0
    flag := 0
    extenLen := 0
    ssrc := site.pid
    timestamp := 0
    heartbeatNum := 0
    ipcamName := Block.zeros 64 }
  extenMsg := []
  sized := List.length_nil

theorem queryMsg_bytes (site : Site Id) : (queryMsg site).bytes = searchIpcam site.pid :=
  List.append_nil _

/-- The packet is a query of the PC tool. -/
structure Asks (packet : Packet) : Prop where
  bytes : packet.bytes = searchIpcam site.pid
  sender : packet.sender.sinAddr = site.pcAddress
  target : packet.target = ⟨limitedBroadcast, IPCAM_SERVER_PORT⟩

/-- The packet is a message of the camera. -/
structure Speaks (id : Id) (packet : Packet) : Prop where
  told : ∃ device : SearchDevice.Device, device.ipcamMac = site.ipcamMac id ∧
    Tells device packet.message
  whole : packet.bytes = packet.message.bytes
  sender : packet.sender.sinAddr = site.address id
  port : packet.target.sinPort = PC_SERVER_PORT

/-- An answer goes to the PC alone, and there was a query before it. -/
def Answers (earlier : List Packet) (packet : Packet) : Prop :=
  packet.IsAnswer →
    packet.target = ⟨site.pcAddress, PC_SERVER_PORT⟩ ∧ ∃ query ∈ earlier, Asks site query

def Genuine (earlier : List Packet) (packet : Packet) : Prop :=
  Asks site packet ∨ ∃ id, Speaks site id packet ∧ Answers site earlier packet

/-- What a running camera has in its memory. -/
structure Holds (id : Id) (running : Running) : Prop where
  own : running.device.ipcamMac = site.ipcamMac id
  clientData : ∃ builtAt earlier, Starts running.clientData
    (heartbeatMsg running.device builtAt deviceName earlier).bytes

structure Honest (net : Net Id) : Prop where
  running : ∀ id running, net.running id = some running → Holds site id running
  sent : Always (Genuine site) net.packets

theorem Honest.genuine {site : Site Id} {net : Net Id} (honest : Honest site net) {packet : Packet}
    (member : packet ∈ net.packets) : Asks site packet ∨ ∃ id, Speaks site id packet := by
  obtain ⟨earlier, later, split⟩ := List.append_of_mem member
  rcases honest.sent earlier packet later split with asks | ⟨id, speaks, _⟩
  · exact .inl asks
  · exact .inr ⟨id, speaks⟩

/-- No camera starts or ends with the event, and the list is not deleted. -/
def NetEvent.Steady : NetEvent Id → Prop
  | .boot .. => False
  | .signal .. => False
  | .renew .. => False
  | _ => True

variable (ipcamDev : Pointer)

/-- What an event does. -/
inductive Effect (net : Net Id) : NetEvent Id → Net Id → Prop where
  | idle {event} : Effect net event net
  | spoken {event} (id : Id) (running : Id → Option Running) (packet : Packet)
      (holds : ∀ id now, running id = some now → Holds site id now)
      (speaks : Speaks site id packet) (answers : Answers site net.packets packet)
      (steady : event.Steady → (net.running id).isSome ∧ Registering packet.message ∧
        ∀ other, (running other).isSome = (net.running other).isSome) :
      Effect net event { net with running := running, packets := net.packets ++ [packet] }
  | asked {event} (packet : Packet) (asks : Asks site packet) :
      Effect net event { net with packets := net.packets ++ [packet] }
  | renewed (port : UInt16) (packet : Packet) (asks : Asks site packet) (heap : IpcamHeap)
      (empty : Represents heap ipcamDev []) :
      Effect net (.renew port) { net with
        packets := net.packets ++ [packet]
        heap := heap
        handled := net.handled ++ [Handled.renew] }
  | ticked (heap : IpcamHeap) (update : Camera → Camera)
      (keeps : ∀ camera, (update camera).nodeInfo = camera.nodeInfo)
      (updated : ∀ cameras, Represents net.heap ipcamDev cameras →
        Represents heap ipcamDev (cameras.map update)) :
      Effect net .tick { net with heap := heap, ticks := net.ticks + 1 }
  | arrived (index : Nat) (buf : Block MAX_MSG_LEN) (packet : Packet)
      (found : net.packets[index]? = some packet) (id : Id) (speaks : Speaks site id packet)
      (heap : IpcamHeap)
      (dealt : dealMsgFunc site.allocator ipcamDev net.heap packet.message packet.sender = .ok heap) :
      Effect net (.arrival index buf)
        { net with heap := heap, handled := net.handled ++ [Handled.packet packet] }

/-- A LOGOUT does not arrive while a record that it takes for its own stands behind one
that it does not. -/
def Survives (net : Net Id) : NetEvent Id → Prop
  | .arrival index _ => ∀ packet cameras, net.packets[index]? = some packet →
      packet.Reaches site.pcAddress PC_SERVER_PORT → packet.IsLogout →
      Represents net.heap ipcamDev cameras → LogoutFirst (carriedMac packet.message) cameras
  | _ => True

variable {site} {ipcamDev} {net : Net Id}

theorem speaks_of_reaches (honest : Honest site net) {packet : Packet} (member : packet ∈ net.packets)
    {address : Block 4} (reaches : packet.Reaches address PC_SERVER_PORT) :
    ∃ id, Speaks site id packet := by
  rcases honest.genuine member with asks | speaks
  · have port := reaches.1
    rw [asks.target] at port
    exact absurd port (by decide)
  · exact speaks

theorem asks_of_reaches (honest : Honest site net) {packet : Packet} (member : packet ∈ net.packets)
    {address : Block 4} (reaches : packet.Reaches address IPCAM_SERVER_PORT) : Asks site packet := by
  rcases honest.genuine member with asks | ⟨id, speaks⟩
  · exact asks
  · have port := reaches.1
    rw [speaks.port] at port
    exact absurd port (by decide)

/-- A packet that a camera hands to `sendto`. -/
theorem speaks_sent {device : SearchDevice.Device} {id : Id} {msg : MsgBuf} {packet : Packet}
    (own : device.ipcamMac = site.ipcamMac id) (told : Tells device msg)
    (bytes : packet.bytes = msg.bytes) (sender : packet.sender.sinAddr = site.address id)
    (port : packet.target.sinPort = PC_SERVER_PORT) : Speaks site id packet := by
  have message := Packet.message_whole bytes
  exact ⟨⟨device, own, message ▸ told⟩, message ▸ bytes, sender, port⟩

theorem answers_other {earlier : List Packet} {packet : Packet} {msg : MsgBuf}
    (bytes : packet.bytes = msg.bytes) (type : IpcamSearchMsgType)
    (labelled : msg.header.type = type.toByte) (other : type ≠ .ackAlive) :
    Answers site earlier packet := by
  intro isAnswer
  rw [Packet.IsAnswer, Packet.message_whole bytes, labelled, IpcamSearchMsgType.ofByte?_toByte]
    at isAnswer
  exact absurd (Option.some.inj isAnswer) other

theorem search_asks (site : Site Id) (port : UInt16) :
    Asks site ⟨searchIpcam site.pid, ⟨site.pcAddress, port⟩,
      (broadcastMsg IPCAM_SERVER_PORT (searchIpcam site.pid)).target⟩ := ⟨rfl, rfl, rfl⟩

section Dealt

variable (allocator : Allocator IpcamNode) {heap : IpcamHeap} {cameras : List Camera} {id : Id}
  {packet : Packet}

theorem exten_names (speaks : Speaks site id packet) :
    packet.message.extenMsg.take 6 = (carriedMac packet.message).toList := by
  obtain ⟨device, _, told⟩ := speaks.told
  rw [told.exten, told.mac]

theorem dealt_logout (logout : packet.IsLogout) (sender : SockaddrIn) (after : IpcamHeap) :
    dealMsgFunc allocator ipcamDev heap packet.message sender = .ok after ↔
      ∃ ret, deleteIpcamNodeByMac heap ipcamDev packet.message.extenMsg = .ok (ret, after) := by
  have type : IpcamSearchMsgType.ofByte? packet.message.header.type = some .logout := logout
  simp only [dealMsgFunc, type]
  constructor
  · intro dealt
    obtain ⟨⟨ret, other⟩, deleted, same⟩ := of_bind_ok dealt
    cases same
    exact ⟨ret, deleted⟩
  · rintro ⟨ret, deleted⟩
    rw [deleted]
    rfl

theorem dealt_iff (represented : Represents heap ipcamDev cameras) (speaks : Speaks site id packet)
    (sender : SockaddrIn) :
    (packet.IsLogout → LogoutFirst (carriedMac packet.message) cameras) ↔
      ∃ after, dealMsgFunc allocator ipcamDev heap packet.message sender = .ok after := by
  obtain ⟨device, _, told⟩ := speaks.told
  rcases told.kind with registering | logout
  · obtain ⟨after, dealt, _⟩ :=
      dealMsgFunc_registering allocator represented registering sender
    exact ⟨fun _ => ⟨after, dealt⟩,
      fun _ logout => absurd logout (not_logout_of_registering registering)⟩
  · have isLogout : packet.IsLogout := logout
    simp only [dealt_logout allocator isLogout, isLogout, forall_const,
      logout_ends_iff represented (exten_names speaks)]
    exact exists_comm

end Dealt

variable [DecidableEq Id]

theorem holds_update (honest : Honest site net) (id : Id) {running : Option Running}
    (holds : ∀ now, running = some now → Holds site id now) (other : Id) (now : Running)
    (runs : Function.update net.running id running other = some now) : Holds site other now := by
  by_cases same : other = id
  · subst same
    rw [Function.update_self] at runs
    exact holds now runs
  · rw [Function.update_of_ne same] at runs
    exact honest.running other now runs

theorem runs_update {id : Id} (runs : (net.running id).isSome) (now : Running) (other : Id) :
    (Function.update net.running id (some now) other).isSome = (net.running other).isSome := by
  by_cases same : other = id
  · subst same
    rw [Function.update_self, runs, Option.isSome_some]
  · rw [Function.update_of_ne same]

section Cameras

variable (honest : Honest site net) (id : Id)

include honest

omit honest in
theorem booted_announces (idle : net.running id = none) (device : SearchDevice.Device)
    (now builtAt : Nat) (port : UInt16) (buf heartbeat : Block MAX_MSG_LEN) :
    ∃ clientData,
      let booted := { device with ipcamMac := site.ipcamMac id }
      Starts clientData (heartbeatMsg booted builtAt deviceName 0).bytes ∧
      netStep site ipcamDev net (.boot id device now builtAt port buf heartbeat) = .ok { net with
        running := Function.update net.running id (some ⟨booted, clientData⟩)
        packets := net.packets ++ [⟨(loginMsg booted now deviceName).bytes,
          ⟨site.address id, port⟩, ⟨limitedBroadcast, PC_SERVER_PORT⟩⟩] } := by
  let booted := { device with ipcamMac := site.ipcamMac id }
  obtain ⟨clientData, packed, starts⟩ :=
    booted.packWithStartup_spec heartbeat (booted.newMsg .heartbeat builtAt deviceName)
  refine ⟨clientData, starts, ?_⟩
  simp only [netStep, idle, getIpcamName_zeros, ok_bind, SearchDevice.broadcastLoginMsg_spec,
    SearchDevice.heartbeatBuffer, booted, packed]
  rfl

theorem boot_spec (device : SearchDevice.Device) (now builtAt : Nat) (port : UInt16)
    (buf heartbeat : Block MAX_MSG_LEN) :
    ∃ after, netStep site ipcamDev net (.boot id device now builtAt port buf heartbeat) = .ok after ∧
      Effect site ipcamDev net (.boot id device now builtAt port buf heartbeat) after := by
  cases here : net.running id with
  | some running => exact ⟨net, by simp only [netStep, here]; rfl, .idle⟩
  | none =>
      obtain ⟨clientData, starts, stepped⟩ := @booted_announces _ site ipcamDev net _ id here device
        now builtAt port buf heartbeat
      refine ⟨_, stepped, .spoken id _ _ (holds_update honest id ?_)
        (speaks_sent rfl (.login now) rfl rfl rfl) (answers_other rfl .login rfl (by decide))
        False.elim⟩
      rintro now same
      cases same
      exact ⟨rfl, builtAt, 0, starts⟩

theorem heartbeat_spec (port : UInt16) :
    ∃ after, netStep site ipcamDev net (.heartbeat id port) = .ok after ∧
      Effect site ipcamDev net (.heartbeat id port) after := by
  cases here : net.running id with
  | none => exact ⟨net, by simp only [netStep, here]; rfl, .idle⟩
  | some running =>
      have holds := honest.running id running here
      obtain ⟨builtAt, earlier, starts⟩ := holds.clientData
      obtain ⟨clientData, sent, startsAfter⟩ := SearchDevice.sendHeartbeatMsg_spec starts
      rw [heartbeatMsg_next] at startsAfter
      have runs : (net.running id).isSome := by rw [here, Option.isSome_some]
      have told : Tells running.device (heartbeatMsg running.device builtAt deviceName earlier) :=
        .heartbeat builtAt earlier
      refine ⟨_, ?_, .spoken id
        (Function.update net.running id (some { running with clientData := clientData }))
        ⟨(heartbeatMsg running.device builtAt deviceName earlier).bytes, ⟨site.address id, port⟩,
          ⟨limitedBroadcast, PC_SERVER_PORT⟩⟩ (holds_update honest id ?_)
        (speaks_sent holds.own told rfl rfl rfl) (answers_other rfl .heartbeat rfl (by decide))
        fun _ => ⟨runs, ?_, runs_update runs _⟩⟩
      · simp only [netStep, here, sent, ok_bind]
        rfl
      · rintro now same
        cases same
        exact ⟨holds.own, builtAt, earlier + 1, startsAfter⟩
      · rw [Packet.message_whole rfl]
        exact heartbeatMsg_registering _ _ _ _

theorem signal_spec (now : Nat) (port : UInt16) (buf : Block MAX_MSG_LEN) :
    ∃ after, netStep site ipcamDev net (.signal id now port buf) = .ok after ∧
      Effect site ipcamDev net (.signal id now port buf) after := by
  cases here : net.running id with
  | none => exact ⟨net, by simp only [netStep, here]; rfl, .idle⟩
  | some running =>
      have holds := honest.running id running here
      have told : Tells running.device (logoutMsg running.device now deviceName) := .logout now
      refine ⟨_, ?_, .spoken id (Function.update net.running id none)
        ⟨(logoutMsg running.device now deviceName).bytes, ⟨site.address id, port⟩,
          ⟨limitedBroadcast, PC_SERVER_PORT⟩⟩ (holds_update honest id ?_)
        (speaks_sent holds.own told rfl rfl rfl) (answers_other rfl .logout rfl (by decide))
        False.elim⟩
      · simp only [netStep, here, getIpcamName_zeros, ok_bind, SearchDevice.sendLogoutMsg_spec]
        rfl
      · rintro now same
        cases same

/-- A camera that runs answers each query that comes to it. -/
theorem query_answered {running : Running} (runs : net.running id = some running) {index : Nat}
    {packet : Packet} (found : net.packets[index]? = some packet) (asks : Asks site packet)
    (now : Nat) (port : UInt16) (buf reply : Block MAX_MSG_LEN) :
    ∃ answer : Packet, answer.IsAnswer ∧ Speaks site id answer ∧ Answers site net.packets answer ∧
      Registering answer.message ∧ answer.Reaches site.pcAddress PC_SERVER_PORT ∧
      netStep site ipcamDev net (.query id index now port buf reply) =
        .ok { net with packets := net.packets ++ [answer] } := by
  have holds := honest.running id running runs
  have bytes : packet.bytes = (queryMsg site).bytes := by rw [asks.bytes, queryMsg_bytes]
  have reaches : packet.Reaches (site.address id) IPCAM_SERVER_PORT := by
    rw [Packet.Reaches, asks.target]
    exact ⟨rfl, .inr rfl⟩
  have told : Tells running.device (ackMsg running.device now deviceName 0) := .answer now 0
  refine ⟨⟨(ackMsg running.device now deviceName 0).bytes, ⟨site.address id, port⟩,
    { packet.sender with sinPort := PC_SERVER_PORT }⟩, ?_, speaks_sent holds.own told rfl rfl rfl,
    fun _ => ⟨?_, packet, List.mem_of_getElem? found, asks⟩, ?_, ⟨rfl, .inl asks.sender⟩, ?_⟩
  · rw [Packet.IsAnswer, Packet.message_whole rfl]
    exact IpcamSearchMsgType.ofByte?_toByte .ackAlive
  · exact congrArg (SockaddrIn.mk · PC_SERVER_PORT) asks.sender
  · rw [Packet.message_whole rfl]
    exact ackMsg_registering _ _ _ _
  · have answered := SearchDevice.recvMsgFromPc_query running.device now deviceName buf reply
      (queryMsg site) (IpcamSearchMsgType.ofByte?_toByte .queryAlive) packet.sender
    rw [← bytes] at answered
    simp only [netStep, runs, found, if_pos reaches, getIpcamName_zeros, ok_bind, answered]
    rfl

theorem query_spec (index now : Nat) (port : UInt16) (buf reply : Block MAX_MSG_LEN) :
    ∃ after, netStep site ipcamDev net (.query id index now port buf reply) = .ok after ∧
      Effect site ipcamDev net (.query id index now port buf reply) after := by
  cases here : net.running id with
  | none => exact ⟨net, by simp only [netStep, here]; rfl, .idle⟩
  | some running =>
      cases found : net.packets[index]? with
      | none => exact ⟨net, by simp only [netStep, here, found]; rfl, .idle⟩
      | some packet =>
          by_cases reaches : packet.Reaches (site.address id) IPCAM_SERVER_PORT
          · have asks := asks_of_reaches honest (List.mem_of_getElem? found) reaches
            obtain ⟨answer, _, speaks, answers, registering, _, stepped⟩ := @query_answered _ site
              ipcamDev net _ honest id running here index packet found asks now port buf reply
            have runs : (net.running id).isSome := by rw [here, Option.isSome_some]
            exact ⟨_, stepped, .spoken id net.running answer honest.running speaks answers
              fun _ => ⟨runs, registering, fun _ => rfl⟩⟩
          · exact ⟨net, by simp only [netStep, here, found, if_neg reaches]; rfl, .idle⟩

end Cameras

section Spec

variable {cameras : List Camera}

theorem renewed_asks (represented : Represents net.heap ipcamDev cameras) (port : UInt16) :
    ∃ packet heap, Asks site packet ∧ Represents heap ipcamDev [] ∧
      netStep site ipcamDev net (.renew port) = .ok { net with
        packets := net.packets ++ [packet]
        heap := heap
        handled := net.handled ++ [Handled.renew] } := by
  obtain ⟨heap, deleted, empty⟩ := deleteIpcamAllNode_spec represented
  refine ⟨_, heap, search_asks site port, empty, ?_⟩
  simp only [netStep, deleted, ok_bind]
  rfl

theorem renew_spec (represented : Represents net.heap ipcamDev cameras) (port : UInt16) :
    ∃ after, netStep site ipcamDev net (.renew port) = .ok after ∧
      Effect site ipcamDev net (.renew port) after := by
  obtain ⟨packet, heap, asks, empty, renewed⟩ := @renewed_asks _ site ipcamDev net _ _ represented port
  exact ⟨_, renewed, .renewed port packet asks heap empty⟩

theorem tick_spec (represented : Represents net.heap ipcamDev cameras) :
    ∃ after, netStep site ipcamDev net .tick = .ok after ∧
      Effect site ipcamDev net .tick after := by
  by_cases first : net.ticks = 0
  · obtain ⟨heap, cleared, represents⟩ := clearAllDevOnline_spec represented
    refine ⟨_, ?_, .ticked heap Camera.clear (fun _ => rfl) ?_⟩
    · simp only [netStep, if_pos first, cleared, ok_bind]
      rfl
    · intro others representsOthers
      cases represented.unique representsOthers
      exact represents
  · obtain ⟨heap, tested, represents⟩ := testThenClear_spec represented
    refine ⟨_, ?_, .ticked heap (Camera.clear ∘ Camera.test) (fun _ => rfl) ?_⟩
    · simp only [netStep, if_neg first, tested, ok_bind]
      rfl
    · intro others representsOthers
      cases represented.unique representsOthers
      rwa [List.map_map] at represents

/-- An event goes through exactly if it is not a LOGOUT that the program does not survive,
and it has no other effect than its own. -/
structure Specified (site : Site Id) (ipcamDev : Pointer) (net : Net Id) (event : NetEvent Id) :
    Prop where
  survives : Survives site ipcamDev net event ↔ ∃ after, netStep site ipcamDev net event = .ok after
  effect : ∀ after, netStep site ipcamDev net event = .ok after →
    Effect site ipcamDev net event after

theorem specified_of_effect {event : NetEvent Id} (survives : Survives site ipcamDev net event)
    (goes : ∃ after, netStep site ipcamDev net event = .ok after ∧
      Effect site ipcamDev net event after) : Specified site ipcamDev net event := by
  obtain ⟨after, stepped, effect⟩ := goes
  refine ⟨iff_of_true survives ⟨after, stepped⟩, fun other same => ?_⟩
  cases stepped.symm.trans same
  exact effect

theorem arrival_specified (honest : Honest site net)
    (represented : Represents net.heap ipcamDev cameras) (index : Nat) (buf : Block MAX_MSG_LEN) :
    Specified site ipcamDev net (.arrival index buf) := by
  cases found : net.packets[index]? with
  | none =>
      refine specified_of_effect ?_ ⟨net, by simp only [netStep, found]; rfl, .idle⟩
      intro packet _ here
      rw [found] at here
      cases here
  | some packet =>
      by_cases reaches : packet.Reaches site.pcAddress PC_SERVER_PORT
      · obtain ⟨id, speaks⟩ := speaks_of_reaches honest (List.mem_of_getElem? found) reaches
        have stepped : netStep site ipcamDev net (.arrival index buf) =
            (dealMsgFunc site.allocator ipcamDev net.heap packet.message packet.sender >>= fun heap =>
              .ok { net with heap := heap, handled := net.handled ++ [Handled.packet packet] }) := by
          simp only [netStep, found, if_pos reaches]
          rw [speaks.whole, dealnet_whole]
          rfl
        refine ⟨?_, ?_⟩
        · have allowed : Survives site ipcamDev net (.arrival index buf) ↔
              (packet.IsLogout → LogoutFirst (carriedMac packet.message) cameras) := by
            constructor
            · exact fun survives logout => survives packet cameras found reaches logout represented
            · intro first other others same _ logout representsOthers
              cases found.symm.trans same
              cases represented.unique representsOthers
              exact first logout
          rw [allowed, dealt_iff site.allocator represented speaks packet.sender, stepped]
          constructor
          · rintro ⟨heap, dealt⟩
            exact ⟨_, by rw [dealt]; rfl⟩
          · rintro ⟨after, went⟩
            obtain ⟨heap, dealt, _⟩ := of_bind_ok went
            exact ⟨heap, dealt⟩
        · intro after went
          rw [stepped] at went
          obtain ⟨heap, dealt, same⟩ := of_bind_ok went
          cases same
          exact .arrived index buf packet found id speaks heap dealt
      · refine specified_of_effect ?_
          ⟨net, by simp only [netStep, found, if_neg reaches]; rfl, .idle⟩
        intro other _ same here
        cases found.symm.trans same
        exact absurd here reaches

theorem netStep_specified (honest : Honest site net)
    (represented : Represents net.heap ipcamDev cameras) (event : NetEvent Id) :
    Specified site ipcamDev net event := by
  cases event with
  | boot id device now builtAt port buf heartbeat =>
      exact specified_of_effect trivial (boot_spec honest id device now builtAt port buf heartbeat)
  | heartbeat id port => exact specified_of_effect trivial (heartbeat_spec honest id port)
  | query id index now port buf reply =>
      exact specified_of_effect trivial (query_spec honest id index now port buf reply)
  | signal id now port buf =>
      exact specified_of_effect trivial (signal_spec honest id now port buf)
  | search port =>
      exact specified_of_effect trivial ⟨_, rfl, .asked _ (search_asks site port)⟩
  | renew port => exact specified_of_effect trivial (renew_spec represented port)
  | tick => exact specified_of_effect trivial (tick_spec represented)
  | arrival index buf => exact arrival_specified honest represented index buf

end Spec

end Steps

end IpcamSearch.Network
