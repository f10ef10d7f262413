import IpcamSearch.IpcamListProperties
import IpcamSearch.MessageProperties
import IpcamSearch.SearchPc

/-! The effect of the registering messages and of the watch timer on the cameras
that the list represents. -/

set_option autoImplicit false

namespace IpcamSearch.SearchPc

open Memory IpcamList Message KeyedList

/-- The messages that register a camera, with the extension lengths a device uses. -/
def Registering (msg : MsgBuf) : Prop :=
  IpcamSearchMsgType.ofByte? msg.header.type = some .login ∧ msg.header.extenLen = 6 ∨
    (IpcamSearchMsgType.ofByte? msg.header.type = some .heartbeat ∨
      IpcamSearchMsgType.ofByte? msg.header.type = some .ackAlive) ∧ 10 ≤ msg.header.extenLen

instance (msg : MsgBuf) : Decidable (Registering msg) := by
  unfold Registering
  infer_instance

/-- The messages that no case of `deal_msg_func` acts on. -/
def Unhandled (msg : MsgBuf) : Prop :=
  IpcamSearchMsgType.ofByte? msg.header.type ∉
    [some .login, some .logout, some .heartbeat, some .ackAlive]

instance (msg : MsgBuf) : Decidable (Unhandled msg) := by
  unfold Unhandled
  infer_instance

def carriedMac (msg : MsgBuf) : Mac := Block.ofList 6 msg.extenMsg

/-- The header timestamp in a LOGIN, the number behind the MAC otherwise. -/
def carriedStartupTime (msg : MsgBuf) : UInt32 :=
  if IpcamSearchMsgType.ofByte? msg.header.type = some .login then msg.header.timestamp
  else load32 (Block.ofList 4 (msg.extenMsg.drop 6))

def carriedInfo (msg : MsgBuf) (sender : SockaddrIn) : IpcamInfo where
  ipaddr := sender.sinAddr
  mac := carriedMac msg
  ipcamName := msg.header.ipcamName
  startupTime := carriedStartupTime msg

/-- The record that a registering message puts into an empty list. -/
def announced (msg : MsgBuf) (sender : SockaddrIn) : Camera := ⟨carriedInfo msg sender, 1⟩

/-- A registering message and where it came from. -/
structure Announcement where
  msg : MsgBuf
  sender : SockaddrIn
  registering : Registering msg

abbrev Announcement.mac (announcement : Announcement) : Mac := carriedMac announcement.msg

abbrev Announcement.camera (announcement : Announcement) : Camera :=
  announced announcement.msg announcement.sender

/-- The LOGIN of a camera whose MAC ends in the given byte. -/
def cameraLogin (last : UInt8) (sender : SockaddrIn) : Announcement where
  msg := {
    header := {
      type := 1
      dealId := 0
      flag := 0
      extenLen := 6
      ssrc := 7
      timestamp := 100
      heartbeatNum := 0
      ipcamName := Block.ofList 64 [99, 97, 109] }
    extenMsg := [0, 17, 34, 51, 68, last]
    sized := rfl }
  sender := sender
  registering := .inl ⟨rfl, rfl⟩

def announce (camera : Camera) (cameras : List Camera) : List Camera :=
  touch Camera.mac Camera.revive camera cameras

section Register

variable (allocator : Allocator IpcamNode) {heap : IpcamHeap} {address : Address}
  {header : IpcamNode} {cells : List (Address × IpcamNode)}

/-- A known MAC is not inserted, and the search that follows meets its node. -/
theorem insertNodulpIpcamNode_known
    (chain : Chain IpcamNode.next heap (some address) ((address, header) :: cells))
    (node : IpcamNode) {entry : Address × IpcamNode}
    (found : cells.find? (fun entry => decide (entry.2.nodeInfo.mac = node.nodeInfo.mac)) =
      some entry) :
    insertNodulpIpcamNode allocator heap (some address) node = .ok (false, heap) := by
  unfold insertNodulpIpcamNode
  simp only [searchIpcamNodeByMac_chain chain, found, bind, Except.bind, Option.map_some]
  rfl

theorem insertNodulpIpcamNode_new
    (chain : Chain IpcamNode.next heap (some address) ((address, header) :: cells))
    (node : IpcamNode)
    (absent : cells.find? (fun entry => decide (entry.2.nodeInfo.mac = node.nodeInfo.mac)) = none) :
    ∃ after entered, insertNodulpIpcamNode allocator heap (some address) node = .ok (true, after) ∧
      Chain IpcamNode.next after (some address)
        ((address, { header with next := some entered }) ::
          (entered, { node with next := header.next }) :: cells) := by
  obtain ⟨after, entered, inserted, longer⟩ := insertIpcamNode_chain allocator chain node
  refine ⟨after, entered, ?_, longer⟩
  unfold insertNodulpIpcamNode
  simp only [searchIpcamNodeByMac_chain chain, absent, bind, Except.bind, Option.map_none, inserted]
  rfl

theorem registerNode_new
    (chain : Chain IpcamNode.next heap (some address) ((address, header) :: cells))
    (info : IpcamInfo)
    (absent : cells.find? (fun entry => decide (entry.2.nodeInfo.mac = info.mac)) = none) :
    ∃ after, registerNode allocator (some address) heap info = .ok after ∧
      Represents after (some address) (announce ⟨info, 1⟩ (camerasOf cells)) := by
  obtain ⟨after, entered, inserted, longer⟩ := insertNodulpIpcamNode_new allocator chain
    { nodeInfo := info, aliveFlag := 1, next := none } absent
  have unknown : info.mac ∉ (camerasOf cells).map Camera.mac := by
    intro known
    simp only [camerasOf, List.map_map, List.mem_map] at known
    obtain ⟨entry, member, same⟩ := known
    have differs := List.find?_eq_none.mp absent entry member
    exact differs (by simpa [IpcamNode.camera] using same)
  refine ⟨after, ?_, address, _, _, rfl, longer, ?_⟩
  · unfold registerNode
    simp only [inserted, bind, Except.bind]
    rfl
  · rw [announce, touch, if_neg unknown]
    rfl

theorem registerNode_known
    (chain : Chain IpcamNode.next heap (some address) ((address, header) :: cells))
    (info : IpcamInfo) {entry : Address × IpcamNode}
    (found : cells.find? (fun entry => decide (entry.2.nodeInfo.mac = info.mac)) = some entry) :
    registerNode allocator (some address) heap info =
      .ok (heap.insert entry.1 { entry.2 with aliveFlag := 1 }) := by
  have live := chain.live (List.mem_cons_of_mem _ (List.mem_of_find?_eq_some found))
  unfold registerNode
  simp only [insertNodulpIpcamNode_known allocator chain
    { nodeInfo := info, aliveFlag := 1, next := none } found, ok_bind, Bool.false_eq_true,
    ↓reduceIte, searchIpcamNodeByMac_chain chain, found, Option.map_some, Heap.read_live live,
    Heap.write_live _ live]

theorem registerNode_spec {cameras : List Camera} {ipcamDev : Pointer}
    (represented : Represents heap ipcamDev cameras) (info : IpcamInfo) :
    ∃ after, registerNode allocator ipcamDev heap info = .ok after ∧
      Represents after ipcamDev (announce ⟨info, 1⟩ cameras) := by
  obtain ⟨address, header, cells, rfl, chain, rfl⟩ := represented
  cases found : cells.find? (fun entry => decide (entry.2.nodeInfo.mac = info.mac)) with
  | none => exact registerNode_new allocator chain info found
  | some entry =>
      have registered := registerNode_known allocator chain info found
      obtain ⟨matched, leading, trailing, rfl, earlier⟩ := List.find?_eq_some_iff_append.mp found
      obtain ⟨position, node⟩ := entry
      have same : node.nodeInfo.mac = info.mac := by simpa using matched
      have split : Chain IpcamNode.next heap (some address)
          (((address, header) :: leading) ++ (position, node) :: trailing) := chain
      have updated := split.update { node with aliveFlag := 1 } rfl
      have known : info.mac ∈ (camerasOf (leading ++ (position, node) :: trailing)).map Camera.mac := by
        simp only [camerasOf, List.map_append, List.map_cons, List.mem_append, List.mem_cons]
        exact .inr (.inl same.symm)
      refine ⟨_, registered, address, header,
        leading ++ (position, { node with aliveFlag := 1 }) :: trailing, rfl, updated, ?_⟩
      rw [announce, touch, if_pos known]
      simp only [camerasOf, List.map_append, List.map_cons]
      have here : Camera.mac node.camera = info.mac := same
      rw [modifyFirst_append ?_ here]
      · rfl
      · intro other member
        obtain ⟨before, inside, rfl⟩ := List.mem_map.mp member
        have differs := earlier before inside
        simpa [IpcamNode.camera] using differs

/-- A MAC whose record is marked alive already leaves even the heap as it was. -/
theorem registerNode_settled {cameras : List Camera} {ipcamDev : Pointer}
    (represented : Represents heap ipcamDev cameras) (info : IpcamInfo) {camera : Camera}
    (known : lookup Camera.mac cameras info.mac = some camera) (alive : camera.aliveFlag = 1) :
    registerNode allocator ipcamDev heap info = .ok heap := by
  obtain ⟨address, header, cells, rfl, chain, rfl⟩ := represented
  rw [camerasOf, lookup, List.find?_map] at known
  obtain ⟨entry, met, rfl⟩ := Option.map_eq_some_iff.mp known
  have found : cells.find? (fun entry => decide (entry.2.nodeInfo.mac = info.mac)) =
    some entry := met
  have live := chain.live (List.mem_cons_of_mem _ (List.mem_of_find?_eq_some found))
  have same : { entry.2 with aliveFlag := 1 } = entry.2 := by
    rw [← alive]
    rfl
  rw [registerNode_known allocator chain info found, same, Heap.insert_same live]

end Register

section Remote

theorem ipaddr_fits (ipaddr : Block 4) : ipaddrOffset + ipaddr.toList.length ≤ ipcamInfoLen := by
  rw [ipaddr.toList_length]
  decide

theorem ipcamName_fits (ipcamName : Block 64) :
    ipcamNameOffset + ipcamName.toList.length ≤ ipcamInfoLen := by
  rw [ipcamName.toList_length]
  decide

theorem startupTime_fits (number : Block 4) :
    startupTimeOffset + number.toList.length ≤ ipcamInfoLen := by
  rw [number.toList_length]
  decide

theorem mac_fits {exten : List UInt8} (short : exten.length ≤ 76) :
    macOffset + exten.length ≤ ipcamInfoLen := by
  simp only [macOffset, ipcamInfoLen]
  omega

/-- The record built by the four copies. A MAC copy that runs on into the fields
behind it does no harm, since these are written later. -/
theorem ipcamInfoOfBlock_patches (ipaddr number : Block 4) (ipcamName : Block 64)
    {exten : List UInt8} (short : exten.length ≤ 76) :
    ipcamInfoOfBlock
      (((((Block.zeros ipcamInfoLen).patch ipaddrOffset ipaddr.toList
        (ipaddr_fits _)).patch macOffset exten (mac_fits short)).patch ipcamNameOffset
        ipcamName.toList (ipcamName_fits _)).patch startupTimeOffset number.toList
        (startupTime_fits _)) =
      ⟨ipaddr, Block.ofList 6 exten, ipcamName, load32 number⟩ := by
  let first := overlay (List.replicate 80 (0 : UInt8)) 0 ipaddr.toList
  have firstLength : first.length = 80 := by
    rw [overlay_length (by simp)]
    simp
  let second := overlay first 4 exten
  have secondLength : second.length = 80 := by rw [overlay_length (by omega), firstLength]
  let third := overlay second 10 ipcamName.toList
  have thirdLength : third.length = 80 := by
    rw [overlay_length (by simp [secondLength]), secondLength]
  unfold ipcamInfoOfBlock
  congr 1
  · apply List.Vector.toList_injective
    change ((overlay third 76 number.toList).drop 0).take 4 = _
    rw [slice_overlay_apart (by simp [thirdLength]) (.inl (by omega)),
      slice_overlay_apart (by simp [secondLength]) (.inl (by omega)),
      slice_overlay_apart (by omega) (.inl (by omega))]
    have copied := slice_overlay_self ipaddr.toList
      (by simp : 0 ≤ (List.replicate 80 (0 : UInt8)).length)
    rwa [ipaddr.toList_length] at copied
  · apply List.Vector.toList_injective
    change ((overlay third 76 number.toList).drop 4).take 6 =
      (exten ++ List.replicate 6 0).take 6
    rw [slice_overlay_apart (by simp [thirdLength]) (.inl (by omega)),
      slice_overlay_apart (by simp [secondLength]) (.inl (by omega))]
    have start : (first.take 4).length = 4 := by simp [firstLength]
    have zeros : first.drop (4 + exten.length) = List.replicate (76 - exten.length) 0 := by
      change (overlay _ 0 _).drop _ = _
      rw [overlay_zero, ← List.drop_drop, List.drop_left' ipaddr.toList_length,
        ipaddr.toList_length, List.drop_replicate, List.drop_replicate]
    change ((overlay first 4 exten).drop 4).take 6 = _
    rw [overlay, List.drop_left' start, zeros, List.take_append, List.take_append,
      List.take_replicate, List.take_replicate]
    congr 2
    omega
  · apply List.Vector.toList_injective
    change ((overlay third 76 number.toList).drop 10).take 64 = _
    rw [slice_overlay_apart (by simp [thirdLength]) (.inl (by omega))]
    have copied := slice_overlay_self ipcamName.toList
      (by omega : 10 ≤ second.length)
    rwa [ipcamName.toList_length] at copied
  · congr 1
    apply List.Vector.toList_injective
    change ((overlay third 76 number.toList).drop 76).take 4 = _
    have copied := slice_overlay_self number.toList (by omega : 76 ≤ third.length)
    rwa [number.toList_length] at copied

variable {msg : MsgBuf} (sender : SockaddrIn)

theorem loginExten_spec (msg : MsgBuf) : loginExten msg = .ok msg.extenMsg := by
  have sized := msg.sized
  rw [loginExten, readBytes_inside (by omega), List.drop_zero, ← sized, List.take_length]

theorem extension_bound (short : msg.header.extenLen ≤ 76) : msg.extenMsg.length ≤ 76 :=
  msg.sized ▸ UInt8.le_iff_toNat_le.mp short

theorem loginCopy_inside (short : msg.header.extenLen ≤ 76) (remote : Block ipcamInfoLen) :
    loginCopy msg remote =
      .ok (remote.patch macOffset msg.extenMsg (mac_fits (extension_bound short))) := by
  simp only [loginCopy, loginExten_spec, ok_bind, memcpy_inside _ (mac_fits (extension_bound short))]

theorem loginCopy_overrun (long : 76 < msg.header.extenLen) (remote : Block ipcamInfoLen) :
    loginCopy msg remote = .error .outOfBounds := by
  have bound : 76 < msg.extenMsg.length := msg.sized ▸ UInt8.lt_iff_toNat_lt.mp long
  have outside : ipcamInfoLen < macOffset + msg.extenMsg.length := by
    simp only [macOffset, ipcamInfoLen]
    omega
  simp only [loginCopy, loginExten_spec, ok_bind, memcpy_outside _ outside]

theorem remoteOfLogin_spec (login : IpcamSearchMsgType.ofByte? msg.header.type = some .login)
    (short : msg.header.extenLen ≤ 76) :
    remoteOfLogin msg sender = .ok (carriedInfo msg sender) := by
  simp only [remoteOfLogin, memcpy_inside _ (ipaddr_fits _), loginCopy_inside short,
    memcpy_inside _ (ipcamName_fits _), memcpy_inside _ (startupTime_fits _), ok_bind,
    ipcamInfoOfBlock_patches _ _ _ (extension_bound short), load32_store32, carriedInfo,
    carriedMac, carriedStartupTime, if_pos login]
  rfl

theorem remoteOfLogin_overrun (long : 76 < msg.header.extenLen) :
    remoteOfLogin msg sender = .error .outOfBounds := by
  simp only [remoteOfLogin, memcpy_inside _ (ipaddr_fits _), loginCopy_overrun long, ok_bind,
    error_bind]

theorem remoteOfExtension_spec
    (other : IpcamSearchMsgType.ofByte? msg.header.type ≠ some .login)
    (enough : 10 ≤ msg.header.extenLen) :
    remoteOfExtension msg sender = .ok (carriedInfo msg sender) := by
  have bound : 10 ≤ msg.extenMsg.length := msg.sized ▸ UInt8.le_iff_toNat_le.mp enough
  have macBytes : ((msg.extenMsg.drop 0).take 6).length ≤ 76 := by
    rw [List.length_take]
    omega
  have numberBytes : (msg.extenMsg.drop 6).take 4 =
      (Block.ofList 4 (msg.extenMsg.drop 6)).toList := by
    rw [Block.toList_ofList, List.take_append_of_le_length (by
      rw [List.length_drop]
      omega)]
  have sameMac : Block.ofList 6 ((msg.extenMsg.drop 0).take 6) = carriedMac msg := by
    apply List.Vector.toList_injective
    rw [carriedMac, List.drop_zero, Block.toList_ofList, Block.toList_ofList,
      List.take_append_of_le_length (by
        rw [List.length_take]
        omega), List.take_append_of_le_length (by omega), List.take_take, Nat.min_self]
  simp only [remoteOfExtension, memcpy_inside _ (ipaddr_fits _),
    readBytes_inside (by omega : 0 + 6 ≤ msg.extenMsg.length), memcpy_inside _ (mac_fits macBytes),
    memcpy_inside _ (ipcamName_fits _), readBytes_inside (by omega : 6 + 4 ≤ msg.extenMsg.length),
    numberBytes, memcpy_inside _ (startupTime_fits _), ok_bind,
    ipcamInfoOfBlock_patches _ _ _ macBytes, sameMac, carriedInfo, carriedStartupTime, if_neg other]
  rfl

theorem remoteOfExtension_short (short : msg.header.extenLen < 10) :
    remoteOfExtension msg sender = .error .outOfBounds := by
  have bound : msg.extenMsg.length < 10 := msg.sized ▸ UInt8.lt_iff_toNat_lt.mp short
  by_cases hasMac : 0 + 6 ≤ msg.extenMsg.length
  · have macBytes : ((msg.extenMsg.drop 0).take 6).length ≤ 76 := by
      rw [List.length_take]
      omega
    simp only [remoteOfExtension, memcpy_inside _ (ipaddr_fits _), readBytes_inside hasMac,
      memcpy_inside _ (mac_fits macBytes), memcpy_inside _ (ipcamName_fits _),
      readBytes_outside (by omega : msg.extenMsg.length < 6 + 4), ok_bind, error_bind]
  · simp only [remoteOfExtension, memcpy_inside _ (ipaddr_fits _),
      readBytes_outside (Nat.lt_of_not_le hasMac), ok_bind, error_bind]

end Remote

section Announcements

variable (allocator : Allocator IpcamNode) {heap : IpcamHeap} {ipcamDev : Pointer}
  {cameras : List Camera}

theorem dealMsgFunc_login (heap : IpcamHeap) (ipcamDev : Pointer) {msg : MsgBuf}
    (login : IpcamSearchMsgType.ofByte? msg.header.type = some .login)
    (short : msg.header.extenLen ≤ 76) (sender : SockaddrIn) :
    dealMsgFunc allocator ipcamDev heap msg sender =
      registerNode allocator ipcamDev heap (carriedInfo msg sender) := by
  simp only [dealMsgFunc, login, remoteOfLogin_spec sender login short, ok_bind]

theorem dealMsgFunc_login_overrun (heap : IpcamHeap) (ipcamDev : Pointer) {msg : MsgBuf}
    (login : IpcamSearchMsgType.ofByte? msg.header.type = some .login)
    (long : 76 < msg.header.extenLen) (sender : SockaddrIn) :
    dealMsgFunc allocator ipcamDev heap msg sender = .error .outOfBounds := by
  simp only [dealMsgFunc, login, remoteOfLogin_overrun sender long, error_bind]

theorem not_login_of_extension {type : UInt8}
    (extension : IpcamSearchMsgType.ofByte? type = some .heartbeat ∨
      IpcamSearchMsgType.ofByte? type = some .ackAlive) :
    IpcamSearchMsgType.ofByte? type ≠ some .login := by
  rcases extension with heartbeat | ackAlive
  · simp [heartbeat]
  · simp [ackAlive]

theorem dealMsgFunc_extension (heap : IpcamHeap) (ipcamDev : Pointer) {msg : MsgBuf}
    (type : IpcamSearchMsgType.ofByte? msg.header.type = some .heartbeat ∨
      IpcamSearchMsgType.ofByte? msg.header.type = some .ackAlive)
    (enough : 10 ≤ msg.header.extenLen) (sender : SockaddrIn) :
    dealMsgFunc allocator ipcamDev heap msg sender =
      registerNode allocator ipcamDev heap (carriedInfo msg sender) := by
  have remote := remoteOfExtension_spec sender (not_login_of_extension type) enough
  rcases type with heartbeat | ackAlive
  · simp only [dealMsgFunc, heartbeat, remote, ok_bind]
  · simp only [dealMsgFunc, ackAlive, remote, ok_bind]

theorem dealMsgFunc_extension_short (heap : IpcamHeap) (ipcamDev : Pointer) {msg : MsgBuf}
    (type : IpcamSearchMsgType.ofByte? msg.header.type = some .heartbeat ∨
      IpcamSearchMsgType.ofByte? msg.header.type = some .ackAlive)
    (short : msg.header.extenLen < 10) (sender : SockaddrIn) :
    dealMsgFunc allocator ipcamDev heap msg sender = .error .outOfBounds := by
  have remote := remoteOfExtension_short sender short
  rcases type with heartbeat | ackAlive
  · simp only [dealMsgFunc, heartbeat, remote, error_bind]
  · simp only [dealMsgFunc, ackAlive, remote, error_bind]

theorem dealMsgFunc_registers (heap : IpcamHeap) (ipcamDev : Pointer) {msg : MsgBuf}
    (registering : Registering msg) (sender : SockaddrIn) :
    dealMsgFunc allocator ipcamDev heap msg sender =
      registerNode allocator ipcamDev heap (carriedInfo msg sender) := by
  rcases registering with ⟨login, length⟩ | ⟨type, enough⟩
  · exact dealMsgFunc_login allocator heap ipcamDev login (length ▸ by decide) sender
  · exact dealMsgFunc_extension allocator heap ipcamDev type enough sender

theorem dealMsgFunc_registering (represented : Represents heap ipcamDev cameras)
    {msg : MsgBuf} (registering : Registering msg) (sender : SockaddrIn) :
    ∃ after, dealMsgFunc allocator ipcamDev heap msg sender = .ok after ∧
      Represents after ipcamDev (announce (announced msg sender) cameras) := by
  rw [dealMsgFunc_registers allocator heap ipcamDev registering sender]
  exact registerNode_spec allocator represented (carriedInfo msg sender)

def receive (ipcamDev : Pointer) (heap : IpcamHeap) (announcement : Announcement) :
    Except Fault IpcamHeap :=
  dealMsgFunc allocator ipcamDev heap announcement.msg announcement.sender

def enrol (cameras : List Camera) (announcement : Announcement) : List Camera :=
  announce announcement.camera cameras

theorem lookup_enrol (cameras : List Camera) (announcement : Announcement) (mac : Mac) :
    lookup Camera.mac (enrol cameras announcement) mac =
      if announcement.mac = mac then
        some ((lookup Camera.mac cameras mac).elim announcement.camera Camera.revive)
      else lookup Camera.mac cameras mac := lookup_touch revive_mac announcement.camera mac cameras

theorem enrolled_alive (announcement : Announcement) (known : Option Camera) :
    (known.elim announcement.camera Camera.revive).aliveFlag = 1 := by
  cases known <;> rfl

theorem receive_spec (represented : Represents heap ipcamDev cameras)
    (announcement : Announcement) :
    ∃ after, receive allocator ipcamDev heap announcement = .ok after ∧
      Represents after ipcamDev (enrol cameras announcement) :=
  dealMsgFunc_registering allocator represented announcement.registering announcement.sender

/-- A message received whole is dealt with as it was sent, whatever the buffer held. -/
theorem dealnet_whole (heap : IpcamHeap) (ipcamDev : Pointer) (buf : Block MAX_MSG_LEN)
    (msg : MsgBuf) (sender : SockaddrIn) :
    dealnet allocator ipcamDev heap buf (some (msg.bytes, sender)) =
      dealMsgFunc allocator ipcamDev heap msg sender := by
  have parsed := (recvfrom_starts buf msg).parse (recvfrom buf msg.bytes).2
  change dealMsgFunc allocator ipcamDev heap
    (parseMsg (recvfrom buf msg.bytes).1 (recvfrom buf msg.bytes).2) sender = _
  rw [parsed]

end Announcements

theorem dealMsgFunc_unhandled (allocator : Allocator IpcamNode) (heap : IpcamHeap)
    (ipcamDev : Pointer) {msg : MsgBuf} (unhandled : Unhandled msg) (sender : SockaddrIn) :
    dealMsgFunc allocator ipcamDev heap msg sender = .ok heap := by
  unfold Unhandled at unhandled
  unfold dealMsgFunc
  cases type : IpcamSearchMsgType.ofByte? msg.header.type with
  | none => rfl
  | some label =>
      rw [type] at unhandled
      cases label <;> first | rfl | exact absurd (by decide) unhandled

section Watch

variable {heap : IpcamHeap} {ipcamDev : Pointer} {cameras : List Camera}

theorem forEach_represents (represented : Represents heap ipcamDev cameras)
    (update : IpcamNode → IpcamNode) (onCamera : Camera → Camera)
    (successor : ∀ node, (update node).next = node.next)
    (agree : ∀ node, (update node).camera = onCamera node.camera) :
    ∃ header after, heap.read ipcamDev = .ok header ∧
      forEach IpcamNode.next update (heap.liveCells + 1) heap header.next = .ok after ∧
      Represents after ipcamDev (cameras.map onCamera) := by
  obtain ⟨address, header, cells, rfl, chain, rfl⟩ := represented
  obtain ⟨tail, enough⟩ := tail_chain chain
  have distinct := chain.nodup
  simp only [addresses, List.map_cons, List.nodup_cons] at distinct
  obtain ⟨after, ran, updated, kept⟩ := forEach_chain successor tail enough
  refine ⟨header, after, Heap.read_live (header_live chain), ran, address, header, _, rfl,
    .cons ((kept address distinct.1).trans (header_live chain)) updated, ?_⟩
  simp only [camerasOf, List.map_map]
  exact List.map_congr_left fun entry _ => agree entry.2

theorem forEach_represents_fixed (represented : Represents heap ipcamDev cameras)
    (update : IpcamNode → IpcamNode)
    (fixed : ∀ node, node.camera ∈ cameras → update node = node) :
    ∃ header, heap.read ipcamDev = .ok header ∧
      forEach IpcamNode.next update (heap.liveCells + 1) heap header.next = .ok heap := by
  obtain ⟨address, header, cells, rfl, chain, rfl⟩ := represented
  obtain ⟨tail, enough⟩ := tail_chain chain
  exact ⟨header, Heap.read_live (header_live chain), forEach_fixed tail
    (fun entry member => fixed entry.2 (List.mem_map_of_mem member)) enough⟩

theorem clearAllDevOnline_empty (represented : Represents heap ipcamDev []) :
    clearAllDevOnline heap ipcamDev = .ok heap := by
  obtain ⟨header, found, ran⟩ := forEach_represents_fixed represented
    (fun q => { q with aliveFlag := q.aliveFlag ||| ((1 : Int32) <<< (1 : Int32)) })
    (fun _ member => absurd member List.not_mem_nil)
  simp only [clearAllDevOnline, found, ok_bind, ran]

/-- A test changes nothing while every record was heard since the last clear. -/
theorem testAllDevOnline_settled (represented : Represents heap ipcamDev cameras)
    (heard : ∀ camera ∈ cameras, camera.aliveFlag = 1) :
    testAllDevOnline heap ipcamDev = .ok heap := by
  obtain ⟨header, found, ran⟩ := forEach_represents_fixed represented
    (fun q => { q with aliveFlag := if q.aliveFlag ≠ 1 then 0 else q.aliveFlag })
    (fun node member => by
      have alive : node.aliveFlag = 1 := heard _ member
      cases node
      simp_all)
  simp only [testAllDevOnline, found, ok_bind, ran]

theorem clearAllDevOnline_spec (represented : Represents heap ipcamDev cameras) :
    ∃ after, clearAllDevOnline heap ipcamDev = .ok after ∧
      Represents after ipcamDev (cameras.map Camera.clear) := by
  obtain ⟨header, after, found, ran, represents⟩ := forEach_represents represented
    (fun q => { q with aliveFlag := q.aliveFlag ||| ((1 : Int32) <<< (1 : Int32)) })
    Camera.clear (fun _ => rfl) (fun _ => rfl)
  refine ⟨after, ?_, represents⟩
  simp only [clearAllDevOnline, found, ok_bind, ran]

theorem testAllDevOnline_spec (represented : Represents heap ipcamDev cameras) :
    ∃ after, testAllDevOnline heap ipcamDev = .ok after ∧
      Represents after ipcamDev (cameras.map Camera.test) := by
  obtain ⟨header, after, found, ran, represents⟩ := forEach_represents represented
    (fun q => { q with aliveFlag := if q.aliveFlag ≠ 1 then 0 else q.aliveFlag })
    Camera.test (fun _ => rfl) (fun _ => rfl)
  refine ⟨after, ?_, represents⟩
  simp only [testAllDevOnline, found, ok_bind, ran]

theorem testThenClear_spec (represented : Represents heap ipcamDev cameras) :
    ∃ after, testThenClear heap ipcamDev = .ok after ∧
      Represents after ipcamDev ((cameras.map Camera.test).map Camera.clear) := by
  obtain ⟨middle, tested, representsTested⟩ := testAllDevOnline_spec represented
  obtain ⟨after, cleared, represents⟩ := clearAllDevOnline_spec representsTested
  refine ⟨after, ?_, represents⟩
  simp only [testThenClear, tested, ok_bind, cleared]

theorem deleteIpcamAllNode_spec (represented : Represents heap ipcamDev cameras) :
    ∃ after, deleteIpcamAllNode heap ipcamDev = .ok (cameras.length, after) ∧
      Represents after ipcamDev [] := by
  obtain ⟨address, header, cells, rfl, chain, rfl⟩ := represented
  obtain ⟨after, ran, emptied, _⟩ := deleteAllLoop_chain chain (tail_chain chain).2 0
  refine ⟨after, ?_, address, _, [], rfl, emptied, rfl⟩
  rw [deleteIpcamAllNode, ran, camerasOf, List.length_map, Nat.zero_add]

def listRow (camera : Camera) : Except Fault ListRow := do
  let ipcamName ← printString camera.nodeInfo.ipcamName.toList
  return {
    alive := showsAlive camera.aliveFlag
    ipaddr := camera.nodeInfo.ipaddr
    ipcamName := ipcamName
    mac := camera.nodeInfo.mac
    startupTime := camera.nodeInfo.startupTime }

theorem listLoop_chain {start : Pointer} {cells : List (Address × IpcamNode)}
    (chain : Chain IpcamNode.next heap start cells) {fuel : Nat} (enough : cells.length < fuel) :
    listLoop heap fuel start = (camerasOf cells).mapM listRow := by
  induction fuel generalizing start cells with
  | zero => cases enough
  | succ rounds ih =>
      cases chain with
      | nil =>
          rfl
      | @cons address cell rest found tail =>
          simp only [List.length_cons, Nat.add_lt_add_iff_right] at enough
          rw [camerasOf, List.map_cons, List.mapM_cons, ← camerasOf, ← ih tail enough]
          simp only [listLoop, Heap.read_live found, ok_bind, listRow, bind_assoc, pure_bind]
          rfl

theorem listIpcam_spec (represented : Represents heap ipcamDev cameras) :
    listIpcam heap ipcamDev = cameras.mapM listRow := by
  obtain ⟨address, header, cells, rfl, chain, rfl⟩ := represented
  obtain ⟨tail, enough⟩ := tail_chain chain
  simp only [listIpcam, Heap.read_live (header_live chain), ok_bind]
  exact listLoop_chain tail enough

theorem listIpcam_alive (represented : Represents heap ipcamDev cameras) {rows : List ListRow}
    (listed : listIpcam heap ipcamDev = .ok rows) :
    rows.map (fun row => (row.mac, row.alive)) =
      cameras.map fun camera => (camera.mac, showsAlive camera.aliveFlag) := by
  rw [listIpcam_spec represented] at listed
  clear represented
  induction cameras generalizing rows with
  | nil =>
      cases listed
      rfl
  | cons camera cameras ih =>
      rw [List.mapM_cons] at listed
      obtain ⟨row, shown, listed⟩ := of_bind_ok listed
      obtain ⟨rest, others, listed⟩ := of_bind_ok listed
      obtain ⟨ipcamName, _, shown⟩ := of_bind_ok shown
      cases listed
      cases shown
      rw [List.map_cons, List.map_cons, ih others]

end Watch

end IpcamSearch.SearchPc
