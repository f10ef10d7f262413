import IpcamSearch.DeleteByMac
import IpcamSearch.StaleBytes

/-! How far the handlers read the extension of a received message, and how far the
LOGIN case writes it into the record. The block behind `msg_buf` has room for the
stated length and no more. -/

set_option autoImplicit false

namespace IpcamSearch.ExtensionBounds

open Memory IpcamList Message SearchPc ReceivedBytes

section OneCamera

/-- A list with one record, at address 2 behind the header at address 1. -/
def onlyNode (mac : Mac) : IpcamNode :=
  { (default : IpcamNode) with nodeInfo := { (default : IpcamNode).nodeInfo with mac := mac } }

def oneCamera (mac : Mac) : IpcamHeap :=
  ((∅ : IpcamHeap).insert 2 (onlyNode mac)).insert 1 { (default : IpcamNode) with next := some 2 }

theorem oneCamera_header (mac : Mac) :
    (oneCamera mac).lookup 1 = some { (default : IpcamNode) with next := some 2 } :=
  Finmap.lookup_insert _

theorem oneCamera_node (mac : Mac) : (oneCamera mac).lookup 2 = some (onlyNode mac) :=
  (Finmap.lookup_insert_of_ne _ (by decide)).trans (Finmap.lookup_insert _)

theorem oneCamera_chain (mac : Mac) :
    Chain IpcamNode.next (oneCamera mac) (some 1)
      [(1, { (default : IpcamNode) with next := some 2 }), (2, onlyNode mac)] :=
  .cons (oneCamera_header mac) (.cons (oneCamera_node mac) .nil)

theorem represents_oneCamera (mac : Mac) :
    Represents (oneCamera mac) (some 1) [(onlyNode mac).camera] :=
  ⟨1, _, [(2, onlyNode mac)], rfl, oneCamera_chain mac, rfl⟩

variable {mac : Mac} {key : List UInt8}

theorem delete_fault {fault : Fault} (faults : strncmp mac.toList key 6 = .error fault) :
    deleteIpcamNodeByMac (oneCamera mac) (some 1) key = .error fault :=
  deleteByMacLoop_fault _ 0 rfl (oneCamera_chain mac) faults

end OneCamera

section Reads

variable (allocator : Allocator IpcamNode)

/-- Whatever the list holds, no read of the extension leaves it. A LOGIN can also fail
where it writes, so that its one read is looked at by itself. -/
structure ReadsExtension (datagram : List UInt8) (buf : Block MAX_MSG_LEN) : Prop where
  login : IpcamSearchMsgType.ofByte? (received datagram buf).header.type = some .login →
    ∃ exten, loginExten (received datagram buf) = .ok exten
  others : IpcamSearchMsgType.ofByte? (received datagram buf).header.type ≠ some .login →
    ∀ heap ipcamDev cameras sender, Represents heap ipcamDev cameras →
      dealnet allocator ipcamDev heap buf (some (datagram, sender)) ≠ .error .outOfBounds

/-- The extension has the bytes that the handler of the message takes for granted. -/
def HasNeededBytes (msg : MsgBuf) : Prop :=
  match IpcamSearchMsgType.ofByte? msg.header.type with
  | some .logout => 6 ≤ msg.header.extenLen ∨ 0 ∈ msg.extenMsg
  | some .heartbeat => 10 ≤ msg.header.extenLen
  | some .ackAlive => 10 ≤ msg.header.extenLen
  | _ => True

variable {heap : IpcamHeap} {ipcamDev : Pointer} {cameras : List Camera}

theorem delete_comparable {key : List UInt8} (comparable : Comparable key)
    (represented : Represents heap ipcamDev cameras) :
    deleteIpcamNodeByMac heap ipcamDev key ≠ .error .outOfBounds := by
  obtain ⟨address, header, cells, rfl, chain, rfl⟩ := represented
  by_cases first : SelectedFirst key cells
  · obtain ⟨ret, after, deletes⟩ := delete_selected_first comparable chain first
    rw [deletes.returned]
    intro same
    cases same
  · rw [delete_selected_behind comparable chain first]
    intro same
    cases same

theorem delete_short {key : List UInt8} (short : key.length < 6) (nonzero : 0 ∉ key) :
    deleteIpcamNodeByMac (oneCamera (Block.ofList 6 key)) (some 1) key = .error .outOfBounds := by
  apply delete_fault
  obtain ⟨rest, enough⟩ := Nat.exists_eq_add_of_lt short
  have split : (Block.ofList 6 key).toList = key ++ (List.replicate (rest + 1) 0) := by
    rw [Block.toList_ofList, List.take_append, List.take_of_length_le (Nat.le_of_lt short),
      List.take_replicate]
    congr 2
    omega
  have front := strncmp_prefix nonzero (List.replicate (rest + 1) 0) [] (rest + 1)
  rw [List.append_nil] at front
  rw [split, enough, Nat.add_assoc, front]
  rfl

theorem logout_reads_iff {msg : MsgBuf}
    (logout : IpcamSearchMsgType.ofByte? msg.header.type = some .logout) :
    (∀ heap ipcamDev cameras sender, Represents heap ipcamDev cameras →
        dealMsgFunc allocator ipcamDev heap msg sender ≠ .error .outOfBounds) ↔
      6 ≤ msg.header.extenLen ∨ 0 ∈ msg.extenMsg := by
  have deletes : ∀ heap ipcamDev sender, dealMsgFunc allocator ipcamDev heap msg sender =
      (deleteIpcamNodeByMac heap ipcamDev msg.extenMsg >>= fun result => .ok result.2) := by
    intro heap ipcamDev sender
    simp only [dealMsgFunc, logout]
    rfl
  have length : 6 ≤ msg.header.extenLen ↔ 6 ≤ msg.extenMsg.length := by
    rw [msg.sized, UInt8.le_iff_toNat_le]
    rfl
  simp only [deletes, length]
  constructor
  · intro inside
    by_contra outside
    rw [not_or, Nat.not_le] at outside
    refine inside _ _ _ anyPeer (represents_oneCamera (Block.ofList 6 msg.extenMsg)) ?_
    rw [delete_short outside.1 outside.2]
    rfl
  · intro needed heap ipcamDev cameras sender represented
    have comparable : Comparable msg.extenMsg := fun mac =>
      strncmp_total (Nat.le_of_eq mac.toList_length.symm) needed
    have inside := delete_comparable comparable represented
    cases deleted : deleteIpcamNodeByMac heap ipcamDev msg.extenMsg with
    | ok result =>
        intro same
        cases same
    | error fault =>
        rw [deleted] at inside
        rw [error_bind]
        intro same
        exact inside (by cases same; rfl)

theorem extension_reads_iff {msg : MsgBuf}
    (type : IpcamSearchMsgType.ofByte? msg.header.type = some .heartbeat ∨
      IpcamSearchMsgType.ofByte? msg.header.type = some .ackAlive) :
    (∀ heap ipcamDev cameras sender, Represents heap ipcamDev cameras →
        dealMsgFunc allocator ipcamDev heap msg sender ≠ .error .outOfBounds) ↔
      10 ≤ msg.header.extenLen := by
  constructor
  · intro inside
    by_contra short
    refine inside _ _ _ anyPeer (represents_header 1 default rfl) ?_
    exact dealMsgFunc_extension_short allocator _ _ type (UInt8.not_le.mp short) anyPeer
  · intro enough heap ipcamDev cameras sender represented
    obtain ⟨after, registered, _⟩ :=
      registerNode_spec allocator represented (carriedInfo msg sender)
    rw [dealMsgFunc_extension allocator heap ipcamDev type enough, registered]
    intro same
    cases same

/-- The handlers stay inside the extension exactly when it is as long as they expect. -/
theorem reads_extension_iff (datagram : List UInt8) (buf : Block MAX_MSG_LEN) :
    ReadsExtension allocator datagram buf ↔ HasNeededBytes (received datagram buf) := by
  have byOthers {needed : Prop}
      (other : IpcamSearchMsgType.ofByte? (received datagram buf).header.type ≠ some .login)
      (exactly : (∀ heap ipcamDev cameras sender, Represents heap ipcamDev cameras →
        dealMsgFunc allocator ipcamDev heap (received datagram buf) sender ≠ .error .outOfBounds) ↔
          needed) : ReadsExtension allocator datagram buf ↔ needed :=
    ⟨fun reads => exactly.mp (reads.others other),
      fun holds => ⟨fun login => absurd login other, fun _ => exactly.mpr holds⟩⟩
  have ignored (unhandled : Unhandled (received datagram buf)) :
      ReadsExtension allocator datagram buf ↔ True := by
    refine byOthers (fun login => unhandled (by simp [login])) ⟨fun _ => trivial, ?_⟩
    intro _ heap ipcamDev cameras sender _
    rw [dealMsgFunc_unhandled allocator heap ipcamDev unhandled sender]
    intro same
    cases same
  unfold HasNeededBytes
  cases type : IpcamSearchMsgType.ofByte? (received datagram buf).header.type with
  | none => exact ignored (by simp [Unhandled, type])
  | some label =>
      cases label with
      | login =>
          exact ⟨fun _ => trivial,
            fun _ => ⟨fun _ => ⟨_, loginExten_spec _⟩, fun other => absurd type other⟩⟩
      | logout => exact byOthers (by simp [type]) (logout_reads_iff allocator type)
      | heartbeat => exact byOthers (by simp [type]) (extension_reads_iff allocator (.inl type))
      | ackAlive => exact byOthers (by simp [type]) (extension_reads_iff allocator (.inr type))
      | queryAlive | dhcp | ackDhcp | setIp | ackIp => exact ignored (by simp [Unhandled, type])

/-- The HEARTBEAT without an extension that a header of zeros behind its type makes. -/
theorem bare_heartbeat_reads_outside :
    ¬ ReadsExtension Allocator.bump (3 :: List.replicate 79 0) (filled 0) := by
  have type : (received (3 :: List.replicate 79 0) (filled 0)).header.type = 3 :=
    type_received (by decide) (by decide) (filled 0)
  have extenLen : (received (3 :: List.replicate 79 0) (filled 0)).header.extenLen = 0 :=
    extenLen_received (by decide) (by decide) (filled 0)
  have heartbeat : IpcamSearchMsgType.ofByte? 3 = some .heartbeat := rfl
  intro reads
  refine reads.others (by rw [type, heartbeat]; decide) _ _ _ anyPeer
    (represents_header 1 default rfl) ?_
  exact dealMsgFunc_extension_short Allocator.bump _ _ (.inl (type ▸ heartbeat))
    (extenLen ▸ by decide) anyPeer

end Reads

section Writes

/-- The copy stays inside the record and leaves alone what is not the MAC. -/
def WritesOnlyMac (msg : MsgBuf) : Prop :=
  ∀ remote, ∃ after, loginCopy msg remote = .ok after ∧
    ∀ index, index < macOffset ∨ macOffset + 6 ≤ index →
      after.toList[index]? = remote.toList[index]?

theorem mac_reached (remote : Block ipcamInfoLen) : macOffset ≤ remote.toList.length := by
  rw [remote.toList_length]
  decide

theorem writesOnlyMac_of_narrow {msg : MsgBuf} (narrow : msg.extenMsg.length ≤ 6) :
    WritesOnlyMac msg := by
  intro remote
  have short : msg.header.extenLen ≤ 76 := by
    rw [UInt8.le_iff_toNat_le, ← msg.sized]
    exact Nat.le_trans narrow (by decide)
  refine ⟨_, loginCopy_inside short remote, ?_⟩
  intro index outside
  rw [Block.toList_patch]
  refine overlay_getElem_outside (mac_reached remote) ?_
  rcases outside with before | behind
  · exact .inl before
  · exact .inr (Nat.le_trans (Nat.add_le_add_left narrow macOffset) behind)

/-- The seventh byte of a longer extension lands on the name, where a record that is
filled with another byte shows it. -/
theorem not_writesOnlyMac {msg : MsgBuf} (long : 6 < msg.extenMsg.length) :
    ¬ WritesOnlyMac msg := by
  intro writes
  by_cases short : msg.header.extenLen ≤ 76
  · let old : UInt8 := msg.extenMsg[6] + 1
    have laid : (List.Vector.replicate ipcamInfoLen old).toList =
        List.replicate ipcamInfoLen old := rfl
    obtain ⟨after, copied, kept⟩ := writes (List.Vector.replicate _ old)
    rw [loginCopy_inside short] at copied
    cases copied
    have byte := kept (macOffset + 6) (.inr (Nat.le_refl _))
    rw [Block.toList_patch, overlay_getElem_inside (mac_reached _) long, List.getElem?_eq_getElem long,
      laid, List.getElem?_replicate_of_lt (by decide)] at byte
    exact absurd (Option.some.inj byte) (by simp [old])
  · obtain ⟨after, copied, _⟩ := writes (Block.zeros ipcamInfoLen)
    rw [loginCopy_overrun (UInt8.not_le.mp short)] at copied
    cases copied

/-- The LOGIN case writes the MAC alone exactly when no more than a MAC is in the
extension. From 77 bytes on it writes behind the record. -/
theorem login_writes_only_mac_iff (msg : MsgBuf) :
    WritesOnlyMac msg ↔ msg.header.extenLen ≤ 6 := by
  have narrow : msg.header.extenLen ≤ 6 ↔ msg.extenMsg.length ≤ 6 := by
    rw [UInt8.le_iff_toNat_le, msg.sized]
    rfl
  rw [narrow]
  constructor
  · intro writes
    exact Nat.not_lt.mp fun long => not_writesOnlyMac long writes
  · exact writesOnlyMac_of_narrow

/-- A LOGIN whose extension is one byte longer than a MAC. -/
def longLogin : MsgBuf where
  header := { (cameraLogin 1 anyPeer).msg.header with extenLen := 7 }
  extenMsg := List.replicate 7 1
  sized := rfl

theorem long_login_writes_name :
    IpcamSearchMsgType.ofByte? longLogin.header.type = some .login ∧ ¬ WritesOnlyMac longLogin :=
  ⟨rfl, not_writesOnlyMac (by decide)⟩

end Writes

end IpcamSearch.ExtensionBounds
