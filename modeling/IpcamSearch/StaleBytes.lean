import IpcamSearch.ReceivedBytes

/-! Two buffers that differ in their old bytes tell apart every datagram that is too
short: the parsed messages differ as soon as a byte is missing, and the lists as soon
as a byte is missing that the handler of a registering message looks at. -/

set_option autoImplicit false

namespace IpcamSearch.ReceivedBytes

open Memory IpcamList Message SearchPc SearchDevice

def filled (old : UInt8) : Block MAX_MSG_LEN := List.Vector.replicate MAX_MSG_LEN old

theorem toList_filled (old : UInt8) : (filled old).toList = List.replicate MAX_MSG_LEN old := rfl

theorem ipcamName_last (header : IpcamSearchMsg) :
    header.toBytes[79]? = some (header.ipcamName.get ⟨63, by decide⟩) := by
  have split : header.toBytes = (header.fields.take 7).flatten ++ header.ipcamName.toList := by
    simp [IpcamSearchMsg.toBytes, IpcamSearchMsg.fields]
  have start : (header.fields.take 7).flatten.length = 16 := by
    simp [IpcamSearchMsg.fields]
  rw [split, List.getElem?_append_right (by omega), start]
  exact List.getElem?_eq_getElem _

section Stale

variable {datagram : List UInt8}

theorem stale_at (old : UInt8) {index : Nat} (missing : datagram.length ≤ index)
    (inside : index < MAX_MSG_LEN) :
    (datagram ++ (filled old).toList.drop datagram.length)[index]? = some old := by
  rw [List.getElem?_append_right missing, List.getElem?_drop, toList_filled,
    Nat.add_sub_cancel' missing, List.getElem?_replicate_of_lt inside]

variable (fits : datagram.length ≤ MAX_MSG_LEN)

include fits

theorem bytes_stale (old : UInt8)
    (missing : datagram.length < (received datagram (filled old)).bytes.length) :
    (received datagram (filled old)).bytes[datagram.length]? = some old := by
  have within : (received datagram (filled old)).bytes.length ≤ MAX_MSG_LEN :=
    (starts_parse (recvfrom (filled old) datagram).1 _).length_le
  rw [← received_bytes fits (filled old), List.getElem?_take_of_lt missing]
  exact stale_at old (Nat.le_refl _) (Nat.lt_of_lt_of_le missing within)

theorem header_stale (field : IpcamSearchMsg → UInt8) {index : Nat}
    (laid : ∀ header : IpcamSearchMsg, header.toBytes[index]? = some (field header))
    (missing : datagram.length ≤ index) (old : UInt8) :
    field (received datagram (filled old)).header = old := by
  have inside := (List.getElem?_eq_some_iff.mp (laid (received datagram (filled old)).header)).1
  rw [IpcamSearchMsg.toBytes_length] at inside
  have found := header_at field fits laid (filled old)
  rw [stale_at old missing (Nat.lt_trans inside (by decide))] at found
  exact (Option.some.inj found).symm

theorem type_stale (empty : datagram.length = 0) (old : UInt8) :
    (received datagram (filled old)).header.type = old :=
  header_stale fits IpcamSearchMsg.type (fun _ => rfl) (Nat.le_of_eq empty) old

theorem extenLen_stale (missing : datagram.length ≤ extenLenOffset) (old : UInt8) :
    (received datagram (filled old)).header.extenLen = old :=
  header_stale fits IpcamSearchMsg.extenLen (fun _ => rfl) missing old

theorem ipcamName_stale (missing : datagram.length < headerLen) (old : UInt8) :
    (received datagram (filled old)).header.ipcamName.get ⟨63, by decide⟩ = old :=
  header_stale fits (fun header => header.ipcamName.get ⟨63, by decide⟩) ipcamName_last
    (Nat.le_of_lt_succ missing) old

theorem extension_stale (whole : headerLen ≤ datagram.length)
    (missing : datagram.length < headerLen + (byteAt datagram extenLenOffset).toNat) (old : UInt8) :
    (received datagram (filled old)).extenMsg[datagram.length - headerLen]? = some old := by
  have known : extenLenOffset < datagram.length :=
    Nat.lt_of_lt_of_le (by decide : extenLenOffset < headerLen) whole
  have found := bytes_stale fits old (by rwa [MsgBuf.bytes_length, extenLen_received fits known])
  rwa [MsgBuf.bytes, List.getElem?_append_right (by rwa [IpcamSearchMsg.toBytes_length]),
    IpcamSearchMsg.toBytes_length] at found

end Stale

theorem parsed_alike_iff {datagram : List UInt8} (fits : datagram.length ≤ MAX_MSG_LEN) :
    ParsedAlike datagram ↔ Whole datagram := by
  refine ⟨fun alike => ?_, parsed_of_whole fits⟩
  by_contra cut
  have missing : ∀ old,
      datagram.length < (received datagram (filled old)).bytes.length := by
    intro old
    rw [MsgBuf.bytes_length]
    by_cases whole : headerLen ≤ datagram.length
    · have known : extenLenOffset < datagram.length :=
        Nat.lt_of_lt_of_le (by decide : extenLenOffset < headerLen) whole
      rw [extenLen_received fits known]
      exact Nat.lt_of_not_le fun complete => cut ⟨whole, complete⟩
    · omega
  have zero := bytes_stale fits 0 (missing 0)
  have one := bytes_stale fits 1 (missing 1)
  rw [alike (filled 0) (filled 1), one] at zero
  cases zero

section Necessary

variable {datagram : List UInt8} (fits : datagram.length ≤ MAX_MSG_LEN)

def anyPeer : SockaddrIn := ⟨Block.zeros 4, 6755⟩

theorem registerNode_injective {left right : IpcamInfo}
    (same : registerNode Allocator.bump (some 1) ((∅ : IpcamHeap).insert 1 default) left =
      registerNode Allocator.bump (some 1) ((∅ : IpcamHeap).insert 1 default) right) :
    left = right := by
  have empty := represents_header 1 default rfl
  obtain ⟨after, ran, represents⟩ := registerNode_spec Allocator.bump empty left
  obtain ⟨other, ranOther, representsOther⟩ := registerNode_spec Allocator.bump empty right
  rw [ran, ranOther] at same
  cases same
  have records := represents.unique representsOther
  exact congrArg Camera.nodeInfo (List.cons.inj records).1

theorem ofList_at {size index : Nat} {bytes : List UInt8} {byte : UInt8} (inside : index < size)
    (found : bytes[index]? = some byte) : (Block.ofList size bytes).toList[index]? = some byte := by
  obtain ⟨within, _⟩ := List.getElem?_eq_some_iff.mp found
  rw [Block.toList_ofList, List.getElem?_take_of_lt inside, List.getElem?_append_left within, found]

section Info

variable (same : carriedInfo (received datagram (filled 0)) anyPeer =
  carriedInfo (received datagram (filled 1)) anyPeer)

include same

theorem whole_of_info (fits : datagram.length ≤ MAX_MSG_LEN) : headerLen ≤ datagram.length := by
  by_contra short
  have missing := Nat.lt_of_not_le short
  have names := congrArg (fun info => info.ipcamName.get ⟨63, by decide⟩) same
  have zero := ipcamName_stale fits missing 0
  have one := ipcamName_stale fits missing 1
  exact absurd (zero.symm.trans (names.trans one)) (by decide)

theorem mac_of_info (fits : datagram.length ≤ MAX_MSG_LEN)
    (missing : datagram.length < headerLen + (byteAt datagram extenLenOffset).toNat) :
    headerLen + 6 ≤ datagram.length := by
  by_contra short
  have whole := whole_of_info same fits
  have inside : datagram.length - headerLen < 6 := by omega
  have macs := congrArg (fun info => info.mac.toList[datagram.length - headerLen]?) same
  have zero := ofList_at inside (extension_stale fits whole missing 0)
  have one := ofList_at inside (extension_stale fits whole missing 1)
  exact absurd (zero.symm.trans (macs.trans one)) (by decide)

theorem startup_of_info (fits : datagram.length ≤ MAX_MSG_LEN)
    (other : IpcamSearchMsgType.ofByte? (byteAt datagram 0) ≠ some .login)
    (missing : datagram.length < headerLen + (byteAt datagram extenLenOffset).toNat) :
    headerLen + 10 ≤ datagram.length := by
  by_contra short
  have whole := whole_of_info same fits
  have mac := mac_of_info same fits missing
  have typed := type_received fits (Nat.lt_of_lt_of_le (by decide) whole)
  have inside : datagram.length - headerLen - 6 < 4 := by omega
  have place : 6 + (datagram.length - headerLen - 6) = datagram.length - headerLen := by omega
  have shows : ∀ old, (store32 (carriedStartupTime (received datagram (filled old)))).toList[
      datagram.length - headerLen - 6]? = some old := by
    intro old
    rw [carriedStartupTime, if_neg (by rwa [typed]), store32_load32]
    refine ofList_at inside ?_
    rw [List.getElem?_drop, place]
    exact extension_stale fits whole missing old
  have numbers := congrArg (fun info =>
    (store32 info.startupTime).toList[datagram.length - headerLen - 6]?) same
  exact absurd ((shows 0).symm.trans (numbers.trans (shows 1))) (by decide)

end Info

/-- The empty list at address 1 comes out the same over any two old buffers. -/
theorem RegistersAlike.empty_list (alike : RegistersAlike datagram) : ∃ after, ∀ old,
    dealMsgFunc Allocator.bump (some 1) ((∅ : IpcamHeap).insert 1 default)
      (received datagram (filled old)) anyPeer = .ok after := by
  obtain ⟨after, ran⟩ := alike Allocator.bump _ _ _ (represents_header 1 default rfl) anyPeer
  exact ⟨after, fun old => ran (filled old)⟩

theorem RegistersAlike.same_info (alike : RegistersAlike datagram)
    (registers : ∀ old, dealMsgFunc Allocator.bump (some 1) ((∅ : IpcamHeap).insert 1 default)
        (received datagram (filled old)) anyPeer =
      registerNode Allocator.bump (some 1) ((∅ : IpcamHeap).insert 1 default)
        (carriedInfo (received datagram (filled old)) anyPeer)) :
    carriedInfo (received datagram (filled 0)) anyPeer =
      carriedInfo (received datagram (filled 1)) anyPeer := by
  obtain ⟨after, ran⟩ := alike.empty_list
  apply registerNode_injective
  rw [← registers, ← registers, ran, ran]

include fits

theorem RegistersAlike.nonempty (alike : RegistersAlike datagram) : 1 ≤ datagram.length := by
  by_contra short
  have empty : datagram.length = 0 := by omega
  obtain ⟨after, ran⟩ := alike.empty_list
  have heartbeat :
      IpcamSearchMsgType.ofByte? (received datagram (filled 3)).header.type = some .heartbeat := by
    rw [type_stale fits empty]
    rfl
  have fault := dealMsgFunc_extension_short Allocator.bump ((∅ : IpcamHeap).insert 1 default)
    (some 1) (.inl heartbeat) (by rw [extenLen_stale fits (by omega)]; decide) anyPeer
  rw [ran] at fault
  cases fault

theorem RegistersAlike.login (alike : RegistersAlike datagram)
    (type : IpcamSearchMsgType.ofByte? (byteAt datagram 0) = some .login) :
    (byteAt datagram extenLenOffset).toNat ≤ 76 ∧
      headerLen + min (byteAt datagram extenLenOffset).toNat 6 ≤ datagram.length := by
  have login : ∀ old, IpcamSearchMsgType.ofByte? (received datagram old).header.type = some .login :=
    fun old => by rwa [type_received fits (alike.nonempty fits)]
  obtain ⟨after, ran⟩ := alike.empty_list
  have short : ∀ old, (received datagram (filled old)).header.extenLen ≤ 76 := by
    intro old
    by_contra long
    have fault := dealMsgFunc_login_overrun Allocator.bump ((∅ : IpcamHeap).insert 1 default)
      (some 1) (login _) (UInt8.not_le.mp long) anyPeer
    rw [ran] at fault
    cases fault
  have known : extenLenOffset < datagram.length := by
    by_contra cut
    have stale := short 255
    rw [extenLen_stale fits (Nat.le_of_not_lt cut)] at stale
    exact absurd stale (by decide)
  have fitting : (byteAt datagram extenLenOffset).toNat ≤ 76 := by
    have read := short 0
    rwa [extenLen_received fits known, UInt8.le_iff_toNat_le] at read
  refine ⟨fitting, ?_⟩
  have same := alike.same_info fun old =>
    dealMsgFunc_login Allocator.bump _ _ (login _) (short old) anyPeer
  have header := whole_of_info same fits
  by_contra missing
  have mac := mac_of_info same fits (by omega)
  omega

theorem RegistersAlike.extension (alike : RegistersAlike datagram)
    (type : IpcamSearchMsgType.ofByte? (byteAt datagram 0) = some .heartbeat ∨
      IpcamSearchMsgType.ofByte? (byteAt datagram 0) = some .ackAlive) :
    10 ≤ (byteAt datagram extenLenOffset).toNat ∧ headerLen + 10 ≤ datagram.length := by
  have typed : ∀ old,
      IpcamSearchMsgType.ofByte? (received datagram old).header.type = some .heartbeat ∨
        IpcamSearchMsgType.ofByte? (received datagram old).header.type = some .ackAlive :=
    fun old => by rwa [type_received fits (alike.nonempty fits)]
  obtain ⟨after, ran⟩ := alike.empty_list
  have enough : ∀ old, 10 ≤ (received datagram (filled old)).header.extenLen := by
    intro old
    by_contra short
    have fault := dealMsgFunc_extension_short Allocator.bump ((∅ : IpcamHeap).insert 1 default)
      (some 1) (typed _) (UInt8.not_le.mp short) anyPeer
    rw [ran] at fault
    cases fault
  have known : extenLenOffset < datagram.length := by
    by_contra cut
    have stale := enough 0
    rw [extenLen_stale fits (Nat.le_of_not_lt cut)] at stale
    exact absurd stale (by decide)
  have long : 10 ≤ (byteAt datagram extenLenOffset).toNat := by
    have read := enough 0
    rwa [extenLen_received fits known, UInt8.le_iff_toNat_le] at read
  refine ⟨long, ?_⟩
  have same := alike.same_info fun old =>
    dealMsgFunc_extension Allocator.bump _ _ (typed _) (enough old) anyPeer
  by_contra missing
  have startup := startup_of_info same fits (not_login_of_extension type) (by omega)
  omega

theorem enough_of_registersAlike (alike : RegistersAlike datagram)
    (other : IpcamSearchMsgType.ofByte? (byteAt datagram 0) ≠ some .logout) : Enough datagram := by
  refine ⟨alike.nonempty fits, ?_⟩
  cases type : IpcamSearchMsgType.ofByte? (byteAt datagram 0) with
  | none => trivial
  | some label =>
      cases label with
      | login => exact alike.login fits type
      | logout => exact absurd type other
      | heartbeat => exact alike.extension fits (.inl type)
      | ackAlive => exact alike.extension fits (.inr type)
      | queryAlive | dhcp | ackDhcp | setIp | ackIp => trivial

end Necessary

/-- Every list takes a datagram without a fault, and in the same way over every old
buffer, exactly when the bytes that its handler looks at were received. A LOGOUT is left
out: some lists cannot delete from whatever it holds. -/
theorem registers_alike_iff {datagram : List UInt8} (fits : datagram.length ≤ MAX_MSG_LEN)
    (other : IpcamSearchMsgType.ofByte? (byteAt datagram 0) ≠ some .logout) :
    RegistersAlike datagram ↔ Enough datagram :=
  ⟨fun alike => enough_of_registersAlike fits alike other,
    fun enough => registersAlike_of_enough fits other enough⟩

/-- A LOGIN with the header and six bytes is enough, although it states seven. -/
theorem registers_alike_iff_cut_login :
    RegistersAlike ([1, 0, 0, 7] ++ List.replicate 82 0) :=
  (registers_alike_iff (by decide) (by decide)).mpr ⟨by decide, (by decide : 7 ≤ 76 ∧ 86 ≤ 86)⟩

/-- The parsed message and its effects come from the received bytes alone exactly when
the whole message was received. -/
theorem received_bytes_decide_iff {datagram : List UInt8} (fits : datagram.length ≤ MAX_MSG_LEN) :
    ParsedAlike datagram ∧ EffectsAlike datagram ↔ Whole datagram := by
  refine ⟨fun alike => (parsed_alike_iff fits).mp alike.1, fun whole => ?_⟩
  have parsed := (parsed_alike_iff fits).mpr whole
  exact ⟨parsed, effects_of_parsed parsed⟩

theorem received_bytes_decide_iff_query :
    ParsedAlike (searchIpcam 7) ∧ EffectsAlike (searchIpcam 7) :=
  (received_bytes_decide_iff (by decide)).mpr (by unfold Whole; decide)

/-- A HEARTBEAT that is cut off behind its length byte registers a MAC and a name that
the buffer held before. -/
theorem short_heartbeat_registers_old_bytes :
    dealnet Allocator.bump (some 1) ((∅ : IpcamHeap).insert 1 default) (filled 0)
        (some ([3, 0, 0, 10], anyPeer)) ≠
      dealnet Allocator.bump (some 1) ((∅ : IpcamHeap).insert 1 default) (filled 1)
        (some ([3, 0, 0, 10], anyPeer)) := by
  intro same
  have fits : [3, 0, 0, (10 : UInt8)].length ≤ MAX_MSG_LEN := by decide
  have heartbeat : ∀ old, IpcamSearchMsgType.ofByte?
      (received [3, 0, 0, 10] (filled old)).header.type = some .heartbeat := by
    intro old
    rw [type_received fits (by decide)]
    rfl
  have enough : ∀ old, 10 ≤ (received [3, 0, 0, 10] (filled old)).header.extenLen := by
    intro old
    rw [extenLen_received fits (by decide)]
    decide
  have dealt : ∀ old, dealnet Allocator.bump (some 1) ((∅ : IpcamHeap).insert 1 default) (filled old)
      (some ([3, 0, 0, 10], anyPeer)) = registerNode Allocator.bump (some 1)
        ((∅ : IpcamHeap).insert 1 default)
        (carriedInfo (received [3, 0, 0, 10] (filled old)) anyPeer) := fun old =>
    dealMsgFunc_extension _ _ _ (.inl (heartbeat old)) (enough old) anyPeer
  rw [dealt, dealt] at same
  exact absurd (whole_of_info (registerNode_injective same) fits) (by decide)

end IpcamSearch.ReceivedBytes
