import IpcamSearch.SearchDeviceProperties
import IpcamSearch.SearchPcProperties

/-! What the receiving functions make of a datagram that may be shorter than the
message it starts. `parse_msg` ignores the received size, so whatever is missing comes
from the bytes that the buffer held before. -/

set_option autoImplicit false

namespace IpcamSearch.ReceivedBytes

open Memory IpcamList Message SearchPc SearchDevice

/-- The message that both programs see after a `recvfrom` into the buffer. -/
def received (datagram : List UInt8) (buf : Block MAX_MSG_LEN) : MsgBuf :=
  parseMsg (recvfrom buf datagram).1 (recvfrom buf datagram).2

def byteAt (datagram : List UInt8) (index : Nat) : UInt8 := datagram.getD index 0

/-- The stated extension was received along with the header. -/
def Whole (datagram : List UInt8) : Prop :=
  headerLen ≤ datagram.length ∧
    headerLen + (byteAt datagram extenLenOffset).toNat ≤ datagram.length

/-- Every byte was received that the handler of a registering message looks at, and
the message has all that its handler takes for granted. -/
def Enough (datagram : List UInt8) : Prop :=
  1 ≤ datagram.length ∧
    let extenLen := (byteAt datagram extenLenOffset).toNat
    match IpcamSearchMsgType.ofByte? (byteAt datagram 0) with
    | some .login => extenLen ≤ 76 ∧ headerLen + min extenLen 6 ≤ datagram.length
    | some .heartbeat => 10 ≤ extenLen ∧ headerLen + 10 ≤ datagram.length
    | some .ackAlive => 10 ≤ extenLen ∧ headerLen + 10 ≤ datagram.length
    | _ => True

section Buffer

variable {datagram : List UInt8}

theorem recvfrom_bytes (fits : datagram.length ≤ MAX_MSG_LEN) (buf : Block MAX_MSG_LEN) :
    (recvfrom buf datagram).1.toList = datagram ++ buf.toList.drop datagram.length := by
  simp only [recvfrom, Block.toList_patch, List.take_of_length_le fits]
  exact overlay_zero _ _

theorem received_bytes (fits : datagram.length ≤ MAX_MSG_LEN) (buf : Block MAX_MSG_LEN) :
    (datagram ++ buf.toList.drop datagram.length).take (received datagram buf).bytes.length =
      (received datagram buf).bytes := by
  have starts := starts_parse (recvfrom buf datagram).1 (recvfrom buf datagram).2
  rwa [Starts, recvfrom_bytes fits] at starts

theorem received_eq (fits : datagram.length ≤ MAX_MSG_LEN) {buf : Block MAX_MSG_LEN}
    {msg : MsgBuf}
    (front : (datagram ++ buf.toList.drop datagram.length).take msg.bytes.length = msg.bytes) :
    received datagram buf = msg := by
  have starts : Starts (recvfrom buf datagram).1 msg.bytes := by rwa [Starts, recvfrom_bytes fits]
  exact starts.parse _

variable (field : IpcamSearchMsg → UInt8) {index : Nat}

theorem header_at (fits : datagram.length ≤ MAX_MSG_LEN)
    (laid : ∀ header : IpcamSearchMsg, header.toBytes[index]? = some (field header))
    (buf : Block MAX_MSG_LEN) :
    (datagram ++ buf.toList.drop datagram.length)[index]? =
      some (field (received datagram buf).header) := by
  have inside := (List.getElem?_eq_some_iff.mp (laid (received datagram buf).header)).1
  have bytes := congrArg (fun bytes => bytes[index]?) (received_bytes fits buf)
  have within : index < (received datagram buf).bytes.length := by
    rw [MsgBuf.bytes, List.length_append]
    exact Nat.lt_of_lt_of_le inside (Nat.le_add_right _ _)
  simp only [List.getElem?_take_of_lt within] at bytes
  rw [bytes, MsgBuf.bytes, List.getElem?_append_left inside, laid]

theorem header_received (fits : datagram.length ≤ MAX_MSG_LEN)
    (laid : ∀ header : IpcamSearchMsg, header.toBytes[index]? = some (field header))
    (arrived : index < datagram.length) (buf : Block MAX_MSG_LEN) :
    field (received datagram buf).header = byteAt datagram index := by
  have found := header_at field fits laid buf
  rw [List.getElem?_append_left arrived] at found
  rw [byteAt, List.getD_eq_getElem?_getD, found]
  rfl

theorem type_received (fits : datagram.length ≤ MAX_MSG_LEN) (arrived : 0 < datagram.length)
    (buf : Block MAX_MSG_LEN) : (received datagram buf).header.type = byteAt datagram 0 :=
  header_received IpcamSearchMsg.type fits (fun _ => rfl) arrived buf

theorem extenLen_received (fits : datagram.length ≤ MAX_MSG_LEN)
    (arrived : extenLenOffset < datagram.length) (buf : Block MAX_MSG_LEN) :
    (received datagram buf).header.extenLen = byteAt datagram extenLenOffset :=
  header_received IpcamSearchMsg.extenLen fits (fun _ => rfl) arrived buf

theorem header_alike (fits : datagram.length ≤ MAX_MSG_LEN) (header : headerLen ≤ datagram.length)
    (buf other : Block MAX_MSG_LEN) :
    (received datagram buf).header = (received datagram other).header := by
  have slice : ∀ old, ((recvfrom old datagram).1.slice 0 headerLen (by decide)).toList =
      datagram.take headerLen := by
    intro old
    rw [Block.toList_slice, List.drop_zero, recvfrom_bytes fits, List.take_append_of_le_length header]
  have same : (recvfrom buf datagram).1.slice 0 headerLen (by decide) =
      (recvfrom other datagram).1.slice 0 headerLen (by decide) :=
    List.Vector.toList_injective ((slice buf).trans (slice other).symm)
  exact congrArg IpcamSearchMsg.ofBlock same

theorem extension_received (fits : datagram.length ≤ MAX_MSG_LEN)
    (header : headerLen ≤ datagram.length) (buf : Block MAX_MSG_LEN) :
    (received datagram buf).extenMsg =
      (datagram.drop headerLen ++ buf.toList.drop datagram.length).take
        (received datagram buf).header.extenLen.toNat := by
  have bytes := congrArg (List.drop headerLen) (received_bytes fits buf)
  rw [MsgBuf.bytes_length, MsgBuf.bytes, List.drop_left' (IpcamSearchMsg.toBytes_length _),
    List.drop_take, Nat.add_sub_cancel_left, List.drop_append_of_le_length header] at bytes
  exact bytes.symm

theorem extension_take (fits : datagram.length ≤ MAX_MSG_LEN) {count : Nat}
    (arrived : headerLen + min (byteAt datagram extenLenOffset).toNat count ≤ datagram.length)
    (header : headerLen ≤ datagram.length) (buf : Block MAX_MSG_LEN) :
    (received datagram buf).extenMsg.take count =
      (datagram.drop headerLen).take (min count (byteAt datagram extenLenOffset).toNat) := by
  have known : extenLenOffset < datagram.length :=
    Nat.lt_of_lt_of_le (by decide : extenLenOffset < headerLen) header
  rw [extension_received fits header, extenLen_received fits known, List.take_take,
    List.take_append_of_le_length]
  rw [List.length_drop]
  omega

end Buffer

section Alike

variable {left right : MsgBuf}

theorem carriedMac_alike (header : left.header = right.header)
    (front : left.extenMsg.take 6 = right.extenMsg.take 6) : carriedMac left = carriedMac right := by
  have length : left.extenMsg.length = right.extenMsg.length := by
    rw [left.sized, right.sized, header]
  apply List.Vector.toList_injective
  simp only [carriedMac, Block.toList_ofList, List.take_append, front, length]

theorem login_alike (header : left.header = right.header)
    (front : left.extenMsg.take 6 = right.extenMsg.take 6)
    (login : IpcamSearchMsgType.ofByte? left.header.type = some .login) (sender : SockaddrIn) :
    carriedInfo left sender = carriedInfo right sender := by
  have loginRight : IpcamSearchMsgType.ofByte? right.header.type = some .login := header ▸ login
  simp only [carriedInfo, carriedStartupTime, if_pos loginRight,
    carriedMac_alike header front, header]

theorem extension_alike (header : left.header = right.header)
    (front : left.extenMsg.take 10 = right.extenMsg.take 10) (enough : 10 ≤ left.header.extenLen)
    (other : IpcamSearchMsgType.ofByte? left.header.type ≠ some .login) (sender : SockaddrIn) :
    carriedInfo left sender = carriedInfo right sender := by
  have otherRight : IpcamSearchMsgType.ofByte? right.header.type ≠ some .login := header ▸ other
  have mac : left.extenMsg.take 6 = right.extenMsg.take 6 := by
    have cut := congrArg (List.take 6) front
    rwa [List.take_take, List.take_take] at cut
  have long : 10 ≤ left.extenMsg.length := left.sized ▸ UInt8.le_iff_toNat_le.mp enough
  have longRight : 10 ≤ right.extenMsg.length := by
    rw [right.sized, ← header, ← left.sized]
    exact long
  have number : Block.ofList 4 (left.extenMsg.drop 6) = Block.ofList 4 (right.extenMsg.drop 6) := by
    have cut := congrArg (List.drop 6) front
    rw [List.drop_take, List.drop_take] at cut
    apply List.Vector.toList_injective
    rw [Block.toList_ofList, Block.toList_ofList, List.take_append_of_le_length,
      List.take_append_of_le_length]
    · exact cut
    · rw [List.length_drop]
      omega
    · rw [List.length_drop]
      omega
  simp only [carriedInfo, carriedStartupTime, if_neg otherRight,
    carriedMac_alike header mac, header, number]

end Alike

def ParsedAlike (datagram : List UInt8) : Prop :=
  ∀ buf other, received datagram buf = received datagram other

/-- The datagram changes every list in the same way, and is answered in the same way,
whatever the buffers on the stack held. -/
structure EffectsAlike (datagram : List UInt8) : Prop where
  registry : ∀ allocator heap ipcamDev cameras, Represents heap ipcamDev cameras →
    ∀ buf other peer, dealnet allocator ipcamDev heap buf (some (datagram, peer)) =
      dealnet allocator ipcamDev heap other (some (datagram, peer))
  reply : ∀ device now ipcamName buf other peer sendBuf otherSendBuf,
    recvMsgFromPc device now ipcamName buf (some (datagram, peer)) sendBuf =
      recvMsgFromPc device now ipcamName other (some (datagram, peer)) otherSendBuf

/-- The datagram is taken without a fault by every list, and leaves one and the same
list whatever the buffer held. -/
def RegistersAlike (datagram : List UInt8) : Prop :=
  ∀ allocator heap ipcamDev cameras, Represents heap ipcamDev cameras →
    ∀ peer, ∃ after, ∀ buf, dealnet allocator ipcamDev heap buf (some (datagram, peer)) = .ok after

/-- A reply does not depend on the buffer that it is built in. -/
theorem reply_alike (device : Device) (now : Nat) (ipcamName : Block 64) (msg : MsgBuf)
    (sender : SockaddrIn) (reply otherReply : Block MAX_MSG_LEN) :
    ipcamDealMsgFunc device now ipcamName msg sender reply =
      ipcamDealMsgFunc device now ipcamName msg sender otherReply := by
  unfold ipcamDealMsgFunc
  cases type : IpcamSearchMsgType.ofByte? msg.header.type with
  | none => rfl
  | some label =>
      cases label with
      | queryAlive => simp only [replayAliveMsg_spec]
      | _ => rfl

theorem effects_of_parsed {datagram : List UInt8} (alike : ParsedAlike datagram) :
    EffectsAlike datagram where
  registry := by
    intro allocator heap ipcamDev cameras _ buf other peer
    have same := alike buf other
    simp only [received] at same
    simp only [dealnet, same]
  reply := by
    intro device now ipcamName buf other peer sendBuf otherSendBuf
    have same := alike buf other
    simp only [received] at same
    simp only [recvMsgFromPc, same]
    exact reply_alike device now ipcamName _ peer sendBuf otherSendBuf

theorem parsed_of_whole {datagram : List UInt8} (fits : datagram.length ≤ MAX_MSG_LEN)
    (whole : Whole datagram) : ParsedAlike datagram := by
  intro buf other
  have known : extenLenOffset < datagram.length :=
    Nat.lt_of_lt_of_le (by decide : extenLenOffset < headerLen) whole.1
  have inside : (received datagram other).bytes.length ≤ datagram.length := by
    rw [MsgBuf.bytes_length, extenLen_received fits known]
    exact whole.2
  have front := received_bytes fits other
  rw [List.take_append_of_le_length inside] at front
  exact received_eq fits (by rwa [List.take_append_of_le_length inside])

section Registers

variable {datagram : List UInt8} (fits : datagram.length ≤ MAX_MSG_LEN)

theorem registersAlike_of_info
    (registers : ∀ allocator ipcamDev heap buf peer,
      dealnet allocator ipcamDev heap buf (some (datagram, peer)) =
        registerNode allocator ipcamDev heap (carriedInfo (received datagram buf) peer))
    (same : ∀ buf other peer, carriedInfo (received datagram buf) peer =
      carriedInfo (received datagram other) peer) : RegistersAlike datagram := by
  intro allocator heap ipcamDev cameras represented peer
  obtain ⟨after, ran, _⟩ := registerNode_spec allocator represented
    (carriedInfo (received datagram (Block.zeros MAX_MSG_LEN)) peer)
  refine ⟨after, fun buf => ?_⟩
  rw [registers, same buf (Block.zeros MAX_MSG_LEN), ran]

include fits

theorem login_registersAlike (type : IpcamSearchMsgType.ofByte? (byteAt datagram 0) = some .login)
    (short : (byteAt datagram extenLenOffset).toNat ≤ 76)
    (arrived : headerLen + min (byteAt datagram extenLenOffset).toNat 6 ≤ datagram.length) :
    RegistersAlike datagram := by
  have whole : headerLen ≤ datagram.length := Nat.le_trans (Nat.le_add_right _ _) arrived
  have login : ∀ buf, IpcamSearchMsgType.ofByte? (received datagram buf).header.type = some .login :=
    fun buf => by rwa [type_received fits (Nat.lt_of_lt_of_le (by decide) whole)]
  have extenLen := extenLen_received fits (Nat.lt_of_lt_of_le (by decide) whole)
  have front := extension_take fits arrived whole
  apply registersAlike_of_info
  · intro allocator ipcamDev heap buf peer
    exact dealMsgFunc_login allocator heap ipcamDev (login buf)
      (by rwa [extenLen, UInt8.le_iff_toNat_le]) peer
  · intro buf other peer
    exact login_alike (header_alike fits whole buf other) ((front buf).trans (front other).symm)
      (login buf) peer

theorem extension_registersAlike
    (type : IpcamSearchMsgType.ofByte? (byteAt datagram 0) = some .heartbeat ∨
      IpcamSearchMsgType.ofByte? (byteAt datagram 0) = some .ackAlive)
    (enough : 10 ≤ (byteAt datagram extenLenOffset).toNat)
    (arrived : headerLen + 10 ≤ datagram.length) : RegistersAlike datagram := by
  have whole : headerLen ≤ datagram.length := Nat.le_trans (Nat.le_add_right _ _) arrived
  have typed : ∀ buf,
      IpcamSearchMsgType.ofByte? (received datagram buf).header.type = some .heartbeat ∨
        IpcamSearchMsgType.ofByte? (received datagram buf).header.type = some .ackAlive :=
    fun buf => by rwa [type_received fits (Nat.lt_of_lt_of_le (by decide) whole)]
  have long : ∀ buf, 10 ≤ (received datagram buf).header.extenLen := by
    intro buf
    rwa [extenLen_received fits (Nat.lt_of_lt_of_le (by decide) whole), UInt8.le_iff_toNat_le]
  have bound : headerLen + min (byteAt datagram extenLenOffset).toNat 10 ≤ datagram.length := by omega
  have front := extension_take fits bound whole
  apply registersAlike_of_info
  · intro allocator ipcamDev heap buf peer
    exact dealMsgFunc_extension allocator heap ipcamDev (typed buf) (long buf) peer
  · intro buf other peer
    exact extension_alike (header_alike fits whole buf other) ((front buf).trans (front other).symm)
      (long buf) (not_login_of_extension (typed buf)) peer

theorem registersAlike_of_enough
    (other : IpcamSearchMsgType.ofByte? (byteAt datagram 0) ≠ some .logout)
    (enough : Enough datagram) : RegistersAlike datagram := by
  obtain ⟨nonempty, bound⟩ := enough
  have ignored (unhandled : ∀ buf, Unhandled (received datagram buf)) : RegistersAlike datagram :=
    fun allocator heap ipcamDev _ _ peer =>
      ⟨heap, fun buf => dealMsgFunc_unhandled allocator heap ipcamDev (unhandled buf) peer⟩
  simp only [Unhandled, type_received fits nonempty] at ignored
  cases type : IpcamSearchMsgType.ofByte? (byteAt datagram 0) with
  | none => exact ignored (by simp [type])
  | some label =>
      simp only [type] at bound
      cases label with
      | login => exact login_registersAlike fits type bound.1 bound.2
      | logout => exact absurd type other
      | heartbeat => exact extension_registersAlike fits (.inl type) bound.1 bound.2
      | ackAlive => exact extension_registersAlike fits (.inr type) bound.1 bound.2
      | queryAlive | dhcp | ackDhcp | setIp | ackIp => exact ignored (by simp [type])

end Registers

end IpcamSearch.ReceivedBytes
