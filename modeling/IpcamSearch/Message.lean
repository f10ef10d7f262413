import IpcamSearch.Library.Bytes

/-! The packed message of `ipcam_message.h`, its little-endian layout, and the
parser `parse_msg` that both programs run on a receive buffer. -/

set_option autoImplicit false

namespace IpcamSearch.Message

open Memory

def MAX_MSG_LEN : Nat := 512

/-- `sizeof(struct ipcam_search_msg)`, the header without its extension. -/
def headerLen : Nat := 80

def extenLenOffset : Nat := 3

def heartbeatNumOffset : Nat := 12

inductive IpcamSearchMsgType where
  | login
  | logout
  | heartbeat
  | queryAlive
  | ackAlive
  | dhcp
  | ackDhcp
  | setIp
  | ackIp
deriving DecidableEq, Repr

namespace IpcamSearchMsgType

def toByte : IpcamSearchMsgType → UInt8
  | login => 1
  | logout => 2
  | heartbeat => 3
  | queryAlive => 4
  | ackAlive => 5
  | dhcp => 6
  | ackDhcp => 7
  | setIp => 8
  | ackIp => 9

def all : List IpcamSearchMsgType :=
  [login, logout, heartbeat, queryAlive, ackAlive, dhcp, ackDhcp, setIp, ackIp]

/-- The case label that a received type byte selects, if it is one at all. -/
def ofByte? (byte : UInt8) : Option IpcamSearchMsgType := all.find? fun type => type.toByte == byte

@[simp] theorem ofByte?_toByte (type : IpcamSearchMsgType) : ofByte? type.toByte = some type := by
  cases type <;> rfl

end IpcamSearchMsgType

/-- The header. The extension follows it in memory and is kept apart here. -/
structure IpcamSearchMsg where
  type : UInt8
  dealId : UInt8
  flag : UInt8
  extenLen : UInt8
  ssrc : UInt32
  timestamp : UInt32
  heartbeatNum : UInt32
  ipcamName : Block 64
deriving DecidableEq

namespace IpcamSearchMsg

def fields (msg : IpcamSearchMsg) : List (List UInt8) :=
  [[msg.type], [msg.dealId], [msg.flag], [msg.extenLen], (store32 msg.ssrc).toList,
    (store32 msg.timestamp).toList, (store32 msg.heartbeatNum).toList, msg.ipcamName.toList]

def toBytes (msg : IpcamSearchMsg) : List UInt8 := msg.fields.flatten

theorem toBytes_length (msg : IpcamSearchMsg) : msg.toBytes.length = headerLen := by
  simp [toBytes, fields, headerLen]

/-- The fields seen through a pointer to the start of the bytes. -/
def ofBlock (bytes : Block headerLen) : IpcamSearchMsg where
  type := bytes.get ⟨0, by decide⟩
  dealId := bytes.get ⟨1, by decide⟩
  flag := bytes.get ⟨2, by decide⟩
  extenLen := bytes.get ⟨3, by decide⟩
  ssrc := load32 (bytes.slice 4 4 (by decide))
  timestamp := load32 (bytes.slice 8 4 (by decide))
  heartbeatNum := load32 (bytes.slice 12 4 (by decide))
  ipcamName := bytes.slice 16 64 (by decide)

theorem ofBlock_toBytes (msg : IpcamSearchMsg) :
    ofBlock ⟨msg.toBytes, msg.toBytes_length⟩ = msg := by
  have ssrc : Block.slice ⟨msg.toBytes, msg.toBytes_length⟩ 4 4 (by decide) = store32 msg.ssrc :=
    Block.slice_packed 4 _ rfl rfl rfl
  have timestamp : Block.slice ⟨msg.toBytes, msg.toBytes_length⟩ 8 4 (by decide) =
      store32 msg.timestamp :=
    Block.slice_packed 5 _ rfl (by simp [fields]) rfl
  have heartbeatNum : Block.slice ⟨msg.toBytes, msg.toBytes_length⟩ 12 4 (by decide) =
      store32 msg.heartbeatNum :=
    Block.slice_packed 6 _ rfl (by simp [fields]) rfl
  have ipcamName : Block.slice ⟨msg.toBytes, msg.toBytes_length⟩ 16 64 (by decide) =
      msg.ipcamName :=
    Block.slice_packed 7 _ rfl (by simp [fields]) rfl
  unfold ofBlock
  rw [ssrc, timestamp, heartbeatNum, ipcamName]
  simp only [load32_store32]
  rfl

theorem toBytes_ofBlock (bytes : Block headerLen) : (ofBlock bytes).toBytes = bytes.toList := by
  have single : ∀ index (inside : index < headerLen),
      [bytes.get ⟨index, inside⟩] = (bytes.toList.drop index).take 1 := by
    intro index inside
    rw [List.take_one_drop_eq_of_lt_length (by rwa [bytes.toList_length])]
    rfl
  have chunk : ∀ offset length, (bytes.toList.drop offset).take length ++
      bytes.toList.drop (offset + length) = bytes.toList.drop offset := by
    intro offset length
    rw [← List.drop_drop, List.take_append_drop]
  have last : (bytes.toList.drop 16).take 64 = bytes.toList.drop 16 := by
    rw [List.take_of_length_le]
    rw [List.length_drop, bytes.toList_length]
    decide
  simp only [toBytes, fields, ofBlock, store32_load32, Block.toList_slice, single, last,
    List.flatten_cons, List.flatten_nil, List.append_nil]
  rw [chunk 12 4, chunk 8 4, chunk 4 4, chunk 3 1, chunk 2 1, chunk 1 1, chunk 0 1, List.drop_zero]

end IpcamSearchMsg

/-- What `msg_buf` points to: a header and, in a block sized for it, the extension. -/
structure MsgBuf where
  header : IpcamSearchMsg
  extenMsg : List UInt8
  sized : extenMsg.length = header.extenLen.toNat
deriving DecidableEq

def bufferHeader (buf : Block MAX_MSG_LEN) : IpcamSearchMsg :=
  .ofBlock (buf.slice 0 headerLen (by decide))

theorem extension_inside (extenLen : UInt8) : headerLen + extenLen.toNat ≤ MAX_MSG_LEN := by
  have small : extenLen.toNat < 256 := extenLen.toNat_lt
  simp only [headerLen, MAX_MSG_LEN]
  omega

/-- `parse_msg`. The received size is a parameter of the source as well, which does
not look at it either. The target block has room for the extension because its
size was computed from the same length byte. -/
def parseMsg (msg : Block MAX_MSG_LEN) (_size : Nat) : MsgBuf where
  header := bufferHeader msg
  extenMsg :=
    (msg.slice headerLen (bufferHeader msg).extenLen.toNat (extension_inside _)).toList
  sized := List.Vector.toList_length _

structure SockaddrIn where
  sinAddr : Block 4
  sinPort : UInt16
deriving DecidableEq

/-- `recvfrom` on a buffer of `MAX_MSG_LEN` bytes: the datagram, cut off at that
size, overwrites the front of the buffer and nothing else. -/
def recvfrom (buf : Block MAX_MSG_LEN) (datagram : List UInt8) : Block MAX_MSG_LEN × Nat :=
  (buf.patch 0 (datagram.take MAX_MSG_LEN) (by simp), (datagram.take MAX_MSG_LEN).length)

end IpcamSearch.Message
