import IpcamSearch.Message

/-! Buffers that start with a whole message, and what the parser makes of them. -/

set_option autoImplicit false

namespace IpcamSearch.Message

open Memory

/-- The buffer starts with these bytes, whatever comes behind. -/
def Starts (buf : Block MAX_MSG_LEN) (front : List UInt8) : Prop :=
  buf.toList.take front.length = front

namespace Starts

variable {buf : Block MAX_MSG_LEN} {front : List UInt8}

theorem length_le (starts : Starts buf front) : front.length ≤ MAX_MSG_LEN := by
  have cut := congrArg List.length starts
  rw [List.length_take, buf.toList_length] at cut
  omega

theorem memcpy_behind (starts : Starts buf front) (source : List UInt8) {offset : Nat}
    (behind : front.length = offset) (inside : offset + source.length ≤ MAX_MSG_LEN) :
    ∃ after, memcpy buf offset source = .ok after ∧ Starts after (front ++ source) := by
  subst behind
  refine ⟨_, memcpy_inside buf inside, ?_⟩
  have within : front.length ≤ buf.toList.length := by
    rw [buf.toList_length]
    omega
  rw [Starts, Block.toList_patch, List.length_append, overlay_take within, starts]

theorem memcpy_within (starts : Starts buf front) {source : List UInt8} {offset : Nat}
    (inside : offset + source.length ≤ front.length) :
    ∃ after, memcpy buf offset source = .ok after ∧
      Starts after (overlay front offset source) := by
  have within := starts.length_le
  have fits : offset + source.length ≤ MAX_MSG_LEN := by omega
  refine ⟨_, memcpy_inside buf fits, ?_⟩
  rw [Starts, Block.toList_patch, overlay_length inside,
    take_overlay (by rwa [buf.toList_length]) inside, starts]

theorem readBytes_front (starts : Starts buf front) :
    readBytes buf.toList 0 front.length = .ok front := by
  have within := starts.length_le
  rw [readBytes_inside (by rw [buf.toList_length]; omega), List.drop_zero, starts]

end Starts

/-- The bytes of a message as they travel. -/
def MsgBuf.bytes (msg : MsgBuf) : List UInt8 := msg.header.toBytes ++ msg.extenMsg

theorem MsgBuf.bytes_length (msg : MsgBuf) :
    msg.bytes.length = headerLen + msg.header.extenLen.toNat := by
  rw [bytes, List.length_append, msg.header.toBytes_length, msg.sized]

section Parse

variable {buf : Block MAX_MSG_LEN} {msg : MsgBuf}

theorem Starts.header (starts : Starts buf msg.bytes) : bufferHeader buf = msg.header := by
  have slice : buf.slice 0 headerLen (by decide) = ⟨msg.header.toBytes, msg.header.toBytes_length⟩ := by
    apply List.Vector.toList_injective
    change (buf.toList.drop 0).take headerLen = msg.header.toBytes
    have cut := congrArg (List.take headerLen) starts
    rwa [List.take_take, msg.bytes_length, Nat.min_eq_left (Nat.le_add_right _ _), MsgBuf.bytes,
      List.take_left' msg.header.toBytes_length] at cut
  rw [bufferHeader, slice, IpcamSearchMsg.ofBlock_toBytes]

theorem Starts.extension (starts : Starts buf msg.bytes) :
    (buf.toList.drop headerLen).take msg.header.extenLen.toNat = msg.extenMsg := by
  have cut := congrArg (List.drop headerLen) starts
  rwa [msg.bytes_length, List.drop_take, Nat.add_sub_cancel_left, MsgBuf.bytes,
    List.drop_left' msg.header.toBytes_length] at cut

theorem Starts.parse (starts : Starts buf msg.bytes) (size : Nat) : parseMsg buf size = msg := by
  have header := starts.header
  have extension := starts.extension
  obtain ⟨fields, exten, sized⟩ := msg
  simp only [parseMsg, Block.toList_slice, header]
  congr 1

theorem starts_parse (buf : Block MAX_MSG_LEN) (size : Nat) :
    Starts buf (parseMsg buf size).bytes := by
  have header : (bufferHeader buf).toBytes = buf.toList.take headerLen :=
    IpcamSearchMsg.toBytes_ofBlock _
  rw [Starts, MsgBuf.bytes_length, MsgBuf.bytes]
  simp only [parseMsg, header, Block.toList_slice]
  exact List.take_add

theorem recvfrom_starts (buf : Block MAX_MSG_LEN) (msg : MsgBuf) :
    Starts (recvfrom buf msg.bytes).1 msg.bytes := by
  have fits : msg.bytes.length ≤ MAX_MSG_LEN := msg.bytes_length ▸ extension_inside _
  rw [Starts]
  simp only [recvfrom, Block.toList_patch, List.take_of_length_le fits]
  rw [overlay_zero, List.take_left' rfl]

end Parse

end IpcamSearch.Message
