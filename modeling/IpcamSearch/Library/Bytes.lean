import IpcamSearch.Library.Memory
import Mathlib.Data.Vector.Basic
import Mathlib.Tactic.NormNum
import Mathlib.Tactic.Positivity

/-! Objects of a fixed number of bytes, checked copies between them and
little-endian numbers. The size is part of the type, so that no copy can change it. -/

set_option autoImplicit false

namespace IpcamSearch.Memory

abbrev Block (size : Nat) := List.Vector UInt8 size

def overlay (bytes : List UInt8) (offset : Nat) (source : List UInt8) : List UInt8 :=
  bytes.take offset ++ (source ++ bytes.drop (offset + source.length))

theorem overlay_length {bytes source : List UInt8} {offset : Nat}
    (inside : offset + source.length ≤ bytes.length) :
    (overlay bytes offset source).length = bytes.length := by
  simp only [overlay, List.length_append, List.length_take, List.length_drop]
  omega

theorem overlay_take {bytes source : List UInt8} {offset : Nat} (inside : offset ≤ bytes.length) :
    (overlay bytes offset source).take (offset + source.length) = bytes.take offset ++ source := by
  have start : (bytes.take offset).length = offset := by simpa using inside
  rw [overlay, ← List.append_assoc, List.take_left' (by rw [List.length_append, start])]

/-- A copy that ends before `count` commutes with cutting the object off there. -/
theorem take_overlay {bytes source : List UInt8} {offset count : Nat}
    (inside : offset + source.length ≤ bytes.length) (before : offset + source.length ≤ count) :
    (overlay bytes offset source).take count = overlay (bytes.take count) offset source := by
  have start : (bytes.take offset).length = offset := by
    rw [List.length_take]
    omega
  simp only [overlay, List.take_append, start, List.take_take, List.drop_take]
  rw [List.take_of_length_le (by omega : source.length ≤ count - offset), Nat.min_comm,
    Nat.sub_sub]

theorem overlay_append {front back source : List UInt8} {offset : Nat}
    (inside : offset + source.length ≤ front.length) :
    overlay (front ++ back) offset source = overlay front offset source ++ back := by
  simp only [overlay, List.append_assoc]
  rw [List.take_append_of_le_length (by omega), List.drop_append_of_le_length (by omega)]

theorem overlay_zero (bytes source : List UInt8) :
    overlay bytes 0 source = source ++ bytes.drop source.length := by
  simp [overlay]

theorem overlay_overlay {bytes front back : List UInt8} {offset : Nat}
    (inside : offset + front.length ≤ bytes.length) :
    overlay (overlay bytes offset front) (offset + front.length) back =
      overlay bytes offset (front ++ back) := by
  have start : (bytes.take offset ++ front).length = offset + front.length := by
    rw [List.length_append, List.length_take]
    omega
  have rest : (overlay bytes offset front).drop (offset + front.length) =
      bytes.drop (offset + front.length) := by
    rw [overlay, ← List.append_assoc, List.drop_left' start]
  rw [overlay, overlay_take (by omega), ← List.drop_drop, rest, List.drop_drop, overlay]
  simp only [List.append_assoc, List.length_append, Nat.add_assoc]

theorem slice_overlay_self {bytes : List UInt8} {offset : Nat} (source : List UInt8)
    (inside : offset ≤ bytes.length) :
    ((overlay bytes offset source).drop offset).take source.length = source := by
  have start : (bytes.take offset).length = offset := by simpa using inside
  rw [overlay, List.drop_left' start, List.take_left]

theorem slice_overlay_apart {bytes source : List UInt8} {offset field length : Nat}
    (inside : offset + source.length ≤ bytes.length)
    (apart : field + length ≤ offset ∨ offset + source.length ≤ field) :
    ((overlay bytes offset source).drop field).take length = (bytes.drop field).take length := by
  have start : (bytes.take offset).length = offset := by
    rw [List.length_take]
    omega
  rcases apart with before | behind
  · rw [overlay, List.drop_append_of_le_length (by omega), List.take_append_of_le_length (by
      rw [List.length_drop]
      omega), List.drop_take, List.take_take, Nat.min_eq_left (by omega)]
  · obtain ⟨beyond, rfl⟩ := Nat.exists_eq_add_of_le behind
    rw [overlay, ← List.append_assoc, ← List.drop_drop, List.drop_left' (by
      rw [List.length_append, start]), List.drop_drop]

theorem overlay_getElem_inside {bytes source : List UInt8} {offset index : Nat}
    (reached : offset ≤ bytes.length) (inside : index < source.length) :
    (overlay bytes offset source)[offset + index]? = source[index]? := by
  have start : (bytes.take offset).length = offset := by simpa using reached
  rw [overlay, List.getElem?_append_right (by omega), start, Nat.add_sub_cancel_left,
    List.getElem?_append_left inside]

theorem overlay_getElem_outside {bytes source : List UInt8} {offset index : Nat}
    (reached : offset ≤ bytes.length) (outside : index < offset ∨ offset + source.length ≤ index) :
    (overlay bytes offset source)[index]? = bytes[index]? := by
  have start : (bytes.take offset).length = offset := by simpa using reached
  rcases outside with before | behind
  · rw [overlay, List.getElem?_append_left (by omega), List.getElem?_take_of_lt before]
  · obtain ⟨beyond, rfl⟩ := Nat.exists_eq_add_of_le behind
    rw [overlay, List.getElem?_append_right (by omega), start,
      List.getElem?_append_right (by omega), List.getElem?_drop]
    congr 1
    omega

theorem overlay_packed {fields : List (List UInt8)} {offset : Nat} (index : Nat)
    {field source : List UInt8} (start : (fields.take index).flatten.length = offset)
    (present : fields[index]? = some field) (sized : source.length = field.length) :
    overlay fields.flatten offset source = (fields.set index source).flatten := by
  obtain ⟨bound, here⟩ := List.getElem?_eq_some_iff.mp present
  have laid : fields.flatten =
      (fields.take index).flatten ++ (field ++ (fields.drop (index + 1)).flatten) := by
    rw [← here, ← List.flatten_cons, ← List.drop_eq_getElem_cons bound, ← List.flatten_append,
      List.take_append_drop]
  rw [List.set_eq_take_append_cons_drop, if_pos bound, List.flatten_append, List.flatten_cons,
    overlay, laid, List.take_left' start, ← List.drop_drop, List.drop_left' start,
    List.drop_left' sized.symm]

namespace Block

def zeros (size : Nat) : Block size := List.Vector.replicate size 0

/-- The bytes cut off or filled up with zeros to fit the object. -/
def ofList (size : Nat) (bytes : List UInt8) : Block size :=
  ⟨(bytes ++ List.replicate size 0).take size, by simp⟩

def slice {size : Nat} (block : Block size) (offset length : Nat)
    (inside : offset + length ≤ size) : Block length :=
  ⟨(block.toList.drop offset).take length, by
    rw [List.length_take, List.length_drop, block.toList_length]
    omega⟩

def patch {size : Nat} (block : Block size) (offset : Nat) (source : List UInt8)
    (inside : offset + source.length ≤ size) : Block size :=
  ⟨overlay block.toList offset source, by
    rw [overlay_length (by simpa using inside), block.toList_length]⟩

@[simp] theorem toList_slice {size : Nat} (block : Block size) (offset length : Nat)
    (inside : offset + length ≤ size) :
    (block.slice offset length inside).toList = (block.toList.drop offset).take length := rfl

@[simp] theorem toList_ofList (size : Nat) (bytes : List UInt8) :
    (ofList size bytes).toList = (bytes ++ List.replicate size 0).take size := rfl

theorem ofList_toList {size : Nat} (block : Block size) (rest : List UInt8) :
    ofList size (block.toList ++ rest) = block := by
  apply List.Vector.toList_injective
  rw [toList_ofList, List.append_assoc, List.take_left' block.toList_length]

@[simp] theorem toList_patch {size : Nat} (block : Block size) (offset : Nat)
    (source : List UInt8) (inside : offset + source.length ≤ size) :
    (block.patch offset source inside).toList = overlay block.toList offset source := rfl

/-- A field of a packed object is found behind the fields laid out before it. -/
theorem slice_packed {size length : Nat} {block : Block size} {fields : List (List UInt8)}
    {field : Block length} {offset : Nat} (index : Nat) (inside : offset + length ≤ size)
    (packed : block.toList = fields.flatten) (start : (fields.take index).flatten.length = offset)
    (present : fields[index]? = some field.toList) :
    block.slice offset length inside = field := by
  apply List.Vector.toList_injective
  obtain ⟨bound, here⟩ := List.getElem?_eq_some_iff.mp present
  have split : fields = fields.take index ++ field.toList :: fields.drop (index + 1) := by
    rw [← here, ← List.drop_eq_getElem_cons bound, List.take_append_drop]
  have laid : block.toList =
      (fields.take index).flatten ++ (field.toList ++ (fields.drop (index + 1)).flatten) := by
    rw [packed, ← List.flatten_cons, ← List.flatten_append, ← split]
  rw [toList_slice, laid, List.drop_left' start, List.take_left' field.toList_length]

end Block

/-- `memcpy` into an object, which must hold every byte that is written. -/
def memcpy {size : Nat} (destination : Block size) (offset : Nat) (source : List UInt8) :
    Except Fault (Block size) :=
  if inside : offset + source.length ≤ size then .ok (destination.patch offset source inside)
  else .error .outOfBounds

/-- The `length` bytes at `offset` of an object, which must have them all. -/
def readBytes (source : List UInt8) (offset length : Nat) : Except Fault (List UInt8) :=
  if offset + length ≤ source.length then .ok ((source.drop offset).take length)
  else .error .outOfBounds

theorem memcpy_inside {size : Nat} (destination : Block size) {offset : Nat}
    {source : List UInt8} (inside : offset + source.length ≤ size) :
    memcpy destination offset source = .ok (destination.patch offset source inside) :=
  dif_pos inside

theorem memcpy_outside {size : Nat} (destination : Block size) {offset : Nat}
    {source : List UInt8} (outside : size < offset + source.length) :
    memcpy destination offset source = .error .outOfBounds :=
  dif_neg (Nat.not_le.mpr outside)

theorem memcpy_append {size : Nat} (destination : Block size) (offset : Nat)
    (front back : List UInt8) :
    (memcpy destination offset front >>= fun block => memcpy block (offset + front.length) back) =
      memcpy destination offset (front ++ back) := by
  by_cases room : offset + front.length ≤ size
  · rw [memcpy_inside destination room, ok_bind]
    by_cases inside : offset + front.length + back.length ≤ size
    · rw [memcpy_inside _ inside, memcpy_inside destination (by simpa [Nat.add_assoc] using inside)]
      refine congrArg Except.ok (List.Vector.toList_injective ?_)
      simp only [Block.toList_patch]
      exact overlay_overlay (by simpa using room)
    · rw [memcpy_outside _ (Nat.not_le.mp inside),
        memcpy_outside _ (by simpa [Nat.add_assoc] using inside)]
  · rw [memcpy_outside _ (Nat.not_le.mp room), error_bind, memcpy_outside]
    rw [List.length_append]
    omega

theorem readBytes_inside {source : List UInt8} {offset length : Nat}
    (inside : offset + length ≤ source.length) :
    readBytes source offset length = .ok ((source.drop offset).take length) := if_pos inside

theorem readBytes_outside {source : List UInt8} {offset length : Nat}
    (outside : source.length < offset + length) :
    readBytes source offset length = .error .outOfBounds := if_neg (Nat.not_le.mpr outside)

/-! Numbers are stored with the least significant byte first. -/

def littleEndian : Nat → Nat → List UInt8
  | 0, _ => []
  | width + 1, value => UInt8.ofNat value :: littleEndian width (value / 256)

def fromLittleEndian : List UInt8 → Nat
  | [] => 0
  | byte :: bytes => byte.toNat + 256 * fromLittleEndian bytes

@[simp] theorem littleEndian_length (width value : Nat) :
    (littleEndian width value).length = width := by
  induction width generalizing value with
  | zero => rfl
  | succ width ih => simp only [littleEndian, List.length_cons, ih]

/-- A narrower reader of the same bytes sees the low part of the number. -/
theorem littleEndian_take {narrow width : Nat} (value : Nat) (within : narrow ≤ width) :
    (littleEndian width value).take narrow = littleEndian narrow value := by
  induction narrow generalizing width value with
  | zero => rfl
  | succ narrow ih =>
      obtain ⟨rest, rfl⟩ : ∃ rest, width = rest + 1 := ⟨width - 1, by omega⟩
      simp only [littleEndian, List.take_succ_cons, ih _ (Nat.le_of_succ_le_succ within)]

theorem fromLittleEndian_littleEndian (width value : Nat) :
    fromLittleEndian (littleEndian width value) = value % 256 ^ width := by
  induction width generalizing value with
  | zero => simp [littleEndian, fromLittleEndian, Nat.mod_one]
  | succ width ih =>
      have low : (UInt8.ofNat value).toNat = value % 256 := by
        rw [UInt8.toNat_ofNat']
      rw [littleEndian, fromLittleEndian, ih, low, Nat.pow_succ', Nat.mod_mul]

theorem littleEndian_fromLittleEndian (bytes : List UInt8) :
    littleEndian bytes.length (fromLittleEndian bytes) = bytes := by
  induction bytes with
  | nil => rfl
  | cons byte bytes ih =>
      have bound := byte.toNat_lt
      have low : UInt8.ofNat (byte.toNat + 256 * fromLittleEndian bytes) = byte := by
        apply UInt8.toNat_inj.mp
        rw [UInt8.toNat_ofNat']
        omega
      have high : (byte.toNat + 256 * fromLittleEndian bytes) / 256 = fromLittleEndian bytes := by
        omega
      rw [fromLittleEndian, List.length_cons, littleEndian, low, high, ih]

theorem fromLittleEndian_lt (bytes : List UInt8) : fromLittleEndian bytes < 256 ^ bytes.length := by
  have same := fromLittleEndian_littleEndian bytes.length (fromLittleEndian bytes)
  rw [littleEndian_fromLittleEndian] at same
  rw [same]
  exact Nat.mod_lt _ (by positivity)

def storeNat (width value : Nat) : Block width :=
  ⟨littleEndian width value, littleEndian_length width value⟩

def store32 (value : UInt32) : Block 4 := storeNat 4 value.toNat

def load32 (block : Block 4) : UInt32 := UInt32.ofNat (fromLittleEndian block.toList)

@[simp] theorem toList_storeNat (width value : Nat) :
    (storeNat width value).toList = littleEndian width value := rfl

theorem load32_storeNat (value : Nat) : load32 (storeNat 4 value) = UInt32.ofNat value := by
  apply UInt32.toNat_inj.mp
  rw [load32, toList_storeNat, fromLittleEndian_littleEndian, UInt32.toNat_ofNat',
    UInt32.toNat_ofNat']
  norm_num

@[simp] theorem load32_store32 (value : UInt32) : load32 (store32 value) = value := by
  rw [store32, load32_storeNat, UInt32.ofNat_toNat]

@[simp] theorem store32_load32 (block : Block 4) : store32 (load32 block) = block := by
  have small := fromLittleEndian_lt block.toList
  rw [block.toList_length] at small
  have kept : (load32 block).toNat = fromLittleEndian block.toList := by
    rw [load32, UInt32.toNat_ofNat']
    exact Nat.mod_eq_of_lt small
  apply List.Vector.toList_injective
  have same := littleEndian_fromLittleEndian block.toList
  rw [block.toList_length] at same
  rwa [store32, kept, toList_storeNat]

end IpcamSearch.Memory
