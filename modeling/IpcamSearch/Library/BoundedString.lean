import IpcamSearch.Library.Bytes
import IpcamSearch.Library.Occurrence

/-! Strings in objects of a fixed size, each ended by a zero byte. A string function of C
is told where its destination begins and not how large it is. -/

set_option autoImplicit false

namespace IpcamSearch.Memory

open Occurrence

variable {size : Nat} {block : Block size} {front string source : List UInt8}

/-- The object begins with this string and its terminator. -/
structure Holds (block : Block size) (string : List UInt8) : Prop where
  terminated : 0 ∉ string
  stored : string ++ [0] <+: block.toList

/-- The string in an object. Without a terminator the walk to its end leaves the object. -/
def stringOf (block : Block size) : Except Fault (List UInt8) :=
  if 0 ∈ block.toList then .ok (block.toList.takeWhile fun byte => byte ≠ 0)
  else .error .outOfBounds

def strcpy (destination : Block size) (source : List UInt8) : Except Fault (Block size) :=
  memcpy destination 0 (source ++ [0])

def strcat (destination : Block size) (source : List UInt8) : Except Fault (Block size) := do
  let string ← stringOf destination
  memcpy destination string.length (source ++ [0])

/-- The copy of at most `count` bytes, filled up with zero bytes to that number. -/
def strncpy (destination : Block size) (source : List UInt8) (count : Nat) :
    Except Fault (Block size) :=
  memcpy destination 0 ((source ++ List.replicate count 0).take count)

theorem Holds.kept (holds : Holds block string) : string <+: block.toList :=
  (List.prefix_append string [0]).trans holds.stored

theorem Holds.stringOf_eq (holds : Holds block string) : stringOf block = .ok string := by
  obtain ⟨rest, split⟩ := holds.stored
  rw [stringOf, ← split, if_pos (by simp), List.append_assoc, List.singleton_append,
    takeWhile_ne_found holds.terminated]

/-- A copy behind what is kept of an object either leaves the two together as its string
or does not fit. -/
theorem memcpy_string_cases (kept : front <+: block.toList) (terminated : 0 ∉ front ++ source) :
    (front.length + source.length < size ∧
        ∃ after, memcpy block front.length (source ++ [0]) = .ok after ∧
          Holds after (front ++ source)) ∨
      size ≤ front.length + source.length ∧
        memcpy block front.length (source ++ [0]) = .error .outOfBounds := by
  have written : (source ++ [0]).length = source.length + 1 := List.length_append
  by_cases room : front.length + source.length < size
  · have inside : front.length + (source ++ [0]).length ≤ size := by
      rw [written]
      exact room
    refine .inl ⟨room, _, memcpy_inside block inside, terminated, ?_⟩
    obtain ⟨rest, split⟩ := kept
    rw [Block.toList_patch, overlay, ← split, List.take_left, List.append_assoc front source,
      List.prefix_append_right_inj]
    exact List.prefix_append _ _
  · refine .inr ⟨Nat.not_lt.mp room, memcpy_outside block ?_⟩
    rw [written]
    exact Nat.lt_succ_of_le (Nat.not_lt.mp room)

theorem strcpy_cases (block : Block size) (terminated : 0 ∉ source) :
    (source.length < size ∧ ∃ after, strcpy block source = .ok after ∧ Holds after source) ∨
      size ≤ source.length ∧ strcpy block source = .error .outOfBounds := by
  have either := memcpy_string_cases (List.nil_prefix (l := block.toList)) terminated
  rwa [List.length_nil, Nat.zero_add, List.nil_append] at either

theorem Holds.strcat_cases (holds : Holds block string) (terminated : 0 ∉ source) :
    (string.length + source.length < size ∧
        ∃ after, strcat block source = .ok after ∧ Holds after (string ++ source)) ∨
      size ≤ string.length + source.length ∧ strcat block source = .error .outOfBounds := by
  rw [strcat, holds.stringOf_eq, ok_bind]
  refine memcpy_string_cases holds.kept ?_
  rw [List.mem_append, not_or]
  exact ⟨holds.terminated, terminated⟩

/-- A terminator inside the string cuts it off there. -/
theorem Holds.cut (holds : Holds block string) (kept : front <+: string) :
    ∃ after, memcpy block front.length [0] = .ok after ∧ Holds after front := by
  have clean : 0 ∉ front ++ [] := by
    rw [List.append_nil]
    exact fun member => holds.terminated (kept.subset member)
  have shorter : front.length < size := by
    have bound := holds.stored.length_le
    rw [List.length_append, List.length_singleton, block.toList_length] at bound
    exact Nat.lt_of_le_of_lt kept.length_le bound
  rcases memcpy_string_cases (kept.trans holds.kept) clean with ⟨_, after, stored, left⟩ | ⟨full, _⟩
  · rw [List.append_nil] at left
    exact ⟨after, stored, left⟩
  · exact absurd shorter (Nat.not_lt.mpr full)

end IpcamSearch.Memory
