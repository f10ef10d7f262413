import Mathlib.Data.Finmap
import Mathlib.Order.Lattice.Nat

/-! A typed heap in the manner of `malloc` and `free`. Every access is checked:
touching an address that is not allocated is a fault and never a default value.
Nothing here knows what a cell holds. -/

set_option autoImplicit false

namespace IpcamSearch.Memory

/-- The undefined behaviours that a checked access can run into. `divergence`
stands for a loop that makes more rounds than the heap has cells. -/
inductive Fault where
  | nullDereference
  | deadCell
  | outOfBounds
  | divergence
deriving DecidableEq, Repr

@[simp] theorem ok_bind {Value Result : Type} (value : Value)
    (next : Value → Except Fault Result) : (Except.ok value >>= next) = next value := rfl

@[simp] theorem error_bind {Value Result : Type} (fault : Fault)
    (next : Value → Except Fault Result) :
    ((Except.error fault : Except Fault Value) >>= next) = .error fault := rfl

theorem of_bind_ok {Value Result : Type} {source : Except Fault Value}
    {next : Value → Except Fault Result} {result : Result}
    (returned : (source >>= next) = .ok result) :
    ∃ value, source = .ok value ∧ next value = .ok result := by
  cases source with
  | error fault => cases returned
  | ok value => exact ⟨value, rfl, returned⟩

theorem of_map_ok {Value Result : Type} {source : Except Fault Value} {update : Value → Result}
    {result : Result} (returned : source.map update = .ok result) :
    ∃ value, source = .ok value ∧ update value = result := by
  cases source with
  | error fault => cases returned
  | ok value => exact ⟨value, rfl, Except.ok.inj returned⟩

abbrev Address := Nat

abbrev Pointer := Option Address

/-- The live cells. An address outside the map was never allocated or is freed. -/
abbrev Heap (Cell : Type) := Finmap (fun _ : Address => Cell)

variable {Cell : Type}

namespace Heap

def read (heap : Heap Cell) : Pointer → Except Fault Cell
  | none => .error .nullDereference
  | some address =>
      match heap.lookup address with
      | none => .error .deadCell
      | some cell => .ok cell

def write (heap : Heap Cell) (pointer : Pointer) (cell : Cell) : Except Fault (Heap Cell) :=
  match pointer with
  | none => .error .nullDereference
  | some address =>
      if address ∈ heap then .ok (heap.insert address cell) else .error .deadCell

/-- Freeing the null pointer does nothing, as in C. -/
def free (heap : Heap Cell) : Pointer → Except Fault (Heap Cell)
  | none => .ok heap
  | some address => if address ∈ heap then .ok (heap.erase address) else .error .deadCell

/-- The number of live cells, the bound of every walk that does not repeat itself. -/
def liveCells (heap : Heap Cell) : Nat := heap.keys.card

theorem read_live {heap : Heap Cell} {address : Address} {cell : Cell}
    (live : heap.lookup address = some cell) : heap.read (some address) = .ok cell := by
  simp only [read, live]

theorem write_live {heap : Heap Cell} {address : Address} {old : Cell} (cell : Cell)
    (live : heap.lookup address = some old) :
    heap.write (some address) cell = .ok (heap.insert address cell) := by
  simp only [write, Finmap.mem_of_lookup_eq_some live, if_pos]

theorem free_live {heap : Heap Cell} {address : Address} {old : Cell}
    (live : heap.lookup address = some old) :
    heap.free (some address) = .ok (heap.erase address) := by
  simp only [free, Finmap.mem_of_lookup_eq_some live, if_pos]

theorem insert_same {heap : Heap Cell} {address : Address} {cell : Cell}
    (live : heap.lookup address = some cell) : heap.insert address cell = heap := by
  apply Finmap.ext_lookup
  intro other
  by_cases same : other = address
  · subst other
    rw [Finmap.lookup_insert, live]
  · rw [Finmap.lookup_insert_of_ne _ same]

theorem insert_erase_apart (heap : Heap Cell) {address gone : Address} (cell : Cell)
    (apart : gone ≠ address) :
    (heap.erase gone).insert address cell = (heap.insert address cell).erase gone := by
  apply Finmap.ext_lookup
  intro position
  by_cases first : position = address
  · subst position
    rw [Finmap.lookup_insert, Finmap.lookup_erase_ne (Ne.symm apart), Finmap.lookup_insert]
  · rw [Finmap.lookup_insert_of_ne _ first]
    by_cases freed : position = gone
    · rw [freed, Finmap.lookup_erase, Finmap.lookup_erase]
    · rw [Finmap.lookup_erase_ne freed, Finmap.lookup_erase_ne freed,
        Finmap.lookup_insert_of_ne _ first]

end Heap

/-- What `malloc` answers: an address that is not live, and the indeterminate
contents of the new block. Freed addresses may come back. -/
structure Allocator (Cell : Type) where
  address : Heap Cell → Address
  contents : Heap Cell → Cell
  fresh : ∀ heap, address heap ∉ heap

/-- `malloc` of one cell. It is assumed to succeed. -/
def Allocator.malloc (allocator : Allocator Cell) (heap : Heap Cell) : Pointer × Heap Cell :=
  (some (allocator.address heap), heap.insert (allocator.address heap) (allocator.contents heap))

theorem Allocator.lookup_fresh (allocator : Allocator Cell) (heap : Heap Cell) :
    heap.lookup (allocator.address heap) = none :=
  Finmap.lookup_eq_none.mpr (allocator.fresh heap)

/-- The allocator that never hands an address out twice while a higher one is live. -/
def Allocator.bump [Inhabited Cell] : Allocator Cell where
  address heap := heap.keys.sup id + 1
  contents _ := default
  fresh heap := by
    intro live
    have bound : heap.keys.sup id + 1 ≤ heap.keys.sup id :=
      Finset.le_sup (f := id) (Finmap.mem_keys.mpr live)
    exact Nat.not_succ_le_self _ bound

end IpcamSearch.Memory
