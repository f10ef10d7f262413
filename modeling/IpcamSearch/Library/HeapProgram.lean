import IpcamSearch.Library.LinkedList

/-! Programs over a heap, one access after another. Running one whole is running its accesses
in turn, so that something else can happen between two of them. -/

set_option autoImplicit false

namespace IpcamSearch.HeapProgram

open Memory

/-- A computation up to its next access. `measure` looks at no cell: it bounds the rounds of
the loops by the number of cells that live. -/
inductive Prog (Cell Value : Type) where
  | done (value : Value)
  | fails (fault : Fault)
  | read (pointer : Pointer) (rest : Cell → Prog Cell Value)
  | write (pointer : Pointer) (cell : Cell) (rest : Prog Cell Value)
  | malloc (rest : Pointer → Prog Cell Value)
  | free (pointer : Pointer) (rest : Prog Cell Value)
  | measure (rest : Nat → Prog Cell Value)

variable {Cell Value Result Other : Type}

section Outcomes

variable (source : Except Fault Value) (update : Value → Result) (again : Result → Other)

theorem map_bind (next : Result → Except Fault Other) :
    (source.map update >>= next) = (source >>= fun value => next (update value)) := by
  cases source <;> rfl

theorem bind_map (next : Value → Except Fault Result) :
    (source >>= next).map again = (source >>= fun value => (next value).map again) := by
  cases source <;> rfl

end Outcomes

namespace Prog

def bind : Prog Cell Value → (Value → Prog Cell Result) → Prog Cell Result
  | done value, next => next value
  | fails fault, _ => fails fault
  | read pointer rest, next => read pointer fun cell => (rest cell).bind next
  | write pointer cell rest, next => write pointer cell (rest.bind next)
  | malloc rest, next => malloc fun pointer => (rest pointer).bind next
  | free pointer rest, next => free pointer (rest.bind next)
  | measure rest, next => measure fun cells => (rest cells).bind next

instance : Monad (Prog Cell) where
  pure := done
  bind := bind

def load (pointer : Pointer) : Prog Cell Cell := read pointer done

def store (pointer : Pointer) (cell : Cell) : Prog Cell Unit := write pointer cell (done ())

def allocate : Prog Cell Pointer := malloc done

def release (pointer : Pointer) : Prog Cell Unit := free pointer (done ())

def liveCells : Prog Cell Nat := measure done

/-- A computation without an access. -/
def ofExcept : Except Fault Value → Prog Cell Value
  | .ok value => done value
  | .error fault => fails fault

section

variable (allocator : Allocator Cell)

/-- The next access, or the value at the end. -/
def access (heap : Heap Cell) : Prog Cell Value → Except Fault (Value ⊕ Heap Cell × Prog Cell Value)
  | done value => .ok (.inl value)
  | fails fault => .error fault
  | read pointer rest => (heap.read pointer).map fun cell => .inr (heap, rest cell)
  | write pointer cell rest => (heap.write pointer cell).map fun heap => .inr (heap, rest)
  | malloc rest =>
      let (pointer, heap) := allocator.malloc heap
      .ok (.inr (heap, rest pointer))
  | free pointer rest => (heap.free pointer).map fun heap => .inr (heap, rest)
  | measure rest => .ok (.inr (heap, rest heap.liveCells))

/-- All accesses without a pause. -/
def exec (heap : Heap Cell) : Prog Cell Value → Except Fault (Value × Heap Cell)
  | done value => .ok (value, heap)
  | fails fault => .error fault
  | read pointer rest => do
      let cell ← heap.read pointer
      exec heap (rest cell)
  | write pointer cell rest => do
      let heap ← heap.write pointer cell
      exec heap rest
  | malloc rest =>
      let (pointer, heap) := allocator.malloc heap
      exec heap (rest pointer)
  | free pointer rest => do
      let heap ← heap.free pointer
      exec heap rest
  | measure rest => exec heap (rest heap.liveCells)

variable {allocator}

theorem exec_access {heap : Heap Cell} {prog : Prog Cell Value} :
    prog.exec allocator heap =
      (prog.access allocator heap >>= fun next =>
        match next with
        | .inl value => .ok (value, heap)
        | .inr (after, rest) => rest.exec allocator after) := by
  cases prog with
  | done | fails | malloc | measure => rfl
  | read pointer rest =>
      rw [exec, access]
      cases heap.read pointer <;> rfl
  | write pointer cell rest =>
      rw [exec, access]
      cases heap.write pointer cell <;> rfl
  | free pointer rest =>
      rw [exec, access]
      cases heap.free pointer <;> rfl

end

section Whole

variable (allocator : Allocator Cell) (heap : Heap Cell)

@[simp] theorem exec_bind (prog : Prog Cell Value) (next : Value → Prog Cell Result) :
    (prog >>= next).exec allocator heap =
      (prog.exec allocator heap >>= fun result => (next result.1).exec allocator result.2) := by
  show (prog.bind next).exec allocator heap = _
  induction prog generalizing heap with
  | done | fails => rfl
  | read pointer rest ih =>
      rw [bind, exec, exec]
      cases heap.read pointer with
      | error => rfl
      | ok cell => exact ih cell heap
  | write pointer cell rest ih =>
      rw [bind, exec, exec]
      cases heap.write pointer cell with
      | error => rfl
      | ok after => exact ih after
  | malloc rest ih => exact ih _ _
  | free pointer rest ih =>
      rw [bind, exec, exec]
      cases heap.free pointer with
      | error => rfl
      | ok after => exact ih after
  | measure rest ih => exact ih _ heap

@[simp] theorem exec_pure (value : Value) :
    (pure value : Prog Cell Value).exec allocator heap = .ok (value, heap) := rfl

@[simp] theorem exec_ite (test : Prop) [Decidable test] (first second : Prog Cell Value) :
    (if test then first else second).exec allocator heap =
      if test then first.exec allocator heap else second.exec allocator heap :=
  apply_ite (exec allocator heap) test first second

@[simp] theorem exec_load (pointer : Pointer) :
    (load pointer).exec allocator heap = (heap.read pointer).map fun cell => (cell, heap) := by
  rw [load, exec]
  cases heap.read pointer <;> rfl

@[simp] theorem exec_store (pointer : Pointer) (cell : Cell) :
    (store pointer cell).exec allocator heap = (heap.write pointer cell).map fun after => ((), after) := by
  rw [store, exec]
  cases heap.write pointer cell <;> rfl

@[simp] theorem exec_allocate :
    (allocate : Prog Cell Pointer).exec allocator heap = .ok (allocator.malloc heap) := rfl

@[simp] theorem exec_release (pointer : Pointer) :
    (release pointer).exec allocator heap = (heap.free pointer).map fun after => ((), after) := by
  rw [release, exec]
  cases heap.free pointer <;> rfl

@[simp] theorem exec_liveCells :
    (liveCells : Prog Cell Nat).exec allocator heap = .ok (heap.liveCells, heap) := rfl

@[simp] theorem exec_ofExcept (outcome : Except Fault Value) :
    (ofExcept outcome).exec allocator heap = outcome.map fun value => (value, heap) := by
  cases outcome <;> rfl

end Whole

end Prog

section Walks

open Prog

variable (next : Cell → Pointer) (test : Cell → Bool) (update : Cell → Cell)

/-- The loop `find`, one access after another. -/
def find : Nat → Pointer → Prog Cell Pointer
  | 0, _ => fails .divergence
  | _ + 1, none => done none
  | fuel + 1, some address => do
      let cell ← load (some address)
      if test cell then return some address else find fuel (next cell)

/-- The loop `forEach`, one access after another. -/
def forEach : Nat → Pointer → Prog Cell Unit
  | 0, _ => fails .divergence
  | _ + 1, none => done ()
  | fuel + 1, some address => do
      let cell ← load (some address)
      store (some address) (update cell)
      forEach fuel (next (update cell))

variable (allocator : Allocator Cell)

@[simp] theorem exec_find (fuel : Nat) (heap : Heap Cell) (start : Pointer) :
    (find next test fuel start).exec allocator heap =
      (Memory.find next test heap fuel start).map fun found => (found, heap) := by
  induction fuel generalizing start with
  | zero => rfl
  | succ fuel ih =>
      cases start with
      | none => rfl
      | some address =>
          rw [find, Memory.find, exec_bind, exec_load]
          cases heap.read (some address) with
          | error => rfl
          | ok cell =>
              simp only [Except.map, ok_bind]
              split
              · rfl
              · exact ih (next cell)

@[simp] theorem exec_forEach (fuel : Nat) (heap : Heap Cell) (start : Pointer) :
    (forEach next update fuel start).exec allocator heap =
      (Memory.forEach next update fuel heap start).map fun after => ((), after) := by
  induction fuel generalizing heap start with
  | zero => rfl
  | succ fuel ih =>
      cases start with
      | none => rfl
      | some address =>
          rw [forEach, Memory.forEach, exec_bind, exec_load]
          cases heap.read (some address) with
          | error => rfl
          | ok cell =>
              simp only [Except.map, ok_bind, exec_bind, exec_store]
              cases heap.write (some address) (update cell) with
              | error => rfl
              | ok after => exact ih after _

end Walks

end IpcamSearch.HeapProgram
