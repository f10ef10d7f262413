import IpcamSearch.Library.Bytes
import IpcamSearch.Library.LinkedList

/-! The camera list of `ipcam_list.c`, on an explicit heap. A link is the address
of a header cell whose own record is never read. -/

set_option autoImplicit false

namespace IpcamSearch.IpcamList

open Memory

abbrev Mac := Block 6

structure IpcamInfo where
  ipaddr : Block 4
  mac : Mac
  ipcamName : Block 64
  startupTime : UInt32
deriving DecidableEq

structure IpcamNode where
  nodeInfo : IpcamInfo
  aliveFlag : Int32
  next : Pointer
deriving DecidableEq

instance : Inhabited IpcamNode where
  default := {
    nodeInfo := {
      ipaddr := Block.zeros 4
      mac := Block.zeros 6
      ipcamName := Block.zeros 64
      startupTime := 0 }
    aliveFlag := 0
    next := none }

abbrev IpcamHeap := Heap IpcamNode

/-- `malloc` is assumed to succeed. The record of the header stays indeterminate. -/
def createEmptyIpcamLink (allocator : Allocator IpcamNode) (heap : IpcamHeap) :
    Except Fault (IpcamHeap × Pointer) := do
  let (link0, heap) := allocator.malloc heap
  let header ← heap.read link0
  let heap ← heap.write link0 { header with next := none }
  return (heap, link0)

def insertIpcamNode (allocator : Allocator IpcamNode) (heap : IpcamHeap) (link : Pointer)
    (insertNode : IpcamNode) : Except Fault IpcamHeap := do
  let (q, heap) := allocator.malloc heap
  let heap ← heap.write q insertNode
  let header ← heap.read link
  let heap ← heap.write q { insertNode with next := header.next }
  let header ← heap.read link
  heap.write link { header with next := q }

/-- The loop of `delete_ipcam_all_node`: `curr` always points to the local `link`. -/
def deleteAllLoop (link : Pointer) : Nat → IpcamHeap → Nat → Except Fault (Nat × IpcamHeap)
  | 0, _, _ => .error .divergence
  | fuel + 1, heap, ret => do
      let header ← heap.read link
      match header.next with
      | none => return (ret, heap)
      | some entry =>
          let entryNode ← heap.read (some entry)
          let heap ← heap.write link { header with next := entryNode.next }
          let heap ← heap.free (some entry)
          deleteAllLoop link fuel heap (ret + 1)

def deleteIpcamAllNode (heap : IpcamHeap) (link : Pointer) : Except Fault (Nat × IpcamHeap) :=
  deleteAllLoop link (heap.liveCells + 1) heap 0

/-- The loop of `free_ipcam_link`. The header keeps the address of the last freed node. -/
def freeLinkLoop (link : Pointer) : Nat → IpcamHeap → Pointer → Except Fault IpcamHeap
  | 0, _, _ => .error .divergence
  | fuel + 1, heap, q => do
      let header ← heap.read link
      let heap ← heap.free header.next
      match q with
      | none => return heap
      | some entry =>
          let header ← heap.read link
          let heap ← heap.write link { header with next := some entry }
          let entryNode ← heap.read (some entry)
          freeLinkLoop link fuel heap entryNode.next

def freeIpcamLink (heap : IpcamHeap) (link : Pointer) : Except Fault IpcamHeap := do
  let header ← heap.read link
  match header.next with
  | none => return heap
  | some entry =>
      let entryNode ← heap.read (some entry)
      freeLinkLoop link (heap.liveCells + 1) heap entryNode.next

/-- `strncmp`, reading no further than the first difference, the first zero byte
or the bound. Both strings have to hold every byte that is read. -/
def strncmp : List UInt8 → List UInt8 → Nat → Except Fault Int
  | _, _, 0 => .ok 0
  | a :: s1, b :: s2, n + 1 =>
      if a ≠ b then .ok ((a.toNat : Int) - b.toNat)
      else if a = 0 then .ok 0
      else strncmp s1 s2 n
  | _, _, _ + 1 => .error .outOfBounds

/-- What the pointer-to-pointer `curr` of the deleting loops points to. -/
inductive Slot where
  | link
  | nextnode

/-- The loop of `delete_ipcam_node_by_mac`. Once `curr` points to the local variable
`nextnode`, assigning `nextnode` also changes what `curr` leads to. -/
def deleteByMacLoop (link : Pointer) (mac : List UInt8) :
    Nat → IpcamHeap → Slot → Pointer → Nat → Except Fault (Nat × IpcamHeap)
  | 0, _, _, _, _ => .error .divergence
  | fuel + 1, heap, curr, nextnode, ret => do
      let deref (nextnode : Pointer) : Pointer :=
        match curr with
        | .link => link
        | .nextnode => nextnode
      if deref nextnode = none then return (ret, heap)
      let here ← heap.read (deref nextnode)
      let nextnode := here.next
      if nextnode = none then return (ret, heap)
      let candidate ← heap.read nextnode
      let differs ← strncmp candidate.nodeInfo.mac.toList mac 6
      if differs = 0 then
        let target ← heap.read (deref nextnode)
        let heap ← heap.write (deref nextnode) { target with next := candidate.next }
        let heap ← heap.free nextnode
        deleteByMacLoop link mac fuel heap curr nextnode (ret + 1)
      else
        deleteByMacLoop link mac fuel heap .nextnode nextnode ret

def deleteIpcamNodeByMac (heap : IpcamHeap) (link : Pointer) (mac : List UInt8) :
    Except Fault (Nat × IpcamHeap) :=
  deleteByMacLoop link mac (2 * heap.liveCells + 2) heap .link none 0

/-- What the `curr` of `delete_this_ipcam_node` points to. -/
inductive ThisSlot where
  | link
  | entry

/-- The loop of `delete_this_ipcam_node`. It stores through `curr` into the parameter `link`
at first, and into the local `entry`, which is freed next, from then on. -/
def deleteThisLoop (thisNode : Pointer) :
    Nat → IpcamHeap → ThisSlot → Pointer → Pointer → Except Fault (Pointer × IpcamHeap)
  | 0, _, _, _, _ => .error .divergence
  | fuel + 1, heap, curr, link, entry => do
      let deref : Pointer :=
        match curr with
        | .link => link
        | .entry => entry
      let here ← heap.read deref
      if here.next = none then return (link, heap)
      let entry := here.next
      if entry = thisNode then
        let entryNode ← heap.read entry
        match curr with
        | .link =>
            let link := entryNode.next
            let heap ← heap.free entry
            deleteThisLoop thisNode fuel heap curr link entry
        | .entry =>
            let entry := entryNode.next
            let heap ← heap.free entry
            deleteThisLoop thisNode fuel heap curr link entry
      else
        deleteThisLoop thisNode fuel heap .entry link entry

/-- The returned pointer is the parameter `link` after the loop. -/
def deleteThisIpcamNode (heap : IpcamHeap) (link thisNode : Pointer) :
    Except Fault (Pointer × IpcamHeap) :=
  deleteThisLoop thisNode (heap.liveCells + 1) heap .link link none

/-- The loop of `num_ipcam_node`, where `curr` leads to this cell. -/
def numLoop (heap : IpcamHeap) : Nat → Pointer → Nat → Except Fault Nat
  | 0, _, _ => .error .divergence
  | fuel + 1, cell, n => do
      let here ← heap.read cell
      if here.next = none then return n
      numLoop heap fuel here.next (n + 1)

def numIpcamNode (heap : IpcamHeap) (link : Pointer) : Except Fault Nat :=
  numLoop heap (heap.liveCells + 1) link 0

/-- The loop of `strvalncmp` over the bytes that both strings have. -/
def strvalncmpLoop : List UInt8 → List UInt8 → Int
  | a :: s1, b :: s2 =>
      let ret := (a.toNat : Int) - b.toNat
      if ret ≠ 0 then ret else strvalncmpLoop s1 s2
  | _, _ => 0

def strvalncmp {n : Nat} (s1 s2 : Block n) : Int := strvalncmpLoop s1.toList s2.toList

def searchIpcamNodeByMac (heap : IpcamHeap) (link : Pointer) (mac : Mac) :
    Except Fault Pointer := do
  let header ← heap.read link
  find IpcamNode.next (fun q => decide (strvalncmp q.nodeInfo.mac mac = 0)) heap
    (heap.liveCells + 1) header.next

/-- The returned flag is the `int` of the source: false for 0 and true for 1. -/
def insertNodulpIpcamNode (allocator : Allocator IpcamNode) (heap : IpcamHeap) (link : Pointer)
    (insertNode : IpcamNode) : Except Fault (Bool × IpcamHeap) := do
  match ← searchIpcamNodeByMac heap link insertNode.nodeInfo.mac with
  | some _ => return (false, heap)
  | none =>
      let heap ← insertIpcamNode allocator heap link insertNode
      return (true, heap)

theorem strvalncmp_eq_zero {n : Nat} {s1 s2 : Block n} : strvalncmp s1 s2 = 0 ↔ s1 = s2 := by
  have bytes : ∀ {left right : List UInt8}, left.length = right.length →
      (strvalncmpLoop left right = 0 ↔ left = right) := by
    intro left
    induction left with
    | nil =>
        intro right same
        cases right with
        | nil => exact ⟨fun _ => rfl, fun _ => rfl⟩
        | cons => cases same
    | cons a left ih =>
        intro right same
        cases right with
        | nil => cases same
        | cons b right =>
            have rest := ih (Nat.succ.inj same)
            by_cases equal : a = b
            · subst equal
              simpa [strvalncmpLoop] using rest
            · have apart : (a.toNat : Int) - b.toNat ≠ 0 := by
                intro zero
                apply equal
                apply UInt8.toNat_inj.mp
                omega
              simp [strvalncmpLoop, apart, equal]
  exact (bytes (by simp)).trans ⟨fun same => List.Vector.toList_injective same,
    fun same => same ▸ rfl⟩

end IpcamSearch.IpcamList
