import IpcamSearch.IpcamList
import IpcamSearch.Library.KeyedList

/-! The list operations on a heap that represents a list of cameras. Each operation
is described once, by its effect on the represented cameras. -/

set_option autoImplicit false

namespace IpcamSearch.IpcamList

open Memory KeyedList

/-- A record of the list without its link to the next one. -/
structure Camera where
  nodeInfo : IpcamInfo
  aliveFlag : Int32
deriving DecidableEq

abbrev Camera.mac (camera : Camera) : Mac := camera.nodeInfo.mac

def Camera.revive (camera : Camera) : Camera := { camera with aliveFlag := 1 }

def Camera.clear (camera : Camera) : Camera :=
  { camera with aliveFlag := camera.aliveFlag ||| ((1 : Int32) <<< (1 : Int32)) }

def Camera.test (camera : Camera) : Camera :=
  { camera with aliveFlag := if camera.aliveFlag ≠ 1 then 0 else camera.aliveFlag }

theorem revive_mac (camera : Camera) : camera.revive.mac = camera.mac := rfl

theorem clear_mac (camera : Camera) : camera.clear.mac = camera.mac := rfl

theorem test_mac (camera : Camera) : camera.test.mac = camera.mac := rfl

theorem clear_heard {camera : Camera} (heard : camera.aliveFlag = 1) :
    camera.clear.aliveFlag = 3 := by
  simp only [Camera.clear, heard]
  decide

theorem test_clear_heard {camera : Camera} (heard : camera.aliveFlag = 1) :
    camera.test.clear.aliveFlag = 3 :=
  clear_heard (by simp [Camera.test, heard])

theorem test_clear_unheard {camera : Camera} (unheard : camera.aliveFlag ≠ 1) :
    camera.test.clear.aliveFlag = 2 := by
  simp only [Camera.clear, Camera.test, if_pos unheard]
  decide

def IpcamNode.camera (node : IpcamNode) : Camera := ⟨node.nodeInfo, node.aliveFlag⟩

/-- The records behind the header of a chain of live cells that ends in null. -/
def camerasOf (cells : List (Address × IpcamNode)) : List Camera :=
  cells.map fun entry => entry.2.camera

/-- The link is a live header followed by a finite chain of live cells that holds
these cameras. -/
def Represents (heap : IpcamHeap) (link : Pointer) (cameras : List Camera) : Prop :=
  ∃ address header cells, link = some address ∧
    Chain IpcamNode.next heap (some address) ((address, header) :: cells) ∧
    camerasOf cells = cameras

theorem Represents.unique {heap : IpcamHeap} {link : Pointer} {left right : List Camera}
    (first : Represents heap link left) (second : Represents heap link right) :
    left = right := by
  obtain ⟨address, header, cells, rfl, chain, rfl⟩ := first
  obtain ⟨other, headerOther, cellsOther, same, chainOther, rfl⟩ := second
  cases Option.some.inj same
  have equal := chain.unique chainOther
  cases equal
  rfl

theorem represents_header (address : Address) (header : IpcamNode) (empty : header.next = none) :
    Represents ((∅ : IpcamHeap).insert address header) (some address) [] :=
  ⟨address, header, [], rfl, .cons (Finmap.lookup_insert _) (empty ▸ .nil), rfl⟩

section Strncmp

theorem strncmp_zero (s1 s2 : List UInt8) : strncmp s1 s2 0 = .ok 0 := by
  cases s1 <;> cases s2 <;> rfl

theorem strncmp_take (s1 s2 : List UInt8) (n : Nat) : strncmp s1 (s2.take n) n = strncmp s1 s2 n := by
  induction n generalizing s1 s2 with
  | zero => rw [strncmp_zero, strncmp_zero]
  | succ n ih =>
      cases s1 with
      | nil => cases s2 <;> rfl
      | cons a s1 =>
          cases s2 with
          | nil => rfl
          | cons b s2 => simp only [List.take_succ_cons, strncmp, ih]

theorem strncmp_prefix {front : List UInt8} (nonzero : 0 ∉ front) (s1 s2 : List UInt8) (n : Nat) :
    strncmp (front ++ s1) (front ++ s2) (front.length + n) = strncmp s1 s2 n := by
  induction front with
  | nil => rw [List.nil_append, List.nil_append, List.length_nil, Nat.zero_add]
  | cons a front ih =>
      rw [List.mem_cons, not_or] at nonzero
      have step : (a :: front).length + n = front.length + n + 1 := by
        rw [List.length_cons]
        omega
      rw [step, List.cons_append, List.cons_append, strncmp, if_neg (not_not.mpr rfl),
        if_neg (Ne.symm nonzero.1), ih nonzero.2]

end Strncmp

theorem createEmptyIpcamLink_spec (allocator : Allocator IpcamNode) (heap : IpcamHeap) :
    ∃ after link, createEmptyIpcamLink allocator heap = .ok (after, link) ∧
      Represents after link [] := by
  let link := allocator.address heap
  let header := allocator.contents heap
  have live : (heap.insert link header).lookup link = some header := Finmap.lookup_insert _
  refine ⟨(heap.insert link header).insert link { header with next := none }, some link, ?_,
    link, { header with next := none }, [], rfl, .cons (Finmap.lookup_insert _) .nil, rfl⟩
  simp only [createEmptyIpcamLink, Allocator.malloc, bind, Except.bind]
  rw [Heap.read_live live]
  simp only []
  rw [Heap.write_live _ live]
  rfl

section Operations

variable {heap : IpcamHeap} {address : Address} {header : IpcamNode}
  {cells : List (Address × IpcamNode)}

theorem header_live
    (chain : Chain IpcamNode.next heap (some address) ((address, header) :: cells)) :
    heap.lookup address = some header := chain.live List.mem_cons_self

theorem tail_chain
    (chain : Chain IpcamNode.next heap (some address) ((address, header) :: cells)) :
    Chain IpcamNode.next heap header.next cells ∧ cells.length < heap.liveCells + 1 := by
  have bound := chain.length_le
  cases chain with
  | cons _ tail =>
      rw [List.length_cons] at bound
      exact ⟨tail, by omega⟩

theorem searchIpcamNodeByMac_chain
    (chain : Chain IpcamNode.next heap (some address) ((address, header) :: cells)) (mac : Mac) :
    searchIpcamNodeByMac heap (some address) mac =
      .ok ((cells.find? fun entry => decide (entry.2.nodeInfo.mac = mac)).map Prod.fst) := by
  obtain ⟨tail, enough⟩ := tail_chain chain
  have found := find_chain (fun q => decide (strvalncmp q.nodeInfo.mac mac = 0)) tail enough
  simp only [strvalncmp_eq_zero] at found
  unfold searchIpcamNodeByMac
  simp only [Heap.read_live (header_live chain), bind, Except.bind, strvalncmp_eq_zero]
  exact found

def recordByMac (heap : IpcamHeap) (link : Pointer) (mac : Mac) : Except Fault (Option Camera) := do
  match ← searchIpcamNodeByMac heap link mac with
  | none => return none
  | some position =>
      let node ← heap.read (some position)
      return some node.camera

theorem recordByMac_spec {link : Pointer} {cameras : List Camera}
    (represented : Represents heap link cameras) (mac : Mac) :
    recordByMac heap link mac = .ok (lookup Camera.mac cameras mac) := by
  obtain ⟨address, header, cells, rfl, chain, rfl⟩ := represented
  have onCells : lookup Camera.mac (camerasOf cells) mac =
      (cells.find? fun entry => decide (entry.2.nodeInfo.mac = mac)).map
        fun entry => entry.2.camera := by
    rw [camerasOf, lookup, List.find?_map]
    rfl
  simp only [recordByMac, searchIpcamNodeByMac_chain chain, ok_bind, onCells]
  cases found : cells.find? (fun entry => decide (entry.2.nodeInfo.mac = mac)) with
  | none => rfl
  | some entry =>
      have live := chain.live (List.mem_cons_of_mem _ (List.mem_of_find?_eq_some found))
      simp only [Option.map_some, Heap.read_live live, ok_bind]
      rfl

theorem insertIpcamNode_chain (allocator : Allocator IpcamNode)
    (chain : Chain IpcamNode.next heap (some address) ((address, header) :: cells))
    (node : IpcamNode) :
    ∃ after entered, insertIpcamNode allocator heap (some address) node = .ok after ∧
      Chain IpcamNode.next after (some address)
        ((address, { header with next := some entered }) ::
          (entered, { node with next := header.next }) :: cells) := by
  let entered := allocator.address heap
  have dead : heap.lookup entered = none := allocator.lookup_fresh heap
  have off := chain.outside_of_dead dead
  have apart : address ≠ entered := fun same => off (by simp [same])
  have firstLive : (heap.insert entered (allocator.contents heap)).lookup entered =
      some (allocator.contents heap) := Finmap.lookup_insert _
  have secondLive :
      ((heap.insert entered (allocator.contents heap)).insert entered node).lookup entered =
        some node := Finmap.lookup_insert _
  have linked : heap.lookup address = some header := header_live chain
  have overwritten : ∀ first second third : IpcamNode,
      ((heap.insert entered first).insert entered second).insert entered third =
        heap.insert entered third := by
    intro first second third
    rw [Finmap.insert_insert, Finmap.insert_insert]
  have headerThen : ∀ cell : IpcamNode,
      (heap.insert entered cell).lookup address = some header := fun cell =>
    (Finmap.lookup_insert_of_ne _ apart).trans linked
  refine ⟨(heap.insert entered { node with next := header.next }).insert address
    { header with next := some entered }, entered, ?_, ?_⟩
  · simp only [insertIpcamNode, Allocator.malloc, bind, Except.bind]
    rw [Heap.write_live _ firstLive]
    simp only [Finmap.insert_insert]
    rw [Heap.read_live (headerThen _)]
    simp only []
    rw [Heap.write_live _ (Finmap.lookup_insert (b := node) heap)]
    simp only [Finmap.insert_insert]
    rw [Heap.read_live (headerThen _)]
    simp only []
    rw [Heap.write_live _ (headerThen _)]
  · exact (chain.insert_outside _ off).link_in (Finmap.lookup_insert _) off rfl rfl

theorem deleteAllLoop_chain
    (chain : Chain IpcamNode.next heap (some address) ((address, header) :: cells)) {fuel : Nat}
    (enough : cells.length < fuel) (ret : Nat) :
    ∃ after, deleteAllLoop (some address) fuel heap ret = .ok (ret + cells.length, after) ∧
      Chain IpcamNode.next after (some address) [(address, { header with next := none })] ∧
      Frees heap after address (addresses cells) := by
  induction fuel generalizing cells heap header ret with
  | zero => cases enough
  | succ rounds ih =>
      cases cells with
      | nil =>
          have empty := chain.next_nil
          refine ⟨heap, ?_, ?_, .none (Finmap.mem_of_lookup_eq_some (header_live chain))⟩
          · simp only [deleteAllLoop, Heap.read_live (header_live chain), bind, Except.bind, empty]
            rfl
          · have same : { header with next := none } = header := by
              rw [← empty]
            rw [same]
            exact chain
      | cons entry rest =>
          obtain ⟨gone, goneNode⟩ := entry
          obtain ⟨linked, tail⟩ := chain.next_cons
          have goneLive : heap.lookup gone = some goneNode := tail.live List.mem_cons_self
          have apart : gone ≠ address := chain.second_ne
          have shorter := Chain.unlink { header with next := goneNode.next } chain rfl
          simp only [List.length_cons, Nat.add_lt_add_iff_right] at enough
          obtain ⟨after, ran, emptied, frees⟩ := ih shorter enough (ret + 1)
          refine ⟨after, ?_, emptied, .unlink chain frees⟩
          simp only [deleteAllLoop, Heap.read_live (header_live chain), bind, Except.bind, linked]
          rw [Heap.read_live goneLive]
          simp only []
          rw [Heap.write_live _ (header_live chain)]
          simp only []
          rw [Heap.free_live ((Finmap.lookup_insert_of_ne _ apart).trans goneLive)]
          simp only [List.length_cons]
          rw [ran]
          congr 2
          omega

end Operations

end IpcamSearch.IpcamList
