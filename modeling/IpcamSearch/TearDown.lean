import IpcamSearch.DeleteByMac

/-! The two ways of freeing a list: `delete_ipcam_all_node` unlinks each record before it
frees it, `free_ipcam_link` frees first and keeps the next record in a variable. -/

set_option autoImplicit false

namespace IpcamSearch.IpcamList

open Memory

section Loops

variable {heap : IpcamHeap} {address : Address} {header : IpcamNode}
  {cells : List (Address × IpcamNode)}

theorem numLoop_chain {position : Address} {node : IpcamNode}
    (chain : Chain IpcamNode.next heap (some position) ((position, node) :: cells)) {fuel : Nat}
    (enough : cells.length < fuel) (n : Nat) :
    numLoop heap fuel (some position) n = .ok (n + cells.length) := by
  induction fuel generalizing cells position node n with
  | zero => cases enough
  | succ rounds ih =>
      cases cells with
      | nil =>
          simp only [numLoop, Heap.read_live (chain.live List.mem_cons_self), chain.next_nil, ok_bind,
            ↓reduceIte]
          rfl
      | cons entry rest =>
          obtain ⟨linked, tail⟩ := chain.next_cons
          have later := ih tail (Nat.lt_of_succ_lt_succ enough) (n + 1)
          simp only [numLoop, Heap.read_live (chain.live List.mem_cons_self), linked, ok_bind,
            reduceCtorEq, ↓reduceIte, later, List.length_cons]
          congr 1
          omega

theorem numIpcamNode_chain
    (chain : Chain IpcamNode.next heap (some address) ((address, header) :: cells)) :
    numIpcamNode heap (some address) = .ok cells.length := by
  rw [numIpcamNode, numLoop_chain chain (tail_chain chain).2, Nat.zero_add]

/-- A round frees the record that the header leads to, while `q` holds its successor. -/
theorem freeLinkLoop_chain {gone : Address} {goneNode : IpcamNode}
    (chain : Chain IpcamNode.next heap (some address)
      ((address, header) :: (gone, goneNode) :: cells)) {fuel : Nat}
    (enough : cells.length < fuel) :
    ∃ after, freeLinkLoop (some address) fuel heap goneNode.next = .ok after ∧
      Frees heap after address (addresses ((gone, goneNode) :: cells)) := by
  induction fuel generalizing cells heap header gone goneNode with
  | zero => cases enough
  | succ rounds ih =>
      cases cells with
      | nil =>
          obtain ⟨linked, tail⟩ := chain.next_cons
          have headed := header_live chain
          have goneLive : heap.lookup gone = some goneNode := tail.live List.mem_cons_self
          have stays : address ∈ heap.erase gone :=
            Finmap.mem_erase.mpr ⟨Ne.symm chain.second_ne, Finmap.mem_of_lookup_eq_some headed⟩
          have frees : Frees ((heap.insert address header).erase gone) (heap.erase gone) address
              (addresses ([] : List (Address × IpcamNode))) := by
            rw [Heap.insert_same headed]
            exact .none stays
          refine ⟨heap.erase gone, ?_, .unlink chain frees⟩
          simp only [freeLinkLoop, Heap.read_live headed, linked, Heap.free_live goneLive,
            tail.next_nil, ok_bind]
          rfl
      | cons entry rest =>
          obtain ⟨second, secondNode⟩ := entry
          obtain ⟨linked, tail⟩ := chain.next_cons
          obtain ⟨linkedSecond, tailSecond⟩ := tail.next_cons
          have headed := header_live chain
          have goneLive : heap.lookup gone = some goneNode := tail.live List.mem_cons_self
          have apart : gone ≠ address := chain.second_ne
          have stillHeaded : (heap.erase gone).lookup address = some header :=
            (Finmap.lookup_erase_ne (Ne.symm apart)).trans headed
          have shorter := chain.unlink { header with next := some second } linkedSecond.symm
          have secondLive := shorter.next_cons.2.live List.mem_cons_self
          obtain ⟨after, ran, frees⟩ := ih shorter (Nat.lt_of_succ_lt_succ enough)
          refine ⟨after, ?_, .unlink chain frees⟩
          simp only [freeLinkLoop, Heap.read_live headed, linked, Heap.free_live goneLive, linkedSecond,
            Heap.read_live stillHeaded, Heap.write_live _ stillHeaded,
            Heap.insert_erase_apart heap _ apart, Heap.read_live secondLive, ok_bind]
          exact ran

theorem freeIpcamLink_chain
    (chain : Chain IpcamNode.next heap (some address) ((address, header) :: cells)) :
    ∃ after, freeIpcamLink heap (some address) = .ok after ∧
      Frees heap after address (addresses cells) := by
  have headed := header_live chain
  cases cells with
  | nil =>
      refine ⟨heap, ?_, .none (Finmap.mem_of_lookup_eq_some headed)⟩
      simp only [freeIpcamLink, Heap.read_live headed, chain.next_nil, ok_bind]
      rfl
  | cons entry rest =>
      obtain ⟨gone, goneNode⟩ := entry
      obtain ⟨linked, tail⟩ := chain.next_cons
      have bound := (tail_chain chain).2
      obtain ⟨after, ran, frees⟩ := freeLinkLoop_chain chain (Nat.lt_of_succ_lt bound)
      refine ⟨after, ?_, frees⟩
      simp only [freeIpcamLink, Heap.read_live headed, linked,
        Heap.read_live (tail.live List.mem_cons_self), ok_bind]
      exact ran

end Loops

/-- Insertions put the records in front of those that are there. -/
theorem insertions_represent (allocator : Allocator IpcamNode) {heap : IpcamHeap} {link : Pointer}
    {cameras : List Camera} (represented : Represents heap link cameras) (nodes : List IpcamNode) :
    ∃ after, nodes.foldlM (fun heap node => insertIpcamNode allocator heap link node) heap =
        .ok after ∧ Represents after link ((nodes.map IpcamNode.camera).reverse ++ cameras) := by
  induction nodes generalizing heap cameras with
  | nil => exact ⟨heap, rfl, represented⟩
  | cons node nodes ih =>
      obtain ⟨address, header, cells, rfl, chain, rfl⟩ := represented
      obtain ⟨middle, entered, inserted, longer⟩ := insertIpcamNode_chain allocator chain node
      obtain ⟨after, ran, represents⟩ := ih ⟨address, _, _, rfl, longer, rfl⟩
      refine ⟨after, ?_, ?_⟩
      · rw [List.foldlM_cons, inserted]
        exact ran
      · rw [List.map_cons, List.reverse_cons, List.append_assoc]
        exact represents

/-- What `delete_ipcam_all_node` leaves: an empty list, in which records can be entered. -/
structure Emptied (heap after : IpcamHeap) (address : Address) (gone : List Address) : Prop where
  frees : Frees heap after address gone
  empty : ∃ header, Chain IpcamNode.next after (some address) [(address, header)]
  insertions : ∀ (allocator : Allocator IpcamNode) (nodes : List IpcamNode), ∃ filled,
    nodes.foldlM (fun heap node => insertIpcamNode allocator heap (some address) node) after =
        .ok filled ∧
      Represents filled (some address) (nodes.map IpcamNode.camera).reverse

/-- Both functions free the records of any list, each once, and not the header. -/
theorem tear_down {heap : IpcamHeap} {address : Address} {header : IpcamNode}
    {cells : List (Address × IpcamNode)}
    (chain : Chain IpcamNode.next heap (some address) ((address, header) :: cells)) :
    (∃ ret after, deleteIpcamAllNode heap (some address) = .ok (ret, after) ∧
      ret = cells.length ∧ numIpcamNode heap (some address) = .ok ret ∧
      Emptied heap after address (addresses cells)) ∧
    ∃ after, freeIpcamLink heap (some address) = .ok after ∧
      Frees heap after address (addresses cells) := by
  refine ⟨?_, freeIpcamLink_chain chain⟩
  obtain ⟨after, ran, emptied, frees⟩ := deleteAllLoop_chain chain (tail_chain chain).2 0
  rw [Nat.zero_add] at ran
  refine ⟨cells.length, after, ran, rfl, numIpcamNode_chain chain, frees, ⟨_, emptied⟩, ?_⟩
  intro allocator nodes
  have represented : Represents after (some address) [] := ⟨address, _, [], rfl, emptied, rfl⟩
  obtain ⟨filled, inserted, represents⟩ := insertions_represent allocator represented nodes
  rw [List.append_nil] at represents
  exact ⟨filled, inserted, represents⟩

theorem tear_down_two_cameras :
    (∃ ret after, deleteIpcamAllNode (twoCameras firstMac secondMac) (some 1) = .ok (ret, after) ∧
      ret = 2 ∧ numIpcamNode (twoCameras firstMac secondMac) (some 1) = .ok ret ∧
      Emptied (twoCameras firstMac secondMac) after 1 [2, 3]) ∧
    ∃ after, freeIpcamLink (twoCameras firstMac secondMac) (some 1) = .ok after ∧
      Frees (twoCameras firstMac secondMac) after 1 [2, 3] :=
  tear_down (twoCameras_chain firstMac secondMac)

end IpcamSearch.IpcamList
