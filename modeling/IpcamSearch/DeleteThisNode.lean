import IpcamSearch.DeleteByMac

/-! What `delete_this_ipcam_node` does to a list. It stores the successor of the found
record where `curr` points instead of into the record before it: the header is lost when
the record is the first one, and the successor is freed in its place otherwise. -/

set_option autoImplicit false

namespace IpcamSearch.IpcamList

open Memory

/-- The header comes back with the chain of the other records behind it, and the record is
freed if it was one of them. -/
structure DeletesThis (heap : IpcamHeap) (address : Address) (cells : List (Address × IpcamNode))
    (thisNode : Pointer) (after : IpcamHeap) : Prop where
  returned : deleteThisIpcamNode heap (some address) thisNode = .ok (some address, after)
  freed : ∀ position, position ∈ after ↔
    position ∈ heap ∧ ¬ (position ∈ addresses cells ∧ some position = thisNode)
  linked : ∃ header left, Chain IpcamNode.next after (some address) ((address, header) :: left) ∧
    left.map (fun entry => (entry.1, entry.2.camera)) =
      (cells.filter fun entry => some entry.1 ≠ thisNode).map
        fun entry => (entry.1, entry.2.camera)

section Rounds

/-- What `curr` leads to when a round begins. -/
def ThisSlot.leadsTo (link entry : Pointer) : ThisSlot → Pointer
  | .link => link
  | .entry => entry

variable {heap : IpcamHeap} {thisNode link entry : Pointer} {curr : ThisSlot}
  {position second : Address} {node candidate : IpcamNode} {rest : List (Address × IpcamNode)}
  (fuel : Nat)

theorem deleteThisLoop_last (reached : curr.leadsTo link entry = some position)
    (chain : Chain IpcamNode.next heap (some position) [(position, node)]) :
    deleteThisLoop thisNode (fuel + 1) heap curr link entry = .ok (link, heap) := by
  have live := chain.live List.mem_cons_self
  cases curr with
  | link =>
      simp only [ThisSlot.leadsTo] at reached
      simp only [deleteThisLoop, reached, Heap.read_live live, chain.next_nil, ok_bind, ↓reduceIte]
      rfl
  | entry =>
      simp only [ThisSlot.leadsTo] at reached
      simp only [deleteThisLoop, reached, Heap.read_live live, chain.next_nil, ok_bind, ↓reduceIte]
      rfl

theorem deleteThisLoop_other (reached : curr.leadsTo link entry = some position)
    (chain : Chain IpcamNode.next heap (some position)
      ((position, node) :: (second, candidate) :: rest)) (other : some second ≠ thisNode) :
    deleteThisLoop thisNode (fuel + 1) heap curr link entry =
      deleteThisLoop thisNode fuel heap .entry link (some second) := by
  have live := chain.live List.mem_cons_self
  have linked := chain.next_cons.1
  cases curr with
  | link =>
      simp only [ThisSlot.leadsTo] at reached
      simp only [deleteThisLoop, reached, Heap.read_live live, linked, other, ok_bind, reduceCtorEq,
        ↓reduceIte]
  | entry =>
      simp only [ThisSlot.leadsTo] at reached
      simp only [deleteThisLoop, reached, Heap.read_live live, linked, other, ok_bind, reduceCtorEq,
        ↓reduceIte]

theorem deleteThisLoop_first
    (chain : Chain IpcamNode.next heap (some position)
      ((position, node) :: (second, candidate) :: rest)) :
    deleteThisLoop (some second) (fuel + 1) heap .link (some position) entry =
      deleteThisLoop (some second) fuel (heap.erase second) .link candidate.next
        (some second) := by
  have live := chain.live List.mem_cons_self
  obtain ⟨linked, tail⟩ := chain.next_cons
  have here : heap.lookup second = some candidate := tail.live List.mem_cons_self
  simp only [deleteThisLoop, Heap.read_live live, linked, Heap.read_live here, Heap.free_live here,
    ok_bind, reduceCtorEq, ↓reduceIte]

theorem deleteThisLoop_later
    (chain : Chain IpcamNode.next heap (some position)
      ((position, node) :: (second, candidate) :: rest)) :
    deleteThisLoop (some second) (fuel + 1) heap .entry link (some position) =
      (heap.free candidate.next >>= fun heap =>
        deleteThisLoop (some second) fuel heap .entry link candidate.next) := by
  have live := chain.live List.mem_cons_self
  obtain ⟨linked, tail⟩ := chain.next_cons
  simp only [deleteThisLoop, Heap.read_live live, linked,
    Heap.read_live (tail.live List.mem_cons_self), ok_bind, reduceCtorEq, ↓reduceIte]

/-- The next round reads what it has freed, or null behind the last record. -/
theorem deleteThisLoop_reread
    (chain : Chain IpcamNode.next heap (some position)
      ((position, node) :: (second, candidate) :: rest)) :
    deleteThisLoop (some second) (fuel + 2) heap .entry link (some position) =
      .error (if rest = [] then .nullDereference else .deadCell) := by
  have tail := chain.next_cons.2
  rw [deleteThisLoop_later (fuel + 1) chain]
  cases rest with
  | nil =>
      rw [tail.next_nil, if_pos rfl]
      rfl
  | cons third rest =>
      obtain ⟨linked, behind⟩ := tail.next_cons
      have here : heap.lookup third.1 = some third.2 := behind.live List.mem_cons_self
      have dead : (heap.erase third.1).lookup third.1 = none := Finmap.lookup_erase _ _
      rw [linked, Heap.free_live here, ok_bind, if_neg (List.cons_ne_nil _ _)]
      simp only [deleteThisLoop, Heap.read, dead, error_bind]

end Rounds

section Loop

variable {heap : IpcamHeap} {thisNode : Pointer} {cells : List (Address × IpcamNode)}

theorem deleteThisLoop_others {link entry : Pointer} {curr : ThisSlot} {position : Address}
    {node : IpcamNode} (reached : curr.leadsTo link entry = some position)
    (chain : Chain IpcamNode.next heap (some position) ((position, node) :: cells))
    (others : ∀ address ∈ addresses cells, some address ≠ thisNode) {fuel : Nat}
    (enough : cells.length < fuel) :
    deleteThisLoop thisNode fuel heap curr link entry = .ok (link, heap) := by
  induction fuel generalizing cells curr entry position node with
  | zero => cases enough
  | succ rounds ih =>
      cases cells with
      | nil =>
          exact deleteThisLoop_last rounds reached chain
      | cons first rest =>
          obtain ⟨second, candidate⟩ := first
          rw [deleteThisLoop_other rounds reached chain (others second List.mem_cons_self)]
          exact ih rfl chain.next_cons.2
            (fun address member => others address (List.mem_cons_of_mem _ member))
            (Nat.lt_of_succ_lt_succ enough)

/-- Past the first record the wanted one is not deleted, and the loop faults. -/
theorem deleteThisLoop_behind (link : Pointer) {position wanted : Address} {node : IpcamNode}
    (chain : Chain IpcamNode.next heap (some position) ((position, node) :: cells))
    (listed : wanted ∈ addresses cells) {fuel : Nat} (enough : cells.length < fuel) :
    ∃ fault, deleteThisLoop (some wanted) fuel heap .entry link (some position) = .error fault := by
  induction cells generalizing position node fuel with
  | nil => cases listed
  | cons first rest ih =>
      obtain ⟨second, candidate⟩ := first
      rw [List.length_cons] at enough
      by_cases found : second = wanted
      · subst wanted
        obtain ⟨rounds, rfl⟩ : ∃ rounds, fuel = rounds + 2 := ⟨fuel - 2, by omega⟩
        exact ⟨_, deleteThisLoop_reread rounds chain⟩
      · obtain ⟨rounds, rfl⟩ : ∃ rounds, fuel = rounds + 1 := ⟨fuel - 1, by omega⟩
        have other : some second ≠ some wanted := fun same => found (Option.some.inj same)
        have later := (List.mem_cons.mp listed).resolve_left fun same => found same.symm
        rw [deleteThisLoop_other rounds rfl chain other]
        exact ih chain.next_cons.2 later (Nat.lt_of_succ_lt_succ enough)

end Loop

section Delete

variable {heap : IpcamHeap} {address : Address} {header : IpcamNode}

theorem delete_only_record {wanted : Address} {candidate : IpcamNode}
    (chain : Chain IpcamNode.next heap (some address) [(address, header), (wanted, candidate)]) :
    deleteThisIpcamNode heap (some address) (some wanted) = .error .nullDereference := by
  have bound := chain.length_le
  simp only [List.length_cons, List.length_nil] at bound
  obtain ⟨rounds, live⟩ : ∃ rounds, heap.liveCells = rounds + 1 := ⟨heap.liveCells - 1, by omega⟩
  rw [deleteThisIpcamNode, live, deleteThisLoop_first (rounds + 1) chain,
    chain.next_cons.2.next_nil]
  rfl

theorem delete_first_record {wanted : Address} {candidate : IpcamNode}
    {second : Address × IpcamNode} {rest : List (Address × IpcamNode)}
    (chain : Chain IpcamNode.next heap (some address)
      ((address, header) :: (wanted, candidate) :: second :: rest)) :
    deleteThisIpcamNode heap (some address) (some wanted) =
      .ok (some second.1, heap.erase wanted) := by
  obtain ⟨_, tail⟩ := chain.next_cons
  obtain ⟨linked, behind⟩ := tail.next_cons
  have distinct := tail.nodup
  simp only [addresses, List.map_cons, List.nodup_cons, List.mem_cons, not_or] at distinct
  have kept : Chain IpcamNode.next (heap.erase wanted) (some second.1) (second :: rest) :=
    behind.erase_outside (by simpa using distinct.1)
  have others : ∀ other ∈ addresses rest, some other ≠ some wanted := by
    intro other member same
    exact distinct.1.2 (Option.some.inj same ▸ member)
  have enough : rest.length < heap.liveCells := by
    have bound := chain.length_le
    simp only [List.length_cons] at bound
    omega
  rw [deleteThisIpcamNode, deleteThisLoop_first heap.liveCells chain, linked]
  exact deleteThisLoop_others rfl kept others enough

variable {cells : List (Address × IpcamNode)}

theorem delete_absent_record {thisNode : Pointer}
    (chain : Chain IpcamNode.next heap (some address) ((address, header) :: cells))
    (absent : ∀ position ∈ addresses cells, some position ≠ thisNode) :
    DeletesThis heap address cells thisNode heap where
  returned := deleteThisLoop_others rfl chain absent (tail_chain chain).2
  freed := by
    intro position
    refine ⟨fun live => ⟨live, ?_⟩, And.left⟩
    exact fun listed => absent position listed.1 listed.2
  linked := by
    refine ⟨header, cells, chain, ?_⟩
    rw [List.filter_eq_self.mpr]
    intro entry member
    exact decide_eq_true (absent entry.1 (List.mem_map_of_mem member))

theorem not_deletes_listed_record {wanted : Address}
    (chain : Chain IpcamNode.next heap (some address) ((address, header) :: cells))
    (listed : wanted ∈ addresses cells) (after : IpcamHeap) :
    ¬ DeletesThis heap address cells (some wanted) after := by
  intro deletes
  have returned := deletes.returned
  cases cells with
  | nil => cases listed
  | cons first rest =>
      obtain ⟨second, candidate⟩ := first
      by_cases found : second = wanted
      · subst wanted
        cases rest with
        | nil =>
            rw [delete_only_record chain] at returned
            cases returned
        | cons third rest =>
            have distinct := chain.nodup
            simp only [addresses, List.map_cons, List.nodup_cons, List.mem_cons, not_or] at distinct
            rw [delete_first_record chain] at returned
            exact distinct.1.2.1 (Option.some.inj (Prod.mk.inj (Except.ok.inj returned)).1).symm
      · have other : some second ≠ some wanted := fun same => found (Option.some.inj same)
        have later := (List.mem_cons.mp listed).resolve_left fun same => found same.symm
        have enough := (tail_chain chain).2
        rw [List.length_cons] at enough
        obtain ⟨fault, faults⟩ := deleteThisLoop_behind (some address) chain.next_cons.2 later
          (Nat.lt_of_succ_lt_succ enough)
        rw [deleteThisIpcamNode, deleteThisLoop_other heap.liveCells rfl chain other, faults]
          at returned
        cases returned

/-- The function does what it is for exactly when there is nothing to delete. -/
theorem delete_this_ipcam_node_iff
    (chain : Chain IpcamNode.next heap (some address) ((address, header) :: cells))
    (thisNode : Pointer) :
    (∃ after, DeletesThis heap address cells thisNode after) ↔
      ∀ position ∈ addresses cells, some position ≠ thisNode := by
  constructor
  · intro deletes position listed same
    obtain ⟨after, deletes⟩ := deletes
    subst thisNode
    exact not_deletes_listed_record chain listed after deletes
  · exact fun absent => ⟨heap, delete_absent_record chain absent⟩

theorem delete_this_ipcam_node_iff_null :
    (∃ after, DeletesThis (twoCameras firstMac secondMac) 1 (twoCells firstMac secondMac) none
      after) ↔
      ∀ position ∈ addresses (twoCells firstMac secondMac), some position ≠ none :=
  delete_this_ipcam_node_iff (twoCameras_chain firstMac secondMac) none

/-- Deleting the first of two records returns the second one in place of the header, and
deleting the second one ends in a null pointer. -/
theorem delete_this_listed_fails :
    Chain IpcamNode.next (twoCameras firstMac secondMac) (some 1)
        ((1, macNode firstMac (some 2)) :: twoCells firstMac secondMac) ∧
      (∃ after, deleteThisIpcamNode (twoCameras firstMac secondMac) (some 1) (some 2) =
        .ok (some 3, after)) ∧
      deleteThisIpcamNode (twoCameras firstMac secondMac) (some 1) (some 3) =
        .error .nullDereference ∧
      ¬ ∃ after, DeletesThis (twoCameras firstMac secondMac) 1 (twoCells firstMac secondMac)
        (some 2) after := by
  have chain := twoCameras_chain firstMac secondMac
  refine ⟨chain, ⟨_, delete_first_record chain⟩, ?_, ?_⟩
  · have bound := chain.length_le
    simp only [twoCells, List.length_cons, List.length_nil] at bound
    obtain ⟨rounds, live⟩ : ∃ rounds, (twoCameras firstMac secondMac).liveCells = rounds + 2 :=
      ⟨(twoCameras firstMac secondMac).liveCells - 2, by omega⟩
    rw [deleteThisIpcamNode, live, deleteThisLoop_other (rounds + 2) rfl chain (by decide),
      deleteThisLoop_reread rounds chain.next_cons.2]
    rfl
  · intro deletes
    obtain ⟨after, deletes⟩ := deletes
    exact not_deletes_listed_record chain (by decide) after deletes

end Delete

end IpcamSearch.IpcamList
