import IpcamSearch.IpcamListProperties

/-! What `delete_ipcam_node_by_mac` does to a list. Its `curr` points to the header
until the first record that is kept, and to the local `nextnode` from then on: the
records before that one are unlinked and freed, a later one is freed but stays linked
and is read again. -/

set_option autoImplicit false

namespace IpcamSearch.IpcamList

open Memory

/-- The test of the loop on one record. -/
def Selects (key : List UInt8) (node : IpcamNode) : Prop :=
  strncmp node.nodeInfo.mac.toList key 6 = .ok 0

instance (key : List UInt8) : DecidablePred (Selects key) := by
  intro node
  unfold Selects
  infer_instance

/-- The test reads nothing outside the key. -/
def Comparable (key : List UInt8) : Prop :=
  ∀ mac : Mac, ∃ difference, strncmp mac.toList key 6 = .ok difference

def selected (key : List UInt8) (cells : List (Address × IpcamNode)) :
    List (Address × IpcamNode) := cells.filter fun entry => Selects key entry.2

def remaining (key : List UInt8) (cells : List (Address × IpcamNode)) :
    List (Address × IpcamNode) := cells.filter fun entry => ¬ Selects key entry.2

/-- The deletion ends without a fault, and the result is what removing the selected
cells from the chain gives. -/
structure Deletes (heap : IpcamHeap) (address : Address) (cells : List (Address × IpcamNode))
    (key : List UInt8) (ret : Nat) (after : IpcamHeap) : Prop where
  returned : deleteIpcamNodeByMac heap (some address) key = .ok (ret, after)
  counted : ret = (selected key cells).length
  freed : ∀ position, position ∈ after ↔
    position ∈ heap ∧ position ∉ addresses (selected key cells)
  linked : ∃ header left, Chain IpcamNode.next after (some address) ((address, header) :: left) ∧
    left.map (fun entry => (entry.1, entry.2.camera)) =
      (remaining key cells).map fun entry => (entry.1, entry.2.camera)

theorem strncmp_total {s1 s2 : List UInt8} {n : Nat} (first : n ≤ s1.length)
    (second : n ≤ s2.length ∨ 0 ∈ s2) : ∃ difference, strncmp s1 s2 n = .ok difference := by
  induction n generalizing s1 s2 with
  | zero => exact ⟨0, strncmp_zero s1 s2⟩
  | succ n ih =>
      cases s1 with
      | nil => cases first
      | cons a s1 =>
          cases s2 with
          | nil =>
              rcases second with long | terminated
              · cases long
              · cases terminated
          | cons b s2 =>
              by_cases same : a = b
              · subst same
                by_cases zero : a = 0
                · exact ⟨0, by rw [strncmp, if_neg (not_not.mpr rfl), if_pos zero]⟩
                · rw [strncmp, if_neg (not_not.mpr rfl), if_neg zero]
                  refine ih (Nat.le_of_succ_le_succ first) ?_
                  rcases second with long | terminated
                  · exact .inl (Nat.le_of_succ_le_succ long)
                  · exact .inr ((List.mem_cons.mp terminated).resolve_left (Ne.symm zero))
              · exact ⟨_, by rw [strncmp, if_pos same]⟩

theorem comparable_of_length {key : List UInt8} (long : 6 ≤ key.length) : Comparable key :=
  fun mac => strncmp_total (Nat.le_of_eq mac.toList_length.symm) (.inl long)

theorem comparable_mac (mac : Mac) : Comparable mac.toList :=
  comparable_of_length (Nat.le_of_eq mac.toList_length.symm)

section Rounds

/-- What `curr` leads to when a round begins. -/
def Slot.leadsTo (link nextnode : Pointer) : Slot → Pointer
  | .link => link
  | .nextnode => nextnode

variable {heap : IpcamHeap} {key : List UInt8} {link nextnode : Pointer} {curr : Slot}
  {position second : Address} {node candidate : IpcamNode} {rest : List (Address × IpcamNode)}
  (fuel ret : Nat)

theorem deleteByMacLoop_last (reached : curr.leadsTo link nextnode = some position)
    (chain : Chain IpcamNode.next heap (some position) [(position, node)]) :
    deleteByMacLoop link key (fuel + 1) heap curr nextnode ret = .ok (ret, heap) := by
  have live := chain.live List.mem_cons_self
  have last := chain.next_nil
  cases curr with
  | link =>
      simp only [Slot.leadsTo] at reached
      simp only [deleteByMacLoop, reached, Heap.read_live live, last, ok_bind, reduceCtorEq,
        ↓reduceIte]
      rfl
  | nextnode =>
      simp only [Slot.leadsTo] at reached
      simp only [deleteByMacLoop, reached, Heap.read_live live, last, ok_bind, reduceCtorEq,
        ↓reduceIte]
      rfl

theorem deleteByMacLoop_compared (reached : curr.leadsTo link nextnode = some position)
    (chain : Chain IpcamNode.next heap (some position)
      ((position, node) :: (second, candidate) :: rest)) :
    deleteByMacLoop link key (fuel + 1) heap curr nextnode ret = (do
      let differs ← strncmp candidate.nodeInfo.mac.toList key 6
      if differs = 0 then
        let target ← heap.read (curr.leadsTo link (some second))
        let heap ← heap.write (curr.leadsTo link (some second))
          { target with next := candidate.next }
        let heap ← heap.free (some second)
        deleteByMacLoop link key fuel heap curr (some second) (ret + 1)
      else
        deleteByMacLoop link key fuel heap .nextnode (some second) ret) := by
  have live := chain.live List.mem_cons_self
  obtain ⟨linked, tail⟩ := chain.next_cons
  have here := tail.live List.mem_cons_self
  cases curr with
  | link =>
      simp only [Slot.leadsTo] at reached
      simp only [deleteByMacLoop, Slot.leadsTo, reached, Heap.read_live live, linked,
        Heap.read_live here, ok_bind, reduceCtorEq, ↓reduceIte]
  | nextnode =>
      simp only [Slot.leadsTo] at reached
      simp only [deleteByMacLoop, Slot.leadsTo, reached, Heap.read_live live, linked,
        Heap.read_live here, ok_bind, reduceCtorEq, ↓reduceIte]

theorem deleteByMacLoop_fault (reached : curr.leadsTo link nextnode = some position)
    (chain : Chain IpcamNode.next heap (some position)
      ((position, node) :: (second, candidate) :: rest)) {fault : Fault}
    (compared : strncmp candidate.nodeInfo.mac.toList key 6 = .error fault) :
    deleteByMacLoop link key (fuel + 1) heap curr nextnode ret = .error fault := by
  simp only [deleteByMacLoop_compared fuel ret reached chain, compared, error_bind]

theorem deleteByMacLoop_keep (reached : curr.leadsTo link nextnode = some position)
    (chain : Chain IpcamNode.next heap (some position)
      ((position, node) :: (second, candidate) :: rest)) {difference : Int}
    (compared : strncmp candidate.nodeInfo.mac.toList key 6 = .ok difference)
    (nonzero : difference ≠ 0) :
    deleteByMacLoop link key (fuel + 1) heap curr nextnode ret =
      deleteByMacLoop link key fuel heap .nextnode (some second) ret := by
  simp only [deleteByMacLoop_compared fuel ret reached chain, compared, nonzero, ok_bind,
    ↓reduceIte]

theorem deleteByMacLoop_unlink
    (chain : Chain IpcamNode.next heap (some position)
      ((position, node) :: (second, candidate) :: rest)) (matched : Selects key candidate) :
    deleteByMacLoop (some position) key (fuel + 1) heap .link nextnode ret =
      deleteByMacLoop (some position) key fuel
        ((heap.insert position { node with next := candidate.next }).erase second) .link
        (some second) (ret + 1) := by
  have live : heap.lookup position = some node := chain.live List.mem_cons_self
  have here : heap.lookup second = some candidate := chain.next_cons.2.live List.mem_cons_self
  have stillLive : (heap.insert position { node with next := candidate.next }).lookup second =
      some candidate := (Finmap.lookup_insert_of_ne _ chain.second_ne).trans here
  have compared : strncmp candidate.nodeInfo.mac.toList key 6 = .ok 0 := matched
  have reached : Slot.link.leadsTo (some position) nextnode = some position := rfl
  simp only [deleteByMacLoop_compared fuel ret reached chain, compared, Slot.leadsTo,
    Heap.read_live live, Heap.write_live _ live, Heap.free_live stillLive, ok_bind, ↓reduceIte]

/-- Once `curr` points to `nextnode`, a selected record is freed without being unlinked. -/
theorem deleteByMacLoop_free
    (chain : Chain IpcamNode.next heap (some position)
      ((position, node) :: (second, candidate) :: rest)) (matched : Selects key candidate) :
    deleteByMacLoop link key (fuel + 1) heap .nextnode (some position) ret =
      deleteByMacLoop link key fuel ((heap.insert second candidate).erase second) .nextnode
        (some second) (ret + 1) := by
  have here : heap.lookup second = some candidate := chain.next_cons.2.live List.mem_cons_self
  have compared : strncmp candidate.nodeInfo.mac.toList key 6 = .ok 0 := matched
  have reached : Slot.nextnode.leadsTo link (some position) = some position := rfl
  simp only [deleteByMacLoop_compared fuel ret reached chain, compared, Slot.leadsTo,
    Heap.read_live here, Heap.write_live _ here, Heap.free_live (Finmap.lookup_insert _), ok_bind,
    ↓reduceIte]

theorem deleteByMacLoop_dead (dead : heap.lookup position = none) :
    deleteByMacLoop link key (fuel + 1) heap .nextnode (some position) ret = .error .deadCell := by
  simp only [deleteByMacLoop, Heap.read, dead, error_bind, reduceCtorEq, ↓reduceIte]

end Rounds

section Loop

variable {heap : IpcamHeap} {key : List UInt8}

theorem kept_differs (comparable : Comparable key) {node : IpcamNode} (kept : ¬ Selects key node) :
    ∃ difference, strncmp node.nodeInfo.mac.toList key 6 = .ok difference ∧ difference ≠ 0 := by
  obtain ⟨difference, compared⟩ := comparable node.nodeInfo.mac
  refine ⟨difference, compared, ?_⟩
  intro zero
  subst zero
  exact kept compared

theorem deleteByMacLoop_kept (comparable : Comparable key) (link : Pointer) {position : Address}
    {node : IpcamNode} {rest : List (Address × IpcamNode)}
    (chain : Chain IpcamNode.next heap (some position) ((position, node) :: rest))
    (kept : ∀ entry ∈ rest, ¬ Selects key entry.2) {fuel : Nat} (enough : rest.length < fuel)
    (ret : Nat) :
    deleteByMacLoop link key fuel heap .nextnode (some position) ret = .ok (ret, heap) := by
  induction fuel generalizing rest position node with
  | zero => cases enough
  | succ rounds ih =>
      cases rest with
      | nil =>
          exact deleteByMacLoop_last rounds ret rfl chain
      | cons entry rest =>
          obtain ⟨second, candidate⟩ := entry
          obtain ⟨difference, compared, nonzero⟩ :=
            kept_differs comparable (kept (second, candidate) List.mem_cons_self)
          rw [deleteByMacLoop_keep rounds ret rfl chain compared nonzero]
          exact ih chain.next_cons.2 (fun entry member => kept entry (List.mem_cons_of_mem _ member))
            (Nat.lt_of_succ_lt_succ enough)

theorem deleteByMacLoop_behind (comparable : Comparable key) (link : Pointer) {position : Address}
    {node : IpcamNode} {skipped rest : List (Address × IpcamNode)} {gone : Address × IpcamNode}
    (chain : Chain IpcamNode.next heap (some position)
      ((position, node) :: (skipped ++ gone :: rest)))
    (kept : ∀ entry ∈ skipped, ¬ Selects key entry.2) (matched : Selects key gone.2) {fuel : Nat}
    (enough : skipped.length + 1 < fuel) (ret : Nat) :
    deleteByMacLoop link key fuel heap .nextnode (some position) ret = .error .deadCell := by
  induction skipped generalizing position node fuel with
  | nil =>
      obtain ⟨rounds, rfl⟩ : ∃ rounds, fuel = rounds + 2 := ⟨fuel - 2, by omega⟩
      rw [deleteByMacLoop_free (rounds + 1) ret chain matched]
      exact deleteByMacLoop_dead rounds (ret + 1) (Finmap.lookup_erase _ _)
  | cons entry skipped ih =>
      obtain ⟨rounds, rfl⟩ : ∃ rounds, fuel = rounds + 1 := ⟨fuel - 1, by omega⟩
      obtain ⟨second, candidate⟩ := entry
      obtain ⟨difference, compared, nonzero⟩ :=
        kept_differs comparable (kept (second, candidate) List.mem_cons_self)
      rw [deleteByMacLoop_keep rounds ret rfl chain compared nonzero]
      exact ih chain.next_cons.2 (fun entry member => kept entry (List.mem_cons_of_mem _ member))
        (Nat.lt_of_succ_lt_succ enough)

theorem deleteByMacLoop_leading {address : Address} {header : IpcamNode}
    {leading trailing : List (Address × IpcamNode)}
    (chain : Chain IpcamNode.next heap (some address) ((address, header) :: (leading ++ trailing)))
    (matched : ∀ entry ∈ leading, Selects key entry.2) (fuel ret : Nat) (nextnode : Pointer) :
    ∃ after headerAfter nextAfter,
      deleteByMacLoop (some address) key (leading.length + fuel) heap .link nextnode ret =
        deleteByMacLoop (some address) key fuel after .link nextAfter (ret + leading.length) ∧
      Chain IpcamNode.next after (some address) ((address, headerAfter) :: trailing) ∧
      ∀ position, position ∈ after ↔ position ∈ heap ∧ position ∉ addresses leading := by
  induction leading generalizing heap header ret nextnode with
  | nil =>
      refine ⟨heap, header, nextnode, ?_, chain, fun _ => by simp⟩
      rw [List.length_nil, Nat.zero_add, Nat.add_zero]
  | cons entry leading ih =>
      obtain ⟨gone, goneNode⟩ := entry
      have shorter := Chain.unlink { header with next := goneNode.next } chain rfl
      obtain ⟨after, headerAfter, nextAfter, ran, chainAfter, freed⟩ := ih shorter
        (fun entry member => matched entry (List.mem_cons_of_mem _ member)) (ret + 1) (some gone)
      refine ⟨after, headerAfter, nextAfter, ?_, chainAfter, ?_⟩
      · have rounds : ((gone, goneNode) :: leading).length + fuel = leading.length + fuel + 1 := by
          rw [List.length_cons]
          omega
        have count : ret + ((gone, goneNode) :: leading).length = ret + 1 + leading.length := by
          rw [List.length_cons]
          omega
        rw [rounds, count, ← ran]
        exact deleteByMacLoop_unlink _ ret chain (matched (gone, goneNode) List.mem_cons_self)
      · intro position
        have live : address ∈ heap := Finmap.mem_of_lookup_eq_some (header_live chain)
        rw [freed, Finmap.mem_erase, Finmap.mem_insert]
        simp only [addresses, List.map_cons, List.mem_cons, not_or]
        constructor
        · intro survives
          obtain ⟨⟨other, same | inside⟩, outside⟩ := survives
          · exact ⟨same ▸ live, other, outside⟩
          · exact ⟨inside, other, outside⟩
        · intro survives
          obtain ⟨inside, other, outside⟩ := survives
          exact ⟨⟨other, .inr inside⟩, outside⟩

end Loop

section Delete

variable {heap : IpcamHeap} {address : Address} {header : IpcamNode}
  {cells leading trailing : List (Address × IpcamNode)} {key : List UInt8}

/-- No selected record stands behind a kept one. -/
def SelectedFirst (key : List UInt8) (cells : List (Address × IpcamNode)) : Prop :=
  cells.Pairwise fun earlier later => Selects key later.2 → Selects key earlier.2

theorem selected_first_split (first : SelectedFirst key cells) :
    ∃ leading trailing, cells = leading ++ trailing ∧ (∀ entry ∈ leading, Selects key entry.2) ∧
      ∀ entry ∈ trailing, ¬ Selects key entry.2 := by
  induction cells with
  | nil => exact ⟨[], [], rfl, fun _ member => absurd member List.not_mem_nil,
      fun _ member => absurd member List.not_mem_nil⟩
  | cons entry rest ih =>
      obtain ⟨behind, later⟩ := List.pairwise_cons.mp first
      by_cases matched : Selects key entry.2
      · obtain ⟨leading, trailing, rfl, allSelected, allKept⟩ := ih later
        refine ⟨entry :: leading, trailing, rfl, ?_, allKept⟩
        intro other member
        rcases List.mem_cons.mp member with rfl | inside
        · exact matched
        · exact allSelected other inside
      · refine ⟨[], entry :: rest, rfl, fun _ member => absurd member List.not_mem_nil, ?_⟩
        intro other member
        rcases List.mem_cons.mp member with rfl | inside
        · exact matched
        · exact fun selects => matched (behind other inside selects)

theorem selected_behind_split (behind : ¬ SelectedFirst key cells) :
    ∃ leading kept skipped gone rest, cells = leading ++ kept :: (skipped ++ gone :: rest) ∧
      (∀ entry ∈ leading, Selects key entry.2) ∧ ¬ Selects key kept.2 ∧
      (∀ entry ∈ skipped, ¬ Selects key entry.2) ∧ Selects key gone.2 := by
  induction cells with
  | nil => exact absurd List.Pairwise.nil behind
  | cons entry rest ih =>
      by_cases matched : Selects key entry.2
      · have later : ¬ SelectedFirst key rest :=
          fun first => behind (List.pairwise_cons.mpr ⟨fun _ _ _ => matched, first⟩)
        obtain ⟨leading, kept, skipped, gone, rest, rfl, allSelected, others⟩ := ih later
        refine ⟨entry :: leading, kept, skipped, gone, rest, rfl, ?_, others⟩
        intro other member
        rcases List.mem_cons.mp member with rfl | inside
        · exact matched
        · exact allSelected other inside
      · cases found : rest.find? fun entry => decide (Selects key entry.2) with
        | none =>
            have kept : ∀ other ∈ rest, ¬ Selects key other.2 :=
              fun other member => by simpa using List.find?_eq_none.mp found other member
            refine absurd (List.pairwise_cons.mpr ⟨?_, ?_⟩) behind
            · exact fun other member selects => absurd selects (kept other member)
            · exact List.Pairwise.imp_of_mem
                (fun _ inside _ selects => absurd selects (kept _ inside))
                (List.pairwise_of_forall (R := fun _ _ => True) fun _ _ => trivial)
        | some gone =>
            obtain ⟨selects, skipped, trailing, rfl, others⟩ := List.find?_eq_some_iff_append.mp found
            exact ⟨[], entry, skipped, gone, trailing, rfl,
              fun _ member => absurd member List.not_mem_nil, matched,
              fun other member => by simpa using others other member, by simpa using selects⟩

theorem selected_append (allSelected : ∀ entry ∈ leading, Selects key entry.2)
    (allKept : ∀ entry ∈ trailing, ¬ Selects key entry.2) :
    selected key (leading ++ trailing) = leading ∧ remaining key (leading ++ trailing) = trailing := by
  simp only [selected, remaining, List.filter_append]
  constructor
  · rw [List.filter_eq_self.mpr (fun entry member => decide_eq_true (allSelected entry member)),
      List.filter_eq_nil_iff.mpr (fun entry member => by simpa using allKept entry member),
      List.append_nil]
  · rw [List.filter_eq_nil_iff.mpr (fun entry member => by simpa using allSelected entry member),
      List.filter_eq_self.mpr (fun entry member => decide_eq_true (allKept entry member)),
      List.nil_append]

theorem delete_selected_first (comparable : Comparable key)
    (chain : Chain IpcamNode.next heap (some address) ((address, header) :: cells))
    (first : SelectedFirst key cells) : ∃ ret after, Deletes heap address cells key ret after := by
  obtain ⟨leading, trailing, rfl, allSelected, allKept⟩ := selected_first_split first
  obtain ⟨sameSelected, sameRemaining⟩ := selected_append allSelected allKept
  have bound := (tail_chain chain).2
  rw [List.length_append] at bound
  obtain ⟨fuel, enough⟩ : ∃ fuel, 2 * heap.liveCells + 2 = leading.length + fuel :=
    ⟨2 * heap.liveCells + 2 - leading.length, by omega⟩
  obtain ⟨after, headerAfter, nextAfter, ran, chainAfter, freed⟩ :=
    deleteByMacLoop_leading chain allSelected fuel 0 none
  have ended : deleteByMacLoop (some address) key fuel after .link nextAfter
      (0 + leading.length) = .ok (0 + leading.length, after) := by
    obtain ⟨rounds, rfl⟩ : ∃ rounds, fuel = rounds + 1 := ⟨fuel - 1, by omega⟩
    cases trailing with
    | nil => exact deleteByMacLoop_last rounds _ rfl chainAfter
    | cons entry rest =>
        obtain ⟨position, node⟩ := entry
        obtain ⟨difference, compared, nonzero⟩ :=
          kept_differs comparable (allKept (position, node) List.mem_cons_self)
        have rounds_enough : rest.length < rounds := by
          rw [List.length_cons] at bound
          omega
        rw [deleteByMacLoop_keep rounds _ rfl chainAfter compared nonzero]
        exact deleteByMacLoop_kept comparable (some address) chainAfter.next_cons.2
          (fun entry member => allKept entry (List.mem_cons_of_mem _ member)) rounds_enough _
  refine ⟨0 + leading.length, after, ?_, ?_, ?_, headerAfter, trailing, chainAfter, ?_⟩
  · rw [deleteIpcamNodeByMac, enough, ran, ended]
  · rw [sameSelected, Nat.zero_add]
  · rw [sameSelected]
    exact freed
  · rw [sameRemaining]

/-- Otherwise the loop reads the first record that it frees behind a kept one. -/
theorem delete_selected_behind (comparable : Comparable key)
    (chain : Chain IpcamNode.next heap (some address) ((address, header) :: cells))
    (behind : ¬ SelectedFirst key cells) :
    deleteIpcamNodeByMac heap (some address) key = .error .deadCell := by
  obtain ⟨leading, kept, skipped, gone, rest, rfl, allSelected, isKept, allSkipped, matched⟩ :=
    selected_behind_split behind
  have bound := (tail_chain chain).2
  simp only [List.length_append, List.length_cons] at bound
  obtain ⟨fuel, enough⟩ : ∃ fuel, 2 * heap.liveCells + 2 = leading.length + (fuel + 1) :=
    ⟨2 * heap.liveCells + 1 - leading.length, by omega⟩
  obtain ⟨after, headerAfter, nextAfter, ran, chainAfter, _⟩ :=
    deleteByMacLoop_leading chain allSelected (fuel + 1) 0 none
  obtain ⟨position, node⟩ := kept
  obtain ⟨difference, compared, nonzero⟩ := kept_differs comparable isKept
  rw [deleteIpcamNodeByMac, enough, ran,
    deleteByMacLoop_keep fuel _ rfl chainAfter compared nonzero]
  exact deleteByMacLoop_behind comparable (some address) chainAfter.next_cons.2 allSkipped matched
    (by omega) _

/-- The deletion does its work exactly on the lists whose selected records all stand
in front of the kept ones. -/
theorem delete_ipcam_node_by_mac_iff
    (chain : Chain IpcamNode.next heap (some address) ((address, header) :: cells)) (mac : Mac) :
    (∃ ret after, Deletes heap address cells mac.toList ret after) ↔
      SelectedFirst mac.toList cells := by
  refine ⟨?_, delete_selected_first (comparable_mac mac) chain⟩
  rintro ⟨ret, after, deletes⟩
  by_contra behind
  have returned := deletes.returned
  rw [delete_selected_behind (comparable_mac mac) chain behind] at returned
  cases returned

def macNode (mac : Mac) (next : Pointer) : IpcamNode :=
  { (default : IpcamNode) with
    nodeInfo := { (default : IpcamNode).nodeInfo with mac := mac }
    next := next }

/-- Two records behind the header at address 1. -/
def twoCameras (first second : Mac) : IpcamHeap :=
  (((∅ : IpcamHeap).insert 3 (macNode second none)).insert 2 (macNode first (some 3))).insert 1
    (macNode first (some 2))

def twoCells (first second : Mac) : List (Address × IpcamNode) :=
  [(2, macNode first (some 3)), (3, macNode second none)]

theorem twoCameras_chain (first second : Mac) :
    Chain IpcamNode.next (twoCameras first second) (some 1)
      ((1, macNode first (some 2)) :: twoCells first second) := by
  refine .cons (Finmap.lookup_insert _) (.cons ?_ (.cons ?_ .nil))
  · exact (Finmap.lookup_insert_of_ne _ (by decide)).trans (Finmap.lookup_insert _)
  · exact ((Finmap.lookup_insert_of_ne _ (by decide)).trans
      (Finmap.lookup_insert_of_ne _ (by decide))).trans (Finmap.lookup_insert _)

def firstMac : Mac := ⟨[2, 17, 34, 51, 68, 1], rfl⟩

def secondMac : Mac := ⟨[2, 17, 34, 51, 68, 2], rfl⟩

theorem delete_ipcam_node_by_mac_iff_first :
    (∃ ret after, Deletes (twoCameras firstMac secondMac) 1 (twoCells firstMac secondMac)
      firstMac.toList ret after) ↔
      SelectedFirst firstMac.toList (twoCells firstMac secondMac) :=
  delete_ipcam_node_by_mac_iff (twoCameras_chain firstMac secondMac) firstMac

/-- Deleting the second of two records reads it after it is freed. -/
theorem delete_second_record_fails :
    Chain IpcamNode.next (twoCameras firstMac secondMac) (some 1)
        ((1, macNode firstMac (some 2)) :: twoCells firstMac secondMac) ∧
      deleteIpcamNodeByMac (twoCameras firstMac secondMac) (some 1) secondMac.toList =
        .error .deadCell ∧
      ¬ ∃ ret after, Deletes (twoCameras firstMac secondMac) 1 (twoCells firstMac secondMac)
        secondMac.toList ret after := by
  have chain := twoCameras_chain firstMac secondMac
  have behind : ¬ SelectedFirst secondMac.toList (twoCells firstMac secondMac) := by
    unfold SelectedFirst
    decide
  have fault := delete_selected_behind (comparable_mac secondMac) chain behind
  refine ⟨chain, fault, ?_⟩
  rintro ⟨ret, after, deletes⟩
  have returned := deletes.returned
  rw [fault] at returned
  cases returned

end Delete

section Identity

/-- The strings agree up to a zero byte that both have, and differ behind it. -/
def DifferBehindZero (left right : List UInt8) : Prop :=
  left ≠ right ∧ ∃ front leftRest rightRest,
    left = front ++ 0 :: leftRest ∧ right = front ++ 0 :: rightRest

theorem differ_behind_zero_cons {a : UInt8} (nonzero : a ≠ 0) (left right : List UInt8) :
    DifferBehindZero (a :: left) (a :: right) ↔ DifferBehindZero left right := by
  constructor
  · rintro ⟨differ, front, leftRest, rightRest, leftSplit, rightSplit⟩
    refine ⟨fun same => differ (congrArg _ same), ?_⟩
    cases front with
    | nil => exact absurd (List.cons.inj leftSplit).1 nonzero
    | cons b front =>
        exact ⟨front, leftRest, rightRest, (List.cons.inj leftSplit).2, (List.cons.inj rightSplit).2⟩
  · rintro ⟨differ, front, leftRest, rightRest, rfl, rfl⟩
    exact ⟨fun same => differ (List.cons.inj same).2, a :: front, leftRest, rightRest, rfl, rfl⟩

/-- `strncmp` over the whole of two strings takes them for equal when a common zero
byte hides where they differ, and otherwise only when they are. -/
theorem strncmp_eq_zero_iff {left right : List UInt8} (same : left.length = right.length) :
    strncmp left right left.length = .ok 0 ↔ left = right ∨ DifferBehindZero left right := by
  induction left generalizing right with
  | nil =>
      have empty : right = [] := List.length_eq_zero_iff.mp same.symm
      subst empty
      exact ⟨fun _ => .inl rfl, fun _ => rfl⟩
  | cons a left ih =>
      cases right with
      | nil => cases same
      | cons b right =>
          by_cases equal : a = b
          · subst equal
            by_cases zero : a = 0
            · subst zero
              rw [List.length_cons, strncmp, if_neg (not_not.mpr rfl), if_pos rfl]
              refine ⟨fun _ => ?_, fun _ => rfl⟩
              by_cases rest : left = right
              · exact .inl (congrArg _ rest)
              · exact .inr ⟨fun whole => rest (List.cons.inj whole).2, [], left, right, rfl, rfl⟩
            · rw [List.length_cons, strncmp, if_neg (not_not.mpr rfl), if_neg zero,
                ih (Nat.succ.inj same), differ_behind_zero_cons zero]
              exact or_congr ⟨fun rest => congrArg _ rest, fun whole => (List.cons.inj whole).2⟩
                Iff.rfl
          · have apart : (a.toNat : Int) - b.toNat ≠ 0 := by
              intro zero
              apply equal
              apply UInt8.toNat_inj.mp
              omega
            rw [List.length_cons, strncmp, if_pos equal]
            constructor
            · intro zero
              exact absurd (Except.ok.inj zero) apart
            · rintro (whole | ⟨_, front, leftRest, rightRest, leftSplit, rightSplit⟩)
              · exact absurd (List.cons.inj whole).1 equal
              · cases front <;>
                  exact absurd ((List.cons.inj leftSplit).1.trans (List.cons.inj rightSplit).1.symm)
                    equal

theorem selects_iff {key : List UInt8} {mac : Mac} (names : key.take 6 = mac.toList)
    (node : IpcamNode) :
    Selects key node ↔
      node.nodeInfo.mac = mac ∨ DifferBehindZero node.nodeInfo.mac.toList mac.toList := by
  have whole := strncmp_eq_zero_iff
    (node.nodeInfo.mac.toList_length.trans mac.toList_length.symm)
  rw [node.nodeInfo.mac.toList_length] at whole
  rw [Selects, ← strncmp_take, names, whole]
  exact or_congr ⟨fun same => List.Vector.toList_injective same, fun same => same ▸ rfl⟩ Iff.rfl

/-- Deletion by the key takes the records that the search for the MAC takes, and a
LOGOUT in a list without repeated MACs meets the one record that the search finds. A
deletion that returns counts and frees no other. -/
structure SameIdentity (heap : IpcamHeap) (address : Address)
    (cells : List (Address × IpcamNode)) (key : List UInt8) (mac : Mac) : Prop where
  selects : ∀ entry ∈ cells, Selects key entry.2 ↔ strvalncmp entry.2.nodeInfo.mac mac = 0
  logout : (cells.map fun entry => entry.2.nodeInfo.mac).Nodup →
    (selected key cells).length ≤ 1 ∧
      (selected key cells ≠ [] ↔
        ∃ position, searchIpcamNodeByMac heap (some address) mac = .ok (some position)) ∧
      ∀ entry ∈ selected key cells, entry.2.nodeInfo.mac = mac
  deletes : (cells.map fun entry => entry.2.nodeInfo.mac).Nodup → ∀ ret after,
    deleteIpcamNodeByMac heap (some address) key = .ok (ret, after) →
      ret ≤ 1 ∧ ∀ position, position ∈ heap → position ∉ after →
        ∃ node, (position, node) ∈ cells ∧ node.nodeInfo.mac = mac

theorem selected_one {key : List UInt8} {mac : Mac} {cells : List (Address × IpcamNode)}
    (unique : (cells.map fun entry => entry.2.nodeInfo.mac).Nodup)
    (own : ∀ entry ∈ selected key cells, entry.2.nodeInfo.mac = mac) :
    (selected key cells).length ≤ 1 := by
  have macs : ((selected key cells).map fun entry => entry.2.nodeInfo.mac).Nodup :=
    unique.sublist (List.Sublist.map _ List.filter_sublist)
  have alike : (selected key cells).map (fun entry => entry.2.nodeInfo.mac) =
      List.replicate (selected key cells).length mac := by
    rw [List.eq_replicate_iff]
    refine ⟨List.length_map _, ?_⟩
    intro other member
    obtain ⟨entry, inside, rfl⟩ := List.mem_map.mp member
    exact own entry inside
  rw [alike] at macs
  exact List.nodup_replicate.mp macs

/-- A deletion that returns has done its work. -/
theorem deletes_of_returned {heap after : IpcamHeap} {address : Address} {header : IpcamNode}
    {cells : List (Address × IpcamNode)} {key : List UInt8} {ret : Nat} (comparable : Comparable key)
    (chain : Chain IpcamNode.next heap (some address) ((address, header) :: cells))
    (returned : deleteIpcamNodeByMac heap (some address) key = .ok (ret, after)) :
    Deletes heap address cells key ret after := by
  by_cases first : SelectedFirst key cells
  · obtain ⟨count, left, deletes⟩ := delete_selected_first comparable chain first
    cases deletes.returned.symm.trans returned
    exact deletes
  · rw [delete_selected_behind comparable chain first] at returned
    cases returned

/-- The key is a MAC or the extension of a LOGOUT, which starts with it. -/
theorem same_identity_iff {heap : IpcamHeap} {address : Address} {header : IpcamNode}
    {cells : List (Address × IpcamNode)}
    (chain : Chain IpcamNode.next heap (some address) ((address, header) :: cells))
    {key : List UInt8} {mac : Mac} (names : key.take 6 = mac.toList) :
    SameIdentity heap address cells key mac ↔
      ∀ entry ∈ cells, ¬ DifferBehindZero entry.2.nodeInfo.mac.toList mac.toList := by
  constructor
  · intro identity entry member hidden
    have matched := (identity.selects entry member).mp ((selects_iff names entry.2).mpr (.inr hidden))
    exact hidden.1 (congrArg _ (strvalncmp_eq_zero.mp matched))
  · intro visible
    have selects : ∀ entry ∈ cells, Selects key entry.2 ↔ entry.2.nodeInfo.mac = mac :=
      fun entry member => (selects_iff names entry.2).trans (or_iff_left (visible entry member))
    have own : ∀ entry ∈ selected key cells, entry.2.nodeInfo.mac = mac := by
      intro entry member
      obtain ⟨inside, matched⟩ := List.mem_filter.mp member
      exact (selects entry inside).mp (of_decide_eq_true matched)
    refine ⟨fun entry member => (selects entry member).trans strvalncmp_eq_zero.symm,
      fun unique => ⟨selected_one unique own, ?_, own⟩, ?_⟩
    · rw [searchIpcamNodeByMac_chain chain]
      constructor
      · intro nonempty
        obtain ⟨entry, member⟩ := List.exists_mem_of_ne_nil _ nonempty
        have found : (cells.find? fun entry => decide (entry.2.nodeInfo.mac = mac)).isSome :=
          List.find?_isSome.mpr
            ⟨entry, (List.mem_filter.mp member).1, decide_eq_true (own entry member)⟩
        obtain ⟨position, met⟩ := Option.isSome_iff_exists.mp found
        exact ⟨position.1, by rw [met]; rfl⟩
      · rintro ⟨position, found⟩
        obtain ⟨entry, met, _⟩ := Option.map_eq_some_iff.mp (Except.ok.inj found)
        have inside := List.mem_of_find?_eq_some met
        have same : entry.2.nodeInfo.mac = mac := by simpa using List.find?_some met
        exact List.ne_nil_of_mem (List.mem_filter.mpr
          ⟨inside, decide_eq_true ((selects entry inside).mpr same)⟩)
    · intro unique ret after returned
      have long : 6 ≤ key.length := by
        have bytes := congrArg List.length names
        rw [List.length_take, mac.toList_length] at bytes
        omega
      have deletes := deletes_of_returned (comparable_of_length long) chain returned
      refine ⟨deletes.counted ▸ selected_one unique own, fun position live gone => ?_⟩
      have freed : position ∈ addresses (selected key cells) := by
        by_contra kept
        exact gone ((deletes.freed position).mpr ⟨live, kept⟩)
      obtain ⟨entry, member, rfl⟩ := List.mem_map.mp freed
      exact ⟨entry.2, (List.mem_filter.mp member).1, own entry member⟩

def zeroFirstMac : Mac := ⟨[0, 0, 0, 0, 0, 1], rfl⟩

def zeroSecondMac : Mac := ⟨[0, 0, 0, 0, 0, 2], rfl⟩

theorem same_identity_iff_first :
    SameIdentity (twoCameras firstMac secondMac) 1 (twoCells firstMac secondMac)
        (firstMac.toList ++ [0, 0, 0, 0]) firstMac ↔
      ∀ entry ∈ twoCells firstMac secondMac,
        ¬ DifferBehindZero entry.2.nodeInfo.mac.toList firstMac.toList :=
  same_identity_iff (twoCameras_chain firstMac secondMac) rfl

/-- A LOGOUT of one camera deletes the record of another, too. -/
theorem logout_selects_other_camera :
    Chain IpcamNode.next (twoCameras zeroFirstMac zeroSecondMac) (some 1)
        ((1, macNode zeroFirstMac (some 2)) :: twoCells zeroFirstMac zeroSecondMac) ∧
      ((twoCells zeroFirstMac zeroSecondMac).map fun entry => entry.2.nodeInfo.mac).Nodup ∧
      (∃ after, deleteIpcamNodeByMac (twoCameras zeroFirstMac zeroSecondMac) (some 1)
          zeroSecondMac.toList = .ok (2, after) ∧ 2 ∉ after ∧ 3 ∉ after) ∧
      ¬ SameIdentity (twoCameras zeroFirstMac zeroSecondMac) 1
        (twoCells zeroFirstMac zeroSecondMac) zeroSecondMac.toList zeroSecondMac := by
  have chain := twoCameras_chain zeroFirstMac zeroSecondMac
  have unique :
      ((twoCells zeroFirstMac zeroSecondMac).map fun entry => entry.2.nodeInfo.mac).Nodup := by
    decide
  have both : selected zeroSecondMac.toList (twoCells zeroFirstMac zeroSecondMac) =
      twoCells zeroFirstMac zeroSecondMac := by
    decide
  have first : SelectedFirst zeroSecondMac.toList (twoCells zeroFirstMac zeroSecondMac) := by
    unfold SelectedFirst
    decide
  obtain ⟨ret, after, deletes⟩ := delete_selected_first (comparable_mac zeroSecondMac) chain first
  have counted := deletes.counted
  have freed := deletes.freed
  have returned := deletes.returned
  rw [both] at counted freed
  subst counted
  refine ⟨chain, unique, ⟨after, returned, ?_, ?_⟩, ?_⟩
  · exact fun live => ((freed 2).mp live).2 (by decide)
  · exact fun live => ((freed 3).mp live).2 (by decide)
  · intro identity
    exact absurd (identity.deletes unique _ _ returned).1 (by decide)

end Identity

end IpcamSearch.IpcamList
