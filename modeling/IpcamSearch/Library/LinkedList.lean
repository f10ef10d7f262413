import IpcamSearch.Library.Memory

/-! Null-terminated chains in a heap and the two loops that walk them. The chain
predicate lists each cell with its address, so that an update can say which cell
changed and which address stayed as it was. -/

set_option autoImplicit false

namespace IpcamSearch.Memory

variable {Cell : Type} {next : Cell → Pointer}

/-- The cells met when the successor pointer is followed down to null. -/
inductive Chain (next : Cell → Pointer) (heap : Heap Cell) :
    Pointer → List (Address × Cell) → Prop where
  | nil : Chain next heap none []
  | cons {address : Address} {cell : Cell} {rest : List (Address × Cell)} :
      heap.lookup address = some cell → Chain next heap (next cell) rest →
      Chain next heap (some address) ((address, cell) :: rest)

abbrev addresses (cells : List (Address × Cell)) : List Address := cells.map Prod.fst

namespace Chain

theorem live {heap : Heap Cell} {start : Pointer} {cells : List (Address × Cell)}
    (chain : Chain next heap start cells) {entry : Address × Cell} (member : entry ∈ cells) :
    heap.lookup entry.1 = some entry.2 := by
  induction chain with
  | nil => cases member
  | cons found _ ih =>
      rcases List.mem_cons.mp member with rfl | later
      · exact found
      · exact ih later

theorem unique {heap : Heap Cell} {start : Pointer} {left right : List (Address × Cell)}
    (first : Chain next heap start left) (second : Chain next heap start right) :
    left = right := by
  induction first generalizing right with
  | nil => cases second; rfl
  | @cons address cell rest found _ ih =>
      cases second with
      | @cons _ other _ foundOther restOther =>
          have same : cell = other := Option.some.inj (found.symm.trans foundOther)
          subst other
          rw [ih restOther]

theorem suffix {heap : Heap Cell} {start : Pointer} {leading rest : List (Address × Cell)}
    {entry : Address × Cell} (chain : Chain next heap start (leading ++ entry :: rest)) :
    Chain next heap (some entry.1) (entry :: rest) := by
  induction leading generalizing start with
  | nil => cases chain with | cons found tail => exact .cons found tail
  | cons head leading ih => cases chain with | cons _ tail => exact ih tail

theorem next_nil {heap : Heap Cell} {address : Address} {cell : Cell}
    (chain : Chain next heap (some address) [(address, cell)]) : next cell = none := by
  generalize ended : next cell = rest
  cases chain with
  | cons _ tail =>
      rw [ended] at tail
      cases tail
      rfl

theorem next_cons {heap : Heap Cell} {address : Address} {cell : Cell}
    {entry : Address × Cell} {rest : List (Address × Cell)}
    (chain : Chain next heap (some address) ((address, cell) :: entry :: rest)) :
    next cell = some entry.1 ∧ Chain next heap (some entry.1) (entry :: rest) := by
  generalize linked : next cell = second
  cases chain with
  | cons _ tail =>
      rw [linked] at tail
      cases tail with
      | cons found rest => exact ⟨rfl, .cons found rest⟩

/-- A chain that ends cannot return to a cell, for it would then have two lengths. -/
theorem nodup {heap : Heap Cell} {start : Pointer} {cells : List (Address × Cell)}
    (chain : Chain next heap start cells) : (addresses cells).Nodup := by
  induction chain with
  | nil => simp
  | @cons address cell rest found tail ih =>
      simp only [addresses, List.map_cons, List.nodup_cons]
      refine ⟨?_, ih⟩
      intro again
      obtain ⟨entry, member, same⟩ := List.mem_map.mp again
      obtain ⟨leading, trailing, split⟩ := List.append_of_mem member
      have later : Chain next heap (some entry.1) (entry :: trailing) := by
        rw [split] at tail
        exact tail.suffix
      rw [same] at later
      have equal := (Chain.cons found tail).unique later
      have lengths := congrArg List.length equal
      simp only [split, List.length_cons, List.length_append] at lengths
      omega

theorem second_ne {heap : Heap Cell} {address : Address} {cell : Cell}
    {entry : Address × Cell} {rest : List (Address × Cell)}
    (chain : Chain next heap (some address) ((address, cell) :: entry :: rest)) :
    entry.1 ≠ address := by
  have distinct := chain.nodup
  simp only [addresses, List.map_cons, List.nodup_cons, List.mem_cons, not_or] at distinct
  exact fun same => distinct.1.1 same.symm

/-- A walk down a chain makes fewer rounds than the heap has cells. -/
theorem length_le {heap : Heap Cell} {start : Pointer} {cells : List (Address × Cell)}
    (chain : Chain next heap start cells) : cells.length ≤ heap.liveCells := by
  have included : (addresses cells).toFinset ⊆ heap.keys := by
    intro address member
    obtain ⟨entry, inside, rfl⟩ := List.mem_map.mp (List.mem_toFinset.mp member)
    exact Finmap.mem_keys.mpr (Finmap.mem_of_lookup_eq_some (chain.live inside))
  have bound := Finset.card_le_card included
  rw [List.toFinset_card_of_nodup chain.nodup, List.length_map] at bound
  exact bound

theorem frame {heap after : Heap Cell} {start : Pointer} {cells : List (Address × Cell)}
    (chain : Chain next heap start cells)
    (kept : ∀ address ∈ addresses cells, after.lookup address = heap.lookup address) :
    Chain next after start cells := by
  induction chain with
  | nil => exact .nil
  | @cons address cell rest found _ ih =>
      refine .cons ((kept address (by simp)).trans found) (ih ?_)
      intro other member
      exact kept other (List.mem_cons_of_mem _ member)

theorem insert_outside {heap : Heap Cell} {start : Pointer} {cells : List (Address × Cell)}
    (chain : Chain next heap start cells) {address : Address} (cell : Cell)
    (outside : address ∉ addresses cells) :
    Chain next (heap.insert address cell) start cells :=
  chain.frame fun _ member =>
    Finmap.lookup_insert_of_ne _ fun same => outside (same ▸ member)

theorem erase_outside {heap : Heap Cell} {start : Pointer} {cells : List (Address × Cell)}
    (chain : Chain next heap start cells) {address : Address}
    (outside : address ∉ addresses cells) : Chain next (heap.erase address) start cells :=
  chain.frame fun _ member => Finmap.lookup_erase_ne fun same => outside (same ▸ member)

theorem outside_of_dead {heap : Heap Cell} {start : Pointer} {cells : List (Address × Cell)}
    (chain : Chain next heap start cells) {address : Address}
    (dead : heap.lookup address = none) : address ∉ addresses cells := by
  intro member
  obtain ⟨entry, inside, rfl⟩ := List.mem_map.mp member
  rw [chain.live inside] at dead
  cases dead

/-- Overwriting one cell in place, with its successor kept, overwrites one entry. -/
theorem update {heap : Heap Cell} {start : Pointer} {leading trailing : List (Address × Cell)}
    {address : Address} {old : Cell}
    (chain : Chain next heap start (leading ++ (address, old) :: trailing)) (fresh : Cell)
    (successor : next fresh = next old) :
    Chain next (heap.insert address fresh) start (leading ++ (address, fresh) :: trailing) := by
  induction leading generalizing start with
  | nil =>
      have distinct := chain.nodup
      simp only [List.nil_append, addresses, List.map_cons, List.nodup_cons] at distinct
      cases chain with
      | cons _ tail =>
          refine .cons (Finmap.lookup_insert _) ?_
          rw [successor]
          exact tail.insert_outside fresh distinct.1
  | cons head leading ih =>
      have distinct := chain.nodup
      simp only [List.cons_append, addresses, List.map_cons, List.map_append,
        List.nodup_cons, List.mem_append, List.mem_cons, not_or] at distinct
      cases chain with
      | cons found tail =>
          refine .cons ?_ (ih tail)
          rw [Finmap.lookup_insert_of_ne _ distinct.1.2.1, found]

/-- Linking a live cell in behind the head of a chain. The new cell is any cell
off the chain whose successor is what the head pointed to. -/
theorem link_in {heap : Heap Cell} {address entered : Address} {head headAfter cell : Cell}
    {rest : List (Address × Cell)}
    (chain : Chain next heap (some address) ((address, head) :: rest))
    (live : heap.lookup entered = some cell) (off : entered ∉ address :: addresses rest)
    (successor : next cell = next head) (headed : next headAfter = some entered) :
    Chain next (heap.insert address headAfter) (some address)
      ((address, headAfter) :: (entered, cell) :: rest) := by
  have distinct := chain.nodup
  simp only [addresses, List.map_cons, List.nodup_cons] at distinct
  simp only [List.mem_cons, not_or] at off
  cases chain with
  | cons _ tail =>
      refine .cons (Finmap.lookup_insert _) ?_
      rw [headed]
      refine .cons ((Finmap.lookup_insert_of_ne _ off.1).trans live) ?_
      rw [successor]
      exact tail.insert_outside headAfter distinct.1

/-- Unlinking the cell behind the head and freeing it. -/
theorem unlink {heap : Heap Cell} {address gone : Address} {head cell : Cell}
    {rest : List (Address × Cell)} (headAfter : Cell)
    (chain : Chain next heap (some address) ((address, head) :: (gone, cell) :: rest))
    (headed : next headAfter = next cell) :
    Chain next ((heap.insert address headAfter).erase gone) (some address)
      ((address, headAfter) :: rest) := by
  have distinct := chain.nodup
  simp only [addresses, List.map_cons, List.nodup_cons, List.mem_cons, not_or] at distinct
  cases chain with
  | cons _ tail =>
      generalize next head = second at tail
      cases tail with
      | cons _ tail =>
          have apart : address ≠ gone := distinct.1.1
          refine .cons ((Finmap.lookup_erase_ne apart).trans (Finmap.lookup_insert _)) ?_
          rw [headed]
          exact (tail.insert_outside headAfter distinct.1.2).erase_outside distinct.2.1

end Chain

/-- The cells at these addresses are live before and freed after, and all others but the
first one are as they were. Freeing twice is a fault, so that a run without one frees each
of them once. -/
structure Frees (heap after : Heap Cell) (first : Address) (gone : List Address) : Prop where
  live : ∀ position ∈ gone, position ∈ heap
  dead : ∀ position ∈ gone, position ∉ after
  head : first ∈ after
  kept : ∀ position, position ≠ first → position ∉ gone →
    after.lookup position = heap.lookup position

namespace Frees

variable {heap after : Heap Cell} {address gone : Address} {head cell : Cell}
  {rest : List (Address × Cell)}

theorem none (live : address ∈ heap) : Frees heap heap address [] where
  live := fun _ member => absurd member List.not_mem_nil
  dead := fun _ member => absurd member List.not_mem_nil
  head := live
  kept := fun _ _ _ => rfl

/-- The cell behind the head is unlinked and freed before the others. -/
theorem unlink {headAfter : Cell}
    (chain : Chain next heap (some address) ((address, head) :: (gone, cell) :: rest))
    (frees : Frees ((heap.insert address headAfter).erase gone) after address (addresses rest)) :
    Frees heap after address (addresses ((gone, cell) :: rest)) := by
  have apart : gone ≠ address := chain.second_ne
  have distinct := chain.next_cons.2.nodup
  simp only [addresses, List.map_cons, List.nodup_cons] at distinct
  constructor
  case live =>
    intro position member
    obtain ⟨entry, inside, rfl⟩ := List.mem_map.mp member
    exact Finmap.mem_of_lookup_eq_some (chain.live (List.mem_cons_of_mem _ inside))
  case dead =>
    intro position member
    rcases List.mem_cons.mp member with same | later
    · rw [same, ← Finmap.lookup_eq_none, frees.kept gone apart distinct.1, Finmap.lookup_erase]
    · exact frees.dead position later
  case head => exact frees.head
  case kept =>
    intro position other outside
    simp only [addresses, List.map_cons, List.mem_cons, not_or] at outside
    rw [frees.kept position other outside.2, Finmap.lookup_erase_ne outside.1,
      Finmap.lookup_insert_of_ne _ other]

end Frees

/-- Follow the chain to the first cell that passes the test. The bound is only
met on a cycle, which no terminating walk goes round. -/
def find (next : Cell → Pointer) (test : Cell → Bool) (heap : Heap Cell) :
    Nat → Pointer → Except Fault Pointer
  | 0, _ => .error .divergence
  | _ + 1, none => .ok none
  | fuel + 1, some address => do
      let cell ← heap.read (some address)
      if test cell then .ok (some address) else find next test heap fuel (next cell)

def forEach (next : Cell → Pointer) (update : Cell → Cell) :
    Nat → Heap Cell → Pointer → Except Fault (Heap Cell)
  | 0, _, _ => .error .divergence
  | _ + 1, heap, none => .ok heap
  | fuel + 1, heap, some address => do
      let cell ← heap.read (some address)
      let heap ← heap.write (some address) (update cell)
      forEach next update fuel heap (next (update cell))

theorem find_chain {heap : Heap Cell} {start : Pointer} {cells : List (Address × Cell)}
    (test : Cell → Bool) (chain : Chain next heap start cells) {fuel : Nat}
    (enough : cells.length < fuel) :
    find next test heap fuel start = .ok ((cells.find? fun entry => test entry.2).map Prod.fst) := by
  induction fuel generalizing start cells with
  | zero => cases enough
  | succ rounds ih =>
      cases chain with
      | nil =>
          rfl
      | @cons address cell rest found tail =>
          simp only [List.length_cons, Nat.add_lt_add_iff_right] at enough
          simp only [find, Heap.read_live found, bind, Except.bind, List.find?_cons]
          cases passed : test cell with
          | true => rfl
          | false => simpa only [Bool.false_eq_true, ↓reduceIte] using ih tail enough

theorem forEach_fixed {heap : Heap Cell} {start : Pointer} {cells : List (Address × Cell)}
    {update : Cell → Cell} (chain : Chain next heap start cells)
    (fixed : ∀ entry ∈ cells, update entry.2 = entry.2) {fuel : Nat}
    (enough : cells.length < fuel) : forEach next update fuel heap start = .ok heap := by
  induction fuel generalizing start cells with
  | zero => cases enough
  | succ rounds ih =>
      cases chain with
      | nil =>
          rfl
      | @cons address cell rest found tail =>
          have same : update cell = cell := fixed _ List.mem_cons_self
          simp only [List.length_cons, Nat.add_lt_add_iff_right] at enough
          simp only [forEach, Heap.read_live found, same, Heap.write_live _ found,
            Heap.insert_same found, ok_bind]
          exact ih tail (fun entry member => fixed entry (List.mem_cons_of_mem _ member)) enough

theorem forEach_chain {heap : Heap Cell} {start : Pointer} {cells : List (Address × Cell)}
    {update : Cell → Cell} (successor : ∀ cell, next (update cell) = next cell)
    (chain : Chain next heap start cells) {fuel : Nat} (enough : cells.length < fuel) :
    ∃ after, forEach next update fuel heap start = .ok after ∧
      Chain next after start (cells.map fun entry => (entry.1, update entry.2)) ∧
      ∀ address, address ∉ addresses cells → after.lookup address = heap.lookup address := by
  induction fuel generalizing cells heap start with
  | zero => cases enough
  | succ rounds ih =>
      cases cells with
      | nil =>
          cases chain
          exact ⟨heap, rfl, .nil, fun _ _ => rfl⟩
      | cons entry rest =>
          simp only [List.length_cons, Nat.add_lt_add_iff_right] at enough
          have distinct := chain.nodup
          simp only [addresses, List.map_cons, List.nodup_cons] at distinct
          obtain ⟨address, cell⟩ := entry
          cases chain with
          | cons found tail =>
              have tailAfter := tail.insert_outside (update cell) distinct.1
              rw [← successor cell] at tailAfter
              obtain ⟨after, ran, updated, kept⟩ := ih tailAfter enough
              refine ⟨after, ?_, ?_, ?_⟩
              · simp only [forEach, Heap.read_live found, Heap.write_live _ found, bind, Except.bind]
                exact ran
              · refine .cons ?_ updated
                rw [kept address distinct.1, Finmap.lookup_insert]
              · intro other outside
                simp only [addresses, List.map_cons, List.mem_cons, not_or] at outside
                rw [kept other outside.2, Finmap.lookup_insert_of_ne _ outside.1]

end IpcamSearch.Memory
