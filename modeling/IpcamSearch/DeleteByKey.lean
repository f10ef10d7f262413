import IpcamSearch.DeleteByMac

/-! What `delete_ipcam_node_by_mac` does for any key. A LOGOUT hands over its extension as it is,
and that may end before the sixth byte. -/

set_option autoImplicit false

namespace IpcamSearch.IpcamList

open Memory

/-- The test of the loop on a record. -/
def Takes (key : List UInt8) (camera : Camera) : Prop := strncmp camera.mac.toList key 6 = .ok 0

instance (key : List UInt8) : DecidablePred (Takes key) := by
  intro camera
  unfold Takes
  infer_instance

/-- The test on the record ends within the key. -/
def Compares (key : List UInt8) (camera : Camera) : Prop :=
  ∃ difference, strncmp camera.mac.toList key 6 = .ok difference

/-- The lists that the key goes through. -/
structure Deletable (key : List UInt8) (cameras : List Camera) : Prop where
  compares : ∀ camera ∈ cameras, Compares key camera
  first : cameras.Pairwise fun earlier later => Takes key later → Takes key earlier

section

variable {heap : IpcamHeap} {link : Pointer} {key : List UInt8} {cameras : List Camera}

/-- A key with too few bytes and no terminator is equal to nothing. -/
theorem strncmp_short {s1 s2 : List UInt8} {n : Nat} (short : s2.length < n) (unterminated : 0 ∉ s2) :
    strncmp s1 s2 n ≠ .ok 0 := by
  induction s2 generalizing s1 n with
  | nil =>
      cases n with
      | zero => exact absurd short (Nat.not_lt_zero _)
      | succ n => cases s1 <;> exact fun same => by cases same
  | cons b s2 ih =>
      cases n with
      | zero => exact absurd short (Nat.not_lt_zero _)
      | succ n =>
          cases s1 with
          | nil => exact fun same => by cases same
          | cons a s1 =>
              rw [List.mem_cons, not_or] at unterminated
              unfold strncmp
              split
              · next differs =>
                  intro same
                  have equal : (a.toNat : Int) - b.toNat = 0 := Except.ok.inj same
                  exact differs (UInt8.toNat_inj.mp (by omega))
              · next same =>
                  rw [if_neg fun zero => unterminated.1 (by rw [← not_not.mp same, zero])]
                  exact ih (Nat.lt_of_succ_lt_succ short) unterminated.2

theorem takes_none (incomparable : ¬ Comparable key) (mac : Mac) : strncmp mac.toList key 6 ≠ .ok 0 := by
  have short : key.length < 6 := Nat.not_le.mp fun long => incomparable (comparable_of_length long)
  refine strncmp_short short fun terminated => incomparable fun other => ?_
  exact strncmp_total (Nat.le_of_eq other.toList_length.symm) (.inr terminated)

/-- Without a selected record the loop only compares. -/
theorem deleteByMacLoop_unselected (link : Pointer) (curr : Slot) (nextnode : Pointer)
    {position : Address} {node : IpcamNode} {rest : List (Address × IpcamNode)}
    (reached : curr.leadsTo link nextnode = some position)
    (chain : Chain IpcamNode.next heap (some position) ((position, node) :: rest))
    (kept : ∀ entry ∈ rest, ¬ Selects key entry.2) {fuel : Nat} (enough : rest.length < fuel)
    (ret : Nat) :
    (∀ entry ∈ rest, Compares key entry.2.camera) ∧
        deleteByMacLoop link key fuel heap curr nextnode ret = .ok (ret, heap) ∨
      (¬ ∀ entry ∈ rest, Compares key entry.2.camera) ∧
        ∃ fault, deleteByMacLoop link key fuel heap curr nextnode ret = .error fault := by
  induction fuel generalizing curr nextnode position node rest with
  | zero => cases enough
  | succ fuel ih =>
      cases rest with
      | nil =>
          exact .inl ⟨List.forall_mem_nil _, deleteByMacLoop_last fuel ret reached chain⟩
      | cons entry rest =>
          obtain ⟨second, candidate⟩ := entry
          rw [List.forall_mem_cons] at kept ⊢
          cases compared : strncmp candidate.nodeInfo.mac.toList key 6 with
          | error fault =>
              refine .inr ⟨fun all => ?_, fault, deleteByMacLoop_fault fuel ret reached chain compared⟩
              obtain ⟨difference, other⟩ := all.1
              cases compared.symm.trans other
          | ok difference =>
              have nonzero : difference ≠ 0 := by
                rintro rfl
                exact kept.1 compared
              have here : Compares key candidate.camera := ⟨difference, compared⟩
              rw [deleteByMacLoop_keep fuel ret reached chain compared nonzero, and_iff_right here]
              exact ih .nextnode (some second) rfl chain.next_cons.2 kept.2 (Nat.lt_of_succ_lt_succ enough)

theorem selected_first_iff (cells : List (Address × IpcamNode)) :
    SelectedFirst key cells ↔
      (camerasOf cells).Pairwise fun earlier later => Takes key later → Takes key earlier := by
  rw [SelectedFirst, camerasOf, List.pairwise_map]
  exact Iff.rfl

theorem remaining_cameras (cells : List (Address × IpcamNode)) :
    camerasOf (remaining key cells) = (camerasOf cells).filter fun camera => ¬ Takes key camera := by
  rw [camerasOf, camerasOf, List.filter_map]
  rfl

/-- The deletion on these lists removes what the key takes. -/
theorem deleteIpcamNodeByMac_deletable (represented : Represents heap link cameras)
    (deletable : Deletable key cameras) :
    ∃ ret after, deleteIpcamNodeByMac heap link key = .ok (ret, after) ∧
      Represents after link (cameras.filter fun camera => ¬ Takes key camera) := by
  obtain ⟨address, header, cells, rfl, chain, rfl⟩ := represented
  by_cases comparable : Comparable key
  · obtain ⟨ret, after, deletes⟩ := delete_selected_first comparable chain
      ((selected_first_iff cells).mpr deletable.first)
    obtain ⟨headerAfter, left, chainAfter, linked⟩ := deletes.linked
    have same := congrArg (List.map Prod.snd) linked
    rw [List.map_map, List.map_map] at same
    refine ⟨ret, after, deletes.returned, address, headerAfter, left, rfl, chainAfter, ?_⟩
    exact same.trans (remaining_cameras cells)
  · have enough : cells.length < 2 * heap.liveCells + 2 := by
      have bound := (tail_chain chain).2
      omega
    have takesNone (camera : Camera) : ¬ Takes key camera := takes_none comparable camera.mac
    rcases deleteByMacLoop_unselected (some address) .link none rfl chain
      (fun entry _ => takesNone entry.2.camera) enough 0 with ⟨_, ran⟩ | ⟨others, _⟩
    · refine ⟨0, heap, ran, address, header, cells, rfl, chain, ?_⟩
      exact (List.filter_eq_self.mpr fun camera _ => decide_eq_true (takesNone camera)).symm
    · exact absurd (fun entry member => deletable.compares _ (List.mem_map_of_mem member)) others

theorem deleteIpcamNodeByMac_fault (represented : Represents heap link cameras)
    (undeletable : ¬ Deletable key cameras) :
    ∃ fault, deleteIpcamNodeByMac heap link key = .error fault := by
  obtain ⟨address, header, cells, rfl, chain, rfl⟩ := represented
  by_cases comparable : Comparable key
  · refine ⟨_, delete_selected_behind comparable chain fun first => undeletable ⟨?_, ?_⟩⟩
    · exact fun camera _ => comparable camera.mac
    · exact (selected_first_iff cells).mp first
  · have enough : cells.length < 2 * heap.liveCells + 2 := by
      have bound := (tail_chain chain).2
      omega
    have takesNone (camera : Camera) : ¬ Takes key camera := takes_none comparable camera.mac
    rcases deleteByMacLoop_unselected (some address) .link none rfl chain
      (fun entry _ => takesNone entry.2.camera) enough 0 with ⟨all, _⟩ | ⟨_, failed⟩
    · refine absurd ⟨fun camera member => ?_, ?_⟩ undeletable
      · obtain ⟨entry, inside, rfl⟩ := List.mem_map.mp member
        exact all entry inside
      · exact List.pairwise_of_forall fun _ later taken => absurd taken (takesNone later)
    · exact failed

end

end IpcamSearch.IpcamList
