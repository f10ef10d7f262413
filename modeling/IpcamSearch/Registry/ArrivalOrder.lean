import IpcamSearch.Registry.Traffic

/-! Messages of different cameras may be processed in any order, and a repeated
message changes nothing. -/

set_option autoImplicit false

namespace IpcamSearch.Registry

open Memory IpcamList Message SearchPc KeyedList Run

variable (allocator : Allocator IpcamNode) {heap : IpcamHeap} {ipcamDev : Pointer}
  {cameras : List Camera}

theorem run_receive (represented : Represents heap ipcamDev cameras)
    (announcements : List Announcement) :
    ∃ after, run (receive allocator ipcamDev) heap announcements = .ok after ∧
      Represents after ipcamDev (announcements.foldl enrol cameras) :=
  run_simulates (Represents · ipcamDev) (fun _ _ announcement holds => receive_spec allocator holds announcement)
    represented announcements

theorem foldl_enrol (announcements : List Announcement) (cameras : List Camera) :
    announcements.foldl enrol cameras = (announcements.map Announcement.camera).foldl
      (fun cameras camera => touch Camera.mac Camera.revive camera cameras) cameras := by
  rw [List.foldl_map]
  rfl

theorem receive_again (represented : Represents heap ipcamDev cameras)
    (announcement : Announcement) :
    ∃ after, receive allocator ipcamDev heap announcement = .ok after ∧
      receive allocator ipcamDev after announcement = .ok after := by
  obtain ⟨after, ran, represents⟩ := receive_spec allocator represented announcement
  refine ⟨after, ran, ?_⟩
  unfold receive
  rw [dealMsgFunc_registers allocator after ipcamDev announcement.registering announcement.sender]
  have listed := lookup_enrol cameras announcement announcement.mac
  rw [if_pos rfl] at listed
  exact registerNode_settled allocator represents _ listed (enrolled_alive announcement _)

/-- Two sequences that agree MAC by MAC leave the same records, and every message may
be repeated at once. -/
theorem arrival_order_irrelevant (represented : Represents heap ipcamDev cameras)
    (distinct : (cameras.map Camera.mac).Nodup) :
    (∀ first second : List Announcement,
      (∀ mac, first.filter (fun announcement => decide (announcement.mac = mac)) =
        second.filter fun announcement => decide (announcement.mac = mac)) →
      ∃ afterFirst afterSecond left right,
        run (receive allocator ipcamDev) heap first = .ok afterFirst ∧
        run (receive allocator ipcamDev) heap second = .ok afterSecond ∧
        Represents afterFirst ipcamDev left ∧ Represents afterSecond ipcamDev right ∧
        left.Perm right) ∧
    ∀ announcement, ∃ after, receive allocator ipcamDev heap announcement = .ok after ∧
      receive allocator ipcamDev after announcement = .ok after := by
  refine ⟨fun first second agree => ?_, receive_again allocator represented⟩
  obtain ⟨afterFirst, ranFirst, left⟩ := run_receive allocator represented first
  obtain ⟨afterSecond, ranSecond, right⟩ := run_receive allocator represented second
  rw [foldl_enrol] at left right
  refine ⟨afterFirst, afterSecond, _, _, ranFirst, ranSecond, left, right,
    foldl_touch_perm revive_mac distinct fun mac => ?_⟩
  rw [List.filter_map, List.filter_map]
  exact congrArg (List.map Announcement.camera) (agree mac)

theorem arrival_order_irrelevant_two_cameras :
    ∃ afterFirst afterSecond left right,
      run (receive Allocator.bump (some 1)) ((∅ : IpcamHeap).insert 1 default)
        [cameraLogin 85 ⟨Block.zeros 4, 6755⟩, cameraLogin 86 ⟨Block.zeros 4, 6755⟩] = .ok afterFirst ∧
      run (receive Allocator.bump (some 1)) ((∅ : IpcamHeap).insert 1 default)
        [cameraLogin 86 ⟨Block.zeros 4, 6755⟩, cameraLogin 85 ⟨Block.zeros 4, 6755⟩] = .ok afterSecond ∧
      Represents afterFirst (some 1) left ∧ Represents afterSecond (some 1) right ∧
      left.Perm right := by
  refine (arrival_order_irrelevant Allocator.bump (represents_header 1 default rfl)
    List.nodup_nil).1 _ _ fun mac => ?_
  have apart : (cameraLogin 85 ⟨Block.zeros 4, 6755⟩).mac ≠ (cameraLogin 86 ⟨Block.zeros 4, 6755⟩).mac := by decide
  by_cases same : (cameraLogin 85 ⟨Block.zeros 4, 6755⟩).mac = mac
  · have differs : (cameraLogin 86 ⟨Block.zeros 4, 6755⟩).mac ≠ mac := fun equal => apart (same.trans equal.symm)
    simp [same, differs]
  · simp [List.filter_cons, same]

end IpcamSearch.Registry
