import IpcamSearch.Library.Run
import IpcamSearch.SearchPcProperties

/-! Runs of the PC tool under registering traffic: messages that register a camera,
messages it ignores, both watch ticks and the renew command, in any order. -/

set_option autoImplicit false

namespace IpcamSearch.Registry

open Memory IpcamList Message SearchPc KeyedList Run

inductive RegistryEvent where
  | register (announcement : Announcement)
  | ignore (msg : MsgBuf) (sender : SockaddrIn) (unhandled : Unhandled msg)
  | watchClear
  | watchTest
  | renew

section

variable (allocator : Allocator IpcamNode)

def step (ipcamDev : Pointer) (heap : IpcamHeap) : RegistryEvent → Except Fault IpcamHeap
  | .register announcement => receive allocator ipcamDev heap announcement
  | .ignore msg sender _ => dealMsgFunc allocator ipcamDev heap msg sender
  | .watchClear => clearAllDevOnline heap ipcamDev
  | .watchTest => testThenClear heap ipcamDev
  | .renew => do
      let (_, heap) ← deleteIpcamAllNode heap ipcamDev
      return heap

def runFromStart (events : List RegistryEvent) : Except Fault (IpcamHeap × Pointer) := do
  let (heap, ipcamDev) ← createEmptyIpcamLink allocator ∅
  let heap ← run (step allocator ipcamDev) heap events
  return (heap, ipcamDev)

end

def specStep (cameras : List Camera) : RegistryEvent → List Camera
  | .register announcement => enrol cameras announcement
  | .ignore _ _ _ => cameras
  | .watchClear => cameras.map Camera.clear
  | .watchTest => (cameras.map Camera.test).map Camera.clear
  | .renew => []

theorem step_spec (allocator : Allocator IpcamNode) {ipcamDev : Pointer} {heap : IpcamHeap}
    {cameras : List Camera} (event : RegistryEvent) (represented : Represents heap ipcamDev cameras) :
    ∃ after, step allocator ipcamDev heap event = .ok after ∧
      Represents after ipcamDev (specStep cameras event) := by
  cases event with
  | register announcement => exact receive_spec allocator represented announcement
  | ignore msg sender unhandled =>
      exact ⟨heap, dealMsgFunc_unhandled allocator heap ipcamDev unhandled sender, represented⟩
  | watchClear => exact clearAllDevOnline_spec represented
  | watchTest => exact testThenClear_spec represented
  | renew =>
      obtain ⟨after, deleted, empty⟩ := deleteIpcamAllNode_spec represented
      exact ⟨after, by simp only [step, deleted, ok_bind]; rfl, empty⟩

theorem runFromStart_spec (allocator : Allocator IpcamNode) (events : List RegistryEvent) :
    ∃ heap ipcamDev, runFromStart allocator events = .ok (heap, ipcamDev) ∧
      Represents heap ipcamDev (events.foldl specStep []) := by
  obtain ⟨start, ipcamDev, created, empty⟩ := createEmptyIpcamLink_spec allocator ∅
  obtain ⟨heap, ran, represents⟩ := run_simulates (Represents · ipcamDev)
    (fun _ _ event represented => step_spec allocator event represented) empty events
  refine ⟨heap, ipcamDev, ?_, represents⟩
  simp only [runFromStart, created, ok_bind, ran]
  rfl

/-- A message with the MAC was processed, and no renew command came after it. -/
def RegisteredSinceRenew (events : List RegistryEvent) (mac : Mac) : Prop :=
  Occurs (fun _ event later =>
    (∃ announcement, event = .register announcement ∧ announcement.mac = mac) ∧
      .renew ∉ later) events

theorem registered_append (events : List RegistryEvent) (event : RegistryEvent) (mac : Mac) :
    RegisteredSinceRenew (events ++ [event]) mac ↔
      (∃ announcement, event = .register announcement ∧ announcement.mac = mac) ∨
        event ≠ .renew ∧ RegisteredSinceRenew events mac := by
  refine occurs_append.trans (or_congr (and_iff_left List.not_mem_nil) ?_)
  constructor
  · rintro ⟨earlier, registered, later, split, carried, kept⟩
    rw [List.mem_append, List.mem_singleton, not_or] at kept
    exact ⟨fun isRenew => kept.2 isRenew.symm, earlier, registered, later, split, carried, kept.1⟩
  · rintro ⟨other, earlier, registered, later, split, carried, kept⟩
    refine ⟨earlier, registered, later, split, carried, ?_⟩
    rw [List.mem_append, List.mem_singleton, not_or]
    exact ⟨kept, fun isRenew => other isRenew.symm⟩

/-- The invariant of every run: one record a MAC, and the MACs of the records are
those registered since the last renew. -/
structure Exact (events : List RegistryEvent) (cameras : List Camera) : Prop where
  distinct : (cameras.map Camera.mac).Nodup
  registered : ∀ mac, mac ∈ cameras.map Camera.mac ↔ RegisteredSinceRenew events mac

theorem keys_specStep (cameras : List Camera) (event : RegistryEvent) (mac : Mac) :
    mac ∈ (specStep cameras event).map Camera.mac ↔
      (∃ announcement, event = .register announcement ∧ announcement.mac = mac) ∨
        event ≠ .renew ∧ mac ∈ cameras.map Camera.mac := by
  cases event with
  | register announcement =>
      refine (mem_keys_touch revive_mac _ _ _).trans ?_
      constructor
      · rintro (same | known)
        · exact .inl ⟨announcement, rfl, same.symm⟩
        · exact .inr ⟨by simp, known⟩
      · rintro (⟨_, same, carried⟩ | ⟨_, known⟩)
        · cases same
          exact .inl carried.symm
        · exact .inr known
  | ignore msg sender unhandled => simp [specStep]
  | watchClear =>
      rw [specStep, keys_map clear_mac]
      simp
  | watchTest =>
      rw [specStep, keys_map clear_mac, keys_map test_mac]
      simp
  | renew => simp [specStep]

theorem specStep_nodup {cameras : List Camera} (unique : (cameras.map Camera.mac).Nodup)
    (event : RegistryEvent) : ((specStep cameras event).map Camera.mac).Nodup := by
  cases event with
  | register announcement => exact touch_nodup revive_mac _ unique
  | ignore msg sender unhandled => exact unique
  | watchClear => rwa [specStep, keys_map clear_mac]
  | watchTest => rwa [specStep, keys_map clear_mac, keys_map test_mac]
  | renew => exact List.nodup_nil

theorem Exact.step {events : List RegistryEvent} {cameras : List Camera}
    (before : Exact events cameras) (event : RegistryEvent) :
    Exact (events ++ [event]) (specStep cameras event) where
  distinct := specStep_nodup before.distinct event
  registered := by
    intro mac
    rw [keys_specStep, registered_append, before.registered]

theorem exact_run (events : List RegistryEvent) : Exact events (events.foldl specStep []) := by
  induction events using List.reverseRecOn with
  | nil => exact ⟨List.nodup_nil, fun mac => by
      simp [RegisteredSinceRenew, not_occurs_nil]⟩
  | append_singleton events event ih =>
      rw [List.foldl_append]
      exact ih.step event

/-- After every run the list is a chain of live cells that holds each registered MAC
once and no other. When the insertion finds a MAC in it, so does the search that follows. -/
theorem registry_exact (allocator : Allocator IpcamNode) (events : List RegistryEvent) :
    ∃ heap address header cells, runFromStart allocator events = .ok (heap, some address) ∧
      Chain IpcamNode.next heap (some address) ((address, header) :: cells) ∧
      (cells.map fun entry => entry.2.nodeInfo.mac).Nodup ∧
      (∀ mac, mac ∈ (cells.map fun entry => entry.2.nodeInfo.mac) ↔
        RegisteredSinceRenew events mac) ∧
      ∀ node after, insertNodulpIpcamNode allocator heap (some address) node = .ok (false, after) →
        ∃ position found,
          searchIpcamNodeByMac after (some address) node.nodeInfo.mac = .ok (some position) ∧
            after.lookup position = some found ∧ found.nodeInfo.mac = node.nodeInfo.mac := by
  obtain ⟨heap, ipcamDev, ran, address, header, cells, rfl, chain, holds⟩ :=
    runFromStart_spec allocator events
  have keys : cells.map (fun entry => entry.2.nodeInfo.mac) =
      (events.foldl specStep []).map Camera.mac := by
    rw [← holds, camerasOf, List.map_map]
    rfl
  refine ⟨heap, address, header, cells, ran, chain, keys ▸ (exact_run events).distinct,
    fun mac => keys ▸ (exact_run events).registered mac, ?_⟩
  intro node after refused
  cases found : cells.find? (fun entry => decide (entry.2.nodeInfo.mac = node.nodeInfo.mac)) with
  | none =>
      obtain ⟨other, entered, inserted, _⟩ := insertNodulpIpcamNode_new allocator chain node found
      rw [inserted] at refused
      cases refused
  | some entry =>
      rw [insertNodulpIpcamNode_known allocator chain node found] at refused
      cases refused
      have member := List.mem_of_find?_eq_some found
      have same := List.find?_some found
      refine ⟨entry.1, entry.2, ?_, chain.live (List.mem_cons_of_mem _ member), by simpa using same⟩
      rw [searchIpcamNodeByMac_chain chain, found]
      rfl

end IpcamSearch.Registry
