import IpcamSearch.Registry.Watch

/-! The watch thread of the build without the event loop. It clears the empty list
at its start and then tests before it clears at every cycle boundary. -/

set_option autoImplicit false

namespace IpcamSearch.Registry

open Memory IpcamList Message SearchPc KeyedList Run

/-- What a cycle boundary does to the list in `maintain_ipcam_link`: the test at the
end of one round of the loop and the clear at the start of the next. -/
def WatchEvent.onThread : WatchEvent → RegistryEvent
  | register announcement => .register announcement
  | renew => .renew
  | tick => .watchTest

section

variable (allocator : Allocator IpcamNode)

def threadStep (ipcamDev : Pointer) (heap : IpcamHeap) (event : WatchEvent) :
    Except Fault IpcamHeap :=
  step allocator ipcamDev heap event.onThread

def threadRun (events : List WatchEvent) : Except Fault (IpcamHeap × Pointer) := do
  let (heap, ipcamDev) ← createEmptyIpcamLink allocator ∅
  let heap ← clearAllDevOnline heap ipcamDev
  let heap ← run (threadStep allocator ipcamDev) heap events
  return (heap, ipcamDev)

end

section Agreement

variable (allocator : Allocator IpcamNode) {heap : IpcamHeap} {ipcamDev : Pointer} {fired : Nat}
  {cameras : List Camera}

/-- Up to the first boundary every record is freshly heard. Afterwards the schedules
do the same and nothing more is needed. -/
def FreshUntilFirst (fired : Nat) (cameras : List Camera) : Prop :=
  fired = 0 → ∀ camera ∈ cameras, camera.aliveFlag = 1

theorem freshUntilFirst_step (fresh : FreshUntilFirst fired cameras) (event : WatchEvent) :
    FreshUntilFirst (fired + event.fires) (specStep cameras (event.onTimer fired)) := by
  intro none camera member
  have start : fired = 0 := by omega
  cases event with
  | register announcement =>
      rcases mem_touch member with rfl | ⟨old, _, rfl⟩ | old
      · rfl
      · rfl
      · exact fresh start camera old
  | renew => exact absurd member List.not_mem_nil
  | tick => simp [WatchEvent.fires] at none

theorem schedules_step (represented : Represents heap ipcamDev cameras)
    (fresh : FreshUntilFirst fired cameras) (event : WatchEvent) :
    ∃ after, threadStep allocator ipcamDev heap event = .ok after ∧
      timerStep allocator ipcamDev (fired, heap) event = .ok (fired + event.fires, after) ∧
      Represents after ipcamDev (specStep cameras (event.onTimer fired)) := by
  obtain ⟨after, stepped, represents⟩ := step_spec allocator (event.onTimer fired) represented
  refine ⟨after, ?_, by simp only [timerStep, stepped, ok_bind]; rfl, represents⟩
  cases event with
  | register announcement => exact stepped
  | renew => exact stepped
  | tick =>
      by_cases first : fired = 0
      · simp only [WatchEvent.onTimer, if_pos first, step] at stepped
        simp only [threadStep, WatchEvent.onThread, step, testThenClear,
          testAllDevOnline_settled represented (fresh first), ok_bind, stepped]
      · rw [WatchEvent.onTimer, if_neg first] at stepped
        exact stepped

theorem schedules_run (represented : Represents heap ipcamDev cameras)
    (fresh : FreshUntilFirst fired cameras) (events : List WatchEvent) :
    ∃ after firedAfter camerasAfter,
      run (threadStep allocator ipcamDev) heap events = .ok after ∧
      run (timerStep allocator ipcamDev) (fired, heap) events = .ok (firedAfter, after) ∧
      Represents after ipcamDev camerasAfter := by
  induction events generalizing heap fired cameras with
  | nil => exact ⟨heap, fired, cameras, rfl, rfl, represented⟩
  | cons event events ih =>
      obtain ⟨middle, threaded, timed, represents⟩ := schedules_step allocator represented fresh event
      obtain ⟨after, firedAfter, camerasAfter, ranThread, ranTimer, final⟩ :=
        ih represents (freshUntilFirst_step fresh event)
      refine ⟨after, firedAfter, camerasAfter, ?_, ?_, final⟩
      · rw [run_cons, threaded]
        exact ranThread
      · rw [run_cons, timed]
        exact ranTimer

end Agreement

/-- Both schedules leave the same list, record by record, after every run. -/
theorem schedules_agree (allocator : Allocator IpcamNode) (events : List WatchEvent) :
    ∃ heap ipcamDev cameras, threadRun allocator events = .ok (heap, ipcamDev) ∧
      timerRun allocator events = .ok (heap, ipcamDev) ∧ Represents heap ipcamDev cameras := by
  obtain ⟨start, ipcamDev, created, empty⟩ := createEmptyIpcamLink_spec allocator ∅
  obtain ⟨heap, fired, cameras, threaded, timed, represents⟩ := schedules_run allocator
    empty (fun _ _ member => absurd member List.not_mem_nil : FreshUntilFirst 0 []) events
  refine ⟨heap, ipcamDev, cameras, ?_, ?_, represents⟩
  · simp only [threadRun, created, ok_bind, clearAllDevOnline_empty empty, threaded]
    rfl
  · simp only [timerRun, created, ok_bind, timed]
    rfl

end IpcamSearch.Registry
