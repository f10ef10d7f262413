import IpcamSearch.Registry.Traffic

/-! What a registering message leaves in the list under its MAC. A MAC that is
already known keeps the record of its first message. -/

set_option autoImplicit false

namespace IpcamSearch.Registry

open Memory IpcamList Message SearchPc KeyedList Run

/-- The MAC of the message leads to the data it came with, and the records with
other MACs are as they were. -/
structure Fresh (ipcamDev : Pointer) (msg : MsgBuf) (sender : SockaddrIn)
    (before after : IpcamHeap) : Prop where
  listed : ∃ record, recordByMac after ipcamDev (carriedMac msg) = .ok (some record) ∧
    record.nodeInfo.ipaddr = sender.sinAddr ∧
    record.nodeInfo.ipcamName = msg.header.ipcamName ∧ record.aliveFlag = 1
  others : ∃ cameras camerasAfter, Represents before ipcamDev cameras ∧
    Represents after ipcamDev camerasAfter ∧
    camerasAfter.filter (fun camera => decide (camera.mac ≠ carriedMac msg)) =
      cameras.filter fun camera => decide (camera.mac ≠ carriedMac msg)

/-- The MAC of the message is unknown, or its record already has the sender's
address and the name of the message. -/
def UpToDate (ipcamDev : Pointer) (msg : MsgBuf) (sender : SockaddrIn) (before : IpcamHeap) : Prop :=
  ∀ record, recordByMac before ipcamDev (carriedMac msg) = .ok (some record) →
    record.nodeInfo.ipaddr = sender.sinAddr ∧ record.nodeInfo.ipcamName = msg.header.ipcamName

section

variable (allocator : Allocator IpcamNode) {heap : IpcamHeap} {ipcamDev : Pointer}
  {cameras : List Camera}

theorem receive_fresh_iff (represented : Represents heap ipcamDev cameras)
    (announcement : Announcement) :
    ∃ after, receive allocator ipcamDev heap announcement = .ok after ∧
      (Fresh ipcamDev announcement.msg announcement.sender heap after ↔
        UpToDate ipcamDev announcement.msg announcement.sender heap) := by
  obtain ⟨after, ran, represents⟩ := receive_spec allocator represented announcement
  have listedAfter := recordByMac_spec represents announcement.mac
  have listedBefore := recordByMac_spec represented announcement.mac
  rw [lookup_enrol, if_pos rfl] at listedAfter
  refine ⟨after, ran, ?_⟩
  constructor
  · rintro ⟨⟨record, found, address, name, _⟩, _⟩ old known
    rw [listedBefore] at known
    rw [listedAfter, Except.ok.inj known] at found
    cases Option.some.inj (Except.ok.inj found)
    exact ⟨address, name⟩
  · intro upToDate
    refine ⟨⟨_, listedAfter, ?_⟩, cameras, _, represented, represents,
      filter_touch revive_mac announcement.camera cameras⟩
    cases known : lookup Camera.mac cameras announcement.mac with
    | none => exact ⟨rfl, rfl, rfl⟩
    | some old =>
        have current := upToDate old (listedBefore.trans (congrArg Except.ok known))
        exact ⟨current.1, current.2, rfl⟩

/-- A property of the heaps before and after each registering message of a run. -/
def EachRegistration (ipcamDev : Pointer) (start : IpcamHeap) (events : List RegistryEvent)
    (holds : MsgBuf → SockaddrIn → IpcamHeap → IpcamHeap → Prop) : Prop :=
  ∀ earlier announcement later before after,
    events = earlier ++ .register announcement :: later →
    run (step allocator ipcamDev) start earlier = .ok before →
    receive allocator ipcamDev before announcement = .ok after →
    holds announcement.msg announcement.sender before after

/-- From any registry, a message is listed with its own data exactly when its MAC has
no older record with other data, and so is every message of a run. -/
theorem registry_fresh_iff (represented : Represents heap ipcamDev cameras) :
    (∀ announcement, ∃ after, receive allocator ipcamDev heap announcement = .ok after ∧
      (Fresh ipcamDev announcement.msg announcement.sender heap after ↔
        UpToDate ipcamDev announcement.msg announcement.sender heap)) ∧
    ∀ events, (∃ final, run (step allocator ipcamDev) heap events = .ok final) ∧
      (EachRegistration allocator ipcamDev heap events (Fresh ipcamDev) ↔
        EachRegistration allocator ipcamDev heap events
          fun msg sender before _ => UpToDate ipcamDev msg sender before) := by
  refine ⟨receive_fresh_iff allocator represented, fun events => ?_⟩
  have reached : ∀ earlier, ∃ before, run (step allocator ipcamDev) heap earlier = .ok before ∧
      Represents before ipcamDev (earlier.foldl specStep cameras) := fun earlier =>
    run_simulates (Represents · ipcamDev) (fun _ _ event holds => step_spec allocator event holds)
      represented earlier
  refine ⟨⟨_, (reached events).choose_spec.1⟩, ?_⟩
  have agree : ∀ {earlier announcement before after},
      run (step allocator ipcamDev) heap earlier = .ok before →
      receive allocator ipcamDev before announcement = .ok after →
      (Fresh ipcamDev announcement.msg announcement.sender before after ↔
        UpToDate ipcamDev announcement.msg announcement.sender before) := by
    intro earlier announcement before after ran dealt
    obtain ⟨_, same, represents⟩ := reached earlier
    rw [ran] at same
    cases same
    obtain ⟨_, again, holds⟩ := receive_fresh_iff allocator represents announcement
    rw [again] at dealt
    cases dealt
    exact holds
  constructor
  · intro fresh earlier announcement later before after split ran dealt
    exact (agree ran dealt).mp (fresh earlier announcement later before after split ran dealt)
  · intro upToDate earlier announcement later before after split ran dealt
    exact (agree ran dealt).mpr (upToDate earlier announcement later before after split ran dealt)

end

def firstAddress : SockaddrIn := ⟨Block.ofList 4 [10, 0, 0, 1], 6755⟩

def secondAddress : SockaddrIn := ⟨Block.ofList 4 [10, 0, 0, 2], 6755⟩

/-- A camera that logs in twice from one address is listed with its own data each time. -/
theorem registry_fresh_iff_twice :
    EachRegistration Allocator.bump (some 1) ((∅ : IpcamHeap).insert 1 default)
      [.register (cameraLogin 85 firstAddress), .register (cameraLogin 85 firstAddress)]
      (Fresh (some 1)) := by
  have empty := represents_header 1 default rfl
  refine ((registry_fresh_iff Allocator.bump empty).2 _).2.mpr ?_
  intro earlier announcement later before after split ran _ record known
  cases earlier with
  | nil =>
      cases ran
      rw [recordByMac_spec empty] at known
      cases known
  | cons first earlier =>
      obtain ⟨rfl, rest⟩ := List.cons.inj split
      cases earlier with
      | nil =>
          cases rest
          obtain ⟨listed, registered, represented⟩ :=
            receive_spec Allocator.bump empty (cameraLogin 85 firstAddress)
          rw [run_single] at ran
          cases registered.symm.trans ran
          have found := recordByMac_spec represented (cameraLogin 85 firstAddress).mac
          cases found.symm.trans known
          exact ⟨rfl, rfl⟩
      | cons second earlier =>
          have longer := congrArg List.length rest
          simp at longer

/-- A camera that logs in again from another address stays listed under the first one. -/
theorem address_change_lost :
    ∃ before after ipcamDev record,
      runFromStart Allocator.bump [.register (cameraLogin 85 firstAddress)] =
        .ok (before, ipcamDev) ∧
      receive Allocator.bump ipcamDev before (cameraLogin 85 secondAddress) = .ok after ∧
      recordByMac after ipcamDev (cameraLogin 85 secondAddress).mac = .ok (some record) ∧
      record.nodeInfo.ipaddr = firstAddress.sinAddr ∧
      ¬ Fresh ipcamDev (cameraLogin 85 secondAddress).msg secondAddress before after := by
  obtain ⟨before, ipcamDev, ran, represented⟩ := runFromStart_spec Allocator.bump
    [.register (cameraLogin 85 firstAddress)]
  obtain ⟨after, dealt, represents⟩ := receive_spec Allocator.bump represented
    (cameraLogin 85 secondAddress)
  have found := recordByMac_spec represents (cameraLogin 85 secondAddress).mac
  refine ⟨before, after, ipcamDev, (cameraLogin 85 firstAddress).camera, ran, dealt,
    found.trans rfl, rfl, ?_⟩
  rintro ⟨⟨record, listed, address, _⟩, _⟩
  rw [found] at listed
  cases Option.some.inj (Except.ok.inj listed)
  exact absurd address (by decide)

end IpcamSearch.Registry
