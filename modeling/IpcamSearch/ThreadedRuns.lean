import IpcamSearch.DeleteByKey
import IpcamSearch.Registry.ToolRefinement
import IpcamSearch.ThreadedTool

/-! The three threads of `ipcam_search_pc.c` where it is not built for Linux. `release_exit`, which
frees the list without the lock and ends the process, is left out: the runs end before it. -/

set_option autoImplicit false

namespace IpcamSearch.ThreadedTool

open Memory IpcamList Message SearchPc SearchPcLoop Console KeyedList Run Threads HeapProgram Registry
  ReceivedBytes

inductive ToolThread where
  | dealConsoleInput
  | recvMsgFromIpcam
  | maintainIpcamLink
deriving DecidableEq

/-- What stands between `pthread_mutex_lock` and `pthread_mutex_unlock`. -/
inductive Region where
  | register (remoteIpcamInfo : IpcamInfo)
  | logout (extenMsg : List UInt8)
  | renew
  | list
  | clear
  | test

/-- What a thread waits for: a line, a datagram over the old contents of the buffer, and the end
of the sleep. -/
inductive ToolInput where
  | line (piece : List UInt8)
  | datagram (buf : Block MAX_MSG_LEN) (bytes : List UInt8) (peer : SockaddrIn)
  | wake

namespace Region

section

variable (allocator : Allocator IpcamNode) (ipcamDev : Pointer)

def code : Region → ListProg (Option (List ListRow))
  | register remoteIpcamInfo => do
      registerNode ipcamDev remoteIpcamInfo
      return none
  | logout extenMsg => do
      let _ ← deleteIpcamNodeByMac ipcamDev extenMsg
      return none
  | renew => do
      let _ ← deleteIpcamAllNode ipcamDev
      return none
  | list => do
      let rows ← listIpcam ipcamDev
      return some rows
  | clear => do
      clearAllDevOnline ipcamDev
      return none
  | test => do
      testAllDevOnline ipcamDev
      return none

/-- The function that the region calls, without a pause. -/
def alone (heap : IpcamHeap) : Region → Except Fault (Option (List ListRow) × IpcamHeap)
  | register remoteIpcamInfo => do
      return (none, ← SearchPc.registerNode allocator ipcamDev heap remoteIpcamInfo)
  | logout extenMsg => do
      let (_, heap) ← IpcamList.deleteIpcamNodeByMac heap ipcamDev extenMsg
      return (none, heap)
  | renew => do
      let (_, heap) ← IpcamList.deleteIpcamAllNode heap ipcamDev
      return (none, heap)
  | list => do
      return (some (← SearchPc.listIpcam heap ipcamDev), heap)
  | clear => do
      return (none, ← SearchPc.clearAllDevOnline heap ipcamDev)
  | test => do
      return (none, ← SearchPc.testAllDevOnline heap ipcamDev)

theorem code_exec (heap : IpcamHeap) (region : Region) :
    (region.code ipcamDev).exec allocator heap = region.alone allocator ipcamDev heap := by
  cases region with
  | register => simp only [code, alone, Prog.exec_bind, exec_registerNode, Prog.exec_pure, map_bind]; rfl
  | logout => simp only [code, alone, Prog.exec_bind, exec_deleteIpcamNodeByMac, Prog.exec_pure]; rfl
  | renew => simp only [code, alone, Prog.exec_bind, exec_deleteIpcamAllNode, Prog.exec_pure]; rfl
  | list => simp only [code, alone, Prog.exec_bind, exec_listIpcam, Prog.exec_pure, map_bind]; rfl
  | clear => simp only [code, alone, Prog.exec_bind, exec_clearAllDevOnline, Prog.exec_pure, map_bind]; rfl
  | test => simp only [code, alone, Prog.exec_bind, exec_testAllDevOnline, Prog.exec_pure, map_bind]; rfl

/-- The regions of a command. The case of `r` falls through to that of `s`, and that one to
the case of `l`. -/
def ofCommand (cmdString : List UInt8) : List Region :=
  match Command.ofString cmdString with
  | .renew => [renew, list]
  | .search => [list]
  | .list => [list]
  | .quit => []
  | .help => []

/-- The region of `deal_msg_func`. Before it the fields are copied from the message. -/
def ofMsg (msg : MsgBuf) (sender : SockaddrIn) : Except Fault (List Region) :=
  match IpcamSearchMsgType.ofByte? msg.header.type with
  | some .login => do return [register (← remoteOfLogin msg sender)]
  | some .logout => return [logout msg.extenMsg]
  | some .heartbeat => do return [register (← remoteOfExtension msg sender)]
  | some .ackAlive => do return [register (← remoteOfExtension msg sender)]
  | _ => return []

end

end Region

def ToolInput.thread : ToolInput → ToolThread
  | line _ => .dealConsoleInput
  | datagram _ _ _ => .recvMsgFromIpcam
  | wake => .maintainIpcamLink

/-- The commands of a line run up to one that quits. -/
def ToolInput.regions : ToolInput → Except Fault (List Region)
  | line piece =>
      .ok (((commandsIn (some piece)).takeWhile fun cmdString =>
        Command.ofString cmdString ≠ .quit).flatMap Region.ofCommand)
  | datagram buf bytes peer => Region.ofMsg (received bytes buf) peer
  | wake => .ok [.test, .clear]

/-- `maintain_ipcam_link` begins with a region of its own. -/
def firstRegions : ToolThread → List Region
  | .maintainIpcamLink => [.clear]
  | _ => []

def tool (ipcamDev : Pointer) :
    Programs ToolThread Region ToolInput IpcamNode (Option (List ListRow)) where
  first := firstRegions
  takes := ToolInput.thread
  regions := ToolInput.regions
  code := Region.code ipcamDev

namespace Region

/-- What a region does to the cameras. -/
def effect (cameras : List Camera) : Region → List Camera
  | register remoteIpcamInfo => announce ⟨remoteIpcamInfo, 1⟩ cameras
  | logout extenMsg => cameras.filter fun camera => ¬ Takes extenMsg camera
  | renew => []
  | list => cameras
  | clear => cameras.map Camera.clear
  | test => cameras.map Camera.test

def shows (cameras : List Camera) : Region → Option (List ListRow)
  | list => some (cameras.map rowOf)
  | _ => none

def Allowed (cameras : List Camera) : Region → Prop
  | logout extenMsg => Deletable extenMsg cameras
  | list => NamesTerminated cameras
  | _ => True

def react (state : List Camera × List (Option (List ListRow))) (region : Region) :
    List Camera × List (Option (List ListRow)) :=
  (region.effect state.1, state.2 ++ [region.shows state.1])

/-- The cameras and the tables after the regions in this order. -/
def inOrder (regions : List Region) : List Camera × List (Option (List ListRow)) :=
  regions.foldl react ([], [])

/-- Every region meets cameras that it can deal with. -/
def Fine (regions : List Region) : Prop :=
  Always (fun earlier region => region.Allowed (inOrder earlier).1) regions

section Alone

variable {allocator : Allocator IpcamNode} {heap : IpcamHeap} {ipcamDev : Pointer}
  {cameras : List Camera}

theorem alone_allowed (represented : Represents heap ipcamDev cameras) {region : Region}
    (allowed : region.Allowed cameras) :
    ∃ after, region.alone allocator ipcamDev heap = .ok (region.shows cameras, after) ∧
      Represents after ipcamDev (region.effect cameras) := by
  cases region with
  | register remoteIpcamInfo =>
      obtain ⟨after, registered, represents⟩ := registerNode_spec allocator represented remoteIpcamInfo
      exact ⟨after, by rw [alone, registered]; rfl, represents⟩
  | logout extenMsg =>
      obtain ⟨ret, after, deleted, represents⟩ := deleteIpcamNodeByMac_deletable represented allowed
      exact ⟨after, by rw [alone, deleted]; rfl, represents⟩
  | renew =>
      obtain ⟨after, deleted, represents⟩ := deleteIpcamAllNode_spec represented
      exact ⟨after, by rw [alone, deleted]; rfl, represents⟩
  | list =>
      refine ⟨heap, ?_, represented⟩
      rw [alone, listIpcam_spec represented, mapM_listRow allowed]
      rfl
  | clear =>
      obtain ⟨after, cleared, represents⟩ := clearAllDevOnline_spec represented
      exact ⟨after, by rw [alone, cleared]; rfl, represents⟩
  | test =>
      obtain ⟨after, tested, represents⟩ := testAllDevOnline_spec represented
      exact ⟨after, by rw [alone, tested]; rfl, represents⟩

theorem alone_refused (represented : Represents heap ipcamDev cameras) {region : Region}
    (refused : ¬ region.Allowed cameras) :
    ∃ fault, region.alone allocator ipcamDev heap = .error fault := by
  cases region with
  | register | renew | clear | test => exact absurd trivial refused
  | logout extenMsg =>
      obtain ⟨fault, failed⟩ := deleteIpcamNodeByMac_fault represented refused
      exact ⟨fault, by rw [alone, failed]; rfl⟩
  | list => exact ⟨.outOfBounds, by rw [alone, listIpcam_fault represented refused]; rfl⟩

end Alone

end Region

section Runs

variable (allocator : Allocator IpcamNode) (ipcamDev : Pointer)

/-- The functions that the regions call, one after another. -/
def regionStep (state : IpcamHeap × List (Option (List ListRow))) (region : Region) :
    Except Fault (IpcamHeap × List (Option (List ListRow))) :=
  (region.alone allocator ipcamDev state.1).map fun result => (result.2, state.2 ++ [result.1])

theorem serialStep_tool : serialStep allocator (tool ipcamDev) = regionStep allocator ipcamDev := by
  funext state region
  rw [serialStep, regionStep, ← Region.code_exec]
  rfl

/-- The regions of a datagram, one after another, are `deal_msg_func`. -/
theorem dealMsgFunc_regions (heap : IpcamHeap) (msg : MsgBuf) (sender : SockaddrIn) :
    dealMsgFunc allocator ipcamDev heap msg sender = (do
      let regions ← Region.ofMsg msg sender
      let final ← run (regionStep allocator ipcamDev) (heap, []) regions
      return final.1) := by
  have one (region : Region) : (do
      let final ← run (regionStep allocator ipcamDev) (heap, []) [region]
      return final.1) = (region.alone allocator ipcamDev heap).map Prod.snd := by
    rw [run_single, regionStep, map_bind]
    cases region.alone allocator ipcamDev heap <;> rfl
  have registered (remote : IpcamInfo) : ((Region.register remote).alone allocator ipcamDev heap).map
      Prod.snd = SearchPc.registerNode allocator ipcamDev heap remote := by
    rw [Region.alone]
    cases SearchPc.registerNode allocator ipcamDev heap remote <;> rfl
  unfold dealMsgFunc Region.ofMsg
  cases type : IpcamSearchMsgType.ofByte? msg.header.type with
  | none => rfl
  | some label =>
      cases label with
      | queryAlive | dhcp | ackDhcp | setIp | ackIp => rfl
      | login =>
          cases remoteOfLogin msg sender with
          | error => rfl
          | ok remote => exact ((one (.register remote)).trans (registered remote)).symm
      | heartbeat | ackAlive =>
          cases remoteOfExtension msg sender with
          | error => rfl
          | ok remote => exact ((one (.register remote)).trans (registered remote)).symm
      | logout =>
          refine Eq.trans ?_ (one (.logout msg.extenMsg)).symm
          rw [Region.alone]
          cases IpcamList.deleteIpcamNodeByMac heap ipcamDev msg.extenMsg <;> rfl

/-- The states of the program. -/
abbrev ToolMachine := Machine ToolThread Region ToolInput IpcamNode (Option (List ListRow))

def runThreads (heap : IpcamHeap) (events : List (ThreadEvent ToolThread ToolInput)) :
    Except Fault ToolMachine :=
  run (threadStep allocator (tool ipcamDev)) (begin (tool ipcamDev) heap) events

theorem effect_nodup {cameras : List Camera} (unique : (cameras.map Camera.mac).Nodup)
    (region : Region) : ((region.effect cameras).map Camera.mac).Nodup := by
  cases region with
  | register remoteIpcamInfo => exact touch_nodup revive_mac _ unique
  | logout extenMsg => exact unique.sublist (List.filter_sublist.map _)
  | renew => exact List.nodup_nil
  | list => exact unique
  | clear => rwa [Region.effect, keys_map clear_mac]
  | test => rwa [Region.effect, keys_map test_mac]

theorem inOrder_append (regions : List Region) (region : Region) :
    Region.inOrder (regions ++ [region]) = Region.react (Region.inOrder regions) region := by
  simp [Region.inOrder]

theorem inOrder_nodup (regions : List Region) :
    ((Region.inOrder regions).1.map Camera.mac).Nodup := by
  induction regions using List.reverseRecOn with
  | nil => exact List.nodup_nil
  | append_singleton regions region ih =>
      rw [inOrder_append]
      exact effect_nodup ih region

variable {allocator ipcamDev}

/-- The heap has these cameras, and the values are these. -/
def Matches (ipcamDev : Pointer) (state : IpcamHeap × List (Option (List ListRow)))
    (spec : List Camera × List (Option (List ListRow))) : Prop :=
  Represents state.1 ipcamDev spec.1 ∧ state.2 = spec.2

/-- The regions one after another go through exactly if each meets cameras that it can deal
with. -/
theorem regions_run {heap : IpcamHeap} (empty : Represents heap ipcamDev []) (regions : List Region) :
    ((∃ final, run (regionStep allocator ipcamDev) (heap, []) regions = .ok final) ↔
        Region.Fine regions) ∧
      ∀ final, run (regionStep allocator ipcamDev) (heap, []) regions = .ok final →
        Matches ipcamDev final (Region.inOrder regions) := by
  have initially : Matches ipcamDev (heap, []) ([], []) := ⟨empty, rfl⟩
  refine run_simulates_exact (Matches ipcamDev) (fun spec region => region.Allowed spec.1) ?_ ?_
    initially regions
  · rintro ⟨state, values⟩ ⟨cameras, _⟩ region ⟨represented, rfl⟩ allowed
    obtain ⟨after, ran, represents⟩ := Region.alone_allowed represented allowed
    exact ⟨(after, values ++ [region.shows cameras]), by rw [regionStep, ran]; rfl, represents, rfl⟩
  · rintro ⟨state, values⟩ ⟨cameras, _⟩ region ⟨represented, rfl⟩ refused
    obtain ⟨fault, failed⟩ := Region.alone_refused represented refused
    exact ⟨fault, by rw [regionStep, failed]; rfl⟩

end Runs

end IpcamSearch.ThreadedTool
