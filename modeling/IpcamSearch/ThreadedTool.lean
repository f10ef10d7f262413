import IpcamSearch.Library.Threads
import IpcamSearch.SearchPc

/-! The list functions in `ipcam_search_pc.c`, one access after another, as its threads run them
inside the lock. Alone they do what the functions do. -/

set_option autoImplicit false

namespace IpcamSearch.ThreadedTool

open Memory IpcamList SearchPc HeapProgram

abbrev ListProg (Value : Type) := Prog IpcamNode Value

section Programs

variable (ipcamDev : Pointer)

def searchIpcamNodeByMac (mac : Mac) : ListProg Pointer := do
  let header ← Prog.load ipcamDev
  let cells ← Prog.liveCells
  find IpcamNode.next (fun q => decide (strvalncmp q.nodeInfo.mac mac = 0)) (cells + 1) header.next

def insertIpcamNode (insertNode : IpcamNode) : ListProg Unit := do
  let q ← Prog.allocate
  Prog.store q insertNode
  let header ← Prog.load ipcamDev
  Prog.store q { insertNode with next := header.next }
  let header ← Prog.load ipcamDev
  Prog.store ipcamDev { header with next := q }

def insertNodulpIpcamNode (insertNode : IpcamNode) : ListProg Bool := do
  match ← searchIpcamNodeByMac ipcamDev insertNode.nodeInfo.mac with
  | some _ => return false
  | none =>
      insertIpcamNode ipcamDev insertNode
      return true

/-- The region of the registering cases of `deal_msg_func`. -/
def registerNode (remoteIpcamInfo : IpcamInfo) : ListProg Unit := do
  let newIpcamNode : IpcamNode := {
    nodeInfo := remoteIpcamInfo
    aliveFlag := 1
    next := none }
  let ret ← insertNodulpIpcamNode ipcamDev newIpcamNode
  if ret then return ()
  let tmpNode ← searchIpcamNodeByMac ipcamDev remoteIpcamInfo.mac
  let node ← Prog.load tmpNode
  Prog.store tmpNode { node with aliveFlag := 1 }

def deleteAllLoop : Nat → Nat → ListProg Nat
  | 0, _ => .fails .divergence
  | fuel + 1, ret => do
      let header ← Prog.load ipcamDev
      match header.next with
      | none => return ret
      | some entry =>
          let entryNode ← Prog.load (some entry)
          Prog.store ipcamDev { header with next := entryNode.next }
          Prog.release (some entry)
          deleteAllLoop fuel (ret + 1)

def deleteIpcamAllNode : ListProg Nat := do
  let cells ← Prog.liveCells
  deleteAllLoop ipcamDev (cells + 1) 0

def deleteByMacLoop (mac : List UInt8) : Nat → Slot → Pointer → Nat → ListProg Nat
  | 0, _, _, _ => .fails .divergence
  | fuel + 1, curr, nextnode, ret => do
      let deref (nextnode : Pointer) : Pointer :=
        match curr with
        | .link => ipcamDev
        | .nextnode => nextnode
      if deref nextnode = none then return ret
      let here ← Prog.load (deref nextnode)
      let nextnode := here.next
      if nextnode = none then return ret
      let candidate ← Prog.load nextnode
      let differs ← Prog.ofExcept (strncmp candidate.nodeInfo.mac.toList mac 6)
      if differs = 0 then
        let target ← Prog.load (deref nextnode)
        Prog.store (deref nextnode) { target with next := candidate.next }
        Prog.release nextnode
        deleteByMacLoop mac fuel curr nextnode (ret + 1)
      else
        deleteByMacLoop mac fuel .nextnode nextnode ret

def deleteIpcamNodeByMac (mac : List UInt8) : ListProg Nat := do
  let cells ← Prog.liveCells
  deleteByMacLoop ipcamDev mac (2 * cells + 2) .link none 0

def clearAllDevOnline : ListProg Unit := do
  let header ← Prog.load ipcamDev
  let cells ← Prog.liveCells
  forEach IpcamNode.next
    (fun q => { q with aliveFlag := q.aliveFlag ||| ((1 : Int32) <<< (1 : Int32)) }) (cells + 1)
    header.next

def testAllDevOnline : ListProg Unit := do
  let header ← Prog.load ipcamDev
  let cells ← Prog.liveCells
  forEach IpcamNode.next
    (fun q => { q with aliveFlag := if q.aliveFlag ≠ 1 then 0 else q.aliveFlag }) (cells + 1)
    header.next

def listLoop : Nat → Pointer → ListProg (List ListRow)
  | 0, _ => .fails .divergence
  | _ + 1, none => return []
  | fuel + 1, some address => do
      let q ← Prog.load (some address)
      let ipcamName ← Prog.ofExcept (printString q.nodeInfo.ipcamName.toList)
      let rows ← listLoop fuel q.next
      return {
        alive := showsAlive q.aliveFlag
        ipaddr := q.nodeInfo.ipaddr
        ipcamName := ipcamName
        mac := q.nodeInfo.mac
        startupTime := q.nodeInfo.startupTime } :: rows

def listIpcam : ListProg (List ListRow) := do
  let header ← Prog.load ipcamDev
  let cells ← Prog.liveCells
  listLoop (cells + 1) header.next

end Programs

section Alone

open Prog

variable (allocator : Allocator IpcamNode) (heap : IpcamHeap) (ipcamDev : Pointer)

theorem exec_searchIpcamNodeByMac (mac : Mac) :
    (searchIpcamNodeByMac ipcamDev mac).exec allocator heap =
      (IpcamList.searchIpcamNodeByMac heap ipcamDev mac).map fun found => (found, heap) := by
  simp only [searchIpcamNodeByMac, IpcamList.searchIpcamNodeByMac, exec_bind, exec_load,
    exec_liveCells, exec_find, map_bind, bind_map, ok_bind]

theorem exec_insertIpcamNode (insertNode : IpcamNode) :
    (insertIpcamNode ipcamDev insertNode).exec allocator heap =
      (IpcamList.insertIpcamNode allocator heap ipcamDev insertNode).map fun after => ((), after) := by
  simp only [insertIpcamNode, IpcamList.insertIpcamNode, exec_bind, exec_allocate, exec_load,
    exec_store, map_bind, bind_map, ok_bind]

theorem exec_insertNodulpIpcamNode (insertNode : IpcamNode) :
    (insertNodulpIpcamNode ipcamDev insertNode).exec allocator heap =
      IpcamList.insertNodulpIpcamNode allocator heap ipcamDev insertNode := by
  rw [insertNodulpIpcamNode, IpcamList.insertNodulpIpcamNode, exec_bind,
    exec_searchIpcamNodeByMac, map_bind]
  congr 1
  funext found
  cases found with
  | some => rfl
  | none => simp only [exec_bind, exec_insertIpcamNode, exec_pure, map_bind]; rfl

theorem exec_registerNode (remoteIpcamInfo : IpcamInfo) :
    (registerNode ipcamDev remoteIpcamInfo).exec allocator heap =
      (SearchPc.registerNode allocator ipcamDev heap remoteIpcamInfo).map fun after => ((), after) := by
  simp only [registerNode, SearchPc.registerNode, exec_bind, exec_insertNodulpIpcamNode, bind_map]
  congr 1
  funext inserted
  obtain ⟨ret, after⟩ := inserted
  cases ret with
  | true => rfl
  | false =>
      simp only [Bool.false_eq_true, if_false, exec_bind, exec_searchIpcamNodeByMac, exec_load,
        exec_store, map_bind, bind_map]

theorem exec_deleteAllLoop (fuel ret : Nat) :
    (deleteAllLoop ipcamDev fuel ret).exec allocator heap =
      IpcamList.deleteAllLoop ipcamDev fuel heap ret := by
  induction fuel generalizing heap ret with
  | zero => rfl
  | succ fuel ih =>
      rw [deleteAllLoop, IpcamList.deleteAllLoop, exec_bind, exec_load, map_bind]
      congr 1
      funext header
      cases header.next with
      | none => rfl
      | some entry => simp only [exec_bind, exec_load, exec_store, exec_release, map_bind, ih]

theorem exec_deleteIpcamAllNode :
    (deleteIpcamAllNode ipcamDev).exec allocator heap = IpcamList.deleteIpcamAllNode heap ipcamDev := by
  simp only [deleteIpcamAllNode, IpcamList.deleteIpcamAllNode, exec_bind, exec_liveCells, ok_bind,
    exec_deleteAllLoop]

theorem exec_deleteByMacLoop (mac : List UInt8) (fuel : Nat) (curr : Slot) (nextnode : Pointer)
    (ret : Nat) :
    (deleteByMacLoop ipcamDev mac fuel curr nextnode ret).exec allocator heap =
      IpcamList.deleteByMacLoop ipcamDev mac fuel heap curr nextnode ret := by
  induction fuel generalizing heap curr nextnode ret with
  | zero => rfl
  | succ fuel ih =>
      simp only [deleteByMacLoop, IpcamList.deleteByMacLoop, exec_ite, exec_bind, exec_load,
        exec_ofExcept, exec_store, exec_release, exec_pure, ih, map_bind]
      cases curr <;> rfl

theorem exec_deleteIpcamNodeByMac (mac : List UInt8) :
    (deleteIpcamNodeByMac ipcamDev mac).exec allocator heap =
      IpcamList.deleteIpcamNodeByMac heap ipcamDev mac := by
  simp only [deleteIpcamNodeByMac, IpcamList.deleteIpcamNodeByMac, exec_bind, exec_liveCells, ok_bind,
    exec_deleteByMacLoop]

theorem exec_clearAllDevOnline :
    (clearAllDevOnline ipcamDev).exec allocator heap =
      (SearchPc.clearAllDevOnline heap ipcamDev).map fun after => ((), after) := by
  simp only [clearAllDevOnline, SearchPc.clearAllDevOnline, exec_bind, exec_load, exec_liveCells,
    exec_forEach, map_bind, bind_map, ok_bind]

theorem exec_testAllDevOnline :
    (testAllDevOnline ipcamDev).exec allocator heap =
      (SearchPc.testAllDevOnline heap ipcamDev).map fun after => ((), after) := by
  simp only [testAllDevOnline, SearchPc.testAllDevOnline, exec_bind, exec_load, exec_liveCells,
    exec_forEach, map_bind, bind_map, ok_bind]

theorem exec_listLoop (fuel : Nat) (start : Pointer) :
    (listLoop fuel start).exec allocator heap =
      (SearchPc.listLoop heap fuel start).map fun rows => (rows, heap) := by
  induction fuel generalizing start with
  | zero => rfl
  | succ fuel ih =>
      cases start with
      | none => rfl
      | some address =>
          simp only [listLoop, SearchPc.listLoop, exec_bind, exec_load, exec_ofExcept, exec_pure, ih,
            map_bind, bind_map]
          rfl

theorem exec_listIpcam :
    (listIpcam ipcamDev).exec allocator heap =
      (SearchPc.listIpcam heap ipcamDev).map fun rows => (rows, heap) := by
  simp only [listIpcam, SearchPc.listIpcam, exec_bind, exec_load, exec_liveCells, exec_listLoop,
    map_bind, bind_map, ok_bind]

end Alone

end IpcamSearch.ThreadedTool
