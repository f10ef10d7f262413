import IpcamSearch.EventLoop
import Mathlib.Logic.Function.Basic
import Mathlib.Order.Basic

/-! The file events of `ae.c`, and what `ae_epoll.c` and `ae_select.c` tell the kernel about
them. `Proc` stands for a file procedure and `Data` for a `clientData` pointer. -/

set_option autoImplicit false

namespace IpcamSearch.FileEvents

open Memory EventLoop

def AE_SETSIZE : Nat := 1024 * 10

/-- The number of descriptors in an `fd_set`. -/
def FD_SETSIZE : Nat := 1024

/-- The bits `AE_READABLE` and `AE_WRITABLE`. -/
structure Mask where
  readable : Bool
  writable : Bool
deriving DecidableEq

def AE_NONE : Mask := ⟨false, false⟩

def AE_READABLE : Mask := ⟨true, false⟩

def AE_WRITABLE : Mask := ⟨false, true⟩

namespace Mask

variable (left right : Mask)

instance : Union Mask := ⟨fun left right =>
  ⟨left.readable || right.readable, left.writable || right.writable⟩⟩

instance : Inter Mask := ⟨fun left right =>
  ⟨left.readable && right.readable, left.writable && right.writable⟩⟩

/-- `left & (~right)` -/
instance : SDiff Mask := ⟨fun left right =>
  ⟨left.readable && !right.readable, left.writable && !right.writable⟩⟩

@[simp] theorem union_readable : (left ∪ right).readable = (left.readable || right.readable) := rfl

@[simp] theorem union_writable : (left ∪ right).writable = (left.writable || right.writable) := rfl

@[simp] theorem inter_readable : (left ∩ right).readable = (left.readable && right.readable) := rfl

@[simp] theorem inter_writable : (left ∩ right).writable = (left.writable && right.writable) := rfl

@[simp] theorem sdiff_readable : (left \ right).readable = (left.readable && !right.readable) := rfl

@[simp] theorem sdiff_writable : (left \ right).writable = (left.writable && !right.writable) := rfl

variable {left right}

theorem ext_bits (readable : left.readable = right.readable)
    (writable : left.writable = right.writable) : left = right := by
  cases left
  cases right
  cases readable
  cases writable
  rfl

theorem ne_none_iff : left ≠ AE_NONE ↔ left.readable = true ∨ left.writable = true := by
  cases left with
  | mk readable writable => cases readable <;> cases writable <;> decide

theorem union_ne_none (nonempty : right ≠ AE_NONE) : left ∪ right ≠ AE_NONE := by
  rw [ne_none_iff] at nonempty ⊢
  rw [union_readable, union_writable, Bool.or_eq_true, Bool.or_eq_true]
  exact nonempty.imp .inr .inr

theorem none_sdiff : AE_NONE \ right = AE_NONE := rfl

theorem sdiff_twice : (left \ right) \ right = left \ right := by
  apply ext_bits
  · simp
  · simp

end Mask

/-- A procedure that was never stored is `none`. -/
structure AeFileEvent (Proc Data : Type) where
  mask : Mask
  rfileProc : Option Proc
  wfileProc : Option Proc
  clientData : Option Data

/-- The part of `aeEventLoop` that is about files. The events from `AE_SETSIZE` on do not
exist. -/
structure Files (Proc Data Apidata : Type) where
  maxfd : Int
  events : Nat → AeFileEvent Proc Data
  apidata : Apidata

abbrev Interest := Nat → Mask

def Files.interest {Proc Data Apidata : Type} (files : Files Proc Data Apidata) : Interest :=
  fun fd => (files.events fd).mask

/-- `aeApiAddEvent` and `aeApiDelEvent`, which see the masks of the event table; `none` is the
return of -1. -/
structure AeApi (Apidata : Type) where
  create : Apidata
  addEvent : Interest → Apidata → Nat → Mask → Except Fault (Option Apidata)
  delEvent : Interest → Apidata → Nat → Mask → Except Fault Apidata

section

variable {Proc Data Apidata : Type} (api : AeApi Apidata)

def createFiles : Files Proc Data Apidata where
  maxfd := -1
  events _ := { mask := AE_NONE, rfileProc := none, wfileProc := none, clientData := none }
  apidata := api.create

def aeCreateFileEvent (files : Files Proc Data Apidata) (fd : Nat) (mask : Mask) (proc : Proc)
    (clientData : Data) : Except Fault (Int × Files Proc Data Apidata) := do
  if AE_SETSIZE ≤ fd then return (AE_ERR, files)
  let fe := files.events fd
  match ← api.addEvent files.interest files.apidata fd mask with
  | none => return (AE_ERR, files)
  | some apidata =>
      let fe := {
        mask := fe.mask ∪ mask
        rfileProc := if mask.readable then some proc else fe.rfileProc
        wfileProc := if mask.writable then some proc else fe.wfileProc
        clientData := some clientData }
      return (AE_OK, {
        maxfd := if files.maxfd < fd then fd else files.maxfd
        events := Function.update files.events fd fe
        apidata := apidata })

/-- The search for the next smaller descriptor that is still registered. -/
def lastBelow (interest : Interest) : Nat → Int
  | 0 => -1
  | j + 1 => if interest j ≠ AE_NONE then j else lastBelow interest j

def aeDeleteFileEvent (files : Files Proc Data Apidata) (fd : Nat) (mask : Mask) :
    Except Fault (Files Proc Data Apidata) := do
  if AE_SETSIZE ≤ fd then return files
  let fe := files.events fd
  if fe.mask = AE_NONE then return files
  let fe := { fe with mask := fe.mask \ mask }
  let files := { files with events := Function.update files.events fd fe }
  let maxfd :=
    if (fd : Int) = files.maxfd ∧ fe.mask = AE_NONE then lastBelow files.interest fd else files.maxfd
  let apidata ← api.delEvent files.interest files.apidata fd mask
  return { files with maxfd := maxfd, apidata := apidata }

end

section Epoll

/-- The kernel's interest list of an epoll instance. -/
abbrev EpollSet := Nat → Option Mask

inductive EpollCtlOp where
  | add
  | mod
  | del

/-- `epoll_ctl`; `none` is an error. `accepts` are the open descriptors that can be polled. -/
def epollCtl (accepts : Nat → Bool) (epfd : EpollSet) : EpollCtlOp → Nat → Mask → Option EpollSet
  | .add, fd, events =>
      if accepts fd ∧ epfd fd = none then some (Function.update epfd fd (some events)) else none
  | .mod, fd, events =>
      if epfd fd ≠ none then some (Function.update epfd fd (some events)) else none
  | .del, fd, _ => if epfd fd ≠ none then some (Function.update epfd fd none) else none

def epollApi (accepts : Nat → Bool) : AeApi EpollSet where
  create _ := none
  addEvent interest epfd fd mask :=
    let op := if interest fd = AE_NONE then EpollCtlOp.add else EpollCtlOp.mod
    .ok (epollCtl accepts epfd op fd (mask ∪ interest fd))
  delEvent interest epfd fd delmask :=
    let mask := interest fd \ delmask
    let op := if mask ≠ AE_NONE then EpollCtlOp.mod else EpollCtlOp.del
    .ok ((epollCtl accepts epfd op fd mask).getD epfd)

end Epoll

section Select

abbrev FdSet := Nat → Bool

structure FdSets where
  rfds : FdSet
  wfds : FdSet

/-- `FD_SET` and `FD_CLR` do not check the descriptor. -/
def writeFd (set : FdSet) (fd : Nat) (value : Bool) : Except Fault FdSet :=
  if fd < FD_SETSIZE then .ok (Function.update set fd value) else .error .outOfBounds

def writeFds (mask : Mask) (sets : FdSets) (fd : Nat) (value : Bool) : Except Fault FdSets := do
  let rfds ← if mask.readable then writeFd sets.rfds fd value else pure sets.rfds
  let wfds ← if mask.writable then writeFd sets.wfds fd value else pure sets.wfds
  return ⟨rfds, wfds⟩

def selectApi : AeApi FdSets where
  create := ⟨fun _ => false, fun _ => false⟩
  addEvent _ sets fd mask := do
    let sets ← writeFds mask sets fd true
    return some sets
  delEvent _ sets fd mask := writeFds mask sets fd false

end Select

end IpcamSearch.FileEvents
