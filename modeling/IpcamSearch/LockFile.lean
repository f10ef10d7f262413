import IpcamSearch.AlreadyRunning
import IpcamSearch.Library.Decimal
import IpcamSearch.Library.RecordLock
import IpcamSearch.Library.Run

/-! `already_running` in several processes at once. Between its system calls any other process
can run, and any process can end. Nothing else touches the lock files. -/

set_option autoImplicit false

namespace IpcamSearch.AlreadyRunning

open Memory Decimal Occurrence RecordLock Run

structure Pid where
  number : Nat
  positive : 0 < number
  bounded : number < 2 ^ 31
deriving DecidableEq

/-- The next call of a process, or what the function returned to it. -/
inductive Stage where
  | openFile
  | lockFile
  | truncate
  | writePid
  | running (written : Bool)
  | refused
deriving DecidableEq

/-- The lock is taken. -/
def Stage.locked : Stage → Bool
  | truncate | writePid | running _ => true
  | openFile | lockFile | refused => false

structure Process where
  exe : AbsolutePath
  lockPath : List UInt8
  stage : Stage

structure Machine where
  files : List UInt8 → Option (List UInt8)
  locks : Owners (List UInt8) Pid
  processes : Pid → Option Process

/-- No process runs. Lock files of earlier ones can be there. -/
def idle (files : List UInt8 → Option (List UInt8)) : Machine where
  files := files
  locks := unowned _ _
  processes _ := none

def Machine.put (machine : Machine) (pid : Pid) (process : Process) : Machine :=
  { machine with processes := Function.update machine.processes pid (some process) }

def Machine.exit (machine : Machine) (pid : Pid) : Machine where
  files := machine.files
  locks := dropLocks machine.locks pid
  processes := Function.update machine.processes pid none

def Machine.store (machine : Machine) (path content : List UInt8) : Machine :=
  { machine with files := Function.update machine.files path (some content) }

/-- The arrays begin with indeterminate contents. A call that does not work is one that the
kernel fails, other than for a lock of another process. -/
inductive MachineEvent where
  | start (pid : Pid) (exe : AbsolutePath) (curProcDir curProcBasename : Block PATH_MAX)
  | call (pid : Pid) (works : Bool) (buf : Block 16)
  | exit (pid : Pid)

/-- `sprintf(buf, "%ld", (long)getpid())` -/
def sprintfPid (buf : Block 16) (pid : Pid) : Except Fault (Block 16) :=
  strcpy buf (natDecimal pid.number)

def proceed (machine : Machine) (pid : Pid) (process : Process) (works : Bool) (buf : Block 16) :
    Except Fault Machine :=
  let path := process.lockPath
  match process.stage with
  | .openFile =>
      if works then
        .ok ((machine.store path ((machine.files path).getD [])).put pid
          { process with stage := .lockFile })
      else .ok (machine.exit pid)
  | .lockFile =>
      if works then
        match setLock machine.locks path pid with
        | none => .ok (machine.put pid { process with stage := .refused })
        | some locks =>
            .ok ({ machine with locks := locks }.put pid { process with stage := .truncate })
      else .ok (machine.exit pid)
  | .truncate =>
      let process := { process with stage := .writePid }
      .ok ((if works then machine.store path [] else machine).put pid process)
  | .writePid => do
      let buf ← sprintfPid buf pid
      let text ← stringOf buf
      let process := { process with stage := .running works }
      let written := overlay ((machine.files path).getD []) 0 (text ++ [0])
      return (if works then machine.store path written else machine).put pid process
  | .running _ | .refused => .ok machine

def machineStep (machine : Machine) : MachineEvent → Except Fault Machine
  | .start pid exe curProcDir curProcBasename =>
      match machine.processes pid with
      | some _ => .ok machine
      | none => do
          let path ← AlreadyRunning.lockPath exe curProcDir curProcBasename
          return machine.put pid { exe := exe, lockPath := path, stage := .openFile }
  | .call pid works buf =>
      match machine.processes pid with
      | some process => proceed machine pid process works buf
      | none => .ok machine
  | .exit pid => .ok (machine.exit pid)

/-- The lock file that a process has locked. -/
def Machine.inside (machine : Machine) (pid : Pid) : Option (List UInt8) :=
  (machine.processes pid).bind fun process =>
    if process.stage.locked then some process.lockPath else none

/-- Whoever is past its lock owns it, and a process that has written its number finds it at
the start of the file. -/
structure Orderly (machine : Machine) : Prop where
  held : Held machine.locks machine.inside
  named : ∀ pid process, machine.processes pid = some process →
    process.lockPath = lockName process.exe.bytes
  numbered : ∀ pid process, machine.processes pid = some process →
    process.stage = .running true → ∃ content, machine.files process.lockPath = some content ∧
      natDecimal pid.number ++ [0] <+: content

section Inside

variable {machine : Machine} {pid other : Pid} {process : Process}

theorem Machine.put_self : (machine.put pid process).processes pid = some process :=
  Function.update_self _ _ _

theorem Machine.put_other (apart : other ≠ pid) :
    (machine.put pid process).processes other = machine.processes other :=
  Function.update_of_ne apart _ _

theorem Machine.exit_self : (machine.exit pid).processes pid = none := Function.update_self _ _ _

theorem Machine.exit_other (apart : other ≠ pid) :
    (machine.exit pid).processes other = machine.processes other :=
  Function.update_of_ne apart _ _

theorem Machine.inside_of (present : machine.processes pid = some process) :
    machine.inside pid = if process.stage.locked then some process.lockPath else none := by
  rw [Machine.inside, present]
  rfl

theorem Machine.inside_iff {path : List UInt8} :
    machine.inside pid = some path ↔ ∃ process, machine.processes pid = some process ∧
      process.stage.locked = true ∧ process.lockPath = path := by
  cases there : machine.processes pid with
  | none => simp [Machine.inside, there]
  | some process =>
      rw [Machine.inside_of there]
      cases locked : process.stage.locked <;> simp [locked]

theorem Machine.inside_put (machine : Machine) (pid : Pid) (process : Process) :
    (machine.put pid process).inside = Function.update machine.inside pid
      (if process.stage.locked then some process.lockPath else none) := by
  funext other
  by_cases same : other = pid
  · subst same
    rw [Function.update_self]
    exact Machine.inside_of Machine.put_self
  · rw [Function.update_of_ne same, Machine.inside, Machine.inside, Machine.put_other same]

theorem Machine.inside_exit (machine : Machine) (pid : Pid) :
    (machine.exit pid).inside = Function.update machine.inside pid none := by
  funext other
  by_cases same : other = pid
  · subst same
    rw [Function.update_self, Machine.inside, Machine.exit_self]
    rfl
  · rw [Function.update_of_ne same, Machine.inside, Machine.inside, Machine.exit_other same]

end Inside

section Steps

variable {machine : Machine} {pid : Pid} {process : Process}

theorem idle_orderly (files : List UInt8 → Option (List UInt8)) : Orderly (idle files) where
  held := held_unowned
  named _ _ present := by cases present
  numbered _ _ present := by cases present

theorem Orderly.exit (orderly : Orderly machine) (pid : Pid) : Orderly (machine.exit pid) := by
  have left {other : Pid} {process : Process}
      (present : (machine.exit pid).processes other = some process) :
      machine.processes other = some process := by
    by_cases same : other = pid
    · subst same
      rw [Machine.exit_self] at present
      cases present
    · rwa [Machine.exit_other same] at present
  refine ⟨?_, fun other process present => orderly.named other process (left present),
    fun other process present => orderly.numbered other process (left present)⟩
  rw [Machine.inside_exit]
  exact orderly.held.drop pid

/-- A process goes on to its next stage. The files of the others keep their contents, and its
own begins with its number once that is written. -/
theorem Orderly.advance (orderly : Orderly machine) (present : machine.processes pid = some process)
    (stage : Stage) {files : List UInt8 → Option (List UInt8)} {locks : Owners (List UInt8) Pid}
    (held : Held locks (Function.update machine.inside pid
      (if stage.locked then some process.lockPath else none)))
    (others : ∀ other q, other ≠ pid → machine.processes other = some q →
      q.stage = .running true → files q.lockPath = machine.files q.lockPath)
    (own : stage = .running true → ∃ content, files process.lockPath = some content ∧
      natDecimal pid.number ++ [0] <+: content) :
    Orderly (({ machine with files := files, locks := locks } : Machine).put pid
      { process with stage := stage }) := by
  refine ⟨?_, fun other q there => ?_, fun other q there written => ?_⟩
  · rw [Machine.inside_put]
    exact held
  · by_cases same : other = pid
    · subst same
      rw [Machine.put_self] at there
      cases there
      exact orderly.named other process present
    · rw [Machine.put_other same] at there
      exact orderly.named other q there
  · by_cases same : other = pid
    · subst same
      rw [Machine.put_self] at there
      cases there
      exact own written
    · rw [Machine.put_other same] at there
      obtain ⟨content, stored, begins⟩ := orderly.numbered other q there written
      exact ⟨content, (others other q same there written).trans stored, begins⟩

/-- The stages before and after hold the lock alike. -/
theorem Orderly.stay (orderly : Orderly machine) (present : machine.processes pid = some process)
    (stage : Stage) (alike : stage.locked = process.stage.locked) :
    Held machine.locks (Function.update machine.inside pid
      (if stage.locked then some process.lockPath else none)) := by
  rw [alike, ← Machine.inside_of present, Function.update_eq_self]
  exact orderly.held

/-- A process that has its lock does not touch the files of the others. -/
theorem Orderly.apart (orderly : Orderly machine) (present : machine.processes pid = some process)
    (locked : process.stage.locked = true) {other : Pid} {q : Process} (different : other ≠ pid)
    (there : machine.processes other = some q) (written : q.stage = .running true) :
    q.lockPath ≠ process.lockPath := by
  intro same
  have lockedToo : q.stage.locked = true := by rw [written]; rfl
  exact different (orderly.held.exclusive (Machine.inside_iff.mpr ⟨q, there, lockedToo, same⟩)
    (Machine.inside_iff.mpr ⟨process, present, locked, rfl⟩))

theorem natDecimal_terminated (number : Nat) : 0 ∉ natDecimal number := by
  intro member
  have digit := isDigit_of_mem member
  revert digit
  decide

/-- The number has at most ten digits, so it fits into the sixteen bytes. -/
theorem sprintfPid_holds (buf : Block 16) (pid : Pid) :
    ∃ after, sprintfPid buf pid = .ok after ∧ stringOf after = .ok (natDecimal pid.number) := by
  have digits : (natDecimal pid.number).length ≤ 10 :=
    natDecimal_length_le (by decide) (Nat.lt_trans pid.bounded (by decide))
  rcases strcpy_cases buf (natDecimal_terminated pid.number) with
    ⟨_, after, stored, holds⟩ | ⟨full, _⟩
  · exact ⟨after, stored, holds.stringOf_eq⟩
  · omega

theorem proceed_orderly (orderly : Orderly machine)
    (present : machine.processes pid = some process) (works : Bool) (buf : Block 16) :
    ∃ after, proceed machine pid process works buf = .ok after ∧ Orderly after := by
  rw [proceed]
  cases here : process.stage with
  | openFile =>
      cases works with
      | true =>
          refine ⟨_, rfl, orderly.advance present .lockFile
            (orderly.stay present .lockFile (by rw [here]; rfl)) ?_ fun running => by cases running⟩
          intro other q _ there written
          obtain ⟨content, stored, _⟩ := orderly.numbered other q there written
          by_cases same : q.lockPath = process.lockPath
          · rw [same] at stored
            rw [same, Function.update_self, stored]
            rfl
          · rw [Function.update_of_ne same]
      | false => exact ⟨_, rfl, orderly.exit pid⟩
  | lockFile =>
      cases works with
      | true =>
          cases taken : setLock machine.locks process.lockPath pid with
          | none =>
              refine ⟨_, rfl, orderly.advance present .refused
                (orderly.stay present .refused (by rw [here]; rfl)) (fun _ _ _ _ _ => rfl)
                fun running => by cases running⟩
          | some locks =>
              have outside : machine.inside pid = none := by
                rw [Machine.inside_of present, here]
                rfl
              refine ⟨_, rfl, orderly.advance present .truncate
                (orderly.held.set outside taken) (fun _ _ _ _ _ => rfl)
                fun running => by cases running⟩
      | false => exact ⟨_, rfl, orderly.exit pid⟩
  | truncate =>
      have locked : process.stage.locked = true := by rw [here]; rfl
      have stays := orderly.stay present .writePid (by rw [here]; rfl)
      cases works with
      | true =>
          refine ⟨_, rfl, orderly.advance present .writePid stays ?_ fun running => by cases running⟩
          intro other q different there written
          exact Function.update_of_ne (orderly.apart present locked different there written) _ _
      | false =>
          exact ⟨_, rfl, orderly.advance present .writePid stays (fun _ _ _ _ _ => rfl)
            fun running => by cases running⟩
  | writePid =>
      have locked : process.stage.locked = true := by rw [here]; rfl
      have stays := orderly.stay present (.running works) (by rw [here]; rfl)
      obtain ⟨printed, stored, text⟩ := sprintfPid_holds buf pid
      simp only [stored, text, ok_bind]
      cases works with
      | true =>
          refine ⟨_, rfl, orderly.advance present (.running true) stays ?_ fun _ => ?_⟩
          · intro other q different there written
            exact Function.update_of_ne (orderly.apart present locked different there written) _ _
          · refine ⟨_, Function.update_self _ _ _, ?_⟩
            rw [overlay_zero]
            exact List.prefix_append _ _
      | false =>
          exact ⟨_, rfl, orderly.advance present (.running false) stays (fun _ _ _ _ _ => rfl)
            fun running => by cases running⟩
  | running written => exact ⟨machine, rfl, orderly⟩
  | refused => exact ⟨machine, rfl, orderly⟩

/-- The name of the lock file fits into the arrays. -/
def Fits (exe : AbsolutePath) : Prop :=
  exe.bytes.length < PATH_MAX ∧
    (dirOf exe.bytes).length + (baseOf exe.bytes).length + 15 < PATH_MAX

def Starts (machine : Machine) : MachineEvent → Prop
  | .start pid exe _ _ => machine.processes pid = none → Fits exe
  | .call _ _ _ | .exit _ => True

theorem Orderly.start (orderly : Orderly machine) (absent : machine.processes pid = none)
    (exe : AbsolutePath) :
    Orderly (machine.put pid { exe := exe, lockPath := lockName exe.bytes, stage := .openFile }) := by
  have outside : machine.inside pid = none := by
    rw [Machine.inside, absent]
    rfl
  refine ⟨?_, fun other q there => ?_, fun other q there written => ?_⟩
  · have same : Function.update machine.inside pid none = machine.inside := by
      rw [← outside, Function.update_eq_self]
    rw [Machine.inside_put]
    exact same.symm ▸ orderly.held
  · by_cases same : other = pid
    · subst same
      rw [Machine.put_self] at there
      cases there
      rfl
    · rw [Machine.put_other same] at there
      exact orderly.named other q there
  · by_cases same : other = pid
    · subst same
      rw [Machine.put_self] at there
      cases there
      cases written
    · rw [Machine.put_other same] at there
      exact orderly.numbered other q there written

theorem machineStep_cases (orderly : Orderly machine) (event : MachineEvent) :
    (Starts machine event ∧ ∃ after, machineStep machine event = .ok after ∧ Orderly after) ∨
      ¬ Starts machine event ∧ machineStep machine event = .error .outOfBounds := by
  cases event with
  | start pid exe curProcDir curProcBasename =>
      rw [machineStep]
      cases there : machine.processes pid with
      | some process =>
          refine .inl ⟨fun absent => ?_, machine, rfl, orderly⟩
          rw [there] at absent
          cases absent
      | none =>
          by_cases fits : Fits exe
          · simp only [lockPath_spec, if_pos (And.intro fits.1 fits.2)]
            exact .inl ⟨fun _ => fits, _, rfl, orderly.start there exe⟩
          · have long : ¬ (exe.bytes.length < PATH_MAX ∧
                (dirOf exe.bytes).length + (baseOf exe.bytes).length + 15 < PATH_MAX) := fits
            simp only [lockPath_spec, if_neg long]
            exact .inr ⟨fun starts => fits (starts there), rfl⟩
  | call pid works buf =>
      refine .inl ⟨trivial, ?_⟩
      rw [machineStep]
      cases there : machine.processes pid with
      | some process => exact proceed_orderly orderly there works buf
      | none => exact ⟨machine, rfl, orderly⟩
  | exit pid => exact .inl ⟨trivial, _, rfl, orderly.exit pid⟩

theorem machineStep_orderly {event : MachineEvent} {after : Machine} (orderly : Orderly machine)
    (stepped : machineStep machine event = .ok after) : Orderly after := by
  rcases machineStep_cases orderly event with ⟨_, next, same, kept⟩ | ⟨_, failed⟩
  · rw [same] at stepped
    cases stepped
    exact kept
  · rw [failed] at stepped
    cases stepped

end Steps

section LockNames

variable {path other : List UInt8}

theorem baseOf_slash (path : List UInt8) : slash ∉ baseOf path ∨ baseOf path = [slash] := by
  by_cases empty : path = []
  · rw [baseOf, if_pos empty]
    exact .inl (by decide)
  · by_cases slashes : trimmed path = []
    · rw [baseOf, if_neg empty, if_pos slashes]
      exact .inr rfl
    · rw [baseOf, if_neg empty, if_neg slashes]
      refine .inl fun member => ?_
      simpa using List.mem_rtakeWhile_imp member

/-- What stands behind the last slash of a lock file's name. -/
theorem lockName_last (path : List UInt8) :
    (lockName path).rtakeWhile (fun byte => byte ≠ slash) =
      if slash ∈ baseOf path then lockedPid else [dot, underscore] ++ baseOf path ++ lockedPid := by
  have ended (front back : List UInt8) (absent : slash ∉ back) :
      (front ++ [slash] ++ back).rtakeWhile (fun byte => byte ≠ slash) = back := by
    rw [rtakeWhile_append _ (passes_absent absent), List.rtakeWhile_concat_neg _ _ _ (by simp),
      List.nil_append]
  rcases baseOf_slash path with absent | root
  · rw [if_neg absent]
    have whole : lockName path =
        dirOf path ++ [slash] ++ ([dot, underscore] ++ baseOf path ++ lockedPid) := by
      simp only [lockName, List.append_assoc]
    rw [whole]
    refine ended _ _ ?_
    rw [List.mem_append, List.mem_append, not_or, not_or]
    exact ⟨⟨by decide, absent⟩, by decide⟩
  · rw [lockName, root, if_pos List.mem_cons_self]
    exact ended _ _ (by decide)

/-- Two names of lock files are the same only for the same entry of the same directory. -/
theorem lockName_eq_iff :
    lockName path = lockName other ↔ dirOf path = dirOf other ∧ baseOf path = baseOf other := by
  constructor
  · intro same
    have last := congrArg (List.rtakeWhile fun byte => byte ≠ slash) same
    rw [lockName_last, lockName_last] at last
    have longer (base : List UInt8) : [dot, underscore] ++ base ++ lockedPid ≠ lockedPid := by
      intro equal
      have lengths := congrArg List.length equal
      simp only [List.length_append, List.length_cons, List.length_nil] at lengths
      omega
    have bases : baseOf path = baseOf other := by
      rcases baseOf_slash path with absent | root
      · rcases baseOf_slash other with absentToo | rootToo
        · rw [if_neg absent, if_neg absentToo] at last
          simpa using last
        · rw [if_neg absent, if_pos (rootToo ▸ List.mem_cons_self)] at last
          exact absurd last (longer _)
      · rcases baseOf_slash other with absentToo | rootToo
        · rw [if_pos (root ▸ List.mem_cons_self), if_neg absentToo] at last
          exact absurd last.symm (longer _)
        · rw [root, rootToo]
    rw [lockName, lockName, bases] at same
    exact ⟨by simpa using same, bases⟩
  · rintro ⟨directories, bases⟩
    rw [lockName, lockName, directories, bases]

end LockNames

/-- `/a/` and a name of one digit. -/
def sampleExe (digit : Fin 9) : AbsolutePath where
  bytes := [slash, 0x61, slash] ++ natDecimal digit
  absolute := rfl
  terminated := by
    rw [List.mem_append, not_or]
    exact ⟨by decide, fun member => absurd (isDigit_of_mem member) (by decide)⟩

def samplePid (digit : Fin 9) : Pid where
  number := digit + 1
  positive := Nat.succ_pos _
  bounded := Nat.lt_trans (Nat.succ_lt_succ digit.isLt) (by decide)

/-- A process that is started and makes its calls one after another. -/
def launch (pid : Pid) (exe : AbsolutePath) (curProcDir curProcBasename : Block PATH_MAX)
    (buf : Block 16) : List MachineEvent :=
  .start pid exe curProcDir curProcBasename :: List.replicate 4 (.call pid true buf)

def sampleLaunch (digit : Fin 9) (name : Fin 9) : List MachineEvent :=
  launch (samplePid digit) (sampleExe name) (Block.zeros _) (Block.zeros _) (Block.zeros _)

section Runs

variable {files : List UInt8 → Option (List UInt8)} {events : List MachineEvent} {machine : Machine}

theorem run_orderly (ran : run machineStep (idle files) events = .ok machine) : Orderly machine :=
  run_keeps (idle_orderly files) (fun _ _ _ orderly stepped => machineStep_orderly orderly stepped) ran

/-- The same name in the same directory. -/
def SameEntry (first second : AbsolutePath) : Prop :=
  dirOf first.bytes = dirOf second.bytes ∧ baseOf first.bytes = baseOf second.bytes

theorem Orderly.same_lock (orderly : Orderly machine) {first second : Pid} {p q : Process}
    (here : machine.processes first = some p) (there : machine.processes second = some q) :
    p.lockPath = q.lockPath ↔ SameEntry p.exe q.exe := by
  rw [orderly.named first p here, orderly.named second q there]
  exact lockName_eq_iff

def Stage.next : Stage → Stage
  | openFile => .lockFile
  | lockFile => .truncate
  | truncate => .writePid
  | writePid | running true => .running true
  | running false => .running false
  | refused => .refused

/-- What the next call of a process does if it works and the lock is not refused. -/
theorem call_works {pid : Pid} {process : Process}
    (present : machine.processes pid = some process)
    (granted : process.stage = .lockFile →
      ∃ locks, setLock machine.locks process.lockPath pid = some locks) (buf : Block 16) :
    ∃ after, machineStep machine (.call pid true buf) = .ok after ∧
      after.processes pid = some { process with stage := process.stage.next } ∧
      (process.stage ≠ .lockFile → after.locks = machine.locks) := by
  obtain ⟨exe, path, stage⟩ := process
  rw [machineStep, present]
  simp only [proceed]
  cases stage with
  | openFile => exact ⟨_, rfl, Machine.put_self, fun _ => rfl⟩
  | lockFile =>
      obtain ⟨locks, taken⟩ := granted rfl
      simp only [taken]
      exact ⟨_, rfl, Machine.put_self, fun other => absurd rfl other⟩
  | truncate => exact ⟨_, rfl, Machine.put_self, fun _ => rfl⟩
  | writePid =>
      obtain ⟨printed, stored, text⟩ := sprintfPid_holds buf pid
      simp only [stored, text, ok_bind]
      exact ⟨_, rfl, Machine.put_self, fun _ => rfl⟩
  | running written => cases written <;> exact ⟨machine, rfl, present, fun _ => rfl⟩
  | refused => exact ⟨machine, rfl, present, fun _ => rfl⟩

end Runs

end IpcamSearch.AlreadyRunning
