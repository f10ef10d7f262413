import IpcamSearch.Library.BoundedString
import Mathlib.Data.List.DropRight

/-! The name of the lock file in `already_running.c`. It is put together by string
functions in an array of `PATH_MAX` bytes, whose size none of them is told. -/

set_option autoImplicit false

namespace IpcamSearch.AlreadyRunning

open Memory Occurrence

/-- The size where no header of the platform defines one. -/
def PATH_MAX : Nat := 1024

def slash : UInt8 := 0x2f

def dot : UInt8 := 0x2e

def underscore : UInt8 := 0x5f

/-- `_locked_.pid` -/
def lockedPid : List UInt8 :=
  [underscore, 0x6c, 0x6f, 0x63, 0x6b, 0x65, 0x64, underscore, dot, 0x70, 0x69, 0x64]

/-- What the link `/proc/self/exe` names. -/
structure AbsolutePath where
  bytes : List UInt8
  absolute : bytes.head? = some slash
  terminated : 0 ∉ bytes

/-- The path without the slashes at its end. -/
def trimmed (path : List UInt8) : List UInt8 := path.rdropWhile fun byte => byte = slash

/-- The path up to the slashes in front of its last component. -/
def parent (path : List UInt8) : List UInt8 :=
  if trimmed path = [] then path else (trimmed path).rdropWhile fun byte => byte ≠ slash

/-- The last component of a path, the string to which `basename` points. -/
def baseOf (path : List UInt8) : List UInt8 :=
  if path = [] then [dot]
  else if trimmed path = [] then [slash]
  else (trimmed path).rtakeWhile fun byte => byte ≠ slash

/-- What `dirname` of glibc leaves of a path with a slash. The root is one slash, or two
where exactly two stand at the start. -/
def dirOf (path : List UInt8) : List UInt8 :=
  if trimmed (parent path) = [] then path.take (if (parent path).length = 2 then 2 else 1)
  else trimmed (parent path)

section Functions

variable {size : Nat}

/-- `basename` ends the component in place where slashes follow it. -/
def basename (path : Block size) : Except Fault (List UInt8 × Block size) := do
  let string ← stringOf path
  if trimmed string = [] ∨ trimmed string = string then return (baseOf string, path)
  else
    let path ← memcpy path (trimmed string).length [0]
    return (baseOf string, path)

/-- `dirname` cuts the path off in place. A path without a slash stays as it is. -/
def dirname (path : Block size) : Except Fault (Block size) := do
  let string ← stringOf path
  if slash ∈ string then memcpy path (dirOf string).length [0] else return path

/-- `readlink` of a link to this target. It stores no terminator. -/
def readlink (target : List UInt8) (buf : Block size) (bufsiz : Nat) :
    Except Fault (Nat × Block size) := do
  let stored := target.take bufsiz
  let buf ← memcpy buf 0 stored
  return (stored.length, buf)

def getCurProcBasename (exe : AbsolutePath) (curProcBasename : Block size) (bufsiz : Nat) :
    Except Fault (Block size) := do
  let (count, curProcBasename) ← readlink exe.bytes curProcBasename bufsiz
  let curProcBasename ← memcpy curProcBasename count [0]
  let (name, curProcBasename) ← basename curProcBasename
  strcpy curProcBasename name

def getCurProcDir (exe : AbsolutePath) (curProcDir : Block size) (bufsiz : Nat) :
    Except Fault (Block size) := do
  let (count, curProcDir) ← readlink exe.bytes curProcDir bufsiz
  let curProcDir ← memcpy curProcDir count [0]
  let curProcDir ← dirname curProcDir
  strcat curProcDir [slash]

/-- `already_running` up to the name of the file that it opens. The arrays begin with
indeterminate contents. -/
def lockPath (exe : AbsolutePath) (curProcDir curProcBasename : Block size) :
    Except Fault (List UInt8) := do
  let curProcBasename ← getCurProcBasename exe curProcBasename size
  let curProcDir ← getCurProcDir exe curProcDir size
  let curProcDir ← strcat curProcDir [dot, underscore]
  let name ← stringOf curProcBasename
  let curProcDir ← strcat curProcDir name
  let curProcDir ← strcat curProcDir lockedPid
  stringOf curProcDir

end Functions

section Components

variable {path : List UInt8}

theorem trimmed_kept (path : List UInt8) : trimmed path <+: path := List.rdropWhile_prefix _ _

theorem parent_kept (path : List UInt8) : parent path <+: path := by
  by_cases slashes : trimmed path = []
  · rw [parent, if_pos slashes]
  · rw [parent, if_neg slashes]
    exact (List.rdropWhile_prefix _ _).trans (trimmed_kept path)

theorem dirOf_kept (path : List UInt8) : dirOf path <+: path := by
  by_cases root : trimmed (parent path) = []
  · rw [dirOf, if_pos root]
    exact List.take_prefix _ path
  · rw [dirOf, if_neg root]
    exact (trimmed_kept _).trans (parent_kept path)

theorem baseOf_length_le (nonempty : path ≠ []) : (baseOf path).length ≤ path.length := by
  rw [baseOf, if_neg nonempty]
  by_cases slashes : trimmed path = []
  · rw [if_pos slashes]
    exact List.length_pos_iff.mpr nonempty
  · rw [if_neg slashes]
    exact Nat.le_trans (List.rtakeWhile_suffix _ _).length_le (trimmed_kept path).length_le

theorem baseOf_terminated (terminated : 0 ∉ path) : 0 ∉ baseOf path := by
  unfold baseOf
  by_cases empty : path = []
  · rw [if_pos empty]
    decide
  · by_cases slashes : trimmed path = []
    · rw [if_neg empty, if_pos slashes]
      decide
    · rw [if_neg empty, if_neg slashes]
      intro member
      exact terminated ((trimmed_kept path).subset ((List.rtakeWhile_suffix _ _).subset member))

end Components

section Steps

variable {size : Nat} {block : Block size} {string : List UInt8}

theorem basename_holds (holds : Holds block string) :
    ∃ after, basename block = .ok (baseOf string, after) := by
  rw [basename, holds.stringOf_eq, ok_bind]
  by_cases whole : trimmed string = [] ∨ trimmed string = string
  · exact ⟨block, if_pos whole⟩
  · obtain ⟨after, stored, _⟩ := holds.cut (trimmed_kept string)
    refine ⟨after, ?_⟩
    rw [if_neg whole, stored]
    rfl

theorem dirname_holds (holds : Holds block string) (present : slash ∈ string) :
    ∃ after, dirname block = .ok after ∧ Holds after (dirOf string) := by
  obtain ⟨after, stored, left⟩ := holds.cut (dirOf_kept string)
  refine ⟨after, ?_, left⟩
  rw [dirname, holds.stringOf_eq, ok_bind, if_pos present, stored]

theorem AbsolutePath.slash_mem (exe : AbsolutePath) : slash ∈ exe.bytes :=
  List.mem_of_mem_head? exe.absolute

theorem AbsolutePath.nonempty (exe : AbsolutePath) : exe.bytes ≠ [] :=
  List.ne_nil_of_mem exe.slash_mem

variable (exe : AbsolutePath) (buf : Block size)

/-- The count that `readlink` returns is the size itself when the link does not fit, and
the terminator is then stored behind the array. -/
theorem readlink_cases :
    (exe.bytes.length < size ∧ ∃ filled after,
        readlink exe.bytes buf size = .ok (exe.bytes.length, filled) ∧
          memcpy filled exe.bytes.length [0] = .ok after ∧ Holds after exe.bytes) ∨
      size ≤ exe.bytes.length ∧ ∃ filled, readlink exe.bytes buf size = .ok (size, filled) ∧
        memcpy filled size [0] = .error .outOfBounds := by
  by_cases short : exe.bytes.length < size
  · have whole : exe.bytes.take size = exe.bytes := List.take_of_length_le (Nat.le_of_lt short)
    have inside : 0 + exe.bytes.length ≤ size := by
      rw [Nat.zero_add]
      exact Nat.le_of_lt short
    have kept : exe.bytes <+: (buf.patch 0 exe.bytes inside).toList := by
      rw [Block.toList_patch, overlay_zero]
      exact List.prefix_append _ _
    have clean : 0 ∉ exe.bytes ++ [] := by
      rw [List.append_nil]
      exact exe.terminated
    rcases memcpy_string_cases kept clean with ⟨_, after, stored, holds⟩ | ⟨full, _⟩
    · rw [List.append_nil] at holds
      refine .inl ⟨short, _, after, ?_, stored, holds⟩
      rw [readlink, whole, memcpy_inside buf inside]
      rfl
    · exact absurd short (Nat.not_lt.mpr full)
  · have long := Nat.not_lt.mp short
    have filling : (exe.bytes.take size).length = size := List.length_take_of_le long
    have inside : 0 + (exe.bytes.take size).length ≤ size := by rw [Nat.zero_add, filling]
    refine .inr ⟨long, buf.patch 0 _ inside, ?_, memcpy_outside _ (Nat.lt_succ_self size)⟩
    rw [readlink, memcpy_inside buf inside, ok_bind, filling]
    rfl

theorem getCurProcBasename_cases :
    (exe.bytes.length < size ∧ ∃ after, getCurProcBasename exe buf size = .ok after ∧
        Holds after (baseOf exe.bytes)) ∨
      size ≤ exe.bytes.length ∧ getCurProcBasename exe buf size = .error .outOfBounds := by
  rcases readlink_cases exe buf with ⟨short, filled, ended, read, stored, holds⟩ |
    ⟨long, filled, read, failed⟩
  · obtain ⟨cut, based⟩ := basename_holds holds
    rcases strcpy_cases cut (baseOf_terminated exe.terminated) with
      ⟨_, after, copied, left⟩ | ⟨full, _⟩
    · refine .inl ⟨short, after, ?_, left⟩
      simp only [getCurProcBasename, read, stored, based, copied, ok_bind]
    · exact absurd (Nat.lt_of_le_of_lt (baseOf_length_le exe.nonempty) short) (Nat.not_lt.mpr full)
  · refine .inr ⟨long, ?_⟩
    simp only [getCurProcBasename, read, failed, ok_bind, error_bind]

theorem getCurProcDir_cases :
    (exe.bytes.length < size ∧ (dirOf exe.bytes).length + 1 < size ∧
        ∃ after, getCurProcDir exe buf size = .ok after ∧
          Holds after (dirOf exe.bytes ++ [slash])) ∨
      (size ≤ exe.bytes.length ∨ size ≤ (dirOf exe.bytes).length + 1) ∧
        getCurProcDir exe buf size = .error .outOfBounds := by
  rcases readlink_cases exe buf with ⟨short, filled, ended, read, stored, holds⟩ |
    ⟨long, filled, read, failed⟩
  · obtain ⟨cut, named, left⟩ := dirname_holds holds exe.slash_mem
    rcases left.strcat_cases (show 0 ∉ [slash] by decide) with
      ⟨room, after, appended, left⟩ | ⟨full, failed⟩
    · refine .inl ⟨short, room, after, ?_, left⟩
      simp only [getCurProcDir, read, stored, named, appended, ok_bind]
    · refine .inr ⟨.inr full, ?_⟩
      simp only [getCurProcDir, read, stored, named, failed, ok_bind]
  · refine .inr ⟨.inl long, ?_⟩
    simp only [getCurProcDir, read, failed, ok_bind, error_bind]

end Steps

section LockPath

variable {pathMax : Nat}

def lockName (path : List UInt8) : List UInt8 :=
  dirOf path ++ [slash] ++ [dot, underscore] ++ baseOf path ++ lockedPid

/-- The fifteen bytes behind the directory and beside the base name are those of `/`, `._`
and `_locked_.pid` and the terminator. -/
theorem lockPath_spec (exe : AbsolutePath) (curProcDir curProcBasename : Block pathMax) :
    lockPath exe curProcDir curProcBasename =
      if exe.bytes.length < pathMax ∧
          (dirOf exe.bytes).length + (baseOf exe.bytes).length + 15 < pathMax then
        .ok (lockName exe.bytes)
      else .error .outOfBounds := by
  have pieces : ([slash] : List UInt8).length = 1 ∧ [dot, underscore].length = 2 ∧
      lockedPid.length = 12 := ⟨rfl, rfl, rfl⟩
  rcases getCurProcBasename_cases exe curProcBasename with
    ⟨short, based, gotBase, baseHolds⟩ | ⟨long, failed⟩
  · rcases getCurProcDir_cases exe curProcDir with
      ⟨_, _, named, gotDir, dirHolds⟩ | ⟨long, failed⟩
    · rcases dirHolds.strcat_cases (show 0 ∉ [dot, underscore] by decide) with
        ⟨_, dotted, addedDot, dotHolds⟩ | ⟨full, failed⟩
      · rcases dotHolds.strcat_cases baseHolds.terminated with
          ⟨_, joined, addedBase, joinedHolds⟩ | ⟨full, failed⟩
        · rcases joinedHolds.strcat_cases (show 0 ∉ lockedPid by decide) with
            ⟨room, locked, addedPid, holds⟩ | ⟨full, failed⟩
          · simp only [List.length_append, pieces] at room
            rw [if_pos ⟨short, by omega⟩]
            simp only [lockPath, gotBase, gotDir, addedDot, baseHolds.stringOf_eq, addedBase,
              addedPid, ok_bind, holds.stringOf_eq, lockName]
          · simp only [List.length_append, pieces] at full
            rw [if_neg (by omega)]
            simp only [lockPath, gotBase, gotDir, addedDot, baseHolds.stringOf_eq, addedBase,
              failed, ok_bind, error_bind]
        · simp only [List.length_append, pieces] at full
          rw [if_neg (by omega)]
          simp only [lockPath, gotBase, gotDir, addedDot, baseHolds.stringOf_eq, failed, ok_bind,
            error_bind]
      · simp only [List.length_append, pieces] at full
        rw [if_neg (by omega)]
        simp only [lockPath, gotBase, gotDir, failed, ok_bind, error_bind]
    · rw [if_neg (by omega)]
      simp only [lockPath, gotBase, failed, ok_bind, error_bind]
  · rw [if_neg (by omega)]
    simp only [lockPath, failed, error_bind]

/-- Every write stays inside the two arrays if and only if the path fits. -/
theorem lock_path_inside_iff (exe : AbsolutePath) (curProcDir curProcBasename : Block pathMax) :
    (∃ path, lockPath exe curProcDir curProcBasename = .ok path) ↔
      exe.bytes.length < pathMax ∧
        (dirOf exe.bytes).length + (baseOf exe.bytes).length + 15 < pathMax := by
  rw [lockPath_spec]
  constructor
  · rintro ⟨path, built⟩
    by_contra long
    rw [if_neg long] at built
    cases built
  · intro fits
    exact ⟨_, if_pos fits⟩

theorem rdropWhile_append {test : UInt8 → Bool} (front : List UInt8) {back : List UInt8}
    (passes : ∀ byte ∈ back, test byte = true) :
    (front ++ back).rdropWhile test = front.rdropWhile test := by
  have reversed : ∀ byte ∈ back.reverse, test byte = true := by
    intro byte member
    exact passes byte (List.mem_reverse.mp member)
  simp only [List.rdropWhile, List.reverse_append, List.dropWhile_append_of_pos reversed]

theorem rtakeWhile_append {test : UInt8 → Bool} (front : List UInt8) {back : List UInt8}
    (passes : ∀ byte ∈ back, test byte = true) :
    (front ++ back).rtakeWhile test = front.rtakeWhile test ++ back := by
  have reversed : ∀ byte ∈ back.reverse, test byte = true := by
    intro byte member
    exact passes byte (List.mem_reverse.mp member)
  simp only [List.rtakeWhile, List.reverse_append, List.takeWhile_append_of_pos reversed,
    List.reverse_reverse]

theorem components_ordinary (front : List UInt8) {last : UInt8} {name : List UInt8}
    (above : last ≠ slash) (nonempty : name ≠ []) (absent : slash ∉ name) :
    dirOf (front ++ [last] ++ [slash] ++ name) = front ++ [last] ∧
      baseOf (front ++ [last] ++ [slash] ++ name) = name := by
  have passes := passes_absent absent
  have whole : trimmed (front ++ [last] ++ [slash] ++ name) =
      front ++ [last] ++ [slash] ++ name := by
    rcases List.eq_nil_or_concat name with rfl | ⟨init, final, rfl⟩
    · exact absurd rfl nonempty
    · have apart : final ≠ slash := fun same => absent (by simp [same])
      rw [List.concat_eq_append, ← List.append_assoc]
      exact List.rdropWhile_concat_neg _ _ _ (by simpa using apart)
  have present : front ++ [last] ++ [slash] ++ name ≠ [] := by simp
  have upper : trimmed (front ++ [last] ++ [slash]) = front ++ [last] := by
    rw [trimmed, List.rdropWhile_concat_pos _ _ _ (by simp)]
    exact List.rdropWhile_concat_neg _ _ _ (by simpa using above)
  have split : parent (front ++ [last] ++ [slash] ++ name) = front ++ [last] ++ [slash] := by
    rw [parent, whole, if_neg present, rdropWhile_append _ passes]
    exact List.rdropWhile_concat_neg _ _ _ (by simp)
  constructor
  · rw [dirOf, split, upper, if_neg (by simp)]
  · rw [baseOf, if_neg present, whole, if_neg present, rtakeWhile_append _ passes,
      List.rtakeWhile_concat_neg _ _ _ (by simp), List.nil_append]

/-- Such a path has to leave fourteen bytes and the terminator. -/
theorem lockPath_ordinary {exe : AbsolutePath} {front name : List UInt8} {last : UInt8}
    (split : exe.bytes = front ++ [last] ++ [slash] ++ name) (above : last ≠ slash)
    (nonempty : name ≠ []) (absent : slash ∉ name) (curProcDir curProcBasename : Block pathMax) :
    lockPath exe curProcDir curProcBasename =
      if exe.bytes.length + 14 < pathMax then .ok (lockName exe.bytes)
      else .error .outOfBounds := by
  obtain ⟨directory, base⟩ := components_ordinary front above nonempty absent
  rw [← split] at directory base
  have total : exe.bytes.length = (dirOf exe.bytes).length + 1 + (baseOf exe.bytes).length := by
    rw [directory, base, split, List.length_append, List.length_append, List.length_singleton]
  rw [lockPath_spec]
  refine if_congr ?_ rfl rfl
  omega

/-- A slash and a name of so many characters. -/
def component (length : Nat) : List UInt8 := slash :: List.replicate length 0x61

theorem component_nonzero (length : Nat) : 0 ∉ component length := by
  simp [component, slash, List.mem_replicate]

/-- Four components of at most 252 characters. -/
def longPath : AbsolutePath where
  bytes := (component 252 ++ component 252 ++ component 250) ++ [0x61] ++ [slash] ++
    List.replicate 251 0x62
  absolute := rfl
  terminated := by
    simp only [List.mem_append, component_nonzero, List.mem_singleton, List.mem_replicate]
    decide

/-- A path that is fourteen bytes shorter than the arrays: the terminator of the lock
file's name is stored behind the first one. -/
theorem lock_path_overrun :
    longPath.bytes.length = 1010 ∧
      lockPath longPath (Block.zeros PATH_MAX) (Block.zeros PATH_MAX) = .error .outOfBounds := by
  have split : longPath.bytes = (component 252 ++ component 252 ++ component 250) ++ [0x61] ++
      [slash] ++ List.replicate 251 0x62 := rfl
  have length : longPath.bytes.length = 1010 := by
    simp only [split, component, List.length_append, List.length_cons, List.length_replicate,
      List.length_nil]
  have nonempty : List.replicate 251 (0x62 : UInt8) ≠ [] := List.cons_ne_nil _ _
  have absent : slash ∉ List.replicate 251 (0x62 : UInt8) := by
    intro member
    exact absurd (List.eq_of_mem_replicate member) (by decide)
  refine ⟨length, ?_⟩
  rw [lockPath_ordinary split (by decide) nonempty absent, length]
  exact if_neg (Nat.lt_irrefl 1024)

end LockPath

end IpcamSearch.AlreadyRunning
