import IpcamSearch.SearchPcLoop

/-! Console input that arrives in chunks: the loop watches the bytes that the kernel
holds, while `dealcmd` reads one line through the buffer of `stdin`. -/

set_option autoImplicit false

namespace IpcamSearch.ConsoleInput

open Memory EventLoop Console SearchPcLoop

/-- The console side of the running program. `stored` is what a sleeping `fgets` holds.
`arrived` and `executed` record the input and the pieces that `dealcmd` ran. -/
structure Shell where
  stdin : Stdin
  stored : List UInt8
  arrived : List UInt8
  executed : List (List UInt8)
  eventLoop : AeEventLoop TimeProc
  app : App

inductive Input where
  | chunk (bytes : List UInt8)
  | readable

def Shell.idle (eventLoop : AeEventLoop TimeProc) (app : App) : Shell where
  stdin := { kernel := [], buffer := [] }
  stored := []
  arrived := []
  executed := []
  eventLoop := eventLoop
  app := app

def Shell.room (shell : Shell) : Nat := LINE_MAX - 1 - shell.stored.length

/-- `dealcmd` goes on with the piece that its `fgets` returned. -/
def Shell.handle (host : Host) (shell : Shell) (piece : List UInt8) (stdin : Stdin) : Shell :=
  let (eventLoop, app) := dealcmd host (some piece) shell.eventLoop shell.app
  { stdin := stdin
    stored := []
    arrived := shell.arrived
    executed := shell.executed ++ [piece]
    eventLoop := eventLoop
    app := app }

/-- A readable event calls `dealcmd`, or wakes the call that sleeps in its read. The poll
reports it only while the kernel holds input. -/
def Shell.step (host : Host) (bufsiz : Nat) (shell : Shell) : Input → Shell
  | .chunk bytes =>
      { shell with
        stdin := { shell.stdin with kernel := shell.stdin.kernel ++ bytes }
        arrived := shell.arrived ++ bytes }
  | .readable =>
      if shell.app.exited ∨ shell.stdin.kernel = [] then shell
      else
        match fgets bufsiz shell.room shell.stored shell.stdin with
        | (.sleeping stored, stdin) => { shell with stdin := stdin, stored := stored }
        | (.returned piece, stdin) => shell.handle host piece stdin

def Shell.after (host : Host) (bufsiz : Nat) (shell : Shell) (inputs : List Input) : Shell :=
  inputs.foldl (Shell.step host bufsiz) shell

/-- When the program runs and no readable event is left, every line that has arrived
has been run. -/
def Shell.Settled (shell : Shell) : Prop :=
  shell.app.exited = false → shell.stdin.kernel = [] →
    ∀ line, line ++ [newline] <+: shell.arrived → line ++ [newline] <+: shell.executed.flatten

/-- The bytes up to the first newline, but no more than there is room for. -/
def firstLine : Nat → List UInt8 → List UInt8
  | 0, _ => []
  | _, [] => []
  | room + 1, byte :: bytes =>
      if byte = newline then [byte] else byte :: firstLine room bytes

/-- The reads that `fgets` needs for so many bytes behind the buffered ones. -/
def refills (bufsiz wanted buffered : Nat) : Nat := (wanted - buffered + (bufsiz - 1)) / bufsiz

/-- The readable events that leave a line behind in the buffer: the refills empty the
kernel queue, a newline follows the piece that `fgets` returns, and no command of the
piece ends the process. -/
structure Shell.Strands (bufsiz : Nat) (shell : Shell) : Prop where
  running : shell.app.exited = false
  readable : shell.stdin.kernel ≠ []
  drained : shell.stdin.kernel.length ≤ bufsiz *
    refills bufsiz (firstLine shell.room shell.stdin.bytes).length shell.stdin.buffer.length
  followed : newline ∈
    shell.stdin.bytes.drop (firstLine shell.room shell.stdin.bytes).length
  stays : ¬ (commandsIn (some (shell.stored ++ firstLine shell.room shell.stdin.bytes))).any
    fun cmdString => Command.ofString cmdString = .quit

section Fgets

variable {bufsiz : Nat}

theorem refills_buffered {wanted buffered : Nat} (positive : 0 < bufsiz)
    (enough : wanted ≤ buffered) : refills bufsiz wanted buffered = 0 := by
  rw [refills, Nat.sub_eq_zero_of_le enough, Nat.zero_add]
  exact Nat.div_eq_of_lt (Nat.sub_lt positive Nat.one_pos)

theorem refills_read {wanted : Nat} (positive : 0 < bufsiz) :
    refills bufsiz (wanted + 1) 0 = refills bufsiz wanted (bufsiz - 1) + 1 := by
  unfold refills
  have moved : wanted + 1 - 0 + (bufsiz - 1) = wanted + bufsiz := by omega
  rw [moved, Nat.add_div_right _ positive]
  congr 1
  by_cases more : bufsiz - 1 ≤ wanted
  · rw [Nat.sub_add_cancel more]
  · rw [Nat.sub_eq_zero_of_le (by omega), Nat.zero_add, Nat.div_eq_of_lt (by omega),
      Nat.div_eq_of_lt (by omega)]

theorem refilled_drop (byte : UInt8) (kernel : List UInt8) (size wanted : Nat) :
    (kernel.drop size).drop ((size + 1) * refills (size + 1) wanted (kernel.take size).length) =
      (byte :: kernel).drop ((size + 1) * refills (size + 1) (wanted + 1) 0) := by
  have read : refills (size + 1) (wanted + 1) 0 = refills (size + 1) wanted size + 1 :=
    refills_read (Nat.succ_pos size)
  rw [read, Nat.mul_add, Nat.mul_one, ← Nat.add_assoc, List.drop_succ_cons, List.drop_drop]
  by_cases whole : size ≤ kernel.length
  · rw [List.length_take_of_le whole, Nat.add_comm size]
  · rw [List.drop_eq_nil_of_le (by omega), List.drop_eq_nil_of_le (by omega)]

/-- `fgets` returns when the line or the room ends before the reachable bytes do. -/
theorem fgets_returned (positive : 0 < bufsiz) {room : Nat} {stdin : Stdin}
    (ends : room ≤ stdin.bytes.length ∨ newline ∈ stdin.bytes) (stored : List UInt8) :
    ∃ after, fgets bufsiz room stored stdin =
        (.returned (stored ++ firstLine room stdin.bytes), after) ∧
      after.bytes = stdin.bytes.drop (firstLine room stdin.bytes).length ∧
      after.kernel = stdin.kernel.drop (bufsiz *
        refills bufsiz (firstLine room stdin.bytes).length stdin.buffer.length) := by
  induction room generalizing stored stdin with
  | zero =>
      refine ⟨stdin, by simp [fgets, firstLine], rfl, ?_⟩
      simp [firstLine, refills_buffered positive]
  | succ room ih =>
      obtain ⟨kernel, buffer⟩ := stdin
      cases buffer with
      | cons byte buffer =>
          by_cases last : byte = newline
          · refine ⟨⟨kernel, buffer⟩, ?_, ?_, ?_⟩
            · simp [fgets, Stdin.bytes, firstLine, last]
            · simp [Stdin.bytes, firstLine, last]
            · simp [Stdin.bytes, firstLine, last, refills_buffered positive]
          · obtain ⟨after, done, rest, read⟩ := @ih ⟨kernel, buffer⟩
              (by simpa [Stdin.bytes, Ne.symm last] using ends) (stored ++ [byte])
            refine ⟨after, ?_, ?_, ?_⟩
            · simpa [fgets, Stdin.bytes, firstLine, last] using done
            · simpa [Stdin.bytes, firstLine, last] using rest
            · simpa [Stdin.bytes, firstLine, last, refills] using read
      | nil =>
          cases kernel with
          | nil => simp [Stdin.bytes] at ends
          | cons byte kernel =>
              obtain ⟨size, rfl⟩ := Nat.exists_eq_add_one.mpr positive
              have joined : kernel.take size ++ kernel.drop size = kernel :=
                List.take_append_drop size kernel
              have read : refills (size + 1) 1 0 = 1 := by
                rw [refills_read positive, refills_buffered positive (Nat.zero_le _)]
              by_cases last : byte = newline
              · refine ⟨⟨kernel.drop size, kernel.take size⟩, ?_, ?_, ?_⟩
                · simp [fgets, Stdin.bytes, firstLine, last]
                · simp [Stdin.bytes, firstLine, last]
                · simp [Stdin.bytes, firstLine, last, read]
              · obtain ⟨after, done, rest, drained⟩ :=
                  @ih ⟨kernel.drop size, kernel.take size⟩
                    (by simpa [Stdin.bytes, Ne.symm last] using ends) (stored ++ [byte])
                refine ⟨after, ?_, ?_, ?_⟩
                · simpa [fgets, Stdin.bytes, firstLine, last] using done
                · simpa [Stdin.bytes, firstLine, last] using rest
                · rw [drained]
                  simp only [Stdin.bytes, joined, List.nil_append, firstLine, last, if_false,
                    List.length_cons, List.length_nil]
                  exact refilled_drop byte kernel size _

/-- `fgets` sleeps when it has taken every reachable byte and the line goes on. -/
theorem fgets_sleeping (positive : 0 < bufsiz) {room : Nat} {stdin : Stdin}
    (short : stdin.bytes.length < room) (unended : newline ∉ stdin.bytes) (stored : List UInt8) :
    fgets bufsiz room stored stdin =
      (.sleeping (stored ++ stdin.bytes), { kernel := [], buffer := [] }) := by
  induction room generalizing stored stdin with
  | zero => cases Nat.not_lt_zero _ short
  | succ room ih =>
      obtain ⟨kernel, buffer⟩ := stdin
      cases buffer with
      | cons byte buffer =>
          have apart : byte ≠ newline := fun same => unended (by simp [Stdin.bytes, same])
          have slept := @ih ⟨kernel, buffer⟩ (by simpa [Stdin.bytes] using short)
            (fun member => unended (List.mem_cons_of_mem _ member)) (stored ++ [byte])
          simpa [fgets, Stdin.bytes, apart] using slept
      | nil =>
          cases kernel with
          | nil => simp [fgets, Stdin.bytes]
          | cons byte kernel =>
              obtain ⟨size, rfl⟩ := Nat.exists_eq_add_one.mpr positive
              have apart : byte ≠ newline := fun same => unended (by simp [Stdin.bytes, same])
              have slept := @ih ⟨kernel.drop size, kernel.take size⟩
                (by simpa [Stdin.bytes] using short)
                (fun member => unended (List.mem_cons_of_mem _ (by simpa [Stdin.bytes] using member)))
                (stored ++ [byte])
              simpa [fgets, Stdin.bytes, apart] using slept

theorem firstLine_append (room : Nat) (bytes : List UInt8) :
    firstLine room bytes ++ bytes.drop (firstLine room bytes).length = bytes := by
  induction room generalizing bytes with
  | zero => rfl
  | succ room ih =>
      cases bytes with
      | nil => rfl
      | cons byte bytes =>
          by_cases last : byte = newline
          · simp [firstLine, last]
          · simp [firstLine, last, ih]

theorem firstLine_whole {room : Nat} {bytes : List UInt8} (short : bytes.length < room)
    (unended : newline ∉ bytes) : firstLine room bytes = bytes := by
  induction room generalizing bytes with
  | zero => cases Nat.not_lt_zero _ short
  | succ room ih =>
      cases bytes with
      | nil => rfl
      | cons byte bytes =>
          have apart : byte ≠ newline := fun same => unended (by simp [same])
          have rest : newline ∉ bytes := fun member => unended (List.mem_cons_of_mem _ member)
          rw [firstLine, if_neg apart, ih (Nat.lt_of_succ_lt_succ short) rest]

end Fgets

/-- Every byte that has arrived is in one place, and a sleeping `fgets` has seen no newline. -/
structure Shell.Accounted (shell : Shell) : Prop where
  account : shell.arrived = shell.executed.flatten ++ (shell.stored ++ shell.stdin.bytes)
  unbroken : newline ∉ shell.stored

theorem lines_prefix_iff {front back : List UInt8} :
    (∀ line, line ++ [newline] <+: front ++ back → line ++ [newline] <+: front) ↔
      newline ∉ back := by
  constructor
  · intro covered member
    obtain ⟨earlier, later, split⟩ := List.append_of_mem member
    have longer := (covered (front ++ earlier) ⟨later, by simp [split]⟩).length_le
    simp only [List.length_append, List.length_singleton] at longer
    omega
  · intro absent line arrived
    rcases List.prefix_or_prefix_of_prefix arrived (List.prefix_append front back) with
      inside | ⟨rest, extended⟩
    · exact inside
    · rcases List.eq_nil_or_concat rest with rfl | ⟨init, last, rfl⟩
      · rw [List.append_nil] at extended
        rw [extended]
      · rw [List.concat_eq_append, ← List.append_assoc] at extended
        have same : [last] = [newline] := (List.append_inj' extended rfl).2
        rw [← extended, List.append_assoc, List.prefix_append_right_inj, same] at arrived
        exact absurd (arrived.subset (by simp)) absent

def Shell.Quiet (shell : Shell) : Prop :=
  shell.app.exited = false → shell.stdin.kernel = [] → newline ∉ shell.stdin.buffer

theorem settled_iff_quiet {shell : Shell} (accounted : shell.Accounted) :
    shell.Settled ↔ shell.Quiet := by
  refine forall_congr' fun _ => forall_congr' fun drained => ?_
  rw [accounted.account, lines_prefix_iff, Stdin.bytes, drained]
  simp [accounted.unbroken]

section Steps

variable (host : Host) {bufsiz : Nat} {shell : Shell}

theorem chunk_accounted (accounted : shell.Accounted) (bytes : List UInt8) :
    (shell.step host bufsiz (.chunk bytes)).Accounted where
  account := by simp [Shell.step, Stdin.bytes, accounted.account]
  unbroken := accounted.unbroken

theorem handle_exited (running : shell.app.exited = false) (piece : List UInt8) (stdin : Stdin) :
    (shell.handle host piece stdin).app.exited = (commandsIn (some piece)).any
      fun cmdString => Command.ofString cmdString = .quit := by
  have exits := dealcmd_exited host shell.app (some piece) shell.eventLoop
  rwa [running, Bool.false_or] at exits

theorem readable_returned (positive : 0 < bufsiz) (running : shell.app.exited = false)
    (readable : shell.stdin.kernel ≠ [])
    (ends : shell.room ≤ shell.stdin.bytes.length ∨ newline ∈ shell.stdin.bytes) :
    ∃ after, shell.step host bufsiz .readable =
        shell.handle host (shell.stored ++ firstLine shell.room shell.stdin.bytes) after ∧
      after.bytes = shell.stdin.bytes.drop (firstLine shell.room shell.stdin.bytes).length ∧
      after.kernel = shell.stdin.kernel.drop (bufsiz * refills bufsiz
        (firstLine shell.room shell.stdin.bytes).length shell.stdin.buffer.length) := by
  obtain ⟨after, returned, rest, read⟩ := fgets_returned positive ends shell.stored
  refine ⟨after, ?_, rest, read⟩
  have enabled : ¬ (shell.app.exited = true ∨ shell.stdin.kernel = []) := by
    simp [running, readable]
  simp only [Shell.step, if_neg enabled, returned]

theorem readable_sleeping (positive : 0 < bufsiz) (running : shell.app.exited = false)
    (readable : shell.stdin.kernel ≠ []) (short : shell.stdin.bytes.length < shell.room)
    (unended : newline ∉ shell.stdin.bytes) :
    shell.step host bufsiz .readable = { shell with
      stdin := { kernel := [], buffer := [] }
      stored := shell.stored ++ shell.stdin.bytes } := by
  have enabled : ¬ (shell.app.exited = true ∨ shell.stdin.kernel = []) := by
    simp [running, readable]
  simp only [Shell.step, if_neg enabled, fgets_sleeping positive short unended]

theorem readable_accounted (positive : 0 < bufsiz) (accounted : shell.Accounted)
    (running : shell.app.exited = false) (readable : shell.stdin.kernel ≠ []) :
    (shell.step host bufsiz .readable).Accounted := by
  by_cases ends : shell.room ≤ shell.stdin.bytes.length ∨ newline ∈ shell.stdin.bytes
  · obtain ⟨after, stepped, rest, _⟩ := readable_returned host positive running readable ends
    rw [stepped]
    constructor
    · simp [Shell.handle, accounted.account, rest, firstLine_append]
    · exact List.not_mem_nil
  · rw [not_or, not_le] at ends
    rw [readable_sleeping host positive running readable ends.1 ends.2]
    constructor
    · simp [accounted.account, Stdin.bytes]
    · simp [accounted.unbroken, ends.2]

theorem strands_iff (positive : 0 < bufsiz) (running : shell.app.exited = false)
    (readable : shell.stdin.kernel ≠ []) :
    shell.Strands bufsiz ↔ (shell.step host bufsiz .readable).app.exited = false ∧
      (shell.step host bufsiz .readable).stdin.kernel = [] ∧
      newline ∈ (shell.step host bufsiz .readable).stdin.buffer := by
  by_cases ends : shell.room ≤ shell.stdin.bytes.length ∨ newline ∈ shell.stdin.bytes
  · obtain ⟨after, stepped, rest, read⟩ := readable_returned host positive running readable ends
    rw [stepped, handle_exited host running]
    constructor
    · intro strands
      have drained : after.kernel = [] := by
        rw [read]
        exact List.drop_eq_nil_of_le strands.drained
      have buffered : after.buffer = after.bytes := by
        rw [Stdin.bytes, drained, List.append_nil]
      refine ⟨Bool.eq_false_iff.mpr strands.stays, drained, ?_⟩
      have followed := strands.followed
      rw [← rest, ← buffered] at followed
      exact followed
    · rintro ⟨stays, drained, member⟩
      refine ⟨running, readable, ?_, ?_, Bool.eq_false_iff.mp stays⟩
      · have emptied : after.kernel = [] := drained
        rw [read] at emptied
        exact List.drop_eq_nil_iff.mp emptied
      · rw [← rest]
        exact List.mem_append_left _ member
  · rw [not_or, not_le] at ends
    rw [readable_sleeping host positive running readable ends.1 ends.2]
    constructor
    · intro strands
      have followed := strands.followed
      rw [firstLine_whole ends.1 ends.2, List.drop_length] at followed
      cases followed
    · rintro ⟨_, _, member⟩
      cases member

theorem readable_disabled (disabled : shell.app.exited = true ∨ shell.stdin.kernel = []) :
    shell.step host bufsiz .readable = shell := by
  simp only [Shell.step, if_pos disabled]

theorem enabled_of (enabled : ¬ (shell.app.exited = true ∨ shell.stdin.kernel = [])) :
    shell.app.exited = false ∧ shell.stdin.kernel ≠ [] := by
  rw [not_or, Bool.not_eq_true] at enabled
  exact enabled

theorem step_accounted (positive : 0 < bufsiz) (accounted : shell.Accounted) (input : Input) :
    (shell.step host bufsiz input).Accounted := by
  cases input with
  | chunk bytes => exact chunk_accounted host accounted bytes
  | readable =>
      by_cases disabled : shell.app.exited = true ∨ shell.stdin.kernel = []
      · rw [readable_disabled host disabled]
        exact accounted
      · obtain ⟨running, readable⟩ := enabled_of disabled
        exact readable_accounted host positive accounted running readable

theorem chunk_quiet (quiet : shell.Quiet) (bytes : List UInt8) :
    (shell.step host bufsiz (.chunk bytes)).Quiet := by
  intro running drained
  exact quiet running (List.append_eq_nil_iff.mp drained).1

theorem readable_quiet (positive : 0 < bufsiz)
    (quiet : shell.Quiet) (clean : ¬ shell.Strands bufsiz) :
    (shell.step host bufsiz .readable).Quiet := by
  by_cases disabled : shell.app.exited = true ∨ shell.stdin.kernel = []
  · rw [readable_disabled host disabled]
    exact quiet
  · obtain ⟨running, readable⟩ := enabled_of disabled
    intro stays drained member
    exact clean ((strands_iff host positive running readable).mpr ⟨stays, drained, member⟩)

theorem strands_not_quiet (positive : 0 < bufsiz)
    (strands : shell.Strands bufsiz) : ¬ (shell.step host bufsiz .readable).Quiet := by
  intro quiet
  obtain ⟨stays, drained, member⟩ :=
    (strands_iff host positive strands.running strands.readable).mp strands
  exact quiet stays drained member

theorem after_snoc (inputs : List Input) (input : Input) :
    shell.after host bufsiz (inputs ++ [input]) =
      (shell.after host bufsiz inputs).step host bufsiz input := by
  simp [Shell.after]

theorem after_accounted (positive : 0 < bufsiz) (accounted : shell.Accounted)
    (inputs : List Input) : (shell.after host bufsiz inputs).Accounted := by
  induction inputs using List.reverseRecOn with
  | nil => exact accounted
  | append_singleton inputs input ih =>
      rw [after_snoc]
      exact step_accounted host positive ih input

end Steps

/-- The commands of the pieces that have been run. -/
def Shell.commands (shell : Shell) : List (List UInt8) :=
  shell.executed.flatMap fun piece => commandsIn (some piece)

/-- The program ran the commands of these pieces, up to one that ended it. -/
structure Shell.Logged (initial : App) (shell : Shell) : Prop where
  commands : shell.app.commands = initial.commands ++ untilQuit shell.commands
  exited : shell.app.exited = shell.commands.any fun cmdString => Command.ofString cmdString = .quit

section Commands

variable (host : Host) {bufsiz : Nat} {initial : App} {shell : Shell}

theorem handle_logged (logged : shell.Logged initial) (running : shell.app.exited = false)
    (piece : List UInt8) (stdin : Stdin) : (shell.handle host piece stdin).Logged initial := by
  have more : (shell.handle host piece stdin).commands = shell.commands ++ commandsIn (some piece) := by
    simp [Shell.commands, Shell.handle]
  have onward : (shell.commands.any fun cmdString => Command.ofString cmdString = .quit) = false :=
    logged.exited.symm.trans running
  constructor
  · have ran := dealcmd_commands host shell.app (some piece) shell.eventLoop
    rw [more, untilQuit_append, onward]
    simpa [Shell.handle, running, logged.commands] using ran
  · rw [more, List.any_append, onward, Bool.false_or]
    exact handle_exited host running piece stdin

theorem step_logged (positive : 0 < bufsiz) (logged : shell.Logged initial) (input : Input) :
    (shell.step host bufsiz input).Logged initial := by
  cases input with
  | chunk bytes => exact ⟨logged.commands, logged.exited⟩
  | readable =>
      by_cases disabled : shell.app.exited = true ∨ shell.stdin.kernel = []
      · rw [readable_disabled host disabled]
        exact logged
      obtain ⟨running, readable⟩ := enabled_of disabled
      by_cases ends : shell.room ≤ shell.stdin.bytes.length ∨ newline ∈ shell.stdin.bytes
      · obtain ⟨after, stepped, _⟩ := readable_returned host positive running readable ends
        rw [stepped]
        exact handle_logged host logged running _ after
      · rw [not_or, not_le] at ends
        rw [readable_sleeping host positive running readable ends.1 ends.2]
        exact ⟨logged.commands, logged.exited⟩

/-- The pieces of a run are what its commands come from. -/
theorem after_logged (positive : 0 < bufsiz) (running : initial.exited = false)
    (eventLoop : AeEventLoop TimeProc) (inputs : List Input) :
    ((Shell.idle eventLoop initial).after host bufsiz inputs).Logged initial := by
  induction inputs using List.reverseRecOn with
  | nil => exact ⟨(List.append_nil _).symm, running⟩
  | append_singleton inputs input ih =>
      rw [after_snoc]
      exact step_logged host positive ih input

end Commands

/-- In a run of the console, nothing that has arrived waits without an event in any state
reached, if and only if no readable event of the run leaves a line in the buffer. -/
theorem input_settled_iff (host : Host) {bufsiz : Nat} (positive : 0 < bufsiz)
    (eventLoop : AeEventLoop TimeProc) (app : App) (inputs : List Input) :
    (∀ earlier later, inputs = earlier ++ later →
        ((Shell.idle eventLoop app).after host bufsiz earlier).Settled) ↔
      ∀ earlier later, inputs = earlier ++ .readable :: later →
        ¬ ((Shell.idle eventLoop app).after host bufsiz earlier).Strands bufsiz := by
  have accounted : ∀ inputs, ((Shell.idle eventLoop app).after host bufsiz inputs).Accounted :=
    after_accounted host positive ⟨rfl, List.not_mem_nil⟩
  constructor
  · intro settled earlier later split strands
    have next := settled (earlier ++ [.readable]) later (by simp [split])
    rw [settled_iff_quiet (accounted _), after_snoc] at next
    exact strands_not_quiet host positive strands next
  · intro clean earlier
    induction earlier using List.reverseRecOn with
    | nil =>
        intro later _
        rw [settled_iff_quiet (accounted [])]
        exact fun _ _ => List.not_mem_nil
    | append_singleton earlier input ih =>
        intro later split
        rw [List.append_assoc] at split
        have quiet := (settled_iff_quiet (accounted earlier)).mp (ih _ split)
        rw [settled_iff_quiet (accounted _), after_snoc]
        cases input with
        | chunk bytes => exact chunk_quiet host quiet bytes
        | readable =>
            exact readable_quiet host positive quiet (clean earlier later split)

/-- One line in one chunk is run and leaves nothing behind. -/
theorem input_settled_iff_one_line : ∃ eventLoop app,
    start tenSecondHost ∅ = .ok (eventLoop, app) ∧
      ∀ earlier later, [.chunk [0x6c, newline], .readable] = earlier ++ later →
        ((Shell.idle eventLoop app).after tenSecondHost 4096 earlier).Settled := by
  refine ⟨_, _, rfl, (input_settled_iff tenSecondHost (by decide) _ _ _).mpr ?_⟩
  intro earlier later split strands
  cases earlier with
  | nil => cases split
  | cons first earlier =>
      obtain ⟨rfl, rest⟩ := List.cons.inj split
      cases earlier with
      | nil => exact absurd strands.followed (by decide)
      | cons second earlier =>
          have longer := congrArg List.length rest
          simp at longer

/-- Two lines that arrive in one chunk: the second stays in the buffer. -/
theorem second_line_stranded : ∃ eventLoop app,
    start tenSecondHost ∅ = .ok (eventLoop, app) ∧
      ¬ ((Shell.idle eventLoop app).after tenSecondHost 4096
        [.chunk [0x6c, newline, 0x6c, newline], .readable]).Settled := by
  refine ⟨_, _, rfl, fun settled => ?_⟩
  have run := settled rfl rfl [0x6c, newline, 0x6c] List.prefix_rfl
  exact absurd run.length_le (by decide)

end IpcamSearch.ConsoleInput
