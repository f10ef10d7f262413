import IpcamSearch.ConsoleInput
import IpcamSearch.Library.Occurrence

/-! Whole lines on the console: which commands the successive calls of `dealcmd` run on a
stream of lines, and what a line that does not fit into `line_buf` becomes. -/

set_option autoImplicit false

namespace IpcamSearch.ConsoleLines

open Memory Occurrence Console EventLoop SearchPcLoop ConsoleInput

/-- A line without its newline. -/
structure Line where
  bytes : List UInt8
  unbroken : newline ∉ bytes

def stream (lines : List Line) : List UInt8 := lines.flatMap fun line => line.bytes ++ [newline]

/-- The commands that a line means: the pieces between its semicolons that are not empty.
A zero byte ends the line. -/
def segments (line : Line) : List (List UInt8) :=
  ((line.bytes.takeWhile fun byte => byte ≠ 0).splitOn semicolon).filter fun piece => piece ≠ []

/-- What the successive calls of `dealcmd` hand to `run_cmd_by_string`, one list a call,
until `stdin` has no byte left or the line goes on. -/
def dealcmds (bufsiz : Nat) : Nat → Stdin → Except Fault (List (List (List UInt8)))
  | 0, _ => .error .divergence
  | fuel + 1, stdin =>
      if stdin.bytes = [] then return []
      else
        match fgets bufsiz (LINE_MAX - 1) [] stdin with
        | (.sleeping _, _) => return []
        | (.returned piece, stdin) => do
            let lineBuf ← getLine (some piece)
            let batches ← dealcmds bufsiz fuel stdin
            return commandsOf lineBuf :: batches

/-- The same calls in the running program. -/
def runConsole (host : Host) (bufsiz : Nat) :
    Nat → Stdin → AeEventLoop TimeProc → App → AeEventLoop TimeProc × App
  | 0, _, eventLoop, app => (eventLoop, app)
  | fuel + 1, stdin, eventLoop, app =>
      if app.exited ∨ stdin.bytes = [] then (eventLoop, app)
      else
        match fgets bufsiz (LINE_MAX - 1) [] stdin with
        | (.sleeping _, _) => (eventLoop, app)
        | (.returned piece, stdin) =>
            let (eventLoop, app) := dealcmd host (some piece) eventLoop app
            runConsole host bufsiz fuel stdin eventLoop app

section Tokens

theorem commandsOf_semicolon (rest : List UInt8) :
    commandsOf (semicolon :: rest) = commandsOf rest := by
  have skipped : strtok (semicolon :: rest) = strtok rest := by
    simp [strtok]
  have unrolled : commandsOf rest = strtokLoop (rest.length + 1) rest :=
    strtokLoop_enough le_rfl (Nat.le_succ _)
  rw [unrolled, commandsOf, List.length_cons, strtokLoop, strtokLoop, skipped]

theorem strtok_token {token : List UInt8} (nonempty : token ≠ []) (absent : semicolon ∉ token) :
    strtok token = some (token, []) ∧
      ∀ rest, strtok (token ++ semicolon :: rest) = some (token, rest) := by
  cases token with
  | nil => exact absurd rfl nonempty
  | cons first token =>
      obtain ⟨apart, later⟩ := not_or.mp (mt List.mem_cons.mpr absent)
      have skipped (behind : List UInt8) :
          (first :: behind).dropWhile (fun byte => byte = semicolon) = first :: behind :=
        List.dropWhile_cons_of_neg (by simpa using Ne.symm apart)
      constructor
      · rw [strtok, skipped]
        dsimp only
        rw [takeWhile_ne_self later, dropWhile_ne_self later, List.tail_nil]
      · intro rest
        rw [List.cons_append, strtok, skipped]
        dsimp only
        rw [takeWhile_ne_found later, dropWhile_ne_found later, List.tail_cons]

/-- The tokens of a line are its pieces between semicolons that are not empty. -/
theorem commandsOf_eq (line : List UInt8) :
    commandsOf line = (line.splitOn semicolon).filter fun piece => piece ≠ [] := by
  induction bound : line.length using Nat.strong_induction_on generalizing line with
  | _ length ih =>
      by_cases present : semicolon ∈ line
      · obtain ⟨token, rest, rfl, absent⟩ := List.eq_append_cons_of_mem present
        rw [List.length_append, List.length_cons] at bound
        have later := ih rest.length (by omega) rest rfl
        rw [List.splitOn_append_cons_self_of_not_mem absent]
        by_cases empty : token = []
        · subst empty
          rw [List.nil_append, commandsOf_semicolon, later, List.filter_cons_of_neg (by simp)]
        · rw [commandsOf_token ((strtok_token empty absent).2 rest), later,
            List.filter_cons_of_pos (by simpa using empty)]
      · rw [List.splitOn_eq_singleton present]
        by_cases empty : line = []
        · subst empty
          rfl
        · rw [commandsOf_token (strtok_token empty present).1,
            List.filter_cons_of_pos (by simpa using empty)]
          rfl

theorem firstLine_line {room : Nat} {line : List UInt8} (fits : line.length < room)
    (unbroken : newline ∉ line) (rest : List UInt8) :
    firstLine room (line ++ newline :: rest) = line ++ [newline] := by
  induction line generalizing room with
  | nil =>
      cases room with
      | zero => cases fits
      | succ room => simp [firstLine]
  | cons byte line ih =>
      cases room with
      | zero => cases fits
      | succ room =>
          obtain ⟨apart, later⟩ := not_or.mp (mt List.mem_cons.mpr unbroken)
          simp [firstLine, Ne.symm apart, ih (Nat.lt_of_succ_lt_succ fits) later]

theorem firstLine_long {room : Nat} {line : List UInt8} (long : room ≤ line.length)
    (unbroken : newline ∉ line) (rest : List UInt8) :
    firstLine room (line ++ rest) = line.take room := by
  induction room generalizing line with
  | zero => rfl
  | succ room ih =>
      cases line with
      | nil => cases long
      | cons byte line =>
          obtain ⟨apart, later⟩ := not_or.mp (mt List.mem_cons.mpr unbroken)
          simp [firstLine, Ne.symm apart, ih (Nat.le_of_succ_le_succ long) later]

theorem getLine_line {line : List UInt8} (unbroken : newline ∉ line) :
    getLine (some (line ++ [newline])) =
      if line.head? = some 0 then .error .outOfBounds
      else .ok (line.takeWhile fun byte => byte ≠ 0) := by
  by_cases cut : 0 ∈ line
  · obtain ⟨front, back, rfl, absent⟩ := List.eq_append_cons_of_mem cut
    have stored : (front ++ 0 :: back ++ [newline]).takeWhile (fun byte => byte ≠ 0) = front := by
      rw [List.append_assoc, List.cons_append, takeWhile_ne_found absent]
    rw [takeWhile_ne_found absent]
    simp only [getLine, stored]
    cases front using List.reverseRecOn with
    | nil => rfl
    | append_singleton front last =>
        have apart : last ≠ newline := fun same => unbroken (by simp [same])
        have headed : ((front ++ [last]) ++ 0 :: back).head? ≠ some 0 := by
          intro zero
          cases front with
          | nil => exact absent (by simp [Option.some.inj zero])
          | cons first front => exact absent (by simp [Option.some.inj zero])
        simp only [if_neg headed, List.getLast?_concat, if_neg apart]
  · have absent : 0 ∉ line ++ [newline] := by
      rw [List.mem_append, not_or]
      exact ⟨cut, by decide⟩
    have headed : line.head? ≠ some 0 := fun zero => cut (List.mem_of_mem_head? zero)
    simp only [getLine, if_neg headed, takeWhile_ne_self cut, takeWhile_ne_self absent,
      List.getLast?_concat, List.dropLast_concat, ↓reduceIte]

end Tokens

section Calls

variable {bufsiz fuel : Nat} {stdin : Stdin} {line : Line} {rest : List UInt8}

theorem fgets_line (positive : 0 < bufsiz)
    (arrived : stdin.bytes = line.bytes ++ newline :: rest)
    (fits : line.bytes.length < LINE_MAX - 1) :
    ∃ after, after.bytes = rest ∧
      fgets bufsiz (LINE_MAX - 1) [] stdin = (.returned (line.bytes ++ [newline]), after) := by
  have present : newline ∈ stdin.bytes := by simp [arrived]
  obtain ⟨after, returned, behind, _⟩ :=
    @fgets_returned bufsiz positive (LINE_MAX - 1) stdin (.inr present) []
  rw [arrived, firstLine_line fits line.unbroken, List.nil_append] at returned
  rw [arrived, firstLine_line fits line.unbroken, List.append_cons line.bytes newline rest,
    List.drop_left] at behind
  exact ⟨after, behind, returned⟩

theorem fgets_long (positive : 0 < bufsiz) (arrived : stdin.bytes = line.bytes ++ rest)
    (long : LINE_MAX - 1 ≤ line.bytes.length) :
    ∃ after, after.bytes = line.bytes.drop (LINE_MAX - 1) ++ rest ∧
      fgets bufsiz (LINE_MAX - 1) [] stdin =
        (.returned (line.bytes.take (LINE_MAX - 1)), after) := by
  have enough : LINE_MAX - 1 ≤ stdin.bytes.length := by
    rw [arrived, List.length_append]
    exact Nat.le_add_right_of_le long
  obtain ⟨after, returned, behind, _⟩ :=
    @fgets_returned bufsiz positive (LINE_MAX - 1) stdin (.inl enough) []
  rw [arrived, firstLine_long long line.unbroken, List.nil_append] at returned
  rw [arrived, firstLine_long long line.unbroken, List.length_take_of_le long,
    List.drop_append_of_le_length long] at behind
  exact ⟨after, behind, returned⟩

theorem dealcmds_line (fuel : Nat) (positive : 0 < bufsiz)
    (arrived : stdin.bytes = line.bytes ++ newline :: rest)
    (fits : line.bytes.length < LINE_MAX - 1) :
    ∃ after, after.bytes = rest ∧ dealcmds bufsiz (fuel + 1) stdin =
      if line.bytes.head? = some 0 then .error .outOfBounds
      else (dealcmds bufsiz fuel after).map fun batches => segments line :: batches := by
  obtain ⟨after, behind, returned⟩ := fgets_line positive arrived fits
  have nonempty : stdin.bytes ≠ [] := by simp [arrived]
  refine ⟨after, behind, ?_⟩
  simp only [dealcmds, if_neg nonempty, returned, getLine_line line.unbroken]
  by_cases zero : line.bytes.head? = some 0
  · simp only [if_pos zero, error_bind]
  · simp only [if_neg zero, ok_bind, commandsOf_eq]
    rfl

theorem dealcmds_long (fuel : Nat) (positive : 0 < bufsiz)
    (arrived : stdin.bytes = line.bytes ++ rest) (long : LINE_MAX - 1 ≤ line.bytes.length) :
    ∃ after, after.bytes = line.bytes.drop (LINE_MAX - 1) ++ rest ∧
      dealcmds bufsiz (fuel + 1) stdin =
        (getLine (some (line.bytes.take (LINE_MAX - 1))) >>= fun lineBuf =>
          (dealcmds bufsiz fuel after).map fun batches => commandsOf lineBuf :: batches) := by
  obtain ⟨after, behind, returned⟩ := fgets_long positive arrived long
  have nonempty : stdin.bytes ≠ [] := by
    rw [arrived]
    intro empty
    rw [(List.append_eq_nil_iff.mp empty).1] at long
    cases long
  refine ⟨after, behind, ?_⟩
  simp only [dealcmds, if_neg nonempty, returned]
  rfl

/-- The line and its newline go into `line_buf` with a terminator, and the line has a
character in front of its newline or zero byte, or nothing at all. -/
structure Line.Fits (line : Line) : Prop where
  short : line.bytes.length < LINE_MAX - 1
  started : line.bytes.head? ≠ some 0

variable {lines : List Line}

theorem stream_cons (line : Line) (lines : List Line) :
    stream (line :: lines) = line.bytes ++ newline :: stream lines := by
  rw [stream, List.flatMap_cons, List.append_assoc, List.singleton_append]
  rfl

theorem stream_length_le (lines : List Line) : lines.length ≤ (stream lines).length := by
  induction lines with
  | nil => exact le_rfl
  | cons line lines ih =>
      rw [stream_cons, List.length_append, List.length_cons, List.length_cons]
      omega

theorem dealcmds_fits (positive : 0 < bufsiz) (streamed : stdin.bytes = stream lines)
    (fits : ∀ line ∈ lines, line.Fits) (enough : lines.length < fuel) :
    dealcmds bufsiz fuel stdin = .ok (lines.map segments) := by
  induction fuel generalizing lines stdin with
  | zero => cases enough
  | succ fuel ih =>
      cases lines with
      | nil => exact if_pos streamed
      | cons line lines =>
          have arrived := streamed.trans (stream_cons line lines)
          have first := fits line List.mem_cons_self
          obtain ⟨after, behind, stepped⟩ := dealcmds_line fuel positive arrived first.short
          have later := ih behind (fun other member => fits other (List.mem_cons_of_mem _ member))
            (Nat.lt_of_succ_lt_succ enough)
          rw [stepped, if_neg first.started, later]
          rfl

/-- Every line takes one call at least, and a line that does not fit takes more. -/
theorem dealcmds_counted (positive : 0 < bufsiz) {batches : List (List (List UInt8))}
    (streamed : stdin.bytes = stream lines) (ran : dealcmds bufsiz fuel stdin = .ok batches) :
    lines.length ≤ batches.length ∧
      (batches.length = lines.length → ∀ line ∈ lines, line.Fits) := by
  induction fuel generalizing lines stdin batches with
  | zero => cases ran
  | succ fuel ih =>
      cases lines with
      | nil => exact ⟨Nat.zero_le _, fun _ _ member => absurd member List.not_mem_nil⟩
      | cons line lines =>
          have arrived := streamed.trans (stream_cons line lines)
          by_cases short : line.bytes.length < LINE_MAX - 1
          · obtain ⟨after, behind, stepped⟩ := dealcmds_line fuel positive arrived short
            rw [ran] at stepped
            by_cases zero : line.bytes.head? = some 0
            · rw [if_pos zero] at stepped
              cases stepped
            · rw [if_neg zero] at stepped
              obtain ⟨rest, later, rfl⟩ := of_map_ok stepped.symm
              obtain ⟨count, fits⟩ := ih behind later
              refine ⟨Nat.succ_le_succ count, fun same other member => ?_⟩
              cases member with
              | head => exact ⟨short, zero⟩
              | tail _ member => exact fits (Nat.succ.inj same) other member
          · obtain ⟨after, behind, stepped⟩ :=
              dealcmds_long fuel positive arrived (Nat.not_lt.mp short)
            rw [ran] at stepped
            obtain ⟨lineBuf, _, stepped⟩ := of_bind_ok stepped.symm
            obtain ⟨rest, later, rfl⟩ := of_map_ok stepped
            have cut : newline ∉ line.bytes.drop (LINE_MAX - 1) := fun member =>
              line.unbroken (List.mem_of_mem_drop member)
            obtain ⟨count, _⟩ := ih (behind.trans (stream_cons ⟨_, cut⟩ lines).symm) later
            rw [List.length_cons] at count
            constructor
            · exact Nat.le_succ_of_le count
            · intro same
              exact absurd (Nat.succ.inj same) (Nat.ne_of_gt count)

end Calls

section Running

variable (host : Host)

theorem commandsIn_line (line : Line) :
    commandsIn (some (line.bytes ++ [newline])) = segments line := by
  rw [commandsIn, getLine_line line.unbroken]
  by_cases zero : line.bytes.head? = some 0
  · obtain ⟨rest, split⟩ := List.head?_eq_some_iff.mp zero
    rw [if_pos zero, segments, split]
    rfl
  · rw [if_neg zero, segments, ← commandsOf_eq]

theorem runConsole_fits {bufsiz fuel : Nat} {stdin : Stdin} {lines : List Line}
    (positive : 0 < bufsiz) (streamed : stdin.bytes = stream lines)
    (fits : ∀ line ∈ lines, line.Fits) (enough : lines.length < fuel)
    (eventLoop : AeEventLoop TimeProc) (app : App) :
    (runConsole host bufsiz fuel stdin eventLoop app).2.commands =
      app.commands ++ if app.exited then [] else untilQuit (lines.flatMap segments) := by
  induction fuel generalizing lines stdin eventLoop app with
  | zero => cases enough
  | succ fuel ih =>
      cases lines with
      | nil =>
          have ended : stdin.bytes = [] := streamed
          simp [runConsole, ended, untilQuit]
      | cons line lines =>
          have arrived := streamed.trans (stream_cons line lines)
          have nonempty : stdin.bytes ≠ [] := by simp [arrived]
          obtain ⟨after, behind, returned⟩ :=
            fgets_line positive arrived (fits line List.mem_cons_self).short
          cases ended : app.exited with
          | true => simp [runConsole, ended]
          | false =>
              have later := ih behind
                (fun other member => fits other (List.mem_cons_of_mem _ member))
                (Nat.lt_of_succ_lt_succ enough)
              simp [runConsole, ended, nonempty, returned, later, dealcmd_commands, dealcmd_exited,
                commandsIn_line, untilQuit_append]

end Running

/-- On a stream of lines every call of `dealcmd` stays inside `line_buf` and runs exactly the
commands of its line, and the program runs them all up to one that ends it, if and only if
every line fits. -/
theorem console_lines_iff (host : Host) {bufsiz : Nat} (positive : 0 < bufsiz) {stdin : Stdin}
    {lines : List Line} (streamed : stdin.bytes = stream lines)
    (eventLoop : AeEventLoop TimeProc) {app : App} (running : app.exited = false) :
    (dealcmds bufsiz (stdin.bytes.length + 1) stdin = .ok (lines.map segments) ∧
        (runConsole host bufsiz (stdin.bytes.length + 1) stdin eventLoop app).2.commands =
          app.commands ++ untilQuit (lines.flatMap segments)) ↔
      ∀ line ∈ lines, line.bytes.length < LINE_MAX - 1 ∧ line.bytes.head? ≠ some 0 := by
  have enough : lines.length < stdin.bytes.length + 1 := by
    rw [streamed]
    exact Nat.lt_succ_of_le (stream_length_le lines)
  constructor
  · rintro ⟨ran, _⟩ line member
    have counted := (dealcmds_counted positive streamed ran).2 (List.length_map _)
    exact ⟨(counted line member).short, (counted line member).started⟩
  · intro conditions
    have fits : ∀ line ∈ lines, line.Fits := by
      intro line member
      exact ⟨(conditions line member).1, (conditions line member).2⟩
    refine ⟨dealcmds_fits positive streamed fits enough, ?_⟩
    rw [runConsole_fits host positive streamed fits enough, running]
    rfl

/-- `l;r` and an empty line. -/
theorem console_lines_iff_two : ∃ eventLoop app, start tenSecondHost ∅ = .ok (eventLoop, app) ∧
    dealcmds 4096 6 ⟨[0x6c, semicolon, 0x72, newline, newline], []⟩ = .ok [[[0x6c], [0x72]], []] ∧
    (runConsole tenSecondHost 4096 6 ⟨[0x6c, semicolon, 0x72, newline, newline], []⟩
      eventLoop app).2.commands = app.commands ++ [[0x6c], [0x72]] := by
  refine ⟨_, _, rfl, (@console_lines_iff tenSecondHost 4096 (by decide)
    ⟨[0x6c, semicolon, 0x72, newline, newline], []⟩
    [⟨[0x6c, semicolon, 0x72], by decide⟩, ⟨[], by decide⟩] rfl _ _ rfl).mpr ?_⟩
  decide

theorem getLine_unended {piece : List UInt8} (nonempty : piece ≠ []) (unbroken : newline ∉ piece)
    (terminated : 0 ∉ piece) : getLine (some piece) = .ok piece := by
  cases piece using List.reverseRecOn with
  | nil => exact absurd rfl nonempty
  | append_singleton front last =>
      have apart : last ≠ newline := fun same => unbroken (by simp [same])
      simp only [getLine, takeWhile_ne_self terminated, List.getLast?_concat, if_neg apart]

/-- As many `h` as one call of `fgets` stores, and a `q`. -/
def longLine : Line where
  bytes := List.replicate (LINE_MAX - 1) 0x68 ++ [0x71]
  unbroken := by simp [newline, List.mem_replicate]

theorem dealcmds_longLine {bufsiz : Nat} (fuel : Nat) (positive : 0 < bufsiz) {stdin : Stdin}
    (arrived : stdin.bytes = stream [longLine]) :
    dealcmds bufsiz (fuel + 3) stdin =
      .ok [[List.replicate (LINE_MAX - 1) 0x68], [[0x71]]] := by
  have full : (List.replicate (LINE_MAX - 1) (0x68 : UInt8)).length = LINE_MAX - 1 :=
    List.length_replicate
  have long : LINE_MAX - 1 ≤ longLine.bytes.length := by
    rw [longLine, List.length_append, full]
    exact Nat.le_add_right _ _
  have absent {byte : UInt8} (other : byte ≠ 0x68) : byte ∉ List.replicate (LINE_MAX - 1) 0x68 :=
    fun member => other (List.eq_of_mem_replicate member)
  have nonempty : List.replicate (LINE_MAX - 1) (0x68 : UInt8) ≠ [] := List.cons_ne_nil _ _
  obtain ⟨after, behind, first⟩ :=
    dealcmds_long (fuel + 2) positive (arrived.trans (stream_cons longLine [])) long
  have last : ([0x71] : List UInt8).length < LINE_MAX - 1 := by decide
  obtain ⟨done, empty, second⟩ := @dealcmds_line bufsiz after ⟨[0x71], by decide⟩ [] (fuel + 1)
    positive (behind.trans (by rw [longLine, List.drop_left' full]; rfl)) last
  have ended : dealcmds bufsiz (fuel + 1) done = .ok [] := if_pos empty
  have token := strtok_token nonempty (absent (by decide))
  rw [first, second, ended, longLine, List.take_left' full,
    getLine_unended nonempty (absent (by decide)) (absent (by decide)), ok_bind,
    commandsOf_token token.1]
  rfl

/-- The rest of a long line is run as a command of its own, and a line that begins with a
zero byte makes `get_line` look in front of its buffer. -/
theorem long_line_split :
    dealcmds 4096 2050 ⟨stream [longLine], []⟩ =
        .ok [[List.replicate (LINE_MAX - 1) 0x68], [[0x71]]] ∧
      dealcmds 4096 3 ⟨stream [⟨[0], by decide⟩], []⟩ = .error .outOfBounds :=
  ⟨dealcmds_longLine 2047 (by decide) (List.nil_append _), rfl⟩

end IpcamSearch.ConsoleLines
