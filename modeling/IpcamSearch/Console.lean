import IpcamSearch.Library.Memory
import Mathlib.Data.List.Basic

/-! How `ipcam_search_pcv2.c` reads its console: `get_line` and `strtok` on one piece of
input, and `fgets` over the read-ahead buffer of `stdin`. -/

set_option autoImplicit false

namespace IpcamSearch.Console

open Memory

def LINE_MAX : Nat := 2048

def newline : UInt8 := 0x0a

def semicolon : UInt8 := 0x3b

/-- The string in the zeroed `line_buf` after `get_line`, when `fgets` stored this piece
or failed. A piece that begins with a zero byte has the index -1 for its last byte. -/
def getLine : Option (List UInt8) → Except Fault (List UInt8)
  | none => .ok []
  | some piece =>
      let s := piece.takeWhile fun byte => byte ≠ 0
      match s.getLast? with
      | none => .error .outOfBounds
      | some last => .ok (if last = newline then s.dropLast else s)

/-- One call of `strtok` with the delimiter `;`. The pair is the token and the string
behind it, where the next call goes on. -/
def strtok (saved : List UInt8) : Option (List UInt8 × List UInt8) :=
  match saved.dropWhile fun byte => byte = semicolon with
  | [] => none
  | first :: rest =>
      some (first :: rest.takeWhile fun byte => byte ≠ semicolon,
        (rest.dropWhile fun byte => byte ≠ semicolon).tail)

/-- The calls of `strtok` on a line, until one returns null. -/
def strtokLoop : Nat → List UInt8 → List (List UInt8)
  | 0, _ => []
  | fuel + 1, saved =>
      match strtok saved with
      | none => []
      | some (token, rest) => token :: strtokLoop fuel rest

/-- The commands of a line in the order in which `dealcmd` runs them. A call that finds a
token makes the line shorter. -/
def commandsOf (line : List UInt8) : List (List UInt8) := strtokLoop line.length line

theorem strtok_shorter {saved token rest : List UInt8} (found : strtok saved = some (token, rest)) :
    rest.length < saved.length := by
  unfold strtok at found
  have skipped := (saved.dropWhile_suffix fun byte => byte = semicolon).length_le
  cases trimmed : saved.dropWhile fun byte => byte = semicolon with
  | nil => simp [trimmed] at found
  | cons first behind =>
      have scanned := (behind.dropWhile_suffix fun byte => byte ≠ semicolon).length_le
      simp only [trimmed, Option.some.injEq, Prod.mk.injEq] at found
      rw [trimmed, List.length_cons] at skipped
      rw [← found.2, List.length_tail]
      omega

theorem strtokLoop_enough {fuel more : Nat} {saved : List UInt8} (bound : saved.length ≤ fuel)
    (boundMore : saved.length ≤ more) : strtokLoop fuel saved = strtokLoop more saved := by
  have ended : ∀ fuel, strtokLoop fuel [] = [] := fun fuel => by cases fuel <;> rfl
  induction fuel generalizing more saved with
  | zero => rw [List.eq_nil_of_length_eq_zero (Nat.le_zero.mp bound), ended, ended]
  | succ fuel ih =>
      cases more with
      | zero => rw [List.eq_nil_of_length_eq_zero (Nat.le_zero.mp boundMore), ended, ended]
      | succ more =>
          unfold strtokLoop
          cases found : strtok saved with
          | none => rfl
          | some pair =>
              have shorter := strtok_shorter found
              exact congrArg (pair.1 :: ·) (ih (by omega) (by omega))

theorem commandsOf_token {line token rest : List UInt8} (found : strtok line = some (token, rest)) :
    commandsOf line = token :: commandsOf rest := by
  have shorter := strtok_shorter found
  have unrolled : commandsOf line = strtokLoop (line.length + 1) line :=
    strtokLoop_enough le_rfl (Nat.le_succ _)
  rw [unrolled, strtokLoop, found]
  exact congrArg (token :: ·) (strtokLoop_enough shorter.le le_rfl)

/-- The first character of a command decides what it does. -/
inductive Command where
  | renew
  | search
  | list
  | quit
  | help
deriving DecidableEq

def Command.ofString (cmdString : List UInt8) : Command :=
  match cmdString.head? with
  | some 0x72 => .renew
  | some 0x73 => .search
  | some 0x6c => .list
  | some 0x71 => .quit
  | _ => .help

/-- The bytes of `stdin` that nobody has read yet and those that stdio has read ahead. -/
structure Stdin where
  kernel : List UInt8
  buffer : List UInt8
deriving DecidableEq

def Stdin.bytes (stdin : Stdin) : List UInt8 := stdin.buffer ++ stdin.kernel

/-- A call of `fgets` either returns its piece or sleeps with what it has stored. -/
inductive Fgets where
  | returned (piece : List UInt8)
  | sleeping (stored : List UInt8)
deriving DecidableEq

/-- `fgets` with room for so many more characters. One read refills the empty buffer with
what the kernel holds, up to the size of the buffer. -/
def fgets (bufsiz : Nat) : Nat → List UInt8 → Stdin → Fgets × Stdin
  | 0, stored, stdin => (.returned stored, stdin)
  | room + 1, stored, { kernel, buffer := byte :: buffer } =>
      if byte = newline then
        (.returned (stored ++ [byte]), { kernel := kernel, buffer := buffer })
      else fgets bufsiz room (stored ++ [byte]) { kernel := kernel, buffer := buffer }
  | room + 1, stored, { kernel, buffer := [] } =>
      match kernel.take bufsiz with
      | [] => (.sleeping stored, { kernel := kernel, buffer := [] })
      | byte :: buffer =>
          let stdin : Stdin := { kernel := kernel.drop bufsiz, buffer := buffer }
          if byte = newline then (.returned (stored ++ [byte]), stdin)
          else fgets bufsiz room (stored ++ [byte]) stdin

end IpcamSearch.Console
