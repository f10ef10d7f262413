import IpcamSearch.Library.Decimal
import IpcamSearch.Library.Memory
import IpcamSearch.Library.Occurrence

/-! The query string functions of `para_parse.c`. A string is read through checked
accesses, so that a character before its first or behind its terminator is a fault. -/

set_option autoImplicit false

namespace IpcamSearch.ParaParse

open Memory Occurrence Decimal

def MAX_LINE : Nat := 1024

def question : UInt8 := 0x3f

def ampersand : UInt8 := 0x26

def equals : UInt8 := 0x3d

/-- The characters before the terminator. -/
structure CString where
  bytes : List UInt8
  terminated : 0 ∉ bytes

namespace CString

def charAt (string : CString) (position : Nat) : Except Fault UInt8 :=
  if position ≤ string.bytes.length then .ok (string.bytes.getD position 0)
  else .error .outOfBounds

def charBefore (string : CString) : Nat → Except Fault UInt8
  | 0 => .error .outOfBounds
  | position + 1 => string.charAt position

end CString

def strstr (src para : CString) : Option Nat := firstIndex para.bytes src.bytes

def strchr (src : CString) (start : Nat) (char : UInt8) : Option Nat :=
  (firstIndex [char] (src.bytes.drop start)).map fun offset => start + offset

/-- The characters that the copying loop stores from behind `q` on. -/
def copyLoop (src : CString) : Nat → Nat → Except Fault (List UInt8)
  | 0, _ => .error .divergence
  | fuel + 1, q => do
      let char ← src.charAt (q + 1)
      if char = 0 then return []
      if char = ampersand then return []
      let rest ← copyLoop src fuel (q + 1)
      return char :: rest

/-- `para_parse_str`. The result is the string that is left in `val`. -/
def paraParseStr (src para : CString) : Except Fault (List UInt8) :=
  match strstr src para with
  | none => return []
  | some q => do
      let before ← src.charBefore q
      if before ≠ question ∧ before ≠ ampersand then return []
      let behind ← src.charAt (q + para.bytes.length)
      if behind ≠ equals then return []
      match strchr src q equals with
      | none => .error .nullDereference
      | some q => copyLoop src (src.bytes.length + 1) q

def plus : UInt8 := 0x2b

def isSpace (char : UInt8) : Bool := char = 0x20 ∨ 0x09 ≤ char ∧ char ≤ 0x0d

/-- The number behind the white space: an optional sign and the digits that follow. -/
def signedValue : List UInt8 → Int
  | [] => 0
  | sign :: digits =>
      if sign = minus then -(digitsValue (digits.takeWhile isDigit) : Int)
      else if sign = plus then digitsValue (digits.takeWhile isDigit)
      else digitsValue ((sign :: digits).takeWhile isDigit)

/-- `strtol` to the base ten, for a `long` of so many bits. A number that does not fit
becomes the limit on its side. -/
def strtol (longBits : Nat) (str : List UInt8) : Int :=
  max (-2 ^ (longBits - 1)) (min (2 ^ (longBits - 1) - 1) (signedValue (str.dropWhile isSpace)))

/-- `para_parse_int`. The pair is the returned number and the one left in `*val`. -/
def paraParseInt (longBits : Nat) (src key : CString) (defaultVal : Int32) :
    Except Fault (Int32 × Int32) := do
  let str ← paraParseStr src key
  -- The terminator needs a place in `str`, too.
  if MAX_LINE ≤ str.length then .error .outOfBounds
  else if str = [] then return (defaultVal, defaultVal)
  else
    let val := Int32.ofInt (strtol longBits str)
    return (val, val)

end IpcamSearch.ParaParse
