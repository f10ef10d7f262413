import Mathlib.Data.Nat.Digits.Defs

/-! Numbers written with decimal digits, as bytes, and the value that is read back. -/

set_option autoImplicit false

namespace IpcamSearch.Decimal

def isDigit (char : UInt8) : Bool := 0x30 ≤ char ∧ char ≤ 0x39

def digitsValue (digits : List UInt8) : Nat :=
  digits.foldl (fun value digit => 10 * value + (digit.toNat - 0x30)) 0

/-- The digits of the number, the most significant first and none for nothing. -/
def natDecimal (number : Nat) : List UInt8 :=
  (Nat.toDigits 10 number).map fun digit => UInt8.ofNat digit.toNat

def minus : UInt8 := 0x2d

/-- A negative number has a minus sign before its digits. -/
def intDecimal : Int → List UInt8
  | .ofNat number => natDecimal number
  | .negSucc number => minus :: natDecimal (number + 1)

example : intDecimal (-2147483648) = "-2147483648".toUTF8.toList := by decide +kernel

theorem toNat_digit {digit : Char} (isDigit : digit.isDigit) :
    (UInt8.ofNat digit.toNat).toNat = digit.toNat := by
  have bounds : 0x30 ≤ digit.toNat ∧ digit.toNat ≤ 0x39 := Char.isDigit_iff_toNat.mp isDigit
  rw [UInt8.toNat_ofNat']
  omega

theorem isDigit_of_mem {number : Nat} {char : UInt8} (member : char ∈ natDecimal number) :
    isDigit char := by
  obtain ⟨digit, inside, rfl⟩ := List.mem_map.mp member
  have decimal := Nat.isDigit_of_mem_toDigits (by decide) le_rfl inside
  have bounds : 0x30 ≤ digit.toNat ∧ digit.toNat ≤ 0x39 := Char.isDigit_iff_toNat.mp decimal
  have same := toNat_digit decimal
  simp only [isDigit, UInt8.le_iff_toNat_le, same]
  exact decide_eq_true bounds

theorem digitsValue_natDecimal (number : Nat) : digitsValue (natDecimal number) = number := by
  have readBack : ∀ (digits : List Char) (value : Nat), (∀ digit ∈ digits, digit.isDigit) →
      (digits.map fun digit => UInt8.ofNat digit.toNat).foldl
        (fun value digit => 10 * value + (digit.toNat - 0x30)) value =
          Nat.ofDigitChars 10 digits value := by
    intro digits
    induction digits with
    | nil => exact fun _ _ => Nat.ofDigitChars_nil.symm
    | cons digit digits ih =>
        intro value decimal
        rw [List.map_cons, List.foldl_cons, Nat.ofDigitChars_cons,
          toNat_digit (decimal digit List.mem_cons_self)]
        exact ih _ fun other member => decimal other (List.mem_cons_of_mem _ member)
  rw [digitsValue, natDecimal, readBack _ 0 fun digit member =>
    Nat.isDigit_of_mem_toDigits (by decide) le_rfl member]
  exact Nat.ofDigitChars_ten_toDigits

theorem natDecimal_ne_nil (number : Nat) : natDecimal number ≠ [] :=
  fun empty => Nat.toDigits_ne_nil (List.map_eq_nil_iff.mp empty)

theorem natDecimal_length_le {number digits : Nat} (positive : 0 < digits)
    (bound : number < 10 ^ digits) : (natDecimal number).length ≤ digits := by
  rw [natDecimal, List.length_map]
  exact (Nat.length_toDigits_le_iff (by decide) positive).mpr bound

end IpcamSearch.Decimal
