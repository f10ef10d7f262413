import IpcamSearch.ParaParseProperties

/-! Integers through `para_parse_int`: the decimal notation of an `int` is read back as
that `int`. -/

set_option autoImplicit false

namespace IpcamSearch.ParaParse

open Memory Occurrence Decimal

theorem digit_bounds {char : UInt8} (digit : isDigit char) :
    0x30 ≤ char.toNat ∧ char.toNat ≤ 0x39 := by
  have bounds : 0x30 ≤ char ∧ char ≤ 0x39 := of_decide_eq_true digit
  exact ⟨UInt8.le_iff_toNat_le.mp bounds.1, UInt8.le_iff_toNat_le.mp bounds.2⟩

theorem digit_ne {char other : UInt8} (digit : isDigit char) (below : other.toNat < 0x30) :
    char ≠ other := by
  intro same
  exact absurd (digit_bounds digit).1 (Nat.not_le.mpr (same ▸ below))

theorem digit_not_space {char : UInt8} (digit : isDigit char) : ¬ isSpace char := by
  have bounds := digit_bounds digit
  intro space
  rcases of_decide_eq_true space with blank | control
  · exact digit_ne digit (by decide) blank
  · have upper := UInt8.le_iff_toNat_le.mp control.2
    exact absurd (Nat.le_trans bounds.1 upper) (by decide)

theorem ampersand_not_intDecimal (number : Int) : ampersand ∉ intDecimal number := by
  have digits (magnitude : Nat) : ampersand ∉ natDecimal magnitude := by
    intro member
    exact digit_ne (isDigit_of_mem member) (by decide) rfl
  cases number with
  | ofNat magnitude => exact digits magnitude
  | negSucc magnitude =>
      intro member
      rcases List.mem_cons.mp member with sign | inside
      · cases sign
      · exact digits (magnitude + 1) inside

theorem takeWhile_natDecimal (magnitude : Nat) :
    (natDecimal magnitude).takeWhile isDigit = natDecimal magnitude := by
  rw [← List.append_nil (natDecimal magnitude),
    List.takeWhile_append_of_pos fun _ member => isDigit_of_mem member]
  rfl

theorem signedValue_intDecimal (number : Int) :
    signedValue ((intDecimal number).dropWhile isSpace) = number := by
  cases number with
  | ofNat magnitude =>
      have whole := takeWhile_natDecimal magnitude
      have value := digitsValue_natDecimal magnitude
      cases written : natDecimal magnitude with
      | nil => exact absurd written (natDecimal_ne_nil magnitude)
      | cons first digits =>
          have digit : isDigit first := isDigit_of_mem (written ▸ List.mem_cons_self)
          rw [written] at whole value
          rw [intDecimal, written, List.dropWhile_cons_of_neg (digit_not_space digit), signedValue,
            if_neg (digit_ne digit (by decide)), if_neg (digit_ne digit (by decide)), whole, value]
          rfl
  | negSucc magnitude =>
      have signed : ¬ isSpace minus := by decide
      rw [intDecimal, List.dropWhile_cons_of_neg signed, signedValue, if_pos rfl,
        takeWhile_natDecimal, digitsValue_natDecimal]
      rfl

theorem strtol_intDecimal {longBits : Nat} (wide : 32 ≤ longBits) (number : Int32) :
    strtol longBits (intDecimal number.toInt) = number.toInt := by
  have lower := number.le_toInt
  have upper := number.toInt_lt
  have room : (2 : Int) ^ 31 ≤ 2 ^ (longBits - 1) := by
    exact_mod_cast Nat.pow_le_pow_right (by decide : 0 < 2) (by omega : 31 ≤ longBits - 1)
  rw [strtol, signedValue_intDecimal]
  omega

theorem intDecimal_length (number : Int32) : (intDecimal number.toInt).length < MAX_LINE := by
  have lower := number.le_toInt
  have upper := number.toInt_lt
  have short : (intDecimal number.toInt).length ≤ 11 := by
    cases magnitude : number.toInt with
    | ofNat digits =>
        rw [magnitude, Int.ofNat_eq_natCast] at upper
        exact Nat.le_trans (natDecimal_length_le (by decide) (by omega : digits < 10 ^ 10))
          (by decide)
    | negSucc digits =>
        rw [magnitude] at lower
        exact Nat.succ_le_succ
          (natDecimal_length_le (by decide) (by omega : digits + 1 < 10 ^ 10))
  exact Nat.lt_of_le_of_lt short (by decide)

theorem intDecimal_ne_nil (number : Int) : intDecimal number ≠ [] := by
  cases number with
  | ofNat magnitude => exact natDecimal_ne_nil magnitude
  | negSucc magnitude => exact List.cons_ne_nil _ _

/-- The decimal notation of a number, given under the first occurrence of its key, comes
back as that number, whatever the default is. -/
theorem para_parse_int_round_trip {longBits : Nat} (wide : 32 ≤ longBits) {src key : CString}
    (noEquals : equals ∉ key.bytes) {front rest : List UInt8} {before : UInt8} (number : Int32)
    (first : FirstAt key.bytes src.bytes (front ++ [before])
      (equals :: (intDecimal number.toInt ++ rest)))
    (delimits : before = question ∨ before = ampersand)
    (ends : rest = [] ∨ ∃ later, rest = ampersand :: later) (defaultVal : Int32) :
    paraParseInt longBits src key defaultVal = .ok (number, number) := by
  have stored : storedBetween before (equals :: (intDecimal number.toInt ++ rest)) =
      intDecimal number.toInt :=
    (if_pos ⟨delimits, rfl⟩).trans (valueOf_append (ampersand_not_intDecimal _) ends)
  have fits : ¬ MAX_LINE ≤ (intDecimal number.toInt).length :=
    Nat.not_le.mpr (intDecimal_length number)
  rw [paraParseInt, paraParseStr_first first noEquals, stored]
  simp only [ok_bind, fits, intDecimal_ne_nil, strtol_intDecimal wide, Int32.ofInt_toInt,
    ↓reduceIte]
  rfl

/-- `?ip=-2147483648` and the key `ip`. -/
theorem para_parse_int_round_trip_least :
    paraParseInt 64 ⟨question :: ([0x69, 0x70] ++ equals :: intDecimal (-2147483648)),
        by decide +kernel⟩ ⟨[0x69, 0x70], by decide⟩ 5 = .ok (-2147483648, -2147483648) := by
  have least : (-2147483648 : Int32).toInt = -2147483648 := by decide
  have first : FirstAt [0x69, 0x70]
      (question :: ([0x69, 0x70] ++ equals :: intDecimal (-2147483648))) ([] ++ [question])
      (equals :: (intDecimal (-2147483648 : Int32).toInt ++ [])) := by
    refine ⟨by rw [least, List.append_nil]; rfl, ?_⟩
    intro other rest same
    cases other with
    | nil => cases (List.cons.inj same).1
    | cons first other => exact Nat.succ_le_succ (Nat.zero_le _)
  exact para_parse_int_round_trip (by decide) (by decide) _ first (.inl rfl) (.inl rfl) 5

end IpcamSearch.ParaParse
