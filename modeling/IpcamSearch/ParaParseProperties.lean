import IpcamSearch.ParaParse

/-! What `para_parse_str` stores, told by the first place at which the key stands in
the string. -/

set_option autoImplicit false

namespace IpcamSearch.ParaParse

open Memory Occurrence

/-- The character that may stand before a key. -/
def Delimits (char : UInt8) : Prop := char = question ∨ char = ampersand

instance (char : UInt8) : Decidable (Delimits char) := by
  unfold Delimits
  infer_instance

/-- The value that begins here and ends before an ampersand or with the string. -/
def valueOf (rest : List UInt8) : List UInt8 := rest.takeWhile fun char => char ≠ ampersand

/-- What is stored when the key stands between these two neighbours. -/
def storedBetween (before : UInt8) (behind : List UInt8) : List UInt8 :=
  if Delimits before ∧ behind.head? = some equals then valueOf behind.tail else []

namespace CString

theorem charAt_inside {string : CString} {front back : List UInt8} {char : UInt8}
    (split : string.bytes = front ++ char :: back) : string.charAt front.length = .ok char := by
  have inside : front.length ≤ string.bytes.length := by
    rw [split, List.length_append]
    exact Nat.le_add_right _ _
  rw [charAt, if_pos inside, split, List.getD_eq_getElem?_getD, List.getElem?_append_right le_rfl,
    Nat.sub_self]
  rfl

theorem charAt_end (string : CString) : string.charAt string.bytes.length = .ok 0 := by
  rw [charAt, if_pos le_rfl, List.getD_eq_getElem?_getD, List.getElem?_eq_none le_rfl]
  rfl

theorem nonzero {string : CString} {front back : List UInt8} {char : UInt8}
    (split : string.bytes = front ++ char :: back) : char ≠ 0 := by
  intro zero
  exact string.terminated (by simp [split, zero])

end CString

theorem copyLoop_spec {src : CString} {front back : List UInt8} {char : UInt8} {fuel : Nat}
    (split : src.bytes = front ++ char :: back) (enough : back.length < fuel) :
    copyLoop src fuel front.length = .ok (valueOf back) := by
  induction fuel generalizing front back char with
  | zero => cases enough
  | succ fuel ih =>
      have position : (front ++ [char]).length = front.length + 1 := List.length_append
      have splitNext : src.bytes = (front ++ [char]) ++ back := by
        rw [split, List.append_assoc, List.singleton_append]
      cases back with
      | nil =>
          have ended := src.charAt_end
          rw [splitNext, List.append_nil, position] at ended
          rw [copyLoop, ended]
          rfl
      | cons next back =>
          have read := CString.charAt_inside splitNext
          rw [position] at read
          rw [copyLoop, read]
          by_cases stop : next = ampersand
          · simp only [ok_bind, stop, valueOf, List.takeWhile_cons]
            rfl
          · have later := ih splitNext (Nat.lt_of_succ_lt_succ enough)
            rw [position] at later
            simp only [ok_bind, CString.nonzero splitNext, stop, later, valueOf,
              List.takeWhile_cons, ↓reduceIte, ne_eq, not_false_eq_true, decide_true]
            rfl

section Str

variable {src para : CString} {front back : List UInt8}

theorem paraParseStr_absent (absent : ¬ para.bytes <:+: src.bytes) :
    paraParseStr src para = .ok [] := by
  rw [paraParseStr, strstr, firstIndex_none absent]
  rfl

theorem paraParseStr_start (first : FirstAt para.bytes src.bytes [] back) :
    paraParseStr src para = .error .outOfBounds := by
  rw [paraParseStr, strstr, firstIndex_first first]
  rfl

theorem strchr_first {start : List UInt8} (split : src.bytes = start ++ (front ++ equals :: back))
    (before : equals ∉ front) :
    strchr src start.length equals = some (start ++ front).length := by
  rw [strchr, split, List.drop_left, firstIndex_first (first_singleton before back),
    List.length_append]
  rfl

/-- The text behind its first `=`, from which the value is copied. -/
def behindEquals (text : List UInt8) : List UInt8 := (text.dropWhile fun char => char ≠ equals).tail

theorem behindEquals_append {front : List UInt8} (absent : equals ∉ front) (back : List UInt8) :
    behindEquals (front ++ equals :: back) = back := by
  rw [behindEquals, dropWhile_ne_found absent, List.tail_cons]

theorem equals_split {text : List UInt8} (present : equals ∈ text) :
    text = text.takeWhile (fun char => char ≠ equals) ++ equals :: behindEquals text ∧
      equals ∉ text.takeWhile fun char => char ≠ equals := by
  obtain ⟨front, back, rfl, absent⟩ := List.eq_append_cons_of_mem present
  rw [takeWhile_ne_found absent, behindEquals_append absent]
  exact ⟨rfl, absent⟩

/-- The two characters that the function reads around the first match. -/
theorem reads_around {before : UInt8}
    (first : FirstAt para.bytes src.bytes (front ++ [before]) back) :
    src.charBefore (front ++ [before]).length = .ok before ∧
      src.charAt ((front ++ [before]).length + para.bytes.length) = .ok (back.headD 0) := by
  have position : (front ++ [before]).length = front.length + 1 := List.length_append
  have behindKey : (front ++ [before] ++ para.bytes).length =
      (front ++ [before]).length + para.bytes.length := List.length_append
  have splitKey : src.bytes = (front ++ [before] ++ para.bytes) ++ back := by
    rw [first.split, List.append_assoc (front ++ [before])]
  constructor
  · have split : src.bytes = front ++ before :: (para.bytes ++ back) := by
      rw [first.split, List.append_assoc, List.singleton_append]
    rw [position, CString.charBefore, CString.charAt_inside split]
  · rw [← behindKey]
    cases back with
    | nil =>
        rw [List.append_nil] at splitKey
        rw [← splitKey]
        exact src.charAt_end
    | cons char rest => exact CString.charAt_inside splitKey

/-- Behind a delimiter, with `=` behind the key, the copy starts at the first `=` of the
key and what follows it. -/
theorem paraParseStr_matched {before : UInt8}
    (first : FirstAt para.bytes src.bytes (front ++ [before]) (equals :: back))
    (delimits : Delimits before) :
    paraParseStr src para = .ok (valueOf (behindEquals (para.bytes ++ equals :: back))) := by
  obtain ⟨readBefore, readBehind⟩ := reads_around first
  have opened : ¬ (before ≠ question ∧ before ≠ ampersand) := by
    intro neither
    exact delimits.elim neither.1 neither.2
  have present : equals ∈ para.bytes ++ equals :: back := by simp
  obtain ⟨text, absent⟩ := equals_split present
  have splitText : src.bytes = (front ++ [before]) ++
      ((para.bytes ++ equals :: back).takeWhile (fun char => char ≠ equals) ++
        equals :: behindEquals (para.bytes ++ equals :: back)) := by
    rw [← text]
    exact first.split
  have found := strchr_first splitText absent
  rw [← List.append_assoc] at splitText
  have enough : (behindEquals (para.bytes ++ equals :: back)).length < src.bytes.length + 1 := by
    rw [splitText, List.length_append, List.length_cons]
    omega
  have copied := copyLoop_spec splitText enough
  rw [paraParseStr, strstr, firstIndex_first first]
  simp only [readBefore, readBehind, List.headD_cons, ok_bind, opened, ne_eq, not_true_eq_false,
    ↓reduceIte, found]
  exact copied

/-- Otherwise the empty string is stored. -/
theorem paraParseStr_unmatched {before : UInt8}
    (first : FirstAt para.bytes src.bytes (front ++ [before]) back)
    (unmatched : ¬ (Delimits before ∧ back.head? = some equals)) :
    paraParseStr src para = .ok [] := by
  obtain ⟨readBefore, readBehind⟩ := reads_around first
  rw [paraParseStr, strstr, firstIndex_first first]
  simp only [readBefore, readBehind, ok_bind]
  by_cases delimits : Delimits before
  · have opened : ¬ (before ≠ question ∧ before ≠ ampersand) := by
      intro neither
      exact delimits.elim neither.1 neither.2
    rw [if_neg opened]
    cases back with
    | nil => rfl
    | cons char rest =>
        have other : char ≠ equals := fun same => unmatched ⟨delimits, congrArg some same⟩
        exact if_pos other
  · exact if_pos (not_or.mp delimits)

/-- What the function can do with a string that does not begin with the key. -/
theorem paraParseStr_cases (notPrefix : ¬ para.bytes <+: src.bytes) :
    (∃ front before back, FirstAt para.bytes src.bytes (front ++ [before]) (equals :: back) ∧
        Delimits before ∧
        paraParseStr src para = .ok (valueOf (behindEquals (para.bytes ++ equals :: back)))) ∨
      paraParseStr src para = .ok [] := by
  by_cases present : para.bytes <:+: src.bytes
  · obtain ⟨front, back, first⟩ := exists_first present
    cases front using List.reverseRecOn with
    | nil => exact absurd ⟨back, first.split.symm⟩ notPrefix
    | append_singleton front before =>
        by_cases pair : Delimits before ∧ back.head? = some equals
        · obtain ⟨delimits, isEquals⟩ := pair
          obtain ⟨rest, rfl⟩ := List.head?_eq_some_iff.mp isEquals
          exact .inl ⟨front, before, rest, first, delimits, paraParseStr_matched first delimits⟩
        · exact .inr (paraParseStr_unmatched first pair)
  · exact .inr (paraParseStr_absent present)

/-- With a key free of `=` the stored string depends on the neighbours of its first
occurrence alone. -/
theorem paraParseStr_first {before : UInt8}
    (first : FirstAt para.bytes src.bytes (front ++ [before]) back)
    (noEquals : equals ∉ para.bytes) :
    paraParseStr src para = .ok (storedBetween before back) := by
  by_cases pair : Delimits before ∧ back.head? = some equals
  · obtain ⟨delimits, isEquals⟩ := pair
    obtain ⟨rest, rfl⟩ := List.head?_eq_some_iff.mp isEquals
    rw [paraParseStr_matched first delimits, behindEquals_append noEquals]
    exact congrArg Except.ok (if_pos ⟨delimits, rfl⟩).symm
  · rw [paraParseStr_unmatched first pair, storedBetween, if_neg pair]

theorem valueOf_split (rest : List UInt8) :
    ampersand ∉ valueOf rest ∧
      ∃ later, rest = valueOf rest ++ later ∧ (later = [] ∨ ∃ others, later = ampersand :: others) := by
  induction rest with
  | nil => exact ⟨List.not_mem_nil, [], rfl, .inl rfl⟩
  | cons char rest ih =>
      by_cases stop : char = ampersand
      · have none : valueOf (char :: rest) = [] := List.takeWhile_cons_of_neg (by simp [stop])
        rw [none, stop]
        exact ⟨List.not_mem_nil, ampersand :: rest, rfl, .inr ⟨rest, rfl⟩⟩
      · have more : valueOf (char :: rest) = char :: valueOf rest :=
          List.takeWhile_cons_of_pos (by simp [stop])
        obtain ⟨noAmpersand, later, split, ends⟩ := ih
        rw [more, List.mem_cons, not_or]
        exact ⟨⟨Ne.symm stop, noAmpersand⟩, later, congrArg _ split, ends⟩

theorem valueOf_append {value rest : List UInt8} (noAmpersand : ampersand ∉ value)
    (ends : rest = [] ∨ ∃ later, rest = ampersand :: later) : valueOf (value ++ rest) = value := by
  rcases ends with rfl | ⟨later, rfl⟩
  · rw [List.append_nil]
    exact takeWhile_ne_self noAmpersand
  · exact takeWhile_ne_found noAmpersand later

/-- On any string the function returns, and a value that it stores is the whole value
of one pair of the key. -/
theorem para_parse_str_sound (noEquals : equals ∉ para.bytes)
    (notPrefix : ¬ para.bytes <+: src.bytes) :
    ∃ value, paraParseStr src para = .ok value ∧
      (value ≠ [] → ∃ front before rest,
        src.bytes = front ++ [before] ++ para.bytes ++ [equals] ++ value ++ rest ∧
          (before = question ∨ before = ampersand) ∧ ampersand ∉ value ∧
          (rest = [] ∨ ∃ later, rest = ampersand :: later)) := by
  rcases paraParseStr_cases notPrefix with
    ⟨front, before, back, first, delimits, returned⟩ | returned
  · rw [behindEquals_append noEquals] at returned
    obtain ⟨noAmpersand, later, split, ends⟩ := valueOf_split back
    refine ⟨_, returned, fun _ => ⟨front, before, later, ?_, delimits, noAmpersand, ends⟩⟩
    rw [first.split, List.append_assoc _ (valueOf back), ← split]
    simp
  · exact ⟨[], returned, fun stored => absurd rfl stored⟩

/-- `x?ip=ab` and the key `ip`: what is stored is `ab`. -/
theorem para_parse_str_sound_ip :
    paraParseStr ⟨[0x78, 0x3f, 0x69, 0x70, 0x3d, 0x61, 0x62], by decide⟩
        ⟨[0x69, 0x70], by decide⟩ = .ok [0x61, 0x62] ∧
      ∃ front before rest,
        [0x78, 0x3f, 0x69, 0x70, 0x3d, 0x61, 0x62] =
            front ++ [before] ++ [0x69, 0x70] ++ [equals] ++ [0x61, 0x62] ++ rest ∧
          (before = question ∨ before = ampersand) ∧ ampersand ∉ ([0x61, 0x62] : List UInt8) ∧
          (rest = [] ∨ ∃ later, rest = ampersand :: later) := by
  have stored : paraParseStr ⟨[0x78, 0x3f, 0x69, 0x70, 0x3d, 0x61, 0x62], by decide⟩
      ⟨[0x69, 0x70], by decide⟩ = .ok [0x61, 0x62] := rfl
  obtain ⟨value, returned, sound⟩ := @para_parse_str_sound
    ⟨[0x78, 0x3f, 0x69, 0x70, 0x3d, 0x61, 0x62], by decide⟩ ⟨[0x69, 0x70], by decide⟩ (by decide)
    (by decide)
  cases stored.symm.trans returned
  exact ⟨stored, sound (List.cons_ne_nil _ _)⟩

end Str

end IpcamSearch.ParaParse
