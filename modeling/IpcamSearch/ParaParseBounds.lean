import IpcamSearch.Library.Bytes
import IpcamSearch.ParaParseProperties

/-! The memory that `para_parse_str` touches: every character that its searches and its
copy read, and every byte that it stores in the buffer of its caller. -/

set_option autoImplicit false

namespace IpcamSearch.ParaParse

open Memory Occurrence

/-- The comparison that `strstr` makes at one position. -/
def beginsAt (src : CString) : List UInt8 → Nat → Except Fault Bool
  | [], _ => .ok true
  | char :: needle, position => do
      let here ← src.charAt position
      if here = char then beginsAt src needle (position + 1) else return false

/-- `strstr` as it reads: position by position, up to the terminator. -/
def strstrLoop (src para : CString) : Nat → Nat → Except Fault (Option Nat)
  | 0, _ => .error .divergence
  | fuel + 1, position => do
      if ← beginsAt src para.bytes position then return some position
      let here ← src.charAt position
      if here = 0 then return none
      strstrLoop src para fuel (position + 1)

def strchrLoop (src : CString) (char : UInt8) : Nat → Nat → Except Fault (Option Nat)
  | 0, _ => .error .divergence
  | fuel + 1, position => do
      let here ← src.charAt position
      if here = char then return some position
      if here = 0 then return none
      strchrLoop src char fuel (position + 1)

/-- `para_parse_str` up to its copy: the `=` behind which it copies, or nothing where it
stores the empty string and returns. -/
def findEquals (src para : CString) : Except Fault (Option Nat) := do
  match ← strstrLoop src para (src.bytes.length + 1) 0 with
  | none => return none
  | some q =>
      let before ← src.charBefore q
      if before ≠ question ∧ before ≠ ampersand then return none
      let behind ← src.charAt (q + para.bytes.length)
      if behind ≠ equals then return none
      match ← strchrLoop src equals (src.bytes.length + 1) q with
      | none => .error .nullDereference
      | some q => return some q

/-- `para_parse_str` with every read of `src` checked, those of its searches, too. -/
def paraParseStrReads (src para : CString) : Except Fault (List UInt8) := do
  match ← findEquals src para with
  | none => return []
  | some q => copyLoop src (src.bytes.length + 1) q

/-- The copying loop, with `p` counted from the start of `val`. -/
def copyIntoLoop {size : Nat} (src : CString) :
    Nat → Nat → Nat → Block size → Except Fault (Block size)
  | 0, _, _, _ => .error .divergence
  | fuel + 1, q, p, val => do
      let char ← src.charAt (q + 1)
      if char = 0 then memcpy val p [0]
      else if char = ampersand then memcpy val p [0]
      else
        let val ← memcpy val p [char]
        copyIntoLoop src fuel (q + 1) (p + 1) val

/-- `para_parse_str` with every byte stored in the buffer behind `val`. -/
def paraParseStrInto {size : Nat} (src para : CString) (val : Block size) :
    Except Fault (Block size) := do
  match ← findEquals src para with
  | none => memcpy val 0 [0]
  | some q => copyIntoLoop src (src.bytes.length + 1) q 0 val

/-- `para_parse_int` with its local `str`. -/
def paraParseIntInto (longBits : Nat) (src key : CString) (defaultVal : Int32) :
    Except Fault (Int32 × Int32) := do
  let block ← paraParseStrInto src key (Block.zeros MAX_LINE)
  let str := block.toList.takeWhile fun char => char ≠ 0
  if str = [] then return (defaultVal, defaultVal)
  else
    let val := Int32.ofInt (strtol longBits str)
    return (val, val)

section Reads

variable {src para : CString} {front back : List UInt8}

/-- A needle without a zero byte differs from the terminator at the latest. -/
theorem beginsAt_spec {needle : List UInt8} (terminated : 0 ∉ needle)
    (split : src.bytes = front ++ back) :
    beginsAt src needle front.length = .ok (decide (needle <+: back)) := by
  induction needle generalizing front back with
  | nil => simp [beginsAt]
  | cons char needle ih =>
      obtain ⟨nonzero, later⟩ := not_or.mp (mt List.mem_cons.mpr terminated)
      cases back with
      | nil =>
          have ended := src.charAt_end
          rw [split, List.append_nil] at ended
          simp only [beginsAt, ended, ok_bind, nonzero, ↓reduceIte, List.prefix_nil,
            List.cons_ne_nil, decide_false]
          rfl
      | cons here back =>
          have splitNext : src.bytes = (front ++ [here]) ++ back := by
            rw [split, List.append_assoc, List.singleton_append]
          have next := ih later splitNext
          rw [List.length_append, List.length_singleton] at next
          simp only [beginsAt, CString.charAt_inside split, ok_bind, next, List.cons_prefix_cons]
          by_cases same : here = char
          · simp [same]
          · simp [same, Ne.symm same]
            rfl

theorem strstrLoop_spec {fuel : Nat} (split : src.bytes = front ++ back)
    (enough : back.length < fuel) :
    strstrLoop src para fuel front.length =
      .ok ((firstIndex para.bytes back).map fun offset => front.length + offset) := by
  induction fuel generalizing front back with
  | zero => cases enough
  | succ fuel ih =>
      rw [strstrLoop, beginsAt_spec para.terminated split, ok_bind]
      cases back with
      | nil =>
          have ended := src.charAt_end
          rw [split, List.append_nil] at ended
          by_cases empty : para.bytes = []
          · simp [firstIndex, empty]
            rfl
          · simp [firstIndex, empty, ended]
            rfl
      | cons char back =>
          have splitNext : src.bytes = (front ++ [char]) ++ back := by
            rw [split, List.append_assoc, List.singleton_append]
          have next := ih splitNext (Nat.lt_of_succ_lt_succ enough)
          rw [List.length_append, List.length_singleton] at next
          by_cases here : para.bytes <+: char :: back
          · simp [firstIndex, here]
            rfl
          · have moved : (firstIndex para.bytes back).map (fun offset => front.length + 1 + offset) =
                ((firstIndex para.bytes back).map (· + 1)).map fun offset =>
                  front.length + offset := by
              rw [Option.map_map]
              exact Option.map_congr fun offset _ => Nat.add_right_comm _ _ _
            simp only [here, decide_false, Bool.false_eq_true, ↓reduceIte,
              CString.charAt_inside split, ok_bind, CString.nonzero split, next, firstIndex, moved]

theorem strchrLoop_eq {char : UInt8} (nonzero : 0 ∉ [char]) (fuel position : Nat) :
    strchrLoop src char fuel position = strstrLoop src ⟨[char], nonzero⟩ fuel position := by
  induction fuel generalizing position with
  | zero => rfl
  | succ fuel ih =>
      rw [strchrLoop, strstrLoop, beginsAt]
      cases src.charAt position with
      | error fault => rfl
      | ok here =>
          by_cases same : here = char
          · simp [same, beginsAt]
          · simp [same, ih]

theorem charAt_reached {string : CString} {position : Nat} {char : UInt8}
    (read : string.charAt position = .ok char) : position ≤ string.bytes.length := by
  by_contra outside
  rw [CString.charAt, if_neg outside] at read
  cases read

theorem strchrLoop_spec {char : UInt8} (nonzero : 0 ∉ [char]) {position : Nat}
    (inside : position ≤ src.bytes.length) :
    strchrLoop src char (src.bytes.length + 1) position = .ok (strchr src position char) := by
  have start : (src.bytes.take position).length = position := List.length_take_of_le inside
  have enough : (src.bytes.drop position).length < src.bytes.length + 1 := by
    rw [List.length_drop]
    exact Nat.lt_succ_of_le (Nat.sub_le _ _)
  have searched := @strstrLoop_spec src ⟨[char], nonzero⟩ _ _ _
    (src.bytes.take_append_drop position).symm enough
  rw [start] at searched
  rw [strchrLoop_eq nonzero, searched]
  rfl

theorem strstrLoop_strstr :
    strstrLoop src para (src.bytes.length + 1) 0 = .ok (strstr src para) := by
  have searched := @strstrLoop_spec src para [] _ _ rfl (Nat.lt_succ_self src.bytes.length)
  simpa [strstr] using searched

theorem paraParseStrReads_eq : paraParseStrReads src para = paraParseStr src para := by
  rw [paraParseStrReads, findEquals, strstrLoop_strstr, paraParseStr, ok_bind]
  cases strstr src para with
  | none => rfl
  | some q =>
      dsimp only
      cases src.charBefore q with
      | error fault => rfl
      | ok before =>
          simp only [ok_bind]
          by_cases opened : before ≠ question ∧ before ≠ ampersand
          · rw [if_pos opened, if_pos opened]
            rfl
          · rw [if_neg opened, if_neg opened]
            cases behind : src.charAt (q + para.bytes.length) with
            | error fault => rfl
            | ok char =>
                simp only [ok_bind]
                by_cases other : char ≠ equals
                · rw [if_pos other, if_pos other]
                  rfl
                · have inside : q ≤ src.bytes.length :=
                    Nat.le_trans (Nat.le_add_right q _) (charAt_reached behind)
                  rw [if_neg other, if_neg other, strchrLoop_spec (by decide) inside]
                  cases strchr src q equals with
                  | none => rfl
                  | some q => rfl

theorem findEquals_start (starts : para.bytes <+: src.bytes) :
    findEquals src para = .error .outOfBounds := by
  obtain ⟨back, starts⟩ := starts
  have first : FirstAt para.bytes src.bytes [] back := ⟨starts.symm, fun _ _ _ => Nat.zero_le _⟩
  rw [findEquals, strstrLoop_strstr, strstr, firstIndex_first first]
  rfl

theorem paraParseStr_returns (notPrefix : ¬ para.bytes <+: src.bytes) :
    ∃ val, paraParseStr src para = .ok val := by
  rcases paraParseStr_cases notPrefix with ⟨_, _, _, _, _, returned⟩ | returned
  · exact ⟨_, returned⟩
  · exact ⟨_, returned⟩

/-- The function reads inside its string if and only if the string does not begin with
the key, and it then returns. -/
theorem para_parse_str_reads_iff :
    (∃ val, paraParseStrReads src para = .ok val) ↔ ¬ para.bytes <+: src.bytes := by
  constructor
  · rintro ⟨val, returned⟩ starts
    rw [paraParseStrReads, findEquals_start starts] at returned
    cases returned
  · intro notPrefix
    rw [paraParseStrReads_eq]
    exact paraParseStr_returns notPrefix

/-- `ip=1` and the key `ip`: the character before the string is read. -/
theorem para_parse_str_reads_before :
    paraParseStrReads ⟨[0x69, 0x70, 0x3d, 0x31], by decide⟩ ⟨[0x69, 0x70], by decide⟩ =
      .error .outOfBounds := rfl

end Reads

section Into

variable {src key : CString} {size : Nat}

theorem copyLoop_cases {fuel q : Nat} {value : List UInt8}
    (copied : copyLoop src (fuel + 1) q = .ok value) :
    ∃ char, src.charAt (q + 1) = .ok char ∧
      ((char = 0 ∨ char = ampersand) ∧ value = [] ∨
        char ≠ 0 ∧ char ≠ ampersand ∧
          ∃ rest, copyLoop src fuel (q + 1) = .ok rest ∧ value = char :: rest) := by
  rw [copyLoop] at copied
  obtain ⟨char, read, copied⟩ := of_bind_ok copied
  refine ⟨char, read, ?_⟩
  by_cases ended : char = 0
  · rw [if_pos ended] at copied
    cases copied
    exact .inl ⟨.inl ended, rfl⟩
  · rw [if_neg ended] at copied
    by_cases stop : char = ampersand
    · rw [if_pos stop] at copied
      cases copied
      exact .inl ⟨.inr stop, rfl⟩
    · rw [if_neg stop] at copied
      obtain ⟨rest, later, copied⟩ := of_bind_ok copied
      cases copied
      exact .inr ⟨ended, stop, rest, later, rfl⟩

theorem copyLoop_nonzero {fuel q : Nat} {value : List UInt8}
    (copied : copyLoop src fuel q = .ok value) : 0 ∉ value := by
  induction fuel generalizing q value with
  | zero => cases copied
  | succ fuel ih =>
      obtain ⟨char, _, ⟨_, rfl⟩ | ⟨nonzero, _, rest, later, rfl⟩⟩ := copyLoop_cases copied
      · exact List.not_mem_nil
      · rw [List.mem_cons, not_or]
        exact ⟨Ne.symm nonzero, ih later⟩

theorem copyIntoLoop_spec {fuel q : Nat} {value : List UInt8}
    (copied : copyLoop src fuel q = .ok value) (p : Nat) (val : Block size) :
    copyIntoLoop src fuel q p val = memcpy val p (value ++ [0]) := by
  induction fuel generalizing q value p val with
  | zero => cases copied
  | succ fuel ih =>
      obtain ⟨char, read, ⟨stops, rfl⟩ | ⟨nonzero, apart, rest, later, rfl⟩⟩ :=
        copyLoop_cases copied
      · rw [copyIntoLoop, read, ok_bind]
        rcases stops with ended | stop
        · exact if_pos ended
        · rw [if_pos stop, ite_self]
          rfl
      · rw [copyIntoLoop, read, ok_bind, if_neg nonzero, if_neg apart]
        simp only [ih later]
        exact memcpy_append val p [char] (rest ++ [0])

/-- What the function stores is its string and a terminator, wherever the two fit. -/
theorem paraParseStrInto_spec {value : List UInt8} (returned : paraParseStr src key = .ok value)
    (val : Block size) :
    paraParseStrInto src key val = memcpy val 0 (value ++ [0]) ∧ 0 ∉ value := by
  rw [← paraParseStrReads_eq, paraParseStrReads] at returned
  obtain ⟨position, found, returned⟩ := of_bind_ok returned
  rw [paraParseStrInto, found, ok_bind]
  cases position with
  | none =>
      cases returned
      exact ⟨rfl, List.not_mem_nil⟩
  | some q => exact ⟨copyIntoLoop_spec returned 0 val, copyLoop_nonzero returned⟩

/-- `para_parse_int` with its buffer computes what the one without it says: the string is
read back whole, and one that is too long is an overrun. -/
theorem paraParseIntInto_eq (longBits : Nat) (defaultVal : Int32) :
    paraParseIntInto longBits src key defaultVal = paraParseInt longBits src key defaultVal := by
  by_cases starts : key.bytes <+: src.bytes
  · rw [paraParseIntInto, paraParseInt, paraParseStrInto, ← paraParseStrReads_eq,
      paraParseStrReads, findEquals_start starts]
    rfl
  · obtain ⟨value, returned⟩ := paraParseStr_returns starts
    obtain ⟨stored, nonzero⟩ := paraParseStrInto_spec returned (Block.zeros MAX_LINE)
    have written : 0 + (value ++ [0]).length = value.length + 1 := by simp
    rw [paraParseIntInto, paraParseInt, stored, returned, ok_bind]
    by_cases long : MAX_LINE ≤ value.length
    · rw [if_pos long, memcpy_outside _ (by omega)]
      rfl
    · have kept : (overlay (Block.zeros MAX_LINE).toList 0 (value ++ [0])).takeWhile
          (fun char => char ≠ 0) = value := by
        rw [overlay_zero, List.append_assoc, List.singleton_append, takeWhile_ne_found nonzero]
      rw [if_neg long, memcpy_inside _ (by omega), ok_bind]
      simp only [Block.toList_patch, kept]

theorem valueOf_length_lt (text : List UInt8) (bound : Nat) :
    (valueOf text).length < bound ↔ text.length < bound ∨ ampersand ∈ text.take bound := by
  induction text generalizing bound with
  | nil => simp [valueOf]
  | cons char text ih =>
      cases bound with
      | zero => simp
      | succ bound =>
          by_cases stop : char = ampersand
          · simp [valueOf, stop]
          · have more : valueOf (char :: text) = char :: valueOf text :=
              List.takeWhile_cons_of_pos (by simp [stop])
            simp [more, ih, Ne.symm stop]

/-- The text ends, or an ampersand stands, where `str` still has room for a terminator. -/
def EndsInLine (text : List UInt8) : Prop :=
  text.length < MAX_LINE ∨ ampersand ∈ text.take MAX_LINE

theorem paraParseIntInto_fits_iff {value : List UInt8}
    (returned : paraParseStr src key = .ok value) (longBits : Nat) (defaultVal : Int32) :
    (∃ result, paraParseIntInto longBits src key defaultVal = .ok result) ↔
      value.length < MAX_LINE := by
  rw [paraParseIntInto_eq, paraParseInt, returned, ok_bind]
  constructor
  · rintro ⟨result, stored⟩
    by_contra long
    rw [if_pos (Nat.not_lt.mp long)] at stored
    cases stored
  · intro fits
    rw [if_neg (Nat.not_le.mpr fits)]
    by_cases empty : value = []
    · exact ⟨_, if_pos empty⟩
    · exact ⟨_, if_neg empty⟩

/-- With a matched key the copy stays inside `str` if and only if the text behind the
first `=` ends in time. -/
theorem para_parse_int_inside_iff {front back : List UInt8} {before : UInt8}
    (first : FirstAt key.bytes src.bytes (front ++ [before]) (equals :: back))
    (delimits : Delimits before) (longBits : Nat) (defaultVal : Int32) :
    (∃ result, paraParseIntInto longBits src key defaultVal = .ok result) ↔
      EndsInLine (behindEquals (key.bytes ++ equals :: back)) := by
  rw [paraParseIntInto_fits_iff (paraParseStr_matched first delimits)]
  exact valueOf_length_lt _ _

/-- `?k=1` and the key `k`. -/
theorem para_parse_int_inside_iff_one :
    (∃ result, paraParseIntInto 64 ⟨[question, 0x6b, equals, 0x31], by decide⟩
        ⟨[0x6b], by decide⟩ 0 = .ok result) ↔
      EndsInLine (behindEquals [0x6b, equals, 0x31]) :=
  para_parse_int_inside_iff
    (first_singleton (show (0x6b : UInt8) ∉ [] ++ [question] by decide) [equals, 0x31])
    (.inl rfl) 64 0

/-- `?k=` and a value of so many characters. -/
def longPair (length : Nat) : CString :=
  ⟨[question] ++ 0x6b :: equals :: List.replicate length 0x61, by
    simp [question, equals, List.mem_replicate]⟩

theorem longPair_stored (length : Nat) :
    paraParseStr (longPair length) ⟨[0x6b], by decide⟩ = .ok (List.replicate length 0x61) := by
  have first := first_singleton (show (0x6b : UInt8) ∉ [] ++ [question] by decide)
    (equals :: List.replicate length 0x61)
  have noAmpersand : ampersand ∉ List.replicate length (0x61 : UInt8) := by
    simp [ampersand, List.mem_replicate]
  have whole := valueOf_append noAmpersand (.inl rfl)
  rw [List.append_nil] at whole
  have returned :=
    @paraParseStr_matched (longPair length) ⟨[0x6b], by decide⟩ [] _ _ first (.inl rfl)
  rw [returned, behindEquals_append (by decide), whole]

/-- A value of 1024 characters leaves no room for the terminator. -/
theorem para_parse_int_overrun :
    paraParseIntInto 64 (longPair 1024) ⟨[0x6b], by decide⟩ 0 = .error .outOfBounds := by
  rw [paraParseIntInto_eq, paraParseInt, longPair_stored, ok_bind, if_pos]
  rw [List.length_replicate]
  exact le_rfl

end Into

end IpcamSearch.ParaParse
