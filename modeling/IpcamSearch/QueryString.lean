import IpcamSearch.Library.KeyedList
import IpcamSearch.ParaParseProperties
import Mathlib.Data.List.Infix

/-! Looking up a key in a query string made of words, compared with the first pair that
has the key. The function stops at the first place where the key stands as a substring,
so that the path and the earlier words decide whether it gets to the pair. -/

set_option autoImplicit false

namespace IpcamSearch.QueryString

open Memory Occurrence KeyedList ParaParse

/-- A key or a value that the grammar can tell from what stands around it. -/
structure Word where
  bytes : List UInt8
  nonempty : bytes ≠ []
  plain : ∀ char ∈ bytes, char ≠ 0 ∧ char ≠ question ∧ char ≠ ampersand ∧ char ≠ equals
deriving DecidableEq

namespace Word

theorem noZero (word : Word) : 0 ∉ word.bytes := fun member => (word.plain 0 member).1 rfl

theorem noQuestion (word : Word) : question ∉ word.bytes :=
  fun member => (word.plain question member).2.1 rfl

theorem noAmpersand (word : Word) : ampersand ∉ word.bytes :=
  fun member => (word.plain ampersand member).2.2.1 rfl

theorem noEquals (word : Word) : equals ∉ word.bytes :=
  fun member => (word.plain equals member).2.2.2 rfl

def string (word : Word) : CString := ⟨word.bytes, word.noZero⟩

end Word

def pairText (pair : Word × Word) : List UInt8 := pair.1.bytes ++ equals :: pair.2.bytes

/-- The pairs, each `key=value`, with ampersands between them. -/
def queryText (pairs : List (Word × Word)) : List UInt8 :=
  [ampersand].intercalate (pairs.map pairText)

theorem queryText_cons (pair : Word × Word) (rest : List (Word × Word)) :
    queryText (pair :: rest) = pair.1.bytes ++ equals :: (pair.2.bytes ++
      if rest = [] then [] else ampersand :: queryText rest) := by
  cases rest with
  | nil => simp [queryText, pairText, List.intercalate]
  | cons other rest => simp [queryText, pairText, List.intercalate]

theorem noZero_queryText (pairs : List (Word × Word)) : 0 ∉ queryText pairs := by
  induction pairs with
  | nil => exact List.not_mem_nil
  | cons pair rest ih =>
      have key := pair.1.noZero
      have value := pair.2.noZero
      rw [queryText_cons]
      split
      · simp [key, value, equals]
      · simp [key, value, ih, equals, ampersand]

/-- The path, a question mark and the pairs. -/
def request (path : CString) (pairs : List (Word × Word)) : CString where
  bytes := path.bytes ++ question :: queryText pairs
  terminated := by
    have first := path.terminated
    have second := noZero_queryText pairs
    simp [first, second, question]

/-- The value of the first pair with the key, and nothing without one. -/
def expected (pairs : List (Word × Word)) (key : Word) : List UInt8 :=
  match lookup Prod.fst pairs key with
  | some pair => pair.2.bytes
  | none => []

/-- What the function makes of the pairs when it finds the key in none of the text before. -/
def queryResult (key : Word) : List (Word × Word) → List UInt8
  | [] => []
  | pair :: rest =>
      if pair.1 = key then pair.2.bytes
      else if key.bytes <:+: pair.1.bytes ∨ key.bytes <:+: pair.2.bytes then []
      else queryResult key rest

section Query

variable {src : CString} {key : Word} {leading back : List UInt8}

theorem paraParseStr_closed {inner : List UInt8}
    (first : FirstAt key.bytes src.bytes (leading ++ inner) back) (nonempty : inner ≠ [])
    (closed : ∀ char ∈ inner, ¬ Delimits char) : paraParseStr src key.string = .ok [] := by
  cases inner using List.reverseRecOn with
  | nil => exact absurd rfl nonempty
  | append_singleton inner before =>
      rw [← List.append_assoc] at first
      rw [paraParseStr_first first key.noEquals]
      exact congrArg _ (if_neg fun both => closed before (by simp) both.1)

theorem Word.closed {word : Word} {char : UInt8} (member : char ∈ word.bytes) : ¬ Delimits char := by
  have plain := word.plain char member
  exact fun delimits => delimits.elim plain.2.1 plain.2.2.1

theorem Word.notDelimiter (word : Word) {char : UInt8} (delimits : Delimits char) :
    char ∉ word.bytes := fun member => Word.closed member delimits

/-- A longer key around the wanted one hides it. -/
theorem paraParseStr_inside_key {delimiter : UInt8} {word : Word} {inner rest : List UInt8}
    (first : FirstAt key.bytes word.bytes inner back) (other : word ≠ key)
    (found : FirstAt key.bytes src.bytes (leading ++ delimiter :: inner) (back ++ rest)) :
    paraParseStr src key.string = .ok [] := by
  have inside : ∀ char ∈ inner ++ back, char ∈ word.bytes := by
    intro char member
    rw [first.split]
    rcases List.mem_append.mp member with before | behind
    · exact List.mem_append_left _ before
    · exact List.mem_append_right _ (List.mem_append_right _ behind)
  by_cases empty : inner = []
  · subst empty
    rw [paraParseStr_first found key.noEquals]
    cases back with
    | nil =>
        have same : word.bytes = key.bytes := by simpa using first.split
        exact absurd (by cases word; cases key; simpa using same) other
    | cons char back =>
        have member := inside char (by simp)
        refine congrArg _ (if_neg fun both => ?_)
        exact (word.plain char member).2.2.2 (Option.some.inj both.2)
  · rw [List.append_cons] at found
    exact paraParseStr_closed found empty fun char member =>
      word.closed (inside char (List.mem_append_left _ member))

section Pairs

variable {delimiter : UInt8} {pair : Word × Word} {pairs rest : List (Word × Word)}

/-- Behind text without the key, and a delimiter, the first place in the pairs is the
first place at all. -/
theorem first_in_pairs (split : src.bytes = leading ++ delimiter :: queryText pairs)
    (delimits : Delimits delimiter) (notBefore : ¬ key.bytes <:+: leading) {front : List UInt8}
    (first : FirstAt key.bytes (queryText pairs) front back) :
    FirstAt key.bytes src.bytes (leading ++ delimiter :: front) back := by
  rw [split]
  exact first_behind_separator (key.notDelimiter delimits) key.nonempty notBefore first

theorem paraParseStr_own_key (split : src.bytes = leading ++ delimiter :: queryText (pair :: rest))
    (delimits : Delimits delimiter) (notBefore : ¬ key.bytes <:+: leading) (same : pair.1 = key) :
    paraParseStr src key.string = .ok pair.2.bytes := by
  have start : FirstAt key.bytes (queryText (pair :: rest)) [] (equals ::
      (pair.2.bytes ++ if rest = [] then [] else ampersand :: queryText rest)) := by
    rw [queryText_cons, same]
    exact ⟨rfl, fun _ _ _ => Nat.zero_le _⟩
  have first := first_in_pairs split delimits notBefore start
  rw [paraParseStr_first first key.noEquals]
  refine congrArg _ ((if_pos ⟨delimits, rfl⟩).trans (valueOf_append pair.2.noAmpersand ?_))
  split
  · exact .inl rfl
  · exact .inr ⟨_, rfl⟩

/-- A value with the wanted key in it hides every pair behind it. -/
theorem paraParseStr_inside_value
    (split : src.bytes = leading ++ delimiter :: queryText (pair :: rest))
    (delimits : Delimits delimiter) (notBefore : ¬ key.bytes <:+: leading)
    (notInKey : ¬ key.bytes <:+: pair.1.bytes) (inValue : key.bytes <:+: pair.2.bytes) :
    paraParseStr src key.string = .ok [] := by
  obtain ⟨inner, back, first⟩ := exists_first inValue
  have inPairs : FirstAt key.bytes (queryText (pair :: rest)) (pair.1.bytes ++ equals :: inner)
      (back ++ if rest = [] then [] else ampersand :: queryText rest) := by
    rw [queryText_cons]
    exact first_behind_separator key.noEquals key.nonempty notInKey (first.append _)
  have found := first_in_pairs split delimits notBefore inPairs
  rw [← List.cons_append, ← List.append_assoc] at found
  refine paraParseStr_closed found (List.cons_ne_nil _ _) ?_
  intro char member
  rcases List.mem_cons.mp member with rfl | inside
  · decide
  · exact pair.2.closed (first.split ▸ List.mem_append_left _ inside)

/-- Behind text without the key, and a delimiter, the pairs alone decide. -/
theorem queryResult_spec (split : src.bytes = leading ++ delimiter :: queryText pairs)
    (delimits : Delimits delimiter) (notBefore : ¬ key.bytes <:+: leading) :
    paraParseStr src key.string = .ok (queryResult key pairs) := by
  induction pairs generalizing leading delimiter with
  | nil =>
      refine paraParseStr_absent ?_
      rw [split]
      change ¬ key.bytes <:+: _
      rw [infix_separated (key.notDelimiter delimits) key.nonempty, not_or]
      exact ⟨notBefore, fun empty => key.nonempty (List.infix_nil.mp empty)⟩
  | cons pair rest ih =>
      rw [queryResult]
      by_cases same : pair.1 = key
      · rw [if_pos same]
        exact paraParseStr_own_key split delimits notBefore same
      · rw [if_neg same]
        by_cases inKey : key.bytes <:+: pair.1.bytes
        · obtain ⟨inner, back, first⟩ := exists_first inKey
          have inPairs := first.append (equals ::
            (pair.2.bytes ++ if rest = [] then [] else ampersand :: queryText rest))
          rw [← queryText_cons] at inPairs
          rw [if_pos (.inl inKey)]
          exact paraParseStr_inside_key first same (first_in_pairs split delimits notBefore inPairs)
        · by_cases inValue : key.bytes <:+: pair.2.bytes
          · rw [if_pos (.inr inValue)]
            exact paraParseStr_inside_value split delimits notBefore inKey inValue
          · have later : ¬ key.bytes <:+:
                leading ++ delimiter :: (pair.1.bytes ++ equals :: pair.2.bytes) := by
              rw [infix_separated (key.notDelimiter delimits) key.nonempty,
                infix_separated key.noEquals key.nonempty, not_or, not_or]
              exact ⟨notBefore, inKey, inValue⟩
            rw [if_neg (not_or.mpr ⟨inKey, inValue⟩)]
            rw [queryText_cons] at split
            by_cases last : rest = []
            · subst last
              refine paraParseStr_absent ?_
              rw [split, if_pos rfl, List.append_nil]
              exact later
            · refine ih ?_ (.inr rfl) later
              rw [split, if_neg last]
              simp

end Pairs

end Query

/-- The first place of the key in the path reads like a pair with this value. -/
def PathShows (path : CString) (key : Word) (value : List UInt8) : Prop :=
  ∃ front before later,
    FirstAt key.bytes path.bytes (front ++ [before]) (equals :: (value ++ ampersand :: later)) ∧
      Delimits before

/-- The first place of the key in the path, not at its start, does not read like a pair. -/
def PathRejects (path : CString) (key : Word) : Prop :=
  ∃ front before back, FirstAt key.bytes path.bytes (front ++ [before]) back ∧
    ¬ (Delimits before ∧ back.head? = some equals)

/-- No word of these pairs has the key inside it. -/
def Clear (key : Word) (pairs : List (Word × Word)) : Prop :=
  ∀ pair ∈ pairs, ¬ key.bytes <:+: pair.1.bytes ∧ ¬ key.bytes <:+: pair.2.bytes

/-- Nothing in front of the wanted pair is taken for it, or it has the same value. -/
def Findable (path : CString) (pairs : List (Word × Word)) (key : Word) : Prop :=
  match lookup Prod.fst pairs key with
  | some pair => PathShows path key pair.2.bytes ∨
      ¬ key.bytes <:+: path.bytes ∧ Clear key (pairs.takeWhile fun pair => pair.1 ≠ key)
  | none => ¬ key.bytes <:+: path.bytes ∨ PathRejects path key ∨ PathShows path key []

section Lookup

variable {key : Word} {pairs : List (Word × Word)} {pair : Word × Word}

theorem queryResult_none (missing : lookup Prod.fst pairs key = none) :
    queryResult key pairs = [] := by
  induction pairs with
  | nil => rfl
  | cons first rest ih =>
      rw [lookup_eq_none, List.map_cons, List.mem_cons, not_or] at missing
      rw [queryResult, if_neg (Ne.symm missing.1), ih (lookup_eq_none.mpr missing.2), ite_self]

theorem queryResult_some (found : lookup Prod.fst pairs key = some pair) :
    queryResult key pairs = pair.2.bytes ↔
      Clear key (pairs.takeWhile fun pair => pair.1 ≠ key) := by
  induction pairs with
  | nil => cases found
  | cons first rest ih =>
      rw [queryResult]
      by_cases same : first.1 = key
      · have here : first = pair := by
          rw [lookup, List.find?_cons_of_pos (by simpa using same)] at found
          exact Option.some.inj found
        rw [if_pos same, List.takeWhile_cons_of_neg (by simpa using same), here]
        exact ⟨fun _ _ member => absurd member List.not_mem_nil, fun _ => rfl⟩
      · have later : lookup Prod.fst rest key = some pair := by
          rwa [lookup, List.find?_cons_of_neg (by simpa using same)] at found
        rw [if_neg same, List.takeWhile_cons_of_pos (by simpa using same)]
        by_cases touched : key.bytes <:+: first.1.bytes ∨ key.bytes <:+: first.2.bytes
        · rw [if_pos touched]
          constructor
          · exact fun empty => absurd empty.symm pair.2.nonempty
          · intro clear
            have untouched := clear first List.mem_cons_self
            exact absurd touched (not_or.mpr untouched)
        · rw [if_neg touched, ih later]
          constructor
          · intro clear other member
            rcases List.mem_cons.mp member with rfl | inside
            · exact not_or.mp touched
            · exact clear other inside
          · exact fun clear other member => clear other (List.mem_cons_of_mem _ member)

variable {path : CString} {front back : List UInt8} {before : UInt8}

theorem path_shows_iff (first : FirstAt key.bytes path.bytes (front ++ [before]) back)
    (value : List UInt8) : PathShows path key value ↔
      Delimits before ∧ ∃ later, back = equals :: (value ++ ampersand :: later) := by
  constructor
  · intro shows
    obtain ⟨otherFront, other, later, second, delimits⟩ := shows
    obtain ⟨sameFront, sameBack⟩ := first.unique second
    obtain ⟨_, same⟩ := List.append_inj' sameFront rfl
    cases same
    exact ⟨delimits, later, sameBack⟩
  · intro pair
    obtain ⟨delimits, later, split⟩ := pair
    exact ⟨front, before, later, split ▸ first, delimits⟩

theorem path_rejects_iff (first : FirstAt key.bytes path.bytes (front ++ [before]) back) :
    PathRejects path key ↔ ¬ (Delimits before ∧ back.head? = some equals) := by
  constructor
  · intro rejects
    obtain ⟨otherFront, other, otherBack, second, closed⟩ := rejects
    obtain ⟨sameFront, sameBack⟩ := first.unique second
    obtain ⟨_, same⟩ := List.append_inj' sameFront rfl
    cases same
    rwa [sameBack]
  · exact fun closed => ⟨front, before, back, first, closed⟩

/-- A value that begins in front of the question mark ends there only at an ampersand.
Otherwise the question mark and the query go into it. -/
theorem valueOf_in_path_iff (rest query : List UInt8) {value : List UInt8}
    (noQuestion : question ∉ value) (noAmpersand : ampersand ∉ value) :
    valueOf (rest ++ question :: query) = value ↔
      ∃ later, rest = value ++ ampersand :: later := by
  constructor
  · intro same
    obtain ⟨noneInside, later, split, ends⟩ := valueOf_split rest
    rcases ends with rfl | ⟨others, rfl⟩
    · rw [List.append_nil] at split
      have passed : valueOf (rest ++ question :: query) = rest ++ question :: valueOf query := by
        rw [← split] at noneInside
        rw [valueOf, takeWhile_ne_append noneInside, List.takeWhile_cons_of_pos (by decide)]
        rfl
      refine absurd ?_ noQuestion
      rw [← same, passed]
      exact List.mem_append_right _ List.mem_cons_self
    · have whole : valueOf (rest ++ question :: query) = valueOf rest := by
        rw [split, List.append_assoc]
        exact (valueOf_append noneInside (.inr ⟨_, rfl⟩)).trans
          (valueOf_append noneInside (.inr ⟨_, rfl⟩)).symm
      rw [← whole, same] at split
      exact ⟨others, split⟩
  · intro shows
    obtain ⟨later, rfl⟩ := shows
    rw [List.append_assoc]
    exact valueOf_append noAmpersand (.inr ⟨later ++ question :: query, rfl⟩)

/-- What is stored from the path is a plain value only if the path shows it. -/
theorem stored_in_path_iff (first : FirstAt key.bytes path.bytes (front ++ [before]) back)
    (query : List UInt8) {value : List UInt8} (noQuestion : question ∉ value)
    (noAmpersand : ampersand ∉ value) :
    storedBetween before (back ++ question :: query) = value ↔
      PathShows path key value ∨ value = [] ∧ PathRejects path key := by
  rw [path_shows_iff first, path_rejects_iff first]
  by_cases pair : Delimits before ∧ back.head? = some equals
  · obtain ⟨delimits, isEquals⟩ := pair
    obtain ⟨rest, rfl⟩ := List.head?_eq_some_iff.mp isEquals
    have stored : storedBetween before (equals :: rest ++ question :: query) =
        valueOf (rest ++ question :: query) := if_pos ⟨delimits, rfl⟩
    rw [stored, valueOf_in_path_iff rest query noQuestion noAmpersand,
      or_iff_left fun both => both.2 ⟨delimits, rfl⟩, and_iff_right delimits]
    simp only [List.cons.injEq, true_and]
  · have closed : ¬ (Delimits before ∧ (back ++ question :: query).head? = some equals) := by
      cases back with
      | nil => exact fun both => absurd (Option.some.inj both.2) (by decide)
      | cons char rest => exact pair
    rw [storedBetween, if_neg closed]
    constructor
    · exact fun empty => .inr ⟨empty.symm, pair⟩
    · intro either
      rcases either with ⟨delimits, later, rfl⟩ | ⟨empty, _⟩
      · exact absurd ⟨delimits, rfl⟩ pair
      · exact empty.symm

end Lookup

section Path

variable {path : CString} {key : Word} {back : List UInt8}

theorem not_shows_absent (absent : ¬ key.bytes <:+: path.bytes) (value : List UInt8) :
    ¬ PathShows path key value :=
  fun ⟨_, _, _, first, _⟩ => absent first.present

theorem not_shows_start (first : FirstAt key.bytes path.bytes [] back) (value : List UInt8) :
    ¬ PathShows path key value := by
  intro shows
  obtain ⟨front, before, later, second, _⟩ := shows
  cases front <;> cases (first.unique second).1

theorem not_rejects_start (first : FirstAt key.bytes path.bytes [] back) :
    ¬ PathRejects path key := by
  intro rejects
  obtain ⟨front, before, later, second, _⟩ := rejects
  cases front <;> cases (first.unique second).1

end Path

/-- The first pair with the key is found, or nothing without one, exactly when what
stands in front of it cannot be taken for it. -/
theorem query_lookup_iff (path : CString) (pairs : List (Word × Word)) (key : Word) :
    paraParseStr (request path pairs) key.string = .ok (expected pairs key) ↔
      Findable path pairs key := by
  unfold expected Findable
  by_cases inPath : key.bytes <:+: path.bytes
  · obtain ⟨front, back, first⟩ := exists_first inPath
    have whole : FirstAt key.string.bytes (request path pairs).bytes front
      (back ++ question :: queryText pairs) := first.append _
    cases front using List.reverseRecOn with
    | nil =>
        rw [paraParseStr_start whole]
        cases found : lookup Prod.fst pairs key with
        | some pair => simp [not_shows_start first, inPath]
        | none => simp [not_shows_start first, not_rejects_start first, inPath]
    | append_singleton front before =>
        rw [paraParseStr_first whole key.noEquals, Except.ok.injEq]
        cases found : lookup Prod.fst pairs key with
        | some pair =>
            have exactly := stored_in_path_iff first (queryText pairs) pair.2.noQuestion
              pair.2.noAmpersand
            simp only [exactly, pair.2.nonempty, inPath, false_and, or_false, not_true_eq_false]
        | none =>
            have exactly := stored_in_path_iff first (queryText pairs) List.not_mem_nil
              List.not_mem_nil
            simp only [exactly, inPath, true_and, not_true_eq_false, false_or]
            exact or_comm
  · have split : (request path pairs).bytes = path.bytes ++ question :: queryText pairs := rfl
    rw [queryResult_spec split (.inl rfl) inPath, Except.ok.injEq]
    cases found : lookup Prod.fst pairs key with
    | some pair =>
        simp only [queryResult_some found, not_shows_absent inPath, inPath, false_or,
          not_false_eq_true, true_and]
    | none => simp only [queryResult_none found, inPath, not_false_eq_true, true_or]

/-- `setipcname?ip=ip&name=name`, the command of the help text. -/
def setIpcName : CString × List (Word × Word) :=
  let ip : Word := ⟨[0x69, 0x70], by decide, by simp [question, ampersand, equals]⟩
  let name : Word :=
    ⟨[0x6e, 0x61, 0x6d, 0x65], by decide, by simp [question, ampersand, equals]⟩
  (⟨[0x73, 0x65, 0x74, 0x69, 0x70, 0x63, 0x6e, 0x61, 0x6d, 0x65], by decide⟩, [(ip, ip), (name, name)])

/-- Neither key of the documented command is found: both stand in `setipcname`, too. -/
theorem documented_command_not_found :
    (request setIpcName.1 setIpcName.2).bytes = "setipcname?ip=ip&name=name".toUTF8.toList ∧
      ∀ pair ∈ setIpcName.2,
        paraParseStr (request setIpcName.1 setIpcName.2) pair.1.string = .ok [] ∧
          paraParseStr (request setIpcName.1 setIpcName.2) pair.1.string ≠
            .ok (expected setIpcName.2 pair.1) := by
  decide +kernel

end IpcamSearch.QueryString
