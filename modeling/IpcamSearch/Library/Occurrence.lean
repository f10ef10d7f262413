import Mathlib.Data.List.Basic

/-! The first occurrence of a list inside another one, and where it can be when the
other list is put together around separators that the first one does not contain. -/

set_option autoImplicit false

namespace IpcamSearch.Occurrence

variable {Symbol : Type} {needle list left right front back : List Symbol}

/-- The list holds `needle` behind `front` and nowhere further to the left. -/
structure FirstAt (needle list front back : List Symbol) : Prop where
  split : list = front ++ (needle ++ back)
  earliest : ∀ other rest, list = other ++ (needle ++ rest) → front.length ≤ other.length

theorem FirstAt.present (first : FirstAt needle list front back) : needle <:+: list :=
  ⟨front, back, by rw [first.split, List.append_assoc]⟩

theorem FirstAt.unique {otherFront otherBack : List Symbol}
    (first : FirstAt needle list front back)
    (second : FirstAt needle list otherFront otherBack) : front = otherFront ∧ back = otherBack := by
  have lengths : front.length = otherFront.length :=
    Nat.le_antisymm (first.earliest _ _ second.split) (second.earliest _ _ first.split)
  obtain ⟨sameFront, sameRest⟩ := List.append_inj (first.split.symm.trans second.split) lengths
  exact ⟨sameFront, List.append_cancel_left sameRest⟩

theorem exists_first (present : needle <:+: list) : ∃ front back, FirstAt needle list front back := by
  induction list with
  | nil =>
      have empty : needle = [] := List.infix_nil.mp present
      subst empty
      exact ⟨[], [], rfl, fun _ _ _ => Nat.zero_le _⟩
  | cons head tail ih =>
      rcases List.infix_cons_iff.mp present with ⟨back, here⟩ | later
      · exact ⟨[], back, here.symm, fun _ _ _ => Nat.zero_le _⟩
      · obtain ⟨front, back, split, earliest⟩ := ih later
        by_cases here : needle <+: head :: tail
        · obtain ⟨back, here⟩ := here
          exact ⟨[], back, here.symm, fun _ _ _ => Nat.zero_le _⟩
        · refine ⟨head :: front, back, by rw [split, List.cons_append], ?_⟩
          intro other rest same
          cases other with
          | nil => exact absurd ⟨rest, same.symm⟩ here
          | cons first other =>
              exact Nat.succ_le_succ (earliest other rest (List.cons.inj same).2)

theorem FirstAt.append (first : FirstAt needle left front back) (right : List Symbol) :
    FirstAt needle (left ++ right) front (back ++ right) := by
  refine ⟨by rw [first.split, List.append_assoc, List.append_assoc], ?_⟩
  intro other rest same
  by_contra shorter
  rw [Nat.not_le] at shorter
  have cut := congrArg (List.take (other.length + needle.length)) same
  have bound : other.length + needle.length ≤ left.length := by
    rw [first.split, List.length_append, List.length_append]
    omega
  rw [List.take_append_of_le_length bound, ← List.append_assoc,
    List.take_left' (List.length_append)] at cut
  have occurs : left = other ++ (needle ++ left.drop (other.length + needle.length)) := by
    rw [← List.append_assoc, ← cut, List.take_append_drop]
  exact absurd (first.earliest _ _ occurs) (Nat.not_le.mpr shorter)

theorem first_singleton {symbol : Symbol} (absent : symbol ∉ front) (back : List Symbol) :
    FirstAt [symbol] (front ++ symbol :: back) front back := by
  refine ⟨rfl, fun other rest same => ?_⟩
  by_contra shorter
  rw [Nat.not_le] at shorter
  have here := congrArg (fun list => list[other.length]?) same
  simp only [List.getElem?_append_left shorter, List.getElem?_append_right (Nat.le_refl _),
    Nat.sub_self, List.singleton_append, List.getElem?_cons_zero] at here
  exact absent (List.mem_of_getElem? here)

section Separator

variable {separator : Symbol} (absent : separator ∉ needle) (nonempty : needle ≠ [])

include absent nonempty

/-- An occurrence lies on one side of a separator. -/
theorem occurrence_separated {other rest : List Symbol}
    (same : left ++ separator :: right = other ++ (needle ++ rest)) :
    (∃ behind, left = other ++ (needle ++ behind)) ∨
      ∃ before, other = left ++ separator :: before ∧ right = before ++ (needle ++ rest) := by
  rcases List.append_eq_append_iff.mp same with ⟨before, rfl, split⟩ | ⟨middle, rfl, split⟩
  · cases before with
    | nil =>
        cases needle with
        | nil => exact absurd rfl nonempty
        | cons first needle =>
            exact absurd (List.cons.inj split).1 fun equal => absent (equal ▸ List.mem_cons_self)
    | cons first before =>
        obtain ⟨rfl, behind⟩ := List.cons.inj split
        exact .inr ⟨before, rfl, behind⟩
  · rcases List.append_eq_append_iff.mp split with ⟨tail, rfl, behind⟩ | ⟨tail, rfl, behind⟩
    · exact .inl ⟨tail, rfl⟩
    · cases tail with
      | nil => exact .inl ⟨[], by simp⟩
      | cons first tail =>
          obtain ⟨rfl, _⟩ := List.cons.inj behind
          exact absurd (List.mem_append_right _ List.mem_cons_self) absent

theorem infix_separated :
    needle <:+: left ++ separator :: right ↔ needle <:+: left ∨ needle <:+: right := by
  constructor
  · rintro ⟨other, rest, same⟩
    rw [List.append_assoc] at same
    rcases occurrence_separated absent nonempty same.symm with ⟨behind, rfl⟩ | ⟨before, _, rfl⟩
    · exact .inl (List.infix_append' other needle behind)
    · exact .inr (List.infix_append' before needle rest)
  · rintro (inLeft | inRight)
    · exact List.infix_append_of_infix_left inLeft
    · exact List.infix_append_of_infix_right (List.infix_cons inRight)

theorem first_behind_separator (notLeft : ¬ needle <:+: left)
    (first : FirstAt needle right front back) :
    FirstAt needle (left ++ separator :: right) (left ++ separator :: front) back := by
  refine ⟨by rw [first.split, List.append_assoc, List.cons_append], ?_⟩
  intro other rest same
  rcases occurrence_separated absent nonempty same with ⟨behind, rfl⟩ | ⟨before, rfl, split⟩
  · exact absurd (List.infix_append' other needle behind) notLeft
  · have bound := first.earliest before rest split
    simp only [List.length_append, List.length_cons]
    omega

end Separator

variable [DecidableEq Symbol]

section Scan

variable {symbol : Symbol} (absent : symbol ∉ front)

include absent

theorem passes_absent : ∀ other ∈ front, decide (other ≠ symbol) = true := by
  intro other member
  exact decide_eq_true fun same => absent (same ▸ member)

theorem takeWhile_ne_append (back : List Symbol) :
    (front ++ back).takeWhile (fun other => other ≠ symbol) =
      front ++ back.takeWhile fun other => other ≠ symbol :=
  List.takeWhile_append_of_pos (passes_absent absent)

theorem dropWhile_ne_append (back : List Symbol) :
    (front ++ back).dropWhile (fun other => other ≠ symbol) =
      back.dropWhile fun other => other ≠ symbol :=
  List.dropWhile_append_of_pos (passes_absent absent)

theorem takeWhile_ne_self : front.takeWhile (fun other => other ≠ symbol) = front := by
  have whole := takeWhile_ne_append absent []
  rwa [List.append_nil, List.takeWhile_nil, List.append_nil] at whole

theorem dropWhile_ne_self : front.dropWhile (fun other => other ≠ symbol) = [] := by
  have whole := dropWhile_ne_append absent []
  rwa [List.append_nil] at whole

theorem takeWhile_ne_found (back : List Symbol) :
    (front ++ symbol :: back).takeWhile (fun other => other ≠ symbol) = front := by
  rw [takeWhile_ne_append absent, List.takeWhile_cons_of_neg (by simp), List.append_nil]

theorem dropWhile_ne_found (back : List Symbol) :
    (front ++ symbol :: back).dropWhile (fun other => other ≠ symbol) = symbol :: back := by
  rw [dropWhile_ne_append absent, List.dropWhile_cons_of_neg (by simp)]

end Scan

/-- The position of the first occurrence. -/
def firstIndex (needle : List Symbol) : List Symbol → Option Nat
  | [] => if needle = [] then some 0 else none
  | head :: tail =>
      if needle <+: head :: tail then some 0 else (firstIndex needle tail).map (· + 1)

theorem firstIndex_none (absent : ¬ needle <:+: list) : firstIndex needle list = none := by
  induction list with
  | nil => exact if_neg fun empty => absent (List.infix_nil.mpr empty)
  | cons head tail ih =>
      rw [List.infix_cons_iff, not_or] at absent
      rw [firstIndex, if_neg absent.1, ih absent.2]
      rfl

theorem firstIndex_first (first : FirstAt needle list front back) :
    firstIndex needle list = some front.length := by
  induction list generalizing front with
  | nil =>
      obtain ⟨rfl, rest⟩ := List.append_eq_nil_iff.mp first.split.symm
      exact if_pos (List.append_eq_nil_iff.mp rest).1
  | cons head tail ih =>
      cases front with
      | nil => exact if_pos ⟨back, first.split.symm⟩
      | cons other front =>
          obtain ⟨rfl, split⟩ := List.cons.inj first.split
          have notHere : ¬ needle <+: head :: tail := by
            rintro ⟨rest, here⟩
            exact absurd (first.earliest [] rest here.symm) (Nat.not_succ_le_zero _)
          have later : FirstAt needle tail front back := by
            refine ⟨split, fun other rest same => ?_⟩
            exact Nat.le_of_succ_le_succ (first.earliest (head :: other) rest (by rw [same]; rfl))
          rw [firstIndex, if_neg notHere, ih later]
          rfl

end IpcamSearch.Occurrence
