import Mathlib.Logic.Function.Basic

/-! Locks that belong to a process, as `fcntl` gives them: a lock that another process owns is
refused without waiting, and the end of a process drops what it owns. -/

set_option autoImplicit false

namespace IpcamSearch.RecordLock

variable {Name Id : Type}

abbrev Owners (Name Id : Type) := Name → Option Id

/-- Each process owns the one lock that it went inside of, and nothing else is owned. -/
def Held (owners : Owners Name Id) (inside : Id → Option Name) : Prop :=
  ∀ name id, owners name = some id ↔ inside id = some name

def unowned (Name Id : Type) : Owners Name Id := fun _ => none

theorem held_unowned : Held (unowned Name Id) fun _ => none :=
  fun _ _ => iff_of_false (Option.some_ne_none _).symm (Option.some_ne_none _).symm

variable {owners after : Owners Name Id} {inside : Id → Option Name} {name : Name} {id other : Id}

theorem Held.exclusive (held : Held owners inside) (first : inside id = some name)
    (second : inside other = some name) : id = other := by
  have owned := (held name id).mpr first
  rw [(held name other).mpr second] at owned
  exact (Option.some.inj owned).symm

variable [DecidableEq Id]

def dropLocks (owners : Owners Name Id) (id : Id) : Owners Name Id :=
  fun name => if owners name = some id then none else owners name

theorem Held.drop (held : Held owners inside) (id : Id) :
    Held (dropLocks owners id) (Function.update inside id none) := by
  intro name other
  rw [dropLocks]
  by_cases same : other = id
  · subst same
    rw [Function.update_self]
    refine iff_of_false ?_ (Option.some_ne_none _).symm
    split
    · exact (Option.some_ne_none _).symm
    · assumption
  · rw [Function.update_of_ne same, ← held name other]
    split
    · next owned =>
        rw [owned]
        exact iff_of_false (Option.some_ne_none _).symm fun equal => same (Option.some.inj equal).symm
    · rfl

variable [DecidableEq Name]

/-- `F_SETLK` on the whole file; `none` is a refusal. -/
def setLock (owners : Owners Name Id) (name : Name) (id : Id) : Option (Owners Name Id) :=
  if owners name = none ∨ owners name = some id then some (Function.update owners name (some id))
  else none

theorem Held.keeps_out_iff (held : Held owners inside) :
    setLock owners name id = none ↔ ∃ other, other ≠ id ∧ inside other = some name := by
  rw [setLock]
  cases owned : owners name with
  | none =>
      rw [if_pos (.inl rfl)]
      refine iff_of_false (Option.some_ne_none _) ?_
      rintro ⟨other, _, entered⟩
      rw [(held name other).mpr entered] at owned
      cases owned
  | some owner =>
      have entered := (held name owner).mp owned
      by_cases same : owner = id
      · rw [if_pos (.inr (congrArg some same))]
        refine iff_of_false (Option.some_ne_none _) ?_
        rintro ⟨other, apart, there⟩
        exact apart ((held.exclusive there entered).trans same)
      · rw [if_neg (by simp [same])]
        exact iff_of_true rfl ⟨owner, same, entered⟩

theorem Held.set (held : Held owners inside) (outside : inside id = none)
    (taken : setLock owners name id = some after) :
    Held after (Function.update inside id (some name)) := by
  have free : ∀ other, other ≠ id → inside other ≠ some name := by
    intro other apart entered
    rw [held.keeps_out_iff.mpr ⟨other, apart, entered⟩] at taken
    cases taken
  rw [setLock] at taken
  split at taken
  · cases taken
    intro place other
    by_cases here : place = name
    · subst here
      rw [Function.update_self]
      by_cases same : other = id
      · subst same
        rw [Function.update_self]
        exact iff_of_true rfl rfl
      · rw [Function.update_of_ne same]
        exact iff_of_false (fun equal => same (Option.some.inj equal).symm) (free other same)
    · rw [Function.update_of_ne here, held place other]
      by_cases same : other = id
      · subst same
        rw [Function.update_self, outside]
        exact iff_of_false (Option.some_ne_none _).symm fun equal => here (Option.some.inj equal).symm
      · rw [Function.update_of_ne same]
  · cases taken

end IpcamSearch.RecordLock
