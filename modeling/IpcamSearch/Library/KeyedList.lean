import Mathlib.Data.List.Basic
import Mathlib.Data.List.Nodup
import Mathlib.Data.List.Perm.Basic

/-! Lists searched by a key from the front. `touch` is the operation of a registry
that keeps one entry a key: a known key updates its entry in place, a new one is
put in front. -/

set_option autoImplicit false

namespace IpcamSearch.KeyedList

variable {Entry Key : Type} [DecidableEq Key] {key : Entry → Key}

def lookup (key : Entry → Key) (entries : List Entry) (wanted : Key) : Option Entry :=
  entries.find? fun entry => decide (key entry = wanted)

def modifyFirst (key : Entry → Key) (update : Entry → Entry) (wanted : Key) :
    List Entry → List Entry
  | [] => []
  | entry :: rest =>
      if key entry = wanted then update entry :: rest
      else entry :: modifyFirst key update wanted rest

def touch (key : Entry → Key) (update : Entry → Entry) (fresh : Entry)
    (entries : List Entry) : List Entry :=
  if key fresh ∈ entries.map key then modifyFirst key update (key fresh) entries
  else fresh :: entries

theorem lookup_eq_none {entries : List Entry} {wanted : Key} :
    lookup key entries wanted = none ↔ wanted ∉ entries.map key := by
  simp [lookup, List.find?_eq_none]

theorem lookup_key {entries : List Entry} {wanted : Key} {entry : Entry}
    (found : lookup key entries wanted = some entry) : key entry = wanted := by
  simpa using List.find?_some found

theorem lookup_mem {entries : List Entry} {wanted : Key} {entry : Entry}
    (found : lookup key entries wanted = some entry) : entry ∈ entries :=
  List.mem_of_find?_eq_some found

theorem mem_modifyFirst {update : Entry → Entry} {wanted : Key} {entries : List Entry}
    {entry : Entry} (member : entry ∈ modifyFirst key update wanted entries) :
    (∃ old ∈ entries, entry = update old) ∨ entry ∈ entries := by
  induction entries with
  | nil => cases member
  | cons head rest ih =>
      unfold modifyFirst at member
      split at member
      · rcases List.mem_cons.mp member with rfl | later
        · exact .inl ⟨head, List.mem_cons_self, rfl⟩
        · exact .inr (List.mem_cons_of_mem _ later)
      · rcases List.mem_cons.mp member with rfl | later
        · exact .inr List.mem_cons_self
        · rcases ih later with ⟨old, inside, rfl⟩ | inside
          · exact .inl ⟨old, List.mem_cons_of_mem _ inside, rfl⟩
          · exact .inr (List.mem_cons_of_mem _ inside)

theorem mem_touch {update : Entry → Entry} {fresh : Entry} {entries : List Entry} {entry : Entry}
    (member : entry ∈ touch key update fresh entries) :
    entry = fresh ∨ (∃ old ∈ entries, entry = update old) ∨ entry ∈ entries := by
  unfold touch at member
  split at member
  · exact .inr (mem_modifyFirst member)
  · rcases List.mem_cons.mp member with same | later
    · exact .inl same
    · exact .inr (.inr later)

theorem lookup_of_mem {entries : List Entry} (unique : (entries.map key).Nodup) {entry : Entry}
    (member : entry ∈ entries) : lookup key entries (key entry) = some entry := by
  induction entries with
  | nil => cases member
  | cons head rest ih =>
      simp only [List.map_cons, List.nodup_cons] at unique
      rcases List.mem_cons.mp member with rfl | later
      · simp [lookup]
      · have different : key head ≠ key entry := by
          intro same
          exact unique.1 (same ▸ List.mem_map_of_mem later)
        simpa [lookup, List.find?_cons, different] using ih unique.2 later

/-- Two lists without repeated keys that answer every search alike hold the same entries. -/
theorem perm_of_lookup {left right : List Entry} (uniqueLeft : (left.map key).Nodup)
    (uniqueRight : (right.map key).Nodup)
    (alike : ∀ wanted, lookup key left wanted = lookup key right wanted) : left.Perm right := by
  rw [List.perm_ext_iff_of_nodup uniqueLeft.of_map uniqueRight.of_map]
  intro entry
  constructor
  · intro member
    exact lookup_mem ((alike _).symm.trans (lookup_of_mem uniqueLeft member))
  · intro member
    exact lookup_mem ((alike _).trans (lookup_of_mem uniqueRight member))

theorem modifyFirst_append {update : Entry → Entry} {wanted : Key} {leading trailing : List Entry}
    {entry : Entry} (earlier : ∀ other ∈ leading, key other ≠ wanted) (here : key entry = wanted) :
    modifyFirst key update wanted (leading ++ entry :: trailing) =
      leading ++ update entry :: trailing := by
  induction leading with
  | nil => simp [modifyFirst, here]
  | cons head leading ih =>
      have skipped : key head ≠ wanted := earlier head List.mem_cons_self
      have rest := ih fun other member => earlier other (List.mem_cons_of_mem _ member)
      simp only [List.cons_append, modifyFirst, if_neg skipped, rest]

section Update

variable {update : Entry → Entry} (keeps : ∀ entry, key (update entry) = key entry)

include keeps

omit [DecidableEq Key] in
theorem keys_map (entries : List Entry) :
    (entries.map update).map key = entries.map key := by
  simp only [List.map_map, Function.comp_def, keeps]

theorem keys_modifyFirst (wanted : Key) (entries : List Entry) :
    (modifyFirst key update wanted entries).map key = entries.map key := by
  induction entries with
  | nil => rfl
  | cons entry rest ih =>
      unfold modifyFirst
      split
      · rw [List.map_cons, List.map_cons, keeps]
      · rw [List.map_cons, List.map_cons, ih]

theorem lookup_modifyFirst (changed wanted : Key) (entries : List Entry) :
    lookup key (modifyFirst key update changed entries) wanted =
      if changed = wanted then (lookup key entries wanted).map update
      else lookup key entries wanted := by
  induction entries with
  | nil => simp [modifyFirst, lookup]
  | cons entry rest ih =>
      unfold modifyFirst
      by_cases here : key entry = changed
      · subst here
        by_cases same : key entry = wanted <;> simp [lookup, keeps, same]
      · rw [if_neg here]
        by_cases same : key entry = wanted
        · have other : changed ≠ wanted := fun equal => here (same.trans equal.symm)
          simp [lookup, same, other]
        · simpa [lookup, List.find?_cons, same] using ih

theorem filter_modifyFirst (wanted : Key) (entries : List Entry) :
    (modifyFirst key update wanted entries).filter (fun entry => decide (key entry ≠ wanted)) =
      entries.filter fun entry => decide (key entry ≠ wanted) := by
  induction entries with
  | nil => rfl
  | cons entry rest ih =>
      unfold modifyFirst
      by_cases here : key entry = wanted
      · simp [here, keeps]
      · rw [if_neg here, List.filter_cons, List.filter_cons, ih]

theorem lookup_touch (fresh : Entry) (wanted : Key) (entries : List Entry) :
    lookup key (touch key update fresh entries) wanted =
      if key fresh = wanted then some ((lookup key entries wanted).elim fresh update)
      else lookup key entries wanted := by
  unfold touch
  by_cases known : key fresh ∈ entries.map key
  · rw [if_pos known, lookup_modifyFirst keeps]
    by_cases same : key fresh = wanted
    · subst same
      cases found : lookup key entries (key fresh) with
      | none => exact absurd known (lookup_eq_none.mp found)
      | some entry => simp
    · simp [same]
  · rw [if_neg known]
    by_cases same : key fresh = wanted
    · subst same
      rw [lookup_eq_none.mpr known]
      simp [lookup]
    · simp [lookup, same]

theorem mem_keys_touch (fresh : Entry) (wanted : Key) (entries : List Entry) :
    wanted ∈ (touch key update fresh entries).map key ↔
      wanted = key fresh ∨ wanted ∈ entries.map key := by
  unfold touch
  split
  · next known =>
      rw [keys_modifyFirst keeps]
      exact ⟨.inr, fun either => either.elim (fun same => same ▸ known) id⟩
  · rw [List.map_cons, List.mem_cons]

theorem touch_nodup (fresh : Entry) {entries : List Entry} (unique : (entries.map key).Nodup) :
    ((touch key update fresh entries).map key).Nodup := by
  unfold touch
  split
  · rwa [keys_modifyFirst keeps]
  · next unknown => exact List.nodup_cons.mpr ⟨unknown, unique⟩

theorem filter_touch (fresh : Entry) (entries : List Entry) :
    (touch key update fresh entries).filter (fun entry => decide (key entry ≠ key fresh)) =
      entries.filter fun entry => decide (key entry ≠ key fresh) := by
  unfold touch
  split
  · exact filter_modifyFirst keeps _ _
  · simp

/-- What a series of touches leaves under a key depends only on those with that key. -/
theorem lookup_foldl_touch (news entries : List Entry) (wanted : Key) :
    lookup key (news.foldl (fun entries fresh => touch key update fresh entries) entries) wanted =
      (news.filter fun fresh => decide (key fresh = wanted)).foldl
        (fun found fresh => some (found.elim fresh update)) (lookup key entries wanted) := by
  induction news generalizing entries with
  | nil => rfl
  | cons fresh news ih =>
      rw [List.foldl_cons, ih, lookup_touch keeps]
      by_cases same : key fresh = wanted
      · simp [same]
      · simp [same]

theorem foldl_touch_nodup (news : List Entry) {entries : List Entry}
    (unique : (entries.map key).Nodup) :
    ((news.foldl (fun entries fresh => touch key update fresh entries) entries).map key).Nodup := by
  induction news generalizing entries with
  | nil => exact unique
  | cons fresh news ih => exact ih (touch_nodup keeps fresh unique)

/-- Series that agree key by key leave the same entries, possibly in another order. -/
theorem foldl_touch_perm {first second entries : List Entry} (unique : (entries.map key).Nodup)
    (agree : ∀ wanted, first.filter (fun fresh => decide (key fresh = wanted)) =
      second.filter fun fresh => decide (key fresh = wanted)) :
    (first.foldl (fun entries fresh => touch key update fresh entries) entries).Perm
      (second.foldl (fun entries fresh => touch key update fresh entries) entries) := by
  refine perm_of_lookup (foldl_touch_nodup keeps first unique)
    (foldl_touch_nodup keeps second unique) fun wanted => ?_
  rw [lookup_foldl_touch keeps, lookup_foldl_touch keeps, agree wanted]

end Update

end IpcamSearch.KeyedList
