import Mathlib.Data.List.Induction

/-! Runs of a step function that can fail, and the rule by which a run of it
follows a run of a step function that cannot. -/

set_option autoImplicit false

namespace IpcamSearch.Run

variable {State Spec Event Error : Type}

/-- The state after the events, or the first failure. -/
def run (step : State → Event → Except Error State) (start : State) (events : List Event) :
    Except Error State := events.foldlM step start

theorem run_cons (step : State → Event → Except Error State) (start : State) (event : Event)
    (events : List Event) :
    run step start (event :: events) = (step start event >>= fun state => run step state events) :=
  rfl

theorem run_single (step : State → Event → Except Error State) (start : State) (event : Event) :
    run step start [event] = step start event := by
  rw [run, List.foldlM_cons]
  exact bind_pure _

/-- A step that keeps a relation to the specification never fails in a run and
keeps it throughout. -/
theorem run_simulates {step : State → Event → Except Error State}
    {specStep : Spec → Event → Spec} (related : State → Spec → Prop)
    (kept : ∀ state spec event, related state spec →
      ∃ after, step state event = .ok after ∧ related after (specStep spec event))
    {start : State} {spec : Spec} (initially : related start spec) (events : List Event) :
    ∃ after, run step start events = .ok after ∧ related after (events.foldl specStep spec) := by
  induction events generalizing start spec with
  | nil => exact ⟨start, rfl, initially⟩
  | cons event events ih =>
      obtain ⟨middle, stepped, holds⟩ := kept start spec event initially
      obtain ⟨after, ran, matched⟩ := ih holds
      refine ⟨after, ?_, matched⟩
      simp only [run, List.foldlM_cons, stepped, bind, Except.bind]
      exact ran

theorem run_append_event (step : State → Event → Except Error State) (start : State)
    (events : List Event) (event : Event) :
    run step start (events ++ [event]) =
      (run step start events >>= fun state => step state event) := by
  simp only [run, List.foldlM_append, List.foldlM_cons, List.foldlM_nil, bind_pure]

theorem run_last {step : State → Event → Except Error State} {start final : State}
    {events : List Event} {event : Event} (ran : run step start (events ++ [event]) = .ok final) :
    ∃ state, run step start events = .ok state ∧ step state event = .ok final := by
  rw [run_append_event] at ran
  cases before : run step start events with
  | error fault =>
      rw [before] at ran
      cases ran
  | ok state =>
      rw [before] at ran
      exact ⟨state, rfl, ran⟩

section Throughout

variable (step : State → Event → Except Error State) (start : State)

/-- The property holds of every state on the way through the events. -/
def Throughout (property : State → Prop) (events : List Event) : Prop :=
  ∀ earlier later state, events = earlier ++ later → run step start earlier = .ok state →
    property state

/-- Every event is allowed in the state that it meets. -/
def EachAllowed (allowed : State → Event → Prop) (events : List Event) : Prop :=
  ∀ earlier event later state, events = earlier ++ event :: later →
    run step start earlier = .ok state → allowed state event

variable {step start}

theorem run_keeps {property : State → Prop} (initially : property start)
    (kept : ∀ state event after, property state → step state event = .ok after → property after)
    {events : List Event} {final : State} (ran : run step start events = .ok final) :
    property final := by
  induction events using List.reverseRecOn generalizing final with
  | nil =>
      cases ran
      exact initially
  | append_singleton events event ih =>
      obtain ⟨state, before, stepped⟩ := run_last ran
      exact kept state event final (ih before) stepped

theorem run_append (step : State → Event → Except Error State) (start : State)
    (earlier later : List Event) :
    run step start (earlier ++ later) =
      (run step start earlier >>= fun state => run step state later) := List.foldlM_append

/-- A run that fails does so at one of its events. -/
theorem run_fails {events : List Event} {fault : Error}
    (failed : run step start events = .error fault) :
    ∃ earlier event later state, events = earlier ++ event :: later ∧
      run step start earlier = .ok state ∧ step state event = .error fault := by
  induction events using List.reverseRecOn with
  | nil => cases failed
  | append_singleton events event ih =>
      cases before : run step start events with
      | error early =>
          rw [run_append_event, before] at failed
          cases failed
          obtain ⟨earlier, other, later, state, split, ran, stepped⟩ := ih before
          exact ⟨earlier, other, later ++ [event], state, by simp [split], ran, stepped⟩
      | ok state =>
          rw [run_append_event, before] at failed
          exact ⟨events, event, [], state, rfl, before, failed⟩

theorem run_first {event : Event} {events : List Event} {final : State}
    (ran : run step start (event :: events) = .ok final) :
    ∃ after, step start event = .ok after ∧ run step after events = .ok final := by
  rw [run_cons] at ran
  cases stepped : step start event with
  | error fault =>
      rw [stepped] at ran
      cases ran
  | ok after =>
      rw [stepped] at ran
      exact ⟨after, rfl, ran⟩

/-- Where exactly the allowed events go through, a run goes through exactly if each of its
events is allowed. -/
theorem goes_through_iff {sound : State → Prop} {allowed : State → Event → Prop}
    (soundStart : sound start)
    (soundStep : ∀ state event after, sound state → step state event = .ok after → sound after)
    (exactly : ∀ state event, sound state →
      (allowed state event ↔ ∃ after, step state event = .ok after))
    (events : List Event) :
    (∃ final, run step start events = .ok final) ↔ EachAllowed step start allowed events := by
  constructor
  · rintro ⟨final, ran⟩ earlier event later state split before
    refine (exactly state event (run_keeps soundStart soundStep before)).mpr ?_
    rw [split, run_append, before] at ran
    obtain ⟨after, stepped, _⟩ := run_first ran
    exact ⟨after, stepped⟩
  · intro each
    induction events using List.reverseRecOn with
    | nil => exact ⟨start, rfl⟩
    | append_singleton events event ih =>
        obtain ⟨state, before⟩ := ih fun earlier other later state split =>
          each earlier other (later ++ [event]) state (by simp [split])
        obtain ⟨after, stepped⟩ := (exactly state event (run_keeps soundStart soundStep before)).mp
          (each events event [] state rfl before)
        refine ⟨after, ?_⟩
        rw [run_append_event, before]
        exact stepped

/-- Where a step goes through and keeps the property exactly if its event is allowed, a run goes
through with the property throughout exactly if each of its events is allowed. -/
theorem keeps_through_iff {property : State → Prop} {allowed : State → Event → Prop}
    (initially : property start) (exactly : ∀ state event, property state →
      (allowed state event ↔ ∃ after, step state event = .ok after ∧ property after))
    (events : List Event) :
    ((∃ final, run step start events = .ok final) ∧ Throughout step start property events) ↔
      EachAllowed step start allowed events := by
  constructor
  · rintro ⟨⟨final, ran⟩, throughout⟩ earlier event later state split before
    have reached := throughout earlier (event :: later) state split before
    refine (exactly state event reached).mpr ?_
    rw [split, run_append, before] at ran
    obtain ⟨after, stepped, _⟩ := run_first ran
    refine ⟨after, stepped, throughout (earlier ++ [event]) later after (by simp [split]) ?_⟩
    rw [run_append_event, before]
    exact stepped
  · intro each
    induction events using List.reverseRecOn with
    | nil =>
        refine ⟨⟨start, rfl⟩, fun earlier later state split ran => ?_⟩
        cases (List.append_eq_nil_iff.mp split.symm).1
        cases ran
        exact initially
    | append_singleton events event ih =>
        obtain ⟨⟨state, before⟩, throughout⟩ := ih fun earlier other later state split =>
          each earlier other (later ++ [event]) state (by simp [split])
        have reached := throughout events [] state (List.append_nil _).symm before
        obtain ⟨after, stepped, holds⟩ :=
          (exactly state event reached).mp (each events event [] state rfl before)
        have ran : run step start (events ++ [event]) = .ok after := by
          rw [run_append_event, before]
          exact stepped
        refine ⟨⟨after, ran⟩, fun earlier later other split arrived => ?_⟩
        cases later using List.reverseRecOn with
        | nil =>
            rw [List.append_nil] at split
            cases split
            cases ran.symm.trans arrived
            exact holds
        | append_singleton later last =>
            rw [← List.append_assoc] at split
            exact throughout earlier later other (List.append_inj' split rfl).1 arrived

end Throughout

/-- Some event of a history has the property, seen with what came before and after it. -/
def Occurs (property : List Event → Event → List Event → Prop) (events : List Event) : Prop :=
  ∃ earlier event later, events = earlier ++ event :: later ∧ property earlier event later

theorem not_occurs_nil (property : List Event → Event → List Event → Prop) :
    ¬ Occurs property [] := by
  rintro ⟨earlier, event, later, split, _⟩
  simp at split

theorem occurs_append {property : List Event → Event → List Event → Prop} {events : List Event}
    {last : Event} :
    Occurs property (events ++ [last]) ↔ property events last [] ∨
      Occurs (fun earlier event later => property earlier event (later ++ [last])) events := by
  constructor
  · rintro ⟨earlier, event, later, split, holds⟩
    cases later using List.reverseRecOn with
    | nil =>
        obtain ⟨rfl, same⟩ := List.append_inj' split rfl
        cases same
        exact .inl holds
    | append_singleton later final =>
        rw [← List.cons_append, ← List.append_assoc] at split
        obtain ⟨before, same⟩ := List.append_inj' split rfl
        cases same
        exact .inr ⟨earlier, event, later, before, holds⟩
  · rintro (holds | ⟨earlier, event, later, rfl, holds⟩)
    · exact ⟨events, last, [], rfl, holds⟩
    · exact ⟨earlier, event, later ++ [last], by simp, holds⟩

/-- An event of a history adds something, and no event behind it removes it. -/
def Since (adds removes : Event → Prop) (events : List Event) : Prop :=
  Occurs (fun _ event later => adds event ∧ ∀ other ∈ later, ¬ removes other) events

theorem since_append {adds removes : Event → Prop} {events : List Event} {last : Event} :
    Since adds removes (events ++ [last]) ↔
      adds last ∨ ¬ removes last ∧ Since adds removes events := by
  have none (event : Event) : (adds event ∧ ∀ other ∈ ([] : List Event), ¬ removes other) ↔
      adds event := and_iff_left fun _ member => absurd member List.not_mem_nil
  refine occurs_append.trans (or_congr (none last) ?_)
  constructor
  · rintro ⟨earlier, event, later, split, added, kept⟩
    refine ⟨kept last (by simp), earlier, event, later, split, added, ?_⟩
    exact fun other member => kept other (List.mem_append_left _ member)
  · rintro ⟨stays, earlier, event, later, split, added, kept⟩
    refine ⟨earlier, event, later, split, added, ?_⟩
    intro other member
    rcases List.mem_append.mp member with before | here
    · exact kept other before
    · rwa [List.mem_singleton.mp here]

/-- Every event of a history has the property, seen with what came before it. -/
def Always (property : List Event → Event → Prop) (events : List Event) : Prop :=
  ∀ earlier event later, events = earlier ++ event :: later → property earlier event

theorem always_nil (property : List Event → Event → Prop) : Always property [] := by
  intro earlier event later split
  simp at split

theorem Always.append {property : List Event → Event → Prop} {events : List Event} {last : Event}
    (always : Always property events) (holds : property events last) :
    Always property (events ++ [last]) := by
  intro earlier event later split
  cases later using List.reverseRecOn with
  | nil =>
      obtain ⟨rfl, same⟩ := List.append_inj' split rfl
      cases same
      exact holds
  | append_singleton later final =>
      rw [← List.cons_append, ← List.append_assoc] at split
      obtain ⟨before, _⟩ := List.append_inj' split rfl
      exact always earlier event later before

theorem always_append {property : List Event → Event → Prop} {events : List Event} {last : Event} :
    Always property (events ++ [last]) ↔ Always property events ∧ property events last := by
  refine ⟨fun always => ⟨?_, always events last [] rfl⟩, fun both => both.1.append both.2⟩
  intro earlier event later split
  exact always earlier event (later ++ [last]) (by simp [split])

/-- Where a step goes through exactly if the specification allows its event, a run goes through
exactly if each of its events is allowed. -/
theorem run_simulates_exact {step : State → Event → Except Error State}
    {specStep : Spec → Event → Spec} (related : State → Spec → Prop) (allowed : Spec → Event → Prop)
    (kept : ∀ state spec event, related state spec → allowed spec event →
      ∃ after, step state event = .ok after ∧ related after (specStep spec event))
    (refused : ∀ state spec event, related state spec → ¬ allowed spec event →
      ∃ fault, step state event = .error fault)
    {start : State} {spec : Spec} (initially : related start spec) (events : List Event) :
    ((∃ final, run step start events = .ok final) ↔
        Always (fun earlier event => allowed (earlier.foldl specStep spec) event) events) ∧
      ∀ final, run step start events = .ok final → related final (events.foldl specStep spec) := by
  induction events using List.reverseRecOn with
  | nil =>
      refine ⟨iff_of_true ⟨start, rfl⟩ (always_nil _), fun final ran => ?_⟩
      cases ran
      exact initially
  | append_singleton events event ih =>
      obtain ⟨exactly, matched⟩ := ih
      rw [always_append, List.foldl_append, ← exactly]
      cases before : run step start events with
      | error fault =>
          simp [run_append_event, before, bind, Except.bind]
      | ok state =>
          have stepped : run step start (events ++ [event]) = step state event := by
            rw [run_append_event, before]
            rfl
          rw [stepped]
          by_cases goes : allowed (events.foldl specStep spec) event
          · obtain ⟨after, through, holds⟩ := kept _ _ event (matched state before) goes
            rw [through]
            refine ⟨iff_of_true ⟨after, rfl⟩ ⟨⟨state, rfl⟩, goes⟩, fun final ran => ?_⟩
            cases ran
            exact holds
          · obtain ⟨fault, failed⟩ := refused _ _ event (matched state before) goes
            rw [failed]
            refine ⟨iff_of_false ?_ fun both => goes both.2, fun final ran => by cases ran⟩
            rintro ⟨final, ran⟩
            cases ran

/-- The same where what is allowed depends on the event only. -/
theorem run_simulates_where {step : State → Event → Except Error State}
    {specStep : Spec → Event → Spec} (related : State → Spec → Prop) (allowed : Event → Prop)
    (kept : ∀ state spec event, related state spec → allowed event →
      ∃ after, step state event = .ok after ∧ related after (specStep spec event))
    (refused : ∀ state spec event, related state spec → ¬ allowed event →
      ∃ fault, step state event = .error fault)
    {start : State} {spec : Spec} (initially : related start spec) (events : List Event) :
    ((∃ final, run step start events = .ok final) ↔ ∀ event ∈ events, allowed event) ∧
      ∀ final, run step start events = .ok final → related final (events.foldl specStep spec) := by
  obtain ⟨exactly, matched⟩ := run_simulates_exact related (fun _ => allowed) kept refused initially
    events
  refine ⟨exactly.trans ⟨fun always event member => ?_, fun all _ event _ split => ?_⟩, matched⟩
  · obtain ⟨earlier, later, split⟩ := List.append_of_mem member
    exact always earlier event later split
  · exact all event (by simp [split])

end IpcamSearch.Run
