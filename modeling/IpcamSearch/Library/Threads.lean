import IpcamSearch.Library.HeapProgram
import IpcamSearch.Library.Run
import Mathlib.Logic.Function.Basic

/-! Threads that share a heap and touch it inside one lock. Between any two accesses another
thread can run, and still each region is as if it ran alone. -/

set_option autoImplicit false

namespace IpcamSearch.Threads

open Memory HeapProgram Run

variable {Thread Region Input Cell Value : Type}

/-- `todo` are the regions that a thread still comes to, and `inside` is the thread that has the
lock with what is left of its region. `taken` and `entered` only record the inputs with their
regions and in which order the lock was taken. -/
structure Machine (Thread Region Input Cell Value : Type) where
  heap : Heap Cell
  todo : Thread → List Region
  inside : Option (Thread × Prog Cell Value)
  values : List Value
  taken : List (Input × List Region)
  entered : List (Thread × Region)

inductive ThreadEvent (Thread Input : Type) where
  | feed (input : Input)
  | enter (thread : Thread)
  | act (thread : Thread)

/-- The programs of the threads: the regions that each one comes to by itself, which of them takes
an input, the regions that it then comes to, and the accesses of a region. What a thread does to
find its regions may go wrong. -/
structure Programs (Thread Region Input Cell Value : Type) where
  first : Thread → List Region
  takes : Input → Thread
  regions : Input → Except Fault (List Region)
  code : Region → Prog Cell Value

section

variable (allocator : Allocator Cell) (programs : Programs Thread Region Input Cell Value)

def begin (heap : Heap Cell) : Machine Thread Region Input Cell Value where
  heap := heap
  todo := programs.first
  inside := none
  values := []
  taken := []
  entered := []

/-- The effect of a region that runs alone, and its value. -/
def serialStep (state : Heap Cell × List Value) (region : Region) :
    Except Fault (Heap Cell × List Value) :=
  ((programs.code region).exec allocator state.1).map fun result => (result.2, state.2 ++ [result.1])

variable [DecidableEq Thread]

/-- A thread has done its work and waits for more. -/
def Machine.waits (machine : Machine Thread Region Input Cell Value) (thread : Thread) : Bool :=
  (machine.todo thread).isEmpty && decide (machine.inside.map Prod.fst ≠ some thread)

/-- What a thread cannot do at the moment leaves the machine as it is. -/
def threadStep (machine : Machine Thread Region Input Cell Value) :
    ThreadEvent Thread Input → Except Fault (Machine Thread Region Input Cell Value)
  | .feed input =>
      let thread := programs.takes input
      if machine.waits thread then do
        let regions ← programs.regions input
        return { machine with
          todo := Function.update machine.todo thread regions
          taken := machine.taken ++ [(input, regions)] }
      else .ok machine
  | .enter thread =>
      match machine.inside, machine.todo thread with
      | none, region :: rest =>
          .ok { machine with
            todo := Function.update machine.todo thread rest
            inside := some (thread, programs.code region)
            entered := machine.entered ++ [(thread, region)] }
      | _, _ => .ok machine
  | .act thread =>
      match machine.inside with
      | none => .ok machine
      | some (owner, prog) =>
          if owner = thread then do
            match ← prog.access allocator machine.heap with
            | .inl value => return { machine with inside := none, values := machine.values ++ [value] }
            | .inr (heap, rest) => return { machine with heap := heap, inside := some (owner, rest) }
          else .ok machine

/-- What the region that is entered still comes to. -/
def Machine.settled (machine : Machine Thread Region Input Cell Value) :
    Except Fault (Heap Cell × List Value) :=
  match machine.inside with
  | none => .ok (machine.heap, machine.values)
  | some (_, prog) =>
      (prog.exec allocator machine.heap).map fun result => (result.2, machine.values ++ [result.1])

/-- The regions of the inputs that a thread took, after those that it comes to by itself. -/
def Machine.given (machine : Machine Thread Region Input Cell Value) (thread : Thread) :
    List Region :=
  programs.first thread ++
    (machine.taken.filter fun entry => programs.takes entry.1 = thread).flatMap Prod.snd

/-- The regions in the order of the lock, run one after another, come to the same, and each thread
has entered its regions in their order. -/
structure Serial (heap : Heap Cell) (machine : Machine Thread Region Input Cell Value) : Prop where
  alone : run (serialStep allocator programs) (heap, []) (machine.entered.map Prod.snd) =
    machine.settled allocator
  ordered : ∀ thread, (machine.entered.filter fun entry => entry.1 = thread).map Prod.snd ++
    machine.todo thread = machine.given programs thread
  told : ∀ entry ∈ machine.taken, programs.regions entry.1 = .ok entry.2

variable {allocator programs} {heap : Heap Cell} {machine after : Machine Thread Region Input Cell Value}

theorem serial_begin : Serial allocator programs heap (begin programs heap) where
  alone := rfl
  ordered _ := (List.append_nil _).symm
  told _ member := absurd member List.not_mem_nil

theorem Serial.feed (serial : Serial allocator programs heap machine) {input : Input}
    (done : machine.todo (programs.takes input) = []) {regions : List Region}
    (found : programs.regions input = .ok regions) :
    Serial allocator programs heap { machine with
      todo := Function.update machine.todo (programs.takes input) regions
      taken := machine.taken ++ [(input, regions)] } where
  alone := serial.alone
  ordered other := by
    have before := serial.ordered other
    simp only [Machine.given, List.filter_append, List.flatMap_append, ← List.append_assoc]
    rw [Machine.given] at before
    rw [← before]
    by_cases same : other = programs.takes input
    · subst same
      simp [done]
    · simp [Function.update_of_ne same, Ne.symm same]
  told entry member := by
    rcases List.mem_append.mp member with earlier | here
    · exact serial.told entry earlier
    · rw [List.mem_singleton.mp here]
      exact found

theorem Serial.enter (serial : Serial allocator programs heap machine) {thread : Thread} {region : Region}
    {rest : List Region} (free : machine.inside = none) (next : machine.todo thread = region :: rest) :
    Serial allocator programs heap { machine with
      todo := Function.update machine.todo thread rest
      inside := some (thread, programs.code region)
      entered := machine.entered ++ [(thread, region)] } where
  alone := by
    have alone := serial.alone
    rw [Machine.settled, free] at alone
    rw [List.map_append, List.map_singleton, run_append_event, alone]
    rfl
  ordered other := by
    have before := serial.ordered other
    rw [List.filter_append, List.map_append]
    by_cases same : other = thread
    · subst same
      rw [next] at before
      simpa [Machine.given] using before
    · simpa [Machine.given, Ne.symm same, Function.update_of_ne same] using before
  told := serial.told

theorem Serial.act (serial : Serial allocator programs heap machine) {thread : Thread}
    {prog : Prog Cell Value} (inside : machine.inside = some (thread, prog)) :
    (∃ after, threadStep allocator programs machine (.act thread) = .ok after ∧
        Serial allocator programs heap after) ∨
      ∃ fault, threadStep allocator programs machine (.act thread) = .error fault ∧
        run (serialStep allocator programs) (heap, []) (machine.entered.map Prod.snd) = .error fault := by
  have alone := serial.alone
  simp only [Machine.settled, inside] at alone
  rw [Prog.exec_access] at alone
  simp only [threadStep, inside, if_true]
  cases accessed : prog.access allocator machine.heap with
  | error fault =>
      rw [accessed] at alone
      exact .inr ⟨fault, rfl, alone⟩
  | ok next =>
      rw [accessed] at alone
      cases next with
      | inl value => exact .inl ⟨_, rfl, alone, serial.ordered, serial.told⟩
      | inr rest => exact .inl ⟨_, rfl, alone, serial.ordered, serial.told⟩

omit [DecidableEq Thread] in
theorem settled_values {final : Heap Cell × List Value}
    (settled : machine.settled allocator = .ok final) {value : Value} (member : value ∈ machine.values) :
    value ∈ final.2 := by
  rw [Machine.settled] at settled
  split at settled
  · cases settled
    exact member
  · obtain ⟨result, _, rfl⟩ := of_map_ok settled
    exact List.mem_append_left _ member

/-- The step goes wrong outside of the lock. -/
def Outside (programs : Programs Thread Region Input Cell Value) (event : ThreadEvent Thread Input)
    (fault : Fault) : Prop :=
  ∃ input, event = .feed input ∧ programs.regions input = .error fault

/-- Inside of it a step goes wrong only where the regions alone do. -/
theorem Serial.step (serial : Serial allocator programs heap machine)
    (event : ThreadEvent Thread Input) :
    (∃ after, threadStep allocator programs machine event = .ok after ∧
        Serial allocator programs heap after) ∨
      ∃ fault, threadStep allocator programs machine event = .error fault ∧
        (Outside programs event fault ∨
          run (serialStep allocator programs) (heap, []) (machine.entered.map Prod.snd) =
            .error fault) := by
  cases event with
  | feed input =>
      rw [threadStep]
      cases waits : machine.waits (programs.takes input) with
      | true =>
          rw [Machine.waits, Bool.and_eq_true, List.isEmpty_iff] at waits
          cases found : programs.regions input with
          | ok regions => exact .inl ⟨_, by simp only [if_true]; rfl, serial.feed waits.1 found⟩
          | error fault => exact .inr ⟨fault, by simp only [if_true]; rfl, .inl ⟨input, rfl, found⟩⟩
      | false => exact .inl ⟨machine, by simp, serial⟩
  | enter thread =>
      left
      rw [threadStep]
      split
      · next region rest free next => exact ⟨_, rfl, serial.enter free next⟩
      · exact ⟨machine, rfl, serial⟩
  | act thread =>
      cases inside : machine.inside with
      | none => exact .inl ⟨machine, by simp only [threadStep, inside], serial⟩
      | some owned =>
          obtain ⟨owner, prog⟩ := owned
          by_cases own : owner = thread
          · subst own
            rcases serial.act inside with done | ⟨fault, failed, alone⟩
            · exact .inl done
            · exact .inr ⟨fault, failed, .inr alone⟩
          · exact .inl ⟨machine, by simp only [threadStep, inside, if_neg own], serial⟩

theorem Serial.next (serial : Serial allocator programs heap machine)
    {event : ThreadEvent Thread Input} (stepped : threadStep allocator programs machine event = .ok after) :
    Serial allocator programs heap after := by
  rcases serial.step event with ⟨other, same, keeps⟩ | ⟨fault, failed, _⟩
  · cases same.symm.trans stepped
    exact keeps
  · rw [failed] at stepped
    cases stepped

/-- In any interleaving the threads come to what the entered regions come to alone. -/
theorem serial_run {events : List (ThreadEvent Thread Input)}
    {final : Machine Thread Region Input Cell Value}
    (ran : run (threadStep allocator programs) (begin programs heap) events = .ok final) :
    Serial allocator programs heap final :=
  run_keeps serial_begin (fun _ _ _ serial stepped => serial.next stepped) ran

/-- A fault in the lock is one that the regions run into alone. -/
theorem serial_fault {events : List (ThreadEvent Thread Input)} {fault : Fault}
    (failed : run (threadStep allocator programs) (begin programs heap) events = .error fault) :
    ∃ earlier event later machine, events = earlier ++ event :: later ∧
      run (threadStep allocator programs) (begin programs heap) earlier = .ok machine ∧
      (Outside programs event fault ∨
        run (serialStep allocator programs) (heap, []) (machine.entered.map Prod.snd) =
          .error fault) := by
  obtain ⟨earlier, event, later, machine, split, before, stepped⟩ := run_fails failed
  refine ⟨earlier, event, later, machine, split, before, ?_⟩
  rcases (serial_run before).step event with ⟨after, same, _⟩ | ⟨other, same, found⟩
  · rw [same] at stepped
    cases stepped
  · cases same.symm.trans stepped
    exact found

theorem taken_fed {events : List (ThreadEvent Thread Input)}
    {final : Machine Thread Region Input Cell Value}
    (ran : run (threadStep allocator programs) (begin programs heap) events = .ok final) :
    ∀ entry ∈ final.taken, .feed entry.1 ∈ events := by
  induction events using List.reverseRecOn generalizing final with
  | nil =>
      cases ran
      exact fun _ member => absurd member List.not_mem_nil
  | append_singleton events event ih =>
      obtain ⟨machine, before, stepped⟩ := run_last ran
      have earlier (entry) (member : entry ∈ machine.taken) :
          ThreadEvent.feed entry.1 ∈ events ++ [event] := List.mem_append_left _ (ih before entry member)
      have kept (same : final.taken = machine.taken) :
          ∀ entry ∈ final.taken, ThreadEvent.feed entry.1 ∈ events ++ [event] := same ▸ earlier
      cases event with
      | feed input =>
          rw [threadStep] at stepped
          cases waits : machine.waits (programs.takes input) with
          | true =>
              simp only [waits, if_true] at stepped
              obtain ⟨regions, _, same⟩ := of_bind_ok stepped
              cases same
              intro entry member
              rcases List.mem_append.mp member with old | new
              · exact earlier entry old
              · simp [List.mem_singleton.mp new]
          | false =>
              simp only [waits] at stepped
              cases stepped
              exact earlier
      | enter thread =>
          rw [threadStep] at stepped
          split at stepped <;> cases stepped <;> exact kept rfl
      | act thread =>
          refine kept ?_
          cases inside : machine.inside with
          | none =>
              simp only [threadStep, inside] at stepped
              cases stepped
              rfl
          | some owned =>
              simp only [threadStep, inside] at stepped
              split at stepped
              · obtain ⟨result, _, same⟩ := of_bind_ok stepped
                cases result <;> cases same <;> rfl
              · cases stepped
                rfl

/-- What holds of the regions of every input holds of every region that is entered. -/
theorem entered_fed {events : List (ThreadEvent Thread Input)}
    {final : Machine Thread Region Input Cell Value}
    (ran : run (threadStep allocator programs) (begin programs heap) events = .ok final)
    {property : Region → Prop} (first : ∀ thread, ∀ region ∈ programs.first thread, property region)
    (fed : ∀ input regions, .feed input ∈ events → programs.regions input = .ok regions →
      ∀ region ∈ regions, property region) :
    ∀ region ∈ final.entered.map Prod.snd, property region := by
  intro region member
  obtain ⟨entry, entered, rfl⟩ := List.mem_map.mp member
  have serial := serial_run ran
  have own : entry.2 ∈ (final.entered.filter fun other => other.1 = entry.1).map Prod.snd :=
    List.mem_map_of_mem (List.mem_filter.mpr ⟨entered, decide_eq_true rfl⟩)
  have given : entry.2 ∈ final.given programs entry.1 := by
    rw [← serial.ordered]
    exact List.mem_append_left _ own
  rcases List.mem_append.mp given with initial | later
  · exact first _ _ initial
  · obtain ⟨taken, inside, among⟩ := List.mem_flatMap.mp later
    have member := (List.mem_filter.mp inside).1
    exact fed _ _ (taken_fed ran taken member) (serial.told taken member) _ among

end

end IpcamSearch.Threads
