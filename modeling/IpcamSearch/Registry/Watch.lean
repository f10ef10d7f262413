import IpcamSearch.Registry.PrintableNames
import IpcamSearch.Registry.Traffic

/-! The watch timer and the `yes` or `no` that `list_ipcam` shows. Tick 1 is
`watch_ipcam_link_clear`, and every later tick is `watch_ipcam_link_test`. -/

set_option autoImplicit false

namespace IpcamSearch.Registry

open Memory IpcamList Message SearchPc KeyedList Run

inductive WatchEvent where
  | register (announcement : Announcement)
  | renew
  | tick

namespace WatchEvent

def fires : WatchEvent → Nat
  | tick => 1
  | _ => 0

def Carries (event : WatchEvent) (mac : Mac) : Prop :=
  ∃ announcement, event = register announcement ∧ announcement.mac = mac

/-- What the event does once the timer has fired so many times. -/
def onTimer (fired : Nat) : WatchEvent → RegistryEvent
  | register announcement => .register announcement
  | renew => .renew
  | tick => if fired = 0 then .watchClear else .watchTest

end WatchEvent

section

variable (allocator : Allocator IpcamNode)

/-- A step of the timer-driven program, with the number of ticks so far. -/
def timerStep (ipcamDev : Pointer) (state : Nat × IpcamHeap) (event : WatchEvent) :
    Except Fault (Nat × IpcamHeap) := do
  let heap ← step allocator ipcamDev state.2 (event.onTimer state.1)
  return (state.1 + event.fires, heap)

def timerRun (events : List WatchEvent) : Except Fault (IpcamHeap × Pointer) := do
  let (heap, ipcamDev) ← createEmptyIpcamLink allocator ∅
  let (_, heap) ← run (timerStep allocator ipcamDev) (0, heap) events
  return (heap, ipcamDev)

end

def timerSpec (state : Nat × List Camera) (event : WatchEvent) : Nat × List Camera :=
  (state.1 + event.fires, specStep state.2 (event.onTimer state.1))

theorem timerStep_spec (allocator : Allocator IpcamNode) {ipcamDev : Pointer}
    {state : Nat × IpcamHeap} {spec : Nat × List Camera} (event : WatchEvent)
    (related : state.1 = spec.1 ∧ Represents state.2 ipcamDev spec.2) :
    ∃ after, timerStep allocator ipcamDev state event = .ok after ∧
      after.1 = (timerSpec spec event).1 ∧ Represents after.2 ipcamDev (timerSpec spec event).2 := by
  obtain ⟨fired, represented⟩ := related
  obtain ⟨heap, stepped, represents⟩ :=
    step_spec allocator (event.onTimer spec.1) represented
  refine ⟨(spec.1 + event.fires, heap), ?_, rfl, represents⟩
  rw [timerStep, fired, stepped]
  rfl

theorem timerRun_spec (allocator : Allocator IpcamNode) (events : List WatchEvent) :
    ∃ heap ipcamDev, timerRun allocator events = .ok (heap, ipcamDev) ∧
      Represents heap ipcamDev (events.foldl timerSpec (0, [])).2 := by
  obtain ⟨start, ipcamDev, created, empty⟩ := createEmptyIpcamLink_spec allocator ∅
  obtain ⟨⟨fired, heap⟩, ran, _, represents⟩ := run_simulates
    (fun (state : Nat × IpcamHeap) (spec : Nat × List Camera) =>
      state.1 = spec.1 ∧ Represents state.2 ipcamDev spec.2)
    (fun _ _ event related => timerStep_spec allocator event related)
    (⟨rfl, empty⟩ : (0, start).1 = ((0, []) : Nat × List Camera).1 ∧ _) events
  refine ⟨heap, ipcamDev, ?_, represents⟩
  simp only [timerRun, created, ok_bind, ran]
  rfl

def ticks (events : List WatchEvent) : Nat := (events.map WatchEvent.fires).sum

@[simp] theorem ticks_append (earlier later : List WatchEvent) :
    ticks (earlier ++ later) = ticks earlier + ticks later := by
  simp [ticks]

@[simp] theorem ticks_singleton (event : WatchEvent) : ticks [event] = event.fires := by
  simp [ticks]

theorem fired_run (events : List WatchEvent) :
    (events.foldl timerSpec (0, [])).1 = ticks events := by
  induction events using List.reverseRecOn with
  | nil => rfl
  | append_singleton events event ih =>
      rw [List.foldl_append, ticks_append, ticks_singleton, ← ih]
      rfl

/-- A registering message with the MAC was processed after that many ticks or later. -/
def HeardSinceTick (events : List WatchEvent) (tick : Nat) (mac : Mac) : Prop :=
  Occurs (fun earlier event _ => event.Carries mac ∧ tick ≤ ticks earlier) events

theorem heard_append (events : List WatchEvent) (event : WatchEvent) (tick : Nat) (mac : Mac) :
    HeardSinceTick (events ++ [event]) tick mac ↔
      event.Carries mac ∧ tick ≤ ticks events ∨ HeardSinceTick events tick mac :=
  occurs_append

theorem heard_silent {events window : List WatchEvent} {mac : Mac}
    (silent : ∀ event ∈ window, ¬ event.Carries mac) (tick : Nat) :
    HeardSinceTick (events ++ window) tick mac ↔ HeardSinceTick events tick mac := by
  induction window using List.reverseRecOn with
  | nil => rw [List.append_nil]
  | append_singleton window event ih =>
      have last : ¬ event.Carries mac := silent event (by simp)
      rw [← List.append_assoc, heard_append, ih fun other member => silent other (by simp [member])]
      exact or_iff_right fun heard => last heard.1

theorem HeardSinceTick.earlier {events : List WatchEvent} {tick other : Nat} {mac : Mac}
    (heard : HeardSinceTick events tick mac) (before : other ≤ tick) :
    HeardSinceTick events other mac := by
  obtain ⟨earlier, event, later, split, carried, since⟩ := heard
  exact ⟨earlier, event, later, split, carried, Nat.le_trans before since⟩

theorem HeardSinceTick.tick_le {events : List WatchEvent} {tick : Nat} {mac : Mac}
    (heard : HeardSinceTick events tick mac) : tick ≤ ticks events := by
  obtain ⟨earlier, event, later, rfl, _, since⟩ := heard
  rw [ticks_append]
  omega

/-- The three values of a flag between events, and when each is found. -/
inductive FlagOf (events : List WatchEvent) (mac : Mac) : Int32 → Prop where
  | heard : HeardSinceTick events (ticks events) mac → FlagOf events mac 1
  | pending : ¬ HeardSinceTick events (ticks events) mac → 1 ≤ ticks events →
      (ticks events = 1 ∨ HeardSinceTick events (ticks events - 1) mac) → FlagOf events mac 3
  | silent : ¬ HeardSinceTick events (ticks events) mac → 2 ≤ ticks events →
      ¬ HeardSinceTick events (ticks events - 1) mac → FlagOf events mac 2

theorem FlagOf.dead_iff {events : List WatchEvent} {mac : Mac} {aliveFlag : Int32}
    (flag : FlagOf events mac aliveFlag) :
    showsAlive aliveFlag = false ↔
      2 ≤ ticks events ∧ ¬ HeardSinceTick events (ticks events - 1) mac := by
  cases flag with
  | heard heard =>
      have before := heard.earlier (Nat.sub_le _ 1)
      exact ⟨fun dead => absurd dead (by decide), fun silent => absurd before silent.2⟩
  | pending _ fired window =>
      refine ⟨fun dead => absurd dead (by decide), fun silent => ?_⟩
      rcases window with first | heard
      · omega
      · exact absurd heard silent.2
  | silent _ fired silent => exact ⟨fun _ => ⟨fired, silent⟩, fun _ => rfl⟩

section FlagSteps

variable {events : List WatchEvent} {cameras : List Camera}

theorem ticks_register (events : List WatchEvent) (announcement : Announcement) :
    ticks (events ++ [.register announcement]) = ticks events := by
  simp [WatchEvent.fires]

theorem ticks_tick (events : List WatchEvent) : ticks (events ++ [.tick]) = ticks events + 1 := by
  simp [WatchEvent.fires]

theorem heard_register_other {announcement : Announcement} {mac : Mac}
    (other : announcement.mac ≠ mac) (tick : Nat) :
    HeardSinceTick (events ++ [.register announcement]) tick mac ↔
      HeardSinceTick events tick mac := by
  refine heard_silent (fun event member => ?_) tick
  rintro ⟨_, registered, carries⟩
  rw [List.mem_singleton.mp member] at registered
  cases registered
  exact other carries

theorem heard_tick (tick : Nat) (mac : Mac) :
    HeardSinceTick (events ++ [.tick]) tick mac ↔ HeardSinceTick events tick mac := by
  refine heard_silent (fun event member => ?_) tick
  rintro ⟨_, registered, _⟩
  rw [List.mem_singleton.mp member] at registered
  cases registered

theorem unheard_tick (mac : Mac) :
    ¬ HeardSinceTick (events ++ [.tick]) (ticks (events ++ [.tick])) mac := by
  rw [heard_tick, ticks_tick]
  exact fun heard => absurd heard.tick_le (Nat.not_succ_le_self _)

theorem flag_register (unique : (cameras.map Camera.mac).Nodup)
    (flags : ∀ camera ∈ cameras, FlagOf events camera.mac camera.aliveFlag)
    (announcement : Announcement) :
    ∀ camera ∈ enrol cameras announcement,
      FlagOf (events ++ [.register announcement]) camera.mac camera.aliveFlag := by
  intro camera member
  have same := ticks_register events announcement
  have listed := lookup_of_mem (touch_nodup revive_mac announcement.camera unique) member
  rw [← announce, ← enrol, lookup_enrol] at listed
  by_cases carried : announcement.mac = camera.mac
  · rw [if_pos carried] at listed
    have alive : camera.aliveFlag = 1 := by rw [← Option.some.inj listed, enrolled_alive]
    rw [alive]
    exact .heard ((heard_append _ _ _ _).mpr
      (.inl ⟨⟨announcement, rfl, carried⟩, Nat.le_of_eq same⟩))
  · rw [if_neg carried] at listed
    have unheard := @heard_register_other events announcement camera.mac carried
    have before := flags camera (lookup_mem listed)
    generalize camera.aliveFlag = flag at before
    cases before with
    | heard heard => exact .heard (same ▸ (unheard _).mpr heard)
    | pending quiet fired window =>
        refine .pending ?_ (same ▸ fired) ?_
        · rwa [same, unheard]
        · rwa [same, unheard]
    | silent quiet fired window =>
        refine .silent ?_ (same ▸ fired) ?_
        · rwa [same, unheard]
        · rwa [same, unheard]

theorem flag_first_tick {camera : Camera} (first : ticks events = 0)
    (flag : FlagOf events camera.mac camera.aliveFlag) :
    FlagOf (events ++ [.tick]) camera.mac camera.clear.aliveFlag := by
  have next := ticks_tick events
  generalize value : camera.aliveFlag = before at flag
  cases flag with
  | heard _ =>
      rw [clear_heard value]
      exact .pending (unheard_tick _) (by omega) (.inl (by omega))
  | pending _ fired _ => omega
  | silent _ fired _ => omega

/-- This holds of the first tick as well, when every record is fresh. -/
theorem flag_later_tick {camera : Camera}
    (flag : FlagOf events camera.mac camera.aliveFlag) :
    FlagOf (events ++ [.tick]) camera.mac camera.test.clear.aliveFlag := by
  have next := ticks_tick events
  have window : ticks (events ++ [.tick]) - 1 = ticks events := by omega
  generalize value : camera.aliveFlag = before at flag
  cases flag with
  | heard heard =>
      rw [test_clear_heard value]
      refine .pending (unheard_tick _) (by omega) (.inr ?_)
      rwa [window, heard_tick]
  | pending quiet _ _ =>
      rw [test_clear_unheard (by rw [value]; decide)]
      refine .silent (unheard_tick _) (by omega) ?_
      rwa [window, heard_tick]
  | silent quiet _ _ =>
      rw [test_clear_unheard (by rw [value]; decide)]
      refine .silent (unheard_tick _) (by omega) ?_
      rwa [window, heard_tick]

theorem flag_step (unique : (cameras.map Camera.mac).Nodup)
    (flags : ∀ camera ∈ cameras, FlagOf events camera.mac camera.aliveFlag) (event : WatchEvent) :
    ∀ camera ∈ (timerSpec (ticks events, cameras) event).2,
      FlagOf (events ++ [event]) camera.mac camera.aliveFlag := by
  intro camera member
  cases event with
  | register announcement => exact flag_register unique flags announcement camera member
  | renew => exact absurd member List.not_mem_nil
  | tick =>
      by_cases first : ticks events = 0
      · simp only [timerSpec, WatchEvent.onTimer, if_pos first, specStep, List.mem_map] at member
        obtain ⟨old, inside, rfl⟩ := member
        exact flag_first_tick first (flags old inside)
      · simp only [timerSpec, WatchEvent.onTimer, if_neg first, specStep, List.map_map,
          List.mem_map] at member
        obtain ⟨old, inside, rfl⟩ := member
        exact flag_later_tick (flags old inside)

end FlagSteps

theorem watch_unique (events : List WatchEvent) :
    (((events.foldl timerSpec (0, [])).2).map Camera.mac).Nodup := by
  induction events using List.reverseRecOn with
  | nil => exact List.nodup_nil
  | append_singleton events event ih =>
      rw [List.foldl_append]
      exact specStep_nodup ih _

theorem flag_run (events : List WatchEvent) :
    ∀ camera ∈ (events.foldl timerSpec (0, [])).2, FlagOf events camera.mac camera.aliveFlag := by
  induction events using List.reverseRecOn with
  | nil => exact fun camera member => absurd member List.not_mem_nil
  | append_singleton events event ih =>
      have fired := fired_run events
      have unique := watch_unique events
      rw [List.foldl_append]
      generalize events.foldl timerSpec (0, []) = state at ih fired unique
      obtain ⟨_, cameras⟩ := state
      cases fired
      exact flag_step unique ih event

theorem listed_run {events : List WatchEvent} {state : Nat × List Camera} {mac : Mac}
    (listed : mac ∈ state.2.map Camera.mac) (kept : .renew ∉ events) :
    mac ∈ (events.foldl timerSpec state).2.map Camera.mac := by
  induction events generalizing state with
  | nil => exact listed
  | cons event events ih =>
      rw [List.mem_cons, not_or] at kept
      refine ih ((keys_specStep _ _ _).mpr (.inr ⟨?_, listed⟩)) kept.2
      cases event with
      | register announcement => simp [WatchEvent.onTimer]
      | renew => exact absurd rfl kept.1
      | tick =>
          simp only [WatchEvent.onTimer]
          split <;> simp

theorem names_tick {cameras : List Camera} (fired : Nat) (terminated : NamesTerminated cameras) :
    NamesTerminated (timerSpec (fired, cameras) .tick).2 := by
  simp only [timerSpec, WatchEvent.onTimer]
  split
  · exact terminated_map (fun _ => rfl) terminated
  · exact terminated_map (fun _ => rfl) (terminated_map (fun _ => rfl) terminated)

/-- Every message brings a string for its name. -/
def NamesSent (events : List WatchEvent) : Prop :=
  ∀ announcement, .register announcement ∈ events → Terminated announcement.msg.header.ipcamName

theorem names_run {events : List WatchEvent} (sent : NamesSent events) :
    NamesTerminated (events.foldl timerSpec (0, [])).2 := by
  induction events using List.reverseRecOn with
  | nil => exact fun camera member => absurd member List.not_mem_nil
  | append_singleton events event ih =>
      have earlier := ih fun announcement member => sent announcement (List.mem_append_left _ member)
      rw [List.foldl_append]
      cases event with
      | register announcement =>
          exact (terminated_announce _).mpr ⟨earlier, fun _ => sent announcement (by simp)⟩
      | renew => exact fun camera member => absurd member List.not_mem_nil
      | tick => exact names_tick _ earlier

section Display

variable (allocator : Allocator IpcamNode)

/-- The list has a record of the MAC, with this in the first column. -/
def Shown (events : List WatchEvent) (mac : Mac) (alive : Bool) : Prop :=
  ∃ heap ipcamDev record, timerRun allocator events = .ok (heap, ipcamDev) ∧
    recordByMac heap ipcamDev mac = .ok (some record) ∧ showsAlive record.aliveFlag = alive

theorem shown_iff {events : List WatchEvent} {mac : Mac} {alive : Bool} :
    Shown allocator events mac alive ↔
      ∃ record, lookup Camera.mac (events.foldl timerSpec (0, [])).2 mac = some record ∧
        showsAlive record.aliveFlag = alive := by
  obtain ⟨heap, ipcamDev, ran, represents⟩ := timerRun_spec allocator events
  have found := recordByMac_spec represents mac
  constructor
  · rintro ⟨_, _, record, again, listed, shows⟩
    rw [ran] at again
    cases again
    rw [found] at listed
    exact ⟨record, Except.ok.inj listed, shows⟩
  · rintro ⟨record, listed, shows⟩
    exact ⟨heap, ipcamDev, record, ran, found.trans (congrArg Except.ok listed), shows⟩

theorem shown_flag {events : List WatchEvent} {mac : Mac} {alive : Bool}
    (shown : Shown allocator events mac alive) :
    alive = false ↔ 2 ≤ ticks events ∧ ¬ HeardSinceTick events (ticks events - 1) mac := by
  obtain ⟨record, listed, rfl⟩ := (shown_iff allocator).mp shown
  have flag := (flag_run events record (lookup_mem listed)).dead_iff
  rwa [lookup_key listed] at flag

theorem shown_of_mem {events : List WatchEvent} {mac : Mac}
    (listed : mac ∈ (events.foldl timerSpec (0, [])).2.map Camera.mac) :
    ∃ alive, Shown allocator events mac alive := by
  cases found : lookup Camera.mac (events.foldl timerSpec (0, [])).2 mac with
  | none => exact absurd listed (lookup_eq_none.mp found)
  | some record => exact ⟨_, (shown_iff allocator).mpr ⟨record, found, rfl⟩⟩

/-- `list_ipcam` prints a row of the MAC with this in the first column. -/
def Lists (events : List WatchEvent) (mac : Mac) (alive : Bool) : Prop :=
  ∃ heap ipcamDev rows, timerRun allocator events = .ok (heap, ipcamDev) ∧
    listIpcam heap ipcamDev = .ok rows ∧ ∃ row ∈ rows, row.mac = mac ∧ row.alive = alive

/-- The rows are those of the records, as long as every name in the list is a string. -/
theorem lists_iff {events : List WatchEvent} {mac : Mac} {alive : Bool} :
    Lists allocator events mac alive ↔
      NamesTerminated (events.foldl timerSpec (0, [])).2 ∧ Shown allocator events mac alive := by
  obtain ⟨heap, ipcamDev, ran, represents⟩ := timerRun_spec allocator events
  rw [shown_iff]
  constructor
  · rintro ⟨_, _, rows, again, listed, row, member, rfl, rfl⟩
    cases ran.symm.trans again
    refine ⟨listIpcam_names represents listed, ?_⟩
    have shown : (row.mac, row.alive) ∈ rows.map fun row => (row.mac, row.alive) :=
      List.mem_map_of_mem member
    rw [listIpcam_alive represents listed] at shown
    obtain ⟨camera, inside, same⟩ := List.mem_map.mp shown
    obtain ⟨mac, alive⟩ := Prod.mk.inj same
    refine ⟨camera, ?_, alive⟩
    rw [← mac]
    exact lookup_of_mem (watch_unique events) inside
  · rintro ⟨terminated, record, found, rfl⟩
    obtain ⟨rows, listed⟩ := listIpcam_ok represents terminated
    have member : (record.mac, showsAlive record.aliveFlag) ∈
        rows.map fun row => (row.mac, row.alive) := by
      rw [listIpcam_alive represents listed]
      exact List.mem_map_of_mem (lookup_mem found)
    obtain ⟨row, inside, same⟩ := List.mem_map.mp member
    obtain ⟨mac, alive⟩ := Prod.mk.inj same
    exact ⟨heap, ipcamDev, rows, ran, listed, row, inside, mac.trans (lookup_key found), alive⟩

theorem lists_sent {events : List WatchEvent} (sent : NamesSent events) {mac : Mac} {alive : Bool} :
    Lists allocator events mac alive ↔ Shown allocator events mac alive :=
  (lists_iff allocator).trans (and_iff_right (names_run sent))

/-- A run with the time of each event in milliseconds, and ticks at least a cycle apart. -/
structure Paced (timed : List (Nat × WatchEvent)) (now : Nat) : Prop where
  ordered : timed.Pairwise fun before after => before.1 ≤ after.1
  past : ∀ event ∈ timed, event.1 ≤ now
  apart : (timed.filter fun event => event.2.fires == 1).IsChain fun before after =>
    before.1 + CHECK_IPCAM_CYCLE * 1000 ≤ after.1

/-- A message with the MAC came less than a cycle ago. A full cycle counts as well
when no two events share their time. -/
def HeardWithinCycle (timed : List (Nat × WatchEvent)) (now : Nat) (mac : Mac) : Prop :=
  ∃ earlier time event later, timed = earlier ++ (time, event) :: later ∧ event.Carries mac ∧
    (now < time + CHECK_IPCAM_CYCLE * 1000 ∨ now = time + CHECK_IPCAM_CYCLE * 1000 ∧
      timed.Pairwise fun before after => before.1 < after.1)

theorem ticks_timed (timed : List (Nat × WatchEvent)) :
    ticks (timed.map Prod.snd) = (timed.filter fun event => event.2.fires == 1).length := by
  induction timed with
  | nil => rfl
  | cons event timed ih =>
      obtain ⟨time, event⟩ := event
      rw [ticks, List.map_cons, List.map_cons, List.sum_cons, ← ticks, ih]
      cases event <;> simp [WatchEvent.fires, Nat.add_comm]

theorem shown_within_cycle {timed : List (Nat × WatchEvent)} {now : Nat} {mac : Mac}
    (paced : Paced timed now) (heard : HeardWithinCycle timed now mac) :
    ¬ Shown allocator (timed.map Prod.snd) mac false := by
  intro shown
  obtain ⟨earlier, time, event, later, rfl, carries, recent⟩ := heard
  obtain ⟨fired, silent⟩ := (shown_flag allocator shown).mp rfl
  -- the message came before tick k - 1, so two ticks came after it
  have before : ¬ ticks ((earlier ++ (time, event) :: later).map Prod.snd) - 1 ≤
      ticks (earlier.map Prod.snd) := fun since =>
    silent ⟨earlier.map Prod.snd, event, later.map Prod.snd, by simp, carries, since⟩
  have noTick : event.fires = 0 := by
    obtain ⟨_, rfl, _⟩ := carries
    rfl
  rw [List.map_append, ticks_append, List.map_cons, ← List.singleton_append, ticks_append,
    ticks_singleton, noTick, ticks_timed later] at before
  have apart := paced.apart
  rw [List.filter_append, List.filter_cons_of_neg (by simp [noTick])] at apart
  have chain := apart.right_of_append
  have members : ∀ entry ∈ later.filter (fun event => event.2.fires == 1), entry ∈ later :=
    fun entry member => (List.mem_filter.mp member).1
  generalize later.filter (fun event => event.2.fires == 1) = fires at before chain members
  match fires, chain with
  | [], _ => simp at before
  | [_], _ => simp at before
  | first :: second :: rest, chain =>
      have gap := (List.isChain_cons_cons.mp chain).1
      have firstLater := members first (by simp)
      have secondPast := paced.past second (by simp [members second])
      have after := (List.pairwise_cons.mp (List.pairwise_append.mp paced.ordered).2.1).1 first
        firstLater
      rcases recent with soon | ⟨full, strict⟩
      · omega
      · have strictly := (List.pairwise_cons.mp (List.pairwise_append.mp strict).2.1).1 first
          firstLater
        omega

theorem shown_after_silence {earlier window : List WatchEvent} {mac : Mac} {alive : Bool}
    (listed : Shown allocator earlier mac alive)
    (silent : ∀ event ∈ window, event ≠ .tick ∧ event ≠ .renew ∧ ¬ event.Carries mac) :
    Shown allocator (earlier ++ .tick :: (window ++ [.tick])) mac false := by
  obtain ⟨record, found, _⟩ := (shown_iff allocator).mp listed
  have kept : WatchEvent.renew ∉ .tick :: (window ++ [.tick]) := by
    simp only [List.mem_cons, List.mem_append, List.not_mem_nil, or_false, reduceCtorEq, false_or]
    exact fun member => (silent _ member).2.1 rfl
  have member : mac ∈ (earlier.foldl timerSpec (0, [])).2.map Camera.mac := by
    rw [← lookup_key found]
    exact List.mem_map_of_mem (lookup_mem found)
  have still := listed_run member kept
  rw [← List.foldl_append] at still
  obtain ⟨atEnd, shown⟩ := shown_of_mem allocator still
  have noTicks : ticks window = 0 := by
    refine List.sum_eq_zero fun fires member => ?_
    obtain ⟨event, inside, rfl⟩ := List.mem_map.mp member
    cases event with
    | tick => exact absurd rfl (silent _ inside).1
    | register _ => rfl
    | renew => rfl
  have split : earlier ++ .tick :: (window ++ [.tick]) = earlier ++ [.tick] ++ window ++ [.tick] := by
    simp
  have quiet : ¬ HeardSinceTick (earlier ++ [.tick] ++ window ++ [.tick])
      (ticks (earlier ++ [.tick])) mac := by
    rw [heard_tick, heard_silent fun event inside => (silent event inside).2.2]
    exact unheard_tick mac
  have count : ticks (earlier ++ [.tick] ++ window ++ [.tick]) = ticks earlier + 2 := by
    simp only [ticks_append, ticks_singleton, noTicks, WatchEvent.fires]
  have dead := (shown_flag allocator shown).mpr (by
    rw [split, count]
    refine ⟨Nat.le_add_left _ _, ?_⟩
    rwa [ticks_tick] at quiet)
  exact dead ▸ shown

theorem shown_stays_dead {events later : List WatchEvent} {mac : Mac} {alive : Bool}
    (dead : Shown allocator events mac false)
    (silent : ∀ event ∈ later, ¬ event.Carries mac)
    (shown : Shown allocator (events ++ later) mac alive) : alive = false := by
  obtain ⟨fired, quiet⟩ := (shown_flag allocator dead).mp rfl
  refine (shown_flag allocator shown).mpr ⟨?_, ?_⟩
  · rw [ticks_append]
    omega
  · rw [heard_silent silent]
    exact fun heard => quiet (heard.earlier (by
      rw [ticks_append]
      omega))

theorem shown_registered (events : List WatchEvent) (announcement : Announcement) :
    Shown allocator (events ++ [.register announcement]) announcement.mac true := by
  rw [shown_iff, List.foldl_append]
  have listed := lookup_enrol (events.foldl timerSpec (0, [])).2 announcement announcement.mac
  rw [if_pos rfl] at listed
  refine ⟨_, listed, ?_⟩
  rw [enrolled_alive]
  rfl

/-- What `list_ipcam` makes of the list after a run. Where a name is not a string it reads on
behind the name. -/
structure DisplayOf (events : List WatchEvent) (heap : IpcamHeap) (ipcamDev : Pointer)
    (cameras : List Camera) : Prop where
  represents : Represents heap ipcamDev cameras
  unique : (cameras.map Camera.mac).Nodup
  dead : ∀ camera ∈ cameras, showsAlive camera.aliveFlag = false ↔
    2 ≤ ticks events ∧ ¬ HeardSinceTick events (ticks events - 1) camera.mac
  rows : NamesTerminated cameras → ∃ rows, listIpcam heap ipcamDev = .ok rows ∧
    rows.map ListRow.mac = cameras.map Camera.mac ∧ ∀ row ∈ rows, row.alive = false ↔
      2 ≤ ticks events ∧ ¬ HeardSinceTick events (ticks events - 1) row.mac
  fault : ¬ NamesTerminated cameras → listIpcam heap ipcamDev = .error .outOfBounds

theorem display_of_run {events : List WatchEvent} {heap : IpcamHeap} {ipcamDev : Pointer}
    (represents : Represents heap ipcamDev (events.foldl timerSpec (0, [])).2) :
    DisplayOf events heap ipcamDev (events.foldl timerSpec (0, [])).2 where
  represents := represents
  unique := watch_unique events
  dead camera member := (flag_run events camera member).dead_iff
  rows terminated := by
    obtain ⟨rows, listed⟩ := listIpcam_ok represents terminated
    have columns := listIpcam_alive represents listed
    refine ⟨rows, listed, ?_, fun row member => ?_⟩
    · have macs := congrArg (List.map Prod.fst) columns
      rwa [List.map_map, List.map_map] at macs
    · have shown : (row.mac, row.alive) ∈ rows.map fun row => (row.mac, row.alive) :=
        List.mem_map_of_mem member
      rw [columns] at shown
      obtain ⟨camera, inside, same⟩ := List.mem_map.mp shown
      obtain ⟨mac, alive⟩ := Prod.mk.inj same
      rw [← mac, ← alive]
      exact (flag_run events camera inside).dead_iff
  fault missing := listIpcam_fault represents missing

/-- The first column of the list after every run of messages, renews and ticks, and
what it means for a device that is heard, falls silent and is heard again: for its record in
every run, and for its row where the names are strings. -/
theorem watch_display_exact :
    (∀ events, ∃ heap ipcamDev cameras, timerRun allocator events = .ok (heap, ipcamDev) ∧
      DisplayOf events heap ipcamDev cameras ∧ (NamesSent events → NamesTerminated cameras)) ∧
    (∀ timed now mac, Paced timed now → HeardWithinCycle timed now mac →
      ¬ Shown allocator (timed.map Prod.snd) mac false ∧
        ¬ Lists allocator (timed.map Prod.snd) mac false) ∧
    (∀ earlier window mac alive, Shown allocator earlier mac alive →
      (∀ event ∈ window, event ≠ .tick ∧ event ≠ .renew ∧ ¬ event.Carries mac) →
      Shown allocator (earlier ++ .tick :: (window ++ [.tick])) mac false ∧
        (NamesSent (earlier ++ .tick :: (window ++ [.tick])) →
          Lists allocator (earlier ++ .tick :: (window ++ [.tick])) mac false)) ∧
    (∀ events later mac alive, Shown allocator events mac false →
      (∀ event ∈ later, ¬ event.Carries mac) →
      (Shown allocator (events ++ later) mac alive → alive = false) ∧
        (Lists allocator (events ++ later) mac alive → alive = false)) ∧
    ∀ events announcement,
      Shown allocator (events ++ [.register announcement]) announcement.mac true ∧
        (NamesSent (events ++ [.register announcement]) →
          Lists allocator (events ++ [.register announcement]) announcement.mac true) := by
  refine ⟨fun events => ?_, fun _ _ _ paced heard => ?_, fun _ _ _ _ listed silent => ?_,
    fun _ _ _ _ dead silent => ?_, fun events announcement => ?_⟩
  · obtain ⟨heap, ipcamDev, ran, represents⟩ := timerRun_spec allocator events
    exact ⟨heap, ipcamDev, _, ran, display_of_run represents, names_run⟩
  · have unseen := shown_within_cycle allocator paced heard
    exact ⟨unseen, fun printed => unseen ((lists_iff allocator).mp printed).2⟩
  · have shown := shown_after_silence allocator listed silent
    exact ⟨shown, fun sent => (lists_sent allocator sent).mpr shown⟩
  · exact ⟨shown_stays_dead allocator dead silent, fun printed =>
      shown_stays_dead allocator dead silent ((lists_iff allocator).mp printed).2⟩
  · have shown := shown_registered allocator events announcement
    exact ⟨shown, fun sent => (lists_sent allocator sent).mpr shown⟩

end Display

end IpcamSearch.Registry
