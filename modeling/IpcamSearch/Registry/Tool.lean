import IpcamSearch.Registry.PrintableNames
import IpcamSearch.Registry.Watch
import IpcamSearch.WatchTimer

/-! What `ipcam_search_pcv2.c` is for, without its heap, its buffers and its event loop: a
register of cameras that reacts to one occasion after another and prints. -/

set_option autoImplicit false

namespace IpcamSearch.Registry

open Memory IpcamList Message SearchPc KeyedList Run Console SearchPcLoop WatchTimer

/-- What the tool reacts to. A line without a command is `blank`. -/
inductive Occasion where
  | message (announcement : Announcement)
  | command (cmdString : List UInt8)
  | blank
  | expiry (timer : Timer)

namespace Occasion

def message? : Occasion → Option Announcement
  | message announcement => some announcement
  | _ => none

def command? : Occasion → Option (List UInt8)
  | command cmdString => some cmdString
  | _ => none

def expiry? : Occasion → Option Timer
  | expiry timer => some timer
  | _ => none

/-- What the occasion means for the register. -/
def watchEvent? : Occasion → Option WatchEvent
  | message announcement => some (.register announcement)
  | command cmdString => if Command.ofString cmdString = .renew then some .renew else none
  | blank => none
  | expiry timer => if watches timer.2 then some .tick else none

end Occasion

def rowOf (camera : Camera) : ListRow where
  alive := showsAlive camera.aliveFlag
  ipaddr := camera.nodeInfo.ipaddr
  ipcamName := camera.nodeInfo.ipcamName.toList.takeWhile fun byte => byte ≠ 0
  mac := camera.nodeInfo.mac
  startupTime := camera.nodeInfo.startupTime

/-- `watched` is the number of ticks of the watch timer and the cameras. -/
structure Tool where
  watched : Nat × List Camera
  outputs : List Output
  exited : Bool

namespace Tool

def start : Tool where
  watched := (0, [])
  outputs := [.prompt]
  exited := false

/-- What an occasion prints over these cameras. -/
def prints (pid : UInt32) (cameras : List Camera) : Occasion → List Output
  | .message _ => []
  | .command cmdString =>
      match Command.ofString cmdString with
      | .renew | .search => [.broadcast (searchIpcam pid)]
      | .list => [.table (cameras.map rowOf), .prompt]
      | .quit => [.prompt]
      | .help => [.help, .prompt]
  | .blank => [.prompt]
  | .expiry timer => if watches timer.2 then [] else [.table (cameras.map rowOf), .prompt]

def react (pid : UInt32) (tool : Tool) (occasion : Occasion) : Tool where
  watched := occasion.watchEvent?.elim tool.watched (timerSpec tool.watched)
  outputs := tool.outputs ++ prints pid tool.watched.2 occasion
  exited := tool.exited ||
    occasion.command?.elim false fun cmdString => Command.ofString cmdString = .quit

def after (pid : UInt32) (history : List Occasion) : Tool := history.foldl (react pid) start

end Tool

section History

variable (pid : UInt32) (history : List Occasion)

@[simp] theorem Tool.after_nil : Tool.after pid [] = Tool.start := rfl

@[simp] theorem Tool.after_append (occasion : Occasion) :
    Tool.after pid (history ++ [occasion]) = (Tool.after pid history).react pid occasion := by
  simp [Tool.after]

def watchEvents (history : List Occasion) : List WatchEvent :=
  history.filterMap Occasion.watchEvent?

theorem watched_after : (Tool.after pid history).watched =
    (watchEvents history).foldl timerSpec (0, []) := by
  induction history using List.reverseRecOn with
  | nil => rfl
  | append_singleton history occasion ih =>
      rw [Tool.after_append, watchEvents, List.filterMap_append, List.foldl_append, ← watchEvents,
        ← ih, Tool.react]
      cases event : occasion.watchEvent? with
      | none => simp [event]
      | some watchEvent => simp [event]

/-- The ticks are the expiries of the watch timers. -/
theorem ticks_expiries : ticks (watchEvents history) =
    (watchProcs (history.filterMap Occasion.expiry?)).length := by
  induction history with
  | nil => rfl
  | cons occasion history ih =>
      cases occasion with
      | message announcement =>
          show ticks (.register announcement :: watchEvents history) = _
          rw [← List.singleton_append, ticks_append, ih]
          exact Nat.zero_add _
      | command cmdString =>
          by_cases renew : Command.ofString cmdString = .renew
          · have head : watchEvents (.command cmdString :: history) =
                .renew :: watchEvents history := by
              simp [watchEvents, Occasion.watchEvent?, renew]
            rw [head, ← List.singleton_append, ticks_append, ih]
            exact Nat.zero_add _
          · have head : watchEvents (.command cmdString :: history) = watchEvents history := by
              simp [watchEvents, Occasion.watchEvent?, renew]
            rw [head, ih]
            rfl
      | blank => exact ih
      | expiry timer =>
          obtain ⟨id, timeProc⟩ := timer
          have expired : (Occasion.expiry (id, timeProc) :: history).filterMap Occasion.expiry? =
              (id, timeProc) :: history.filterMap Occasion.expiry? := rfl
          rw [expired]
          cases watch : watches timeProc with
          | true =>
              have head : watchEvents (.expiry (id, timeProc) :: history) =
                  .tick :: watchEvents history := by
                simp [watchEvents, Occasion.watchEvent?, watch]
              rw [head, watchProcs_watch watch, ← List.singleton_append, ticks_append, ih,
                List.length_cons, Nat.add_comm]
              rfl
          | false =>
              have head : watchEvents (.expiry (id, timeProc) :: history) = watchEvents history := by
                simp [watchEvents, Occasion.watchEvent?, watch]
              rw [head, watchProcs_listing watch, ih]

end History

/-- A message with the MAC was processed, and no renew command came after it. -/
def HeardSinceRenew (events : List WatchEvent) (mac : Mac) : Prop :=
  Occurs (fun _ event later => event.Carries mac ∧ .renew ∉ later) events

theorem heardSinceRenew_append (events : List WatchEvent) (event : WatchEvent) (mac : Mac) :
    HeardSinceRenew (events ++ [event]) mac ↔
      event.Carries mac ∨ event ≠ .renew ∧ HeardSinceRenew events mac := by
  refine occurs_append.trans (or_congr (and_iff_left List.not_mem_nil) ?_)
  constructor
  · rintro ⟨earlier, heard, later, split, carried, kept⟩
    rw [List.mem_append, List.mem_singleton, not_or] at kept
    exact ⟨fun isRenew => kept.2 isRenew.symm, earlier, heard, later, split, carried, kept.1⟩
  · rintro ⟨other, earlier, heard, later, split, carried, kept⟩
    refine ⟨earlier, heard, later, split, carried, ?_⟩
    rw [List.mem_append, List.mem_singleton, not_or]
    exact ⟨kept, fun isRenew => other isRenew.symm⟩

theorem onTimer_register (event : WatchEvent) (fired : Nat) (mac : Mac) :
    (∃ announcement, event.onTimer fired = .register announcement ∧ announcement.mac = mac) ↔
      event.Carries mac := by
  cases event with
  | register announcement => simp [WatchEvent.onTimer, WatchEvent.Carries]
  | renew => simp [WatchEvent.onTimer, WatchEvent.Carries]
  | tick =>
      simp only [WatchEvent.onTimer, WatchEvent.Carries]
      split <;> simp

theorem onTimer_renew (event : WatchEvent) (fired : Nat) :
    event.onTimer fired = .renew ↔ event = .renew := by
  cases event with
  | register announcement => simp [WatchEvent.onTimer]
  | renew => simp [WatchEvent.onTimer]
  | tick =>
      simp only [WatchEvent.onTimer]
      split <;> simp

theorem watch_listed (events : List WatchEvent) (mac : Mac) :
    mac ∈ (events.foldl timerSpec (0, [])).2.map Camera.mac ↔ HeardSinceRenew events mac := by
  induction events using List.reverseRecOn with
  | nil => simp [HeardSinceRenew, not_occurs_nil]
  | append_singleton events event ih =>
      rw [List.foldl_append, heardSinceRenew_append, ← ih]
      refine (keys_specStep _ _ _).trans ?_
      rw [onTimer_register, Ne, onTimer_renew]

/-- The rows of a table are right for these events: one row for each camera that was heard
since the last renew, with `no` where it was not heard since the last tick but one. -/
structure TableOf (events : List WatchEvent) (rows : List ListRow) : Prop where
  distinct : (rows.map ListRow.mac).Nodup
  listed : ∀ mac, mac ∈ rows.map ListRow.mac ↔ HeardSinceRenew events mac
  alive : ∀ row ∈ rows, row.alive = false ↔
    2 ≤ ticks events ∧ ¬ HeardSinceTick events (ticks events - 1) row.mac

theorem tableOf_cameras (events : List WatchEvent) :
    TableOf events ((events.foldl timerSpec (0, [])).2.map rowOf) := by
  have macs : ((events.foldl timerSpec (0, [])).2.map rowOf).map ListRow.mac =
      (events.foldl timerSpec (0, [])).2.map Camera.mac := by
    rw [List.map_map]
    rfl
  constructor
  · rw [macs]
    exact watch_unique events
  · intro mac
    rw [macs]
    exact watch_listed events mac
  · intro row member
    obtain ⟨camera, listed, rfl⟩ := List.mem_map.mp member
    exact (flag_run events camera listed).dead_iff

/-- Every table that was printed is right for what had happened until then. -/
theorem tables_of_history (pid : UInt32) (history : List Occasion) {rows : List ListRow}
    (printed : .table rows ∈ (Tool.after pid history).outputs) :
    ∃ earlier occasion later, history = earlier ++ occasion :: later ∧
      TableOf (watchEvents earlier) rows := by
  induction history using List.reverseRecOn with
  | nil =>
      rw [Tool.after_nil, Tool.start, List.mem_singleton] at printed
      cases printed
  | append_singleton history occasion ih =>
      rw [Tool.after_append, Tool.react, List.mem_append] at printed
      rcases printed with before | now
      · obtain ⟨earlier, shown, later, rfl, right⟩ := ih before
        exact ⟨earlier, shown, later ++ [occasion], by simp, right⟩
      · have shown : rows = (Tool.after pid history).watched.2.map rowOf := by
          cases occasion with
          | message announcement => cases now
          | command cmdString =>
              simp only [Tool.prints] at now
              cases command : Command.ofString cmdString with
              | list => simpa [command] using now
              | renew | search | quit | help => simp [command] at now
          | blank => simp [Tool.prints] at now
          | expiry timer =>
              simp only [Tool.prints] at now
              split at now
              · cases now
              · simpa using now
        rw [watched_after] at shown
        exact ⟨history, occasion, [], rfl, shown ▸ tableOf_cameras (watchEvents history)⟩

end IpcamSearch.Registry
