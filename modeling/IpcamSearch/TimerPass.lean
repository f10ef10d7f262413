import IpcamSearch.Timers

/-! One pass of `processTimeEvents` for any program whose timer procedures change the list
of timers through the functions of `ae.c` alone. -/

set_option autoImplicit false

namespace IpcamSearch.EventLoop

open Memory

variable {Proc App : Type}

/-- The loops that calls of `aeCreateTimeEvent` and `aeDeleteTimeEvent` lead to, where a
timer is created at least `lead` of its procedure ahead. -/
inductive Edits (clock : Nat → AeTime) (lead : Proc → Nat) (start : AeEventLoop Proc) :
    AeEventLoop Proc → Prop where
  | same : Edits clock lead start start
  | create {eventLoop : AeEventLoop Proc} (earlier : Edits clock lead start eventLoop)
      (milliseconds : Int) (timeProc : Proc) (ahead : lead timeProc ≤ milliseconds) :
      Edits clock lead start (aeCreateTimeEvent clock eventLoop milliseconds timeProc).2
  | delete {eventLoop : AeEventLoop Proc} (earlier : Edits clock lead start eventLoop) (id : Int) :
      Edits clock lead start (aeDeleteTimeEvent eventLoop id).2

/-- What the ids and times of the pending timers have in common. -/
structure Pending (eventLoop : AeEventLoop Proc) : Prop where
  distinct : (eventLoop.timeEventHead.map AeTimeEvent.id).Nodup
  issued : ∀ te ∈ eventLoop.timeEventHead, te.id < eventLoop.timeEventNextId
  normal : ∀ te ∈ eventLoop.timeEventHead, te.due.Normal

theorem Pending.unique {eventLoop : AeEventLoop Proc} (pending : Pending eventLoop)
    {te other : AeTimeEvent Proc} (listed : te ∈ eventLoop.timeEventHead)
    (otherListed : other ∈ eventLoop.timeEventHead) (same : te.id = other.id) : te = other :=
  List.inj_on_of_nodup_map pending.distinct listed otherListed same

/-- A timer that was set at a clock reading from this one on, at least its lead ahead. -/
def SetSince (clock : Nat → AeTime) (lead : Proc → Nat) (eventLoop after : AeEventLoop Proc)
    (te : AeTimeEvent Proc) : Prop :=
  ∃ (reading : Nat) (milliseconds : Int), eventLoop.clockReads ≤ reading ∧
    reading < after.clockReads ∧ lead te.timeProc ≤ milliseconds ∧
      te.due = (clock reading).add milliseconds

section Edits

variable {clock : Nat → AeTime} {lead : Proc → Nat} {start eventLoop : AeEventLoop Proc}

theorem aeDeleteTimeEvent_kept (eventLoop : AeEventLoop Proc) (id : Int) :
    (aeDeleteTimeEvent eventLoop id).2.timeEventHead.Sublist eventLoop.timeEventHead ∧
      (aeDeleteTimeEvent eventLoop id).2.timeEventNextId = eventLoop.timeEventNextId ∧
      (aeDeleteTimeEvent eventLoop id).2.clockReads = eventLoop.clockReads := by
  unfold aeDeleteTimeEvent
  split
  · exact ⟨List.eraseP_sublist, rfl, rfl⟩
  · exact ⟨List.Sublist.refl _, rfl, rfl⟩

/-- Ids and clock readings only grow, and every timer is one of the start or has a new id. -/
theorem Edits.grows (edits : Edits clock lead start eventLoop) :
    start.timeEventNextId ≤ eventLoop.timeEventNextId ∧ start.clockReads ≤ eventLoop.clockReads ∧
      ∀ te ∈ eventLoop.timeEventHead, te ∈ start.timeEventHead ∨
        start.timeEventNextId ≤ te.id ∧ SetSince clock lead start eventLoop te := by
  induction edits with
  | same => exact ⟨le_rfl, le_rfl, fun _ listed => .inl listed⟩
  | @create eventLoop _ milliseconds timeProc ahead ih =>
      obtain ⟨ids, readings, old⟩ := ih
      refine ⟨ids.trans (Int.le_of_lt (Int.lt_succ _)), readings.trans (Nat.le_succ _), ?_⟩
      intro te listed
      rcases List.mem_cons.mp listed with rfl | listed
      · exact .inr ⟨ids, eventLoop.clockReads, milliseconds, readings, Nat.lt_succ_self _, ahead, rfl⟩
      · rcases old te listed with kept | ⟨new, reading, ahead, first, last, set⟩
        · exact .inl kept
        · exact .inr ⟨new, reading, ahead, first, last.trans (Nat.lt_succ_self _), set⟩
  | @delete eventLoop _ id ih =>
      obtain ⟨ids, readings, old⟩ := ih
      obtain ⟨kept, sameId, sameReads⟩ := aeDeleteTimeEvent_kept eventLoop id
      refine ⟨sameId ▸ ids, sameReads ▸ readings, ?_⟩
      intro te listed
      rw [SetSince, sameReads]
      exact old te (kept.subset listed)

theorem Edits.trans {after : AeEventLoop Proc} (first : Edits clock lead start eventLoop)
    (second : Edits clock lead eventLoop after) : Edits clock lead start after := by
  induction second with
  | same => exact first
  | create _ milliseconds timeProc ahead ih => exact .create ih milliseconds timeProc ahead
  | delete _ id ih => exact .delete ih id

theorem Edits.pending (steady : Steady clock) (edits : Edits clock lead start eventLoop)
    (pending : Pending start) : Pending eventLoop := by
  induction edits with
  | same => exact pending
  | @create eventLoop _ milliseconds timeProc ahead ih =>
      constructor
      · refine List.nodup_cons.mpr ⟨?_, ih.distinct⟩
        intro used
        obtain ⟨te, listed, same⟩ := List.mem_map.mp used
        exact absurd (ih.issued te listed) (by rw [same]; exact Int.lt_irrefl _)
      · intro te listed
        rcases List.mem_cons.mp listed with rfl | listed
        · exact Int.lt_succ _
        · exact (ih.issued te listed).trans (Int.lt_succ _)
      · intro te listed
        rcases List.mem_cons.mp listed with rfl | listed
        · exact AeTime.add_normal (steady.normal _) ((Int.natCast_nonneg _).trans ahead)
        · exact ih.normal te listed
  | @delete eventLoop _ id ih =>
      obtain ⟨kept, sameId, _⟩ := aeDeleteTimeEvent_kept eventLoop id
      constructor
      · exact (kept.map _).nodup ih.distinct
      · intro te listed
        rw [sameId]
        exact ih.issued te (kept.subset listed)
      · exact fun te listed => ih.normal te (kept.subset listed)

end Edits

/-- A program on the event loop. A procedure reads the clock at most `perCall` times. It
sets its timer again its lead and `shortest` milliseconds ahead or more, and has not deleted
it then. -/
structure Client (clock : Nat → AeTime)
    (call : Proc → Int → AeEventLoop Proc → App → Int × AeEventLoop Proc × App)
    (lead : Proc → Nat) (shortest perCall : Nat) : Prop where
  edits : ∀ timeProc id eventLoop app,
    Edits clock lead eventLoop (call timeProc id eventLoop app).2.1
  reads : ∀ timeProc id eventLoop app,
    (call timeProc id eventLoop app).2.1.clockReads ≤ eventLoop.clockReads + perCall
  repeats : ∀ timeProc id eventLoop app, (call timeProc id eventLoop app).1 ≠ AE_NOMORE →
    lead timeProc ≤ (call timeProc id eventLoop app).1 ∧
      shortest ≤ (call timeProc id eventLoop app).1
  listed : ∀ timeProc id eventLoop app, (call timeProc id eventLoop app).1 ≠ AE_NOMORE →
    id ∈ eventLoop.timeEventHead.map AeTimeEvent.id →
      id ∈ (call timeProc id eventLoop app).2.1.timeEventHead.map AeTimeEvent.id

/-- An expiry, with the number of the clock reading that found the timer due. -/
structure Expiry (Proc : Type) where
  id : Int
  timeProc : Proc
  reading : Nat

/-- The program with a log of its expiries, which it cannot see. -/
def recorded (call : Proc → Int → AeEventLoop Proc → App → Int × AeEventLoop Proc × App)
    (timeProc : Proc) (id : Int) (eventLoop : AeEventLoop Proc) (app : App × List (Expiry Proc)) :
    Int × AeEventLoop Proc × App × List (Expiry Proc) :=
  let (retval, after, appAfter) := call timeProc id eventLoop app.1
  (retval, after, appAfter,
    app.2 ++ [{ id := id, timeProc := timeProc, reading := eventLoop.clockReads - 1 }])

section Recorded

variable (clock : Nat → AeTime)
  (call : Proc → Int → AeEventLoop Proc → App → Int × AeEventLoop Proc × App)

theorem fire_recorded (te : AeTimeEvent Proc) (eventLoop : AeEventLoop Proc) (app : App)
    (log : List (Expiry Proc)) :
    fire clock (recorded call) te eventLoop (app, log) =
      (fire clock call te eventLoop app).map fun state => (state.1, state.2,
        log ++ [{ id := te.id, timeProc := te.timeProc, reading := eventLoop.clockReads - 1 }]) := by
  simp only [fire, recorded]
  by_cases last : (call te.timeProc te.id eventLoop app).1 = AE_NOMORE
  · simp only [last, ne_eq, not_true_eq_false, if_false]
    rfl
  · simp only [last, ne_eq, not_false_eq_true, if_true]
    cases writeWhen (aeAddMillisecondsToNow clock (call te.timeProc te.id eventLoop app).2.1
      (call te.timeProc te.id eventLoop app).1).2 te.id _ <;> rfl

/-- The log changes nothing of what the pass does. -/
theorem timeEventsLoop_recorded (maxId : Int) (fuel : Nat) (eventLoop : AeEventLoop Proc)
    (app : App) (log : List (Expiry Proc)) (cursor : List (AeTimeEvent Proc)) (processed : Nat) :
    (timeEventsLoop clock (recorded call) maxId fuel eventLoop (app, log) cursor processed).map
        (fun state => (state.1, state.2.1, state.2.2.1)) =
      timeEventsLoop clock call maxId fuel eventLoop app cursor processed := by
  induction fuel generalizing eventLoop app log cursor processed with
  | zero => rfl
  | succ fuel ih =>
      cases cursor with
      | nil => rfl
      | cons te rest =>
          unfold timeEventsLoop
          by_cases new : maxId < te.id
          · simp only [if_pos new]
            exact ih _ _ _ _ _
          · by_cases due : (clock eventLoop.clockReads).reaches te.due
            · simp only [if_neg new, aeGetTime, due, if_true, fire_recorded]
              cases fire clock call te { eventLoop with clockReads := eventLoop.clockReads + 1 } app with
              | error fault => rfl
              | ok state => exact ih _ _ _ _ _
            · simp only [if_neg new, aeGetTime, due]
              exact ih _ _ _ _ _

end Recorded

section Fire

variable {clock : Nat → AeTime}
  {call : Proc → Int → AeEventLoop Proc → App → Int × AeEventLoop Proc × App}
  {lead : Proc → Nat} {shortest perCall : Nat} {eventLoop : AeEventLoop Proc}

theorem aeDeleteTimeEvent_gone (pending : Pending eventLoop) {id : Int} {other : AeTimeEvent Proc}
    (left : other ∈ (aeDeleteTimeEvent eventLoop id).2.timeEventHead) : other.id ≠ id := by
  intro same
  have listed := (aeDeleteTimeEvent_kept eventLoop id).1.subset left
  subst same
  obtain ⟨rest, split, deleted⟩ := aeDeleteTimeEvent_listed listed pending.distinct
  rw [deleted] at left
  have distinct := (split.map AeTimeEvent.id).nodup_iff.mp pending.distinct
  rw [List.map_cons, List.nodup_cons] at distinct
  exact distinct.1 (List.mem_map_of_mem left)

/-- What a timer that was set again leaves in the list. -/
theorem writeWhen_pending (pending : Pending eventLoop) {te : AeTimeEvent Proc}
    (listed : te ∈ eventLoop.timeEventHead) {due : AeTime} (normal : due.Normal) :
    ∃ after, writeWhen eventLoop te.id due = .ok after ∧ Pending after ∧
      after.timeEventNextId = eventLoop.timeEventNextId ∧
      after.clockReads = eventLoop.clockReads ∧
      ∀ other ∈ after.timeEventHead, other ∈ eventLoop.timeEventHead ∧ other.id ≠ te.id ∨
        other = { te with due := due } := by
  have present : (eventLoop.timeEventHead.any fun other => other.id = te.id) = true :=
    List.any_eq_true.mpr ⟨te, listed, by simp⟩
  let reset := eventLoop.timeEventHead.map fun other =>
    if other.id = te.id then { other with due := due } else other
  have written : ∀ other ∈ reset,
      other ∈ eventLoop.timeEventHead ∧ other.id ≠ te.id ∨ other = { te with due := due } := by
    intro other member
    obtain ⟨old, oldListed, rfl⟩ := List.mem_map.mp member
    by_cases same : old.id = te.id
    · rw [if_pos same, pending.unique oldListed listed same]
      exact .inr rfl
    · rw [if_neg same]
      exact .inl ⟨oldListed, same⟩
  have sameIds : reset.map AeTimeEvent.id = eventLoop.timeEventHead.map AeTimeEvent.id := by
    rw [List.map_map]
    apply List.map_congr_left
    intro other _
    by_cases same : other.id = te.id
    · simp [same]
    · simp [same]
  refine ⟨{ eventLoop with timeEventHead := reset }, by simp only [writeWhen, present, if_true, reset],
    ⟨?_, ?_, ?_⟩, rfl, rfl, written⟩
  · show (reset.map AeTimeEvent.id).Nodup
    rw [sameIds]
    exact pending.distinct
  · intro other member
    rcases written other member with ⟨old, _⟩ | rfl
    · exact pending.issued other old
    · exact pending.issued te listed
  · intro other member
    rcases written other member with ⟨old, _⟩ | rfl
    · exact pending.normal other old
    · exact normal

theorem fire_app {te : AeTimeEvent Proc} {app : App} {after : AeEventLoop Proc} {appAfter : App}
    (fired : fire clock call te eventLoop app = .ok (after, appAfter)) :
    appAfter = (call te.timeProc te.id eventLoop app).2.2 := by
  unfold fire at fired
  rcases called : call te.timeProc te.id eventLoop app with ⟨retval, changed, appChanged⟩
  simp only [called] at fired
  split at fired
  · obtain ⟨written, _, returned⟩ := of_bind_ok fired
    cases returned
    rfl
  · cases fired
    rfl

/-- The timers behind an expiry: the others that were there, and those set since, among
them the expired one. -/
def LeftBy (clock : Nat → AeTime) (lead : Proc → Nat) (shortest : Nat) (te : AeTimeEvent Proc)
    (eventLoop after : AeEventLoop Proc) (other : AeTimeEvent Proc) : Prop :=
  other ∈ eventLoop.timeEventHead ∧ other.id ≠ te.id ∨
    SetSince clock lead eventLoop after other ∧
      (eventLoop.timeEventNextId ≤ other.id ∨
        other.id = te.id ∧ SetSince clock (fun _ => shortest) eventLoop after other)

theorem LeftBy.early {te other : AeTimeEvent Proc} {after : AeEventLoop Proc}
    (left : LeftBy clock lead shortest te eventLoop after other)
    (issued : other.id < eventLoop.timeEventNextId) :
    other ∈ eventLoop.timeEventHead ∧ other.id ≠ te.id ∨
      other.id = te.id ∧ SetSince clock (fun _ => shortest) eventLoop after other := by
  rcases left with stayed | ⟨_, new | again⟩
  · exact .inl stayed
  · omega
  · exact .inr again

/-- The expiry of a timer never touches a freed one, and it leaves these timers. -/
theorem fire_client (client : Client clock call lead shortest perCall) (steady : Steady clock)
    (pending : Pending eventLoop) {te : AeTimeEvent Proc} (listed : te ∈ eventLoop.timeEventHead)
    (app : App) :
    ∃ after appAfter, fire clock call te eventLoop app = .ok (after, appAfter) ∧ Pending after ∧
      eventLoop.timeEventNextId ≤ after.timeEventNextId ∧
      eventLoop.clockReads ≤ after.clockReads ∧
      after.clockReads ≤ eventLoop.clockReads + perCall + 1 ∧
      ∀ other ∈ after.timeEventHead, LeftBy clock lead shortest te eventLoop after other := by
  have edits := client.edits te.timeProc te.id eventLoop app
  have bound := client.reads te.timeProc te.id eventLoop app
  have repeats := client.repeats te.timeProc te.id eventLoop app
  have again := client.listed te.timeProc te.id eventLoop app
  rcases called : call te.timeProc te.id eventLoop app with ⟨retval, changed, appAfter⟩
  simp only [called] at edits bound repeats again
  obtain ⟨ids, readings, old⟩ := edits.grows
  have pendingChanged := edits.pending steady pending
  by_cases last : retval = AE_NOMORE
  · obtain ⟨kept, sameId, sameReads⟩ := aeDeleteTimeEvent_kept changed te.id
    refine ⟨(aeDeleteTimeEvent changed te.id).2, appAfter, ?_,
      Edits.pending steady (@Edits.delete _ clock lead _ _ .same te.id) pendingChanged,
      sameId ▸ ids, sameReads ▸ readings, sameReads ▸ Nat.le_succ_of_le bound, ?_⟩
    · simp only [fire, called, last, ne_eq, not_true_eq_false, if_false]
      rfl
    · intro other member
      rw [LeftBy, SetSince, sameReads]
      rcases old other (kept.subset member) with stayed | ⟨new, set⟩
      · exact .inl ⟨stayed, aeDeleteTimeEvent_gone pendingChanged member⟩
      · exact .inr ⟨set, .inl new⟩
  · obtain ⟨ahead, long⟩ := repeats last
    obtain ⟨te', listedChanged, sameTe⟩ :=
      List.mem_map.mp (again last (List.mem_map_of_mem listed))
    have original : te' ∈ eventLoop.timeEventHead := by
      refine (old te' listedChanged).resolve_right fun later => ?_
      have issued := pending.issued te listed
      omega
    have same := pending.unique original listed sameTe
    subst same
    let clocked : AeEventLoop Proc := { changed with clockReads := changed.clockReads + 1 }
    have pendingClocked : Pending clocked :=
      ⟨pendingChanged.distinct, pendingChanged.issued, pendingChanged.normal⟩
    obtain ⟨after, written, pendingAfter, sameId, sameReads, left⟩ :=
      writeWhen_pending pendingClocked listedChanged
        (AeTime.add_normal (steady.normal changed.clockReads) ((Int.natCast_nonneg _).trans ahead))
    have reads : after.clockReads = changed.clockReads + 1 := sameReads
    refine ⟨after, appAfter, ?_, pendingAfter, sameId ▸ ids,
      reads ▸ readings.trans (Nat.le_succ _), reads ▸ Nat.succ_le_succ bound, ?_⟩
    · simp only [fire, called, last, ne_eq, not_false_eq_true, if_true]
      show (writeWhen clocked te'.id ((clock changed.clockReads).add retval) >>= _) = _
      rw [written]
      rfl
    · intro other member
      rw [LeftBy, SetSince, SetSince, reads]
      rcases left other member with ⟨inside, apart⟩ | rfl
      · rcases old other inside with stayed | ⟨new, reading, milliseconds, first, later, set⟩
        · exact .inl ⟨stayed, apart⟩
        · exact .inr ⟨⟨reading, milliseconds, first, Nat.lt_succ_of_lt later, set⟩, .inl new⟩
      · exact .inr ⟨⟨changed.clockReads, retval, readings, Nat.lt_succ_self _, ahead, rfl⟩,
          .inr ⟨rfl, changed.clockReads, retval, readings, Nat.lt_succ_self _, long, rfl⟩⟩

end Fire

section Pass

variable {clock : Nat → AeTime}
  {call : Proc → Int → AeEventLoop Proc → App → Int × AeEventLoop Proc × App}
  {lead : Proc → Nat} {shortest perCall last : Nat} {start eventLoop : AeEventLoop Proc}
  {limit : Int} {log : List (Expiry Proc)}

/-- The invariant of a pass that begins with `start` and whose clock stays below `limit`:
the timers of the start are as they were, unless they have fired and lie beyond the limit. -/
structure During (clock : Nat → AeTime) (start : AeEventLoop Proc) (limit : Int)
    (eventLoop : AeEventLoop Proc) (log : List (Expiry Proc)) : Prop where
  pending : Pending eventLoop
  ids : start.timeEventNextId ≤ eventLoop.timeEventNextId
  readings : start.clockReads ≤ eventLoop.clockReads
  old : ∀ te ∈ eventLoop.timeEventHead, te.id < start.timeEventNextId →
    te ∈ start.timeEventHead ∧ te.id ∉ log.map Expiry.id ∨
      te.id ∈ log.map Expiry.id ∧ limit ≤ te.due.millis
  once : (log.map Expiry.id).Nodup
  logged : ∀ expiry ∈ log, start.clockReads ≤ expiry.reading ∧
    ∃ te ∈ start.timeEventHead, expiry.id = te.id ∧ expiry.timeProc = te.timeProc ∧
      (clock expiry.reading).reaches te.due = true

theorem During.reading (during : During clock start limit eventLoop log) :
    During clock start limit { eventLoop with clockReads := eventLoop.clockReads + 1 } log where
  pending := ⟨during.pending.distinct, during.pending.issued, during.pending.normal⟩
  ids := during.ids
  readings := during.readings.trans (Nat.le_succ _)
  old := during.old
  once := during.once
  logged := during.logged

/-- The timers of the start that can still fire before the limit. -/
def dueIds (start : AeEventLoop Proc) (limit : Int) (eventLoop : AeEventLoop Proc) : Finset Int :=
  ((eventLoop.timeEventHead.filter fun te =>
    te.id < start.timeEventNextId ∧ te.due.millis < limit).map AeTimeEvent.id).toFinset

theorem mem_dueIds {id : Int} : id ∈ dueIds start limit eventLoop ↔
    ∃ te ∈ eventLoop.timeEventHead, te.id < start.timeEventNextId ∧ te.due.millis < limit ∧
      te.id = id := by
  simp only [dueIds, List.mem_toFinset, List.mem_map, List.mem_filter, decide_eq_true_eq, and_assoc]

/-- The clock of a pass, which moves by less than the shortest repetition in the readings
before the last one. -/
structure Calm (clock : Nat → AeTime) (start : AeEventLoop Proc) (limit : Int)
    (shortest last : Nat) : Prop where
  steady : Steady clock
  below : ∀ reading, start.clockReads ≤ reading → reading < last → (clock reading).millis < limit
  beyond : ∀ reading, start.clockReads ≤ reading → limit ≤ (clock reading).millis + shortest

theorem fire_during (client : Client clock call lead shortest perCall)
    (calm : Calm clock start limit shortest last) (during : During clock start limit eventLoop log)
    (begun : start.clockReads < eventLoop.clockReads) (within : eventLoop.clockReads ≤ last)
    {te : AeTimeEvent Proc} (listed : te ∈ eventLoop.timeEventHead) (early : te.id < start.timeEventNextId)
    (reached : (clock (eventLoop.clockReads - 1)).reaches te.due = true) (app : App) :
    ∃ after appAfter, fire clock (recorded call) te eventLoop (app, log) =
        .ok (after, appAfter,
          log ++ [{ id := te.id, timeProc := te.timeProc, reading := eventLoop.clockReads - 1 }]) ∧
      During clock start limit after
        (log ++ [{ id := te.id, timeProc := te.timeProc, reading := eventLoop.clockReads - 1 }]) ∧
      dueIds start limit after ⊂ dueIds start limit eventLoop ∧
      after.clockReads ≤ eventLoop.clockReads + perCall + 1 := by
  obtain ⟨after, appAfter, fired, pending, ids, readings, bound, left⟩ :=
    fire_client client calm.steady during.pending listed app
  have since : start.clockReads ≤ eventLoop.clockReads - 1 := by omega
  have soon : te.due.millis < limit := by
    have due := (AeTime.reaches_iff (calm.steady.normal _) (during.pending.normal te listed)).mp reached
    exact due.trans_lt (calm.below _ since (by omega))
  obtain ⟨original, unfired⟩ : te ∈ start.timeEventHead ∧ te.id ∉ log.map Expiry.id :=
    (during.old te listed early).resolve_right fun far => absurd far.2 (not_le.mpr soon)
  have later : ∀ other ∈ after.timeEventHead, other.id = te.id → limit ≤ other.due.millis := by
    intro other member same
    have issued : other.id < eventLoop.timeEventNextId :=
      same ▸ during.pending.issued te listed
    rcases (left other member).early issued with ⟨_, apart⟩ | ⟨_, reading, retval, order, _, wide, due⟩
    · exact absurd same apart
    · have far : (shortest : Int) ≤ retval := wide
      have beyond := calm.beyond reading (during.readings.trans order)
      rw [due, AeTime.millis_add]
      omega
  refine ⟨after, appAfter, ?_, ⟨pending, during.ids.trans ids, during.readings.trans readings,
    ?_, ?_, ?_⟩, ?_, bound⟩
  · rw [fire_recorded, fired]
    rfl
  · intro other member earlyOther
    rw [List.map_append, List.mem_append, not_or]
    by_cases same : other.id = te.id
    · exact .inr ⟨.inr (by simp [same]), later other member same⟩
    · rcases (left other member).early (earlyOther.trans_le during.ids) with ⟨inside, _⟩ | ⟨again, _⟩
      · rcases during.old other inside earlyOther with ⟨untouched, silent⟩ | far
        · exact .inl ⟨untouched, silent, by simpa using same⟩
        · exact .inr ⟨.inl far.1, far.2⟩
      · exact absurd again same
  · rw [List.map_append]
    exact List.nodup_append.mpr ⟨during.once, List.nodup_singleton _, by
      intro id inside other last same
      cases List.mem_singleton.mp last
      subst same
      exact unfired inside⟩
  · intro expiry member
    rcases List.mem_append.mp member with inside | last
    · exact during.logged expiry inside
    · cases List.mem_singleton.mp last
      exact ⟨since, te, original, rfl, rfl, reached⟩
  · rw [Finset.ssubset_iff_of_subset]
    · refine ⟨te.id, mem_dueIds.mpr ⟨te, listed, early, soon, rfl⟩, ?_⟩
      intro still
      obtain ⟨other, member, _, low, same⟩ := mem_dueIds.mp still
      exact absurd (later other member same) (not_le.mpr low)
    · intro id member
      obtain ⟨other, inside, earlyOther, low, rfl⟩ := mem_dueIds.mp member
      rcases (left other inside).early (earlyOther.trans_le during.ids) with ⟨kept, _⟩ | ⟨same, _⟩
      · exact mem_dueIds.mpr ⟨other, kept, earlyOther, low, rfl⟩
      · exact absurd (later other inside same) (not_le.mpr low)

/-- What a pass leaves: a timer of the start that is still pending was not due then. -/
def NoneLeft (clock : Nat → AeTime) (start : AeEventLoop Proc) (timers : List (AeTimeEvent Proc)) :
    Prop :=
  ∀ te ∈ timers, te.id < start.timeEventNextId → (clock start.clockReads).reaches te.due = false

/-- The timers of the start among these. Each of them costs a reading of the clock. -/
def oldCount (start : AeEventLoop Proc) (timers : List (AeTimeEvent Proc)) : Nat :=
  timers.countP fun te => te.id < start.timeEventNextId

theorem During.oldCount_le (during : During clock start limit eventLoop log) :
    oldCount start eventLoop.timeEventHead ≤ start.timeEventHead.length := by
  let old := eventLoop.timeEventHead.filter fun te => te.id < start.timeEventNextId
  have distinct : (old.map AeTimeEvent.id).Nodup :=
    (List.filter_sublist.map _).nodup during.pending.distinct
  have original : old.map AeTimeEvent.id ⊆ start.timeEventHead.map AeTimeEvent.id := by
    intro id member
    obtain ⟨te, inside, rfl⟩ := List.mem_map.mp member
    obtain ⟨listed, early⟩ := List.mem_filter.mp inside
    rcases during.old te listed (of_decide_eq_true early) with ⟨original, _⟩ | ⟨fired, _⟩
    · exact List.mem_map_of_mem original
    · obtain ⟨expiry, logged, same⟩ := List.mem_map.mp fired
      obtain ⟨_, first, original, sameId, _⟩ := during.logged expiry logged
      rw [← same, sameId]
      exact List.mem_map_of_mem original
  have shorter := (List.subperm_of_subset distinct original).length_le
  rw [List.length_map, List.length_map] at shorter
  rw [oldCount, List.countP_eq_length_filter]
  exact shorter

theorem timeEventsLoop_ends (client : Client clock call lead shortest perCall)
    (calm : Calm clock start limit shortest last) (budget : Nat) {app : App}
    {passed cursor : List (AeTimeEvent Proc)} (during : During clock start limit eventLoop log)
    (bounded : (dueIds start limit eventLoop).card ≤ budget)
    (room : eventLoop.clockReads + (dueIds start limit eventLoop).card *
      (start.timeEventHead.length + perCall + 1) + oldCount start cursor ≤ last)
    (split : eventLoop.timeEventHead = passed ++ cursor) (none : NoneLeft clock start passed) :
    ∃ fuel after appAfter logAfter,
      timeEventsLoop clock (recorded call) (start.timeEventNextId - 1) fuel eventLoop (app, log)
          cursor log.length = .ok (logAfter.length, after, appAfter, logAfter) ∧
        During clock start limit after logAfter ∧ NoneLeft clock start after.timeEventHead := by
  induction budget using Nat.strong_induction_on generalizing eventLoop log app passed cursor with
  | _ budget restart =>
      induction cursor generalizing eventLoop passed with
      | nil =>
          refine ⟨1, eventLoop, app, log, rfl, during, ?_⟩
          rw [split, List.append_nil]
          exact none
      | cons te rest walk =>
          have listed : te ∈ eventLoop.timeEventHead := by
            rw [split]
            exact List.mem_append_right _ List.mem_cons_self
          have next : eventLoop.timeEventHead = (passed ++ [te]) ++ rest := by
            rw [split, List.append_assoc, List.singleton_append]
          have counted : oldCount start (te :: rest) =
              oldCount start rest + if te.id < start.timeEventNextId then 1 else 0 := by
            simp [oldCount, List.countP_cons]
          by_cases new : start.timeEventNextId - 1 < te.id
          · have passedNone : NoneLeft clock start (passed ++ [te]) := by
              intro other member early
              rcases List.mem_append.mp member with inside | last
              · exact none other inside early
              · cases List.mem_singleton.mp last
                omega
            obtain ⟨fuel, after, appAfter, logAfter, ran, ends⟩ :=
              walk during bounded (by omega) next passedNone
            refine ⟨fuel + 1, after, appAfter, logAfter, ?_, ends⟩
            rw [timeEventsLoop, if_pos new, ran]
          · have early : te.id < start.timeEventNextId := by omega
            rw [counted, if_pos early] at room
            by_cases due : (clock eventLoop.clockReads).reaches te.due
            · obtain ⟨fired, appFired, expired, kept, fewer, readings⟩ :=
                fire_during client calm during.reading (Nat.lt_succ_of_le during.readings)
                  (show eventLoop.clockReads + 1 ≤ last by omega) listed early due app
              have few : (dueIds start limit fired).card + 1 ≤ (dueIds start limit eventLoop).card :=
                Finset.card_lt_card fewer
              have spent := Nat.mul_le_mul_right (start.timeEventHead.length + perCall + 1) few
              have olds := kept.oldCount_le
              obtain ⟨fuel, after, appAfter, logAfter, ran, ends⟩ :=
                restart _ (few.trans bounded) kept le_rfl (by
                  rw [Nat.add_mul] at spent
                  simp only at readings
                  omega) (List.nil_append _).symm (fun _ member => absurd member List.not_mem_nil)
              refine ⟨fuel + 1, after, appAfter, logAfter, ?_, ends⟩
              rw [List.length_append, List.length_singleton] at ran
              simp only [timeEventsLoop, if_neg new, aeGetTime, due, if_true, expired, ok_bind]
              exact ran
            · have passedNone : NoneLeft clock start (passed ++ [te]) := by
                intro other member earlyOther
                rcases List.mem_append.mp member with inside | last
                · exact none other inside earlyOther
                · cases List.mem_singleton.mp last
                  have normal := during.pending.normal te listed
                  rw [AeTime.reaches_iff (calm.steady.normal _) normal] at due
                  rw [Bool.eq_false_iff, ne_eq, AeTime.reaches_iff (calm.steady.normal _) normal]
                  exact fun reached => due (reached.trans (calm.steady.later during.readings))
              obtain ⟨fuel, after, appAfter, logAfter, ran, ends⟩ :=
                walk during.reading bounded (show eventLoop.clockReads + 1 +
                  (dueIds start limit eventLoop).card * (start.timeEventHead.length + perCall + 1) +
                  oldCount start rest ≤ last by omega) next passedNone
              refine ⟨fuel + 1, after, appAfter, logAfter, ?_, ends⟩
              simp only [timeEventsLoop, if_neg new, aeGetTime, due]
              exact ran

/-- As many clock readings as a pass over so many timers can need. -/
def passReadings (timers perCall : Nat) : Nat := (timers + 1) * (timers + perCall + 1)

/-- A procedure that wants its timer again after a second. -/
def everySecond (_ : Unit) (_ : Int) (eventLoop : AeEventLoop Unit) (app : Unit) :
    Int × AeEventLoop Unit × Unit := (1000, eventLoop, app)

end Pass

end IpcamSearch.EventLoop
