import IpcamSearch.EventLoop
import Mathlib.Data.Finset.Card
import Mathlib.Data.List.Lemmas

/-! When the timers of `ae.c` fire: the wait that `aeProcessEvents` hands to its poll, and
one pass of `processTimeEvents` over the timers of any program. -/

set_option autoImplicit false

namespace IpcamSearch.EventLoop

open Memory

namespace AeTime

def millis (time : AeTime) : Int := time.sec * 1000 + time.ms

/-- The milliseconds of a reading of `gettimeofday`. -/
def Normal (time : AeTime) : Prop := 0 ≤ time.ms ∧ time.ms < 1000

variable {now due : AeTime}

theorem millis_add (now : AeTime) (milliseconds : Int) :
    (now.add milliseconds).millis = now.millis + milliseconds := by
  have whole := Int.tmod_add_mul_tdiv milliseconds 1000
  simp only [add, millis]
  split
  · simp only
    omega
  · simp only
    omega

theorem add_normal (normal : now.Normal) {milliseconds : Int} (nonnegative : 0 ≤ milliseconds) :
    (now.add milliseconds).Normal := by
  obtain ⟨low, high⟩ := normal
  have rest := Int.tmod_nonneg 1000 nonnegative
  have small := Int.tmod_lt_of_pos milliseconds (show (0 : Int) < 1000 by decide)
  simp only [add]
  split
  · exact ⟨by simp only; omega, by simp only; omega⟩
  · exact ⟨by simp only; omega, by simp only; omega⟩

theorem reaches_iff (normalNow : now.Normal) (normalDue : due.Normal) :
    now.reaches due = true ↔ due.millis ≤ now.millis := by
  obtain ⟨lowNow, highNow⟩ := normalNow
  obtain ⟨lowDue, highDue⟩ := normalDue
  simp only [reaches, decide_eq_true_eq, millis]
  omega

end AeTime

/-- A clock of normal readings that never goes back. -/
structure Steady (clock : Nat → AeTime) : Prop where
  normal : ∀ reading, (clock reading).Normal
  ordered : ∀ reading, (clock reading).millis ≤ (clock (reading + 1)).millis

theorem Steady.later {clock : Nat → AeTime} (steady : Steady clock) {first second : Nat}
    (order : first ≤ second) : (clock first).millis ≤ (clock second).millis := by
  induction order with
  | refl => exact le_rfl
  | step _ ih => exact ih.trans (steady.ordered _)

section Wait

variable {Proc : Type}

/-- The comparison of `aeSearchNearestTimer`. -/
def AeTime.before (left right : AeTime) : Bool :=
  decide (left.sec < right.sec ∨ left.sec = right.sec ∧ left.ms < right.ms)

def nearestLoop : List (AeTimeEvent Proc) → Option (AeTimeEvent Proc) → Option (AeTimeEvent Proc)
  | [], nearest => nearest
  | te :: rest, none => nearestLoop rest (some te)
  | te :: rest, some nearest =>
      nearestLoop rest (if te.due.before nearest.due then some te else some nearest)

def aeSearchNearestTimer (eventLoop : AeEventLoop Proc) : Option (AeTimeEvent Proc) :=
  nearestLoop eventLoop.timeEventHead none

structure Timeval where
  tvSec : Int
  tvUsec : Int
deriving DecidableEq

/-- The `tv` of `aeProcessEvents` for the nearest timer. Its two parts are cut off at zero
each on its own. -/
def missingTime (now due : AeTime) : Timeval :=
  let tv : Timeval :=
    if due.ms < now.ms then ⟨due.sec - now.sec - 1, (due.ms + 1000 - now.ms) * 1000⟩
    else ⟨due.sec - now.sec, (due.ms - now.ms) * 1000⟩
  ⟨if tv.tvSec < 0 then 0 else tv.tvSec, if tv.tvUsec < 0 then 0 else tv.tvUsec⟩

/-- The timeout that `ae_epoll.c` hands to `epoll_wait`, an `int`. -/
def epollTimeout : Option Timeval → Int
  | some tv => (tv.tvSec * 1000 + tv.tvUsec.tdiv 1000).bmod (2 ^ 32)
  | none => -1

theorem nearestLoop_spec (timers : List (AeTimeEvent Proc)) {first : AeTimeEvent Proc}
    (normal : ∀ te ∈ first :: timers, te.due.Normal) :
    ∃ te, nearestLoop timers (some first) = some te ∧ te ∈ first :: timers ∧
      ∀ other ∈ first :: timers, te.due.millis ≤ other.due.millis := by
  induction timers generalizing first with
  | nil => exact ⟨first, rfl, List.mem_cons_self, by simp⟩
  | cons next rest ih =>
      obtain ⟨⟨lowFirst, highFirst⟩, ⟨lowNext, highNext⟩, later⟩ :
        first.due.Normal ∧ next.due.Normal ∧ ∀ te ∈ rest, te.due.Normal := by simpa using normal
      rw [nearestLoop]
      cases closer : next.due.before first.due with
      | true =>
          obtain ⟨te, found, member, least⟩ :=
            @ih next (by simpa using ⟨⟨lowNext, highNext⟩, later⟩)
          have order : next.due.millis ≤ first.due.millis := by
            have compared := of_decide_eq_true closer
            unfold AeTime.millis
            omega
          refine ⟨te, found, List.mem_cons_of_mem _ member, ?_⟩
          intro other inside
          rcases List.mem_cons.mp inside with rfl | inside
          · exact (least next List.mem_cons_self).trans order
          · exact least other inside
      | false =>
          obtain ⟨te, found, member, least⟩ :=
            @ih first (by simpa using ⟨⟨lowFirst, highFirst⟩, later⟩)
          have order : first.due.millis ≤ next.due.millis := by
            have compared := of_decide_eq_false closer
            unfold AeTime.millis
            omega
          refine ⟨te, found, ?_, ?_⟩
          · rcases List.mem_cons.mp member with same | member
            · exact same ▸ List.mem_cons_self
            · exact List.mem_cons_of_mem _ (List.mem_cons_of_mem _ member)
          · intro other inside
            rcases List.mem_cons.mp inside with rfl | inside
            · exact least other List.mem_cons_self
            · rcases List.mem_cons.mp inside with rfl | inside
              · exact (least first List.mem_cons_self).trans order
              · exact least other (List.mem_cons_of_mem _ inside)

theorem aeSearchNearestTimer_spec {eventLoop : AeEventLoop Proc} {nearest : AeTimeEvent Proc}
    (normal : ∀ te ∈ eventLoop.timeEventHead, te.due.Normal)
    (found : aeSearchNearestTimer eventLoop = some nearest) :
    nearest ∈ eventLoop.timeEventHead ∧
      ∀ te ∈ eventLoop.timeEventHead, nearest.due.millis ≤ te.due.millis := by
  unfold aeSearchNearestTimer at found
  cases timers : eventLoop.timeEventHead with
  | nil =>
      rw [timers] at found
      cases found
  | cons first rest =>
      rw [timers] at found normal
      obtain ⟨te, same, member, least⟩ := nearestLoop_spec rest normal
      rw [nearestLoop, same] at found
      cases found
      exact ⟨member, least⟩

/-- A timer that is still to come is waited for exactly. One that is overdue is still waited
for, by the part of its distance below a second. -/
theorem missingTime_millis {now due : AeTime} (normalNow : now.Normal) (normalDue : due.Normal)
    (near : due.millis - now.millis < 2 ^ 31) :
    epollTimeout (some (missingTime now due)) =
      if now.millis ≤ due.millis then due.millis - now.millis
      else (due.millis - now.millis) % 1000 := by
  obtain ⟨lowNow, highNow⟩ := normalNow
  obtain ⟨lowDue, highDue⟩ := normalDue
  unfold AeTime.millis at near ⊢
  have parts : ∃ seconds rest, missingTime now due = ⟨seconds, rest * 1000⟩ ∧ 0 ≤ seconds ∧
      0 ≤ rest ∧ rest < 1000 ∧ seconds * 1000 + rest =
        if now.sec * 1000 + now.ms ≤ due.sec * 1000 + due.ms then
          due.sec * 1000 + due.ms - (now.sec * 1000 + now.ms)
        else (due.sec * 1000 + due.ms - (now.sec * 1000 + now.ms)) % 1000 := by
    unfold missingTime
    by_cases borrow : due.ms < now.ms
    · simp only [if_pos borrow]
      refine ⟨if due.sec - now.sec - 1 < 0 then 0 else due.sec - now.sec - 1,
        due.ms + 1000 - now.ms, ?_, ?_, by omega, by omega, ?_⟩
      · rw [if_neg (show ¬ (due.ms + 1000 - now.ms) * 1000 < 0 by omega)]
      · split <;> omega
      · split <;> split <;> omega
    · simp only [if_neg borrow]
      refine ⟨if due.sec - now.sec < 0 then 0 else due.sec - now.sec,
        due.ms - now.ms, ?_, ?_, by omega, by omega, ?_⟩
      · rw [if_neg (show ¬ (due.ms - now.ms) * 1000 < 0 by omega)]
      · split <;> omega
      · split <;> split <;> omega
  obtain ⟨seconds, rest, split, positive, low, high, total⟩ := parts
  have small : seconds * 1000 + rest < 2 ^ 31 := by
    rw [total]
    split <;> omega
  rw [split, epollTimeout, Int.mul_tdiv_cancel rest (by decide), ← total]
  simp only
  exact Int.bmod_eq_of_le (by omega) (by omega)

/-- The wait of a round. While no timer is overdue it ends at the first instant at which
some timer is due. Otherwise it is still below a second, and ends a whole number of seconds
after the time of the nearest timer. -/
theorem poll_wait {eventLoop : AeEventLoop Proc} {now : AeTime} (normalNow : now.Normal)
    (normal : ∀ te ∈ eventLoop.timeEventHead, te.due.Normal) {nearest : AeTimeEvent Proc}
    (found : aeSearchNearestTimer eventLoop = some nearest)
    (near : nearest.due.millis - now.millis < 2 ^ 31) :
    ∃ wait, epollTimeout (some (missingTime now nearest.due)) = wait ∧ 0 ≤ wait ∧
      (now.millis ≤ nearest.due.millis → ∀ time : AeTime, time.Normal →
        ((∃ te ∈ eventLoop.timeEventHead, time.reaches te.due = true) ↔
          now.millis + wait ≤ time.millis)) ∧
      (nearest.due.millis < now.millis → wait < 1000 ∧
        ∃ seconds : Int, now.millis + wait = nearest.due.millis + seconds * 1000) := by
  obtain ⟨member, least⟩ := aeSearchNearestTimer_spec normal found
  have wait := missingTime_millis normalNow (normal nearest member) near
  refine ⟨_, wait, ?_, ?_, ?_⟩
  · split <;> omega
  · intro coming time normalTime
    rw [if_pos coming]
    constructor
    · rintro ⟨te, listed, reached⟩
      have due := (AeTime.reaches_iff normalTime (normal te listed)).mp reached
      have order := least te listed
      omega
    · intro late
      exact ⟨nearest, member, (AeTime.reaches_iff normalTime (normal nearest member)).mpr (by omega)⟩
  · intro overdue
    rw [if_neg (by omega)]
    have small := Int.emod_lt_of_pos (nearest.due.millis - now.millis) (show (0 : Int) < 1000 by decide)
    have whole := Int.emod_add_mul_ediv (nearest.due.millis - now.millis) 1000
    exact ⟨small, -((nearest.due.millis - now.millis) / 1000), by omega⟩

/-- The second of two timers, which is overdue by half a second, is waited for as well. -/
theorem poll_wait_overdue :
    (∃ wait, epollTimeout (some (missingTime ⟨8, 700⟩ ⟨8, 200⟩)) = wait ∧ 0 ≤ wait) ∧
      epollTimeout (some (missingTime ⟨8, 700⟩ ⟨8, 200⟩)) = 500 := by
  refine ⟨?_, by decide⟩
  let eventLoop : AeEventLoop Unit := {
    timeEventNextId := 2
    timeEventHead := [⟨1, ⟨9, 0⟩, ()⟩, ⟨0, ⟨8, 200⟩, ()⟩]
    clockReads := 2 }
  have normal : ∀ te ∈ eventLoop.timeEventHead, te.due.Normal := by
    simp [eventLoop, AeTime.Normal]
  obtain ⟨wait, same, nonnegative, _⟩ :=
    @poll_wait Unit eventLoop ⟨8, 700⟩ (by simp [AeTime.Normal]) normal ⟨0, ⟨8, 200⟩, ()⟩ rfl
      (by simp [AeTime.millis])
  exact ⟨wait, same, nonnegative⟩

end Wait

end IpcamSearch.EventLoop
