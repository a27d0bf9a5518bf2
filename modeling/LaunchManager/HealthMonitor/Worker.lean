import LaunchManager.Library.Runs
import LaunchManager.HealthMonitor.DeadlineMonitor
import LaunchManager.HealthMonitor.HeartbeatMonitor
import LaunchManager.HealthMonitor.LogicMonitor

/-!
# The monitoring thread

The thread sleeps, evaluates all monitors, notifies the supervisor and computes
from the measured length of the round how long to sleep next. Time passes between
any two of its steps, and the stop flag can be set at any moment. The sleep time is
a difference of two durations, which panics when it would be negative.
-/

namespace LaunchManager

set_option autoImplicit false

open Runs

inductive MonitorEvaluationError where
  | deadline (error : DeadlineEvaluationError)
  | heartbeat (error : HeartbeatEvaluationError)
  | logic (error : LogicEvaluationError)
  deriving DecidableEq, Repr

namespace Worker

variable {Handle : Type}

structure Settings (Handle : Type) where
  monitors : List Handle
  supervisorApiCycle : Nat
  interval : Nat

/-- Where the thread stands; `now` is the time at which the round began. -/
inductive Point (Handle : Type) where
  | loopHead
  | sleeping (wakeUp : Nat)
  | evaluating (now : Nat) (rest : List Handle)
  | notifying (now : Nat)
  | roundDone (now : Nat)
  | exited
  | panicked
  deriving DecidableEq, Repr

structure State (Handle : Type) where
  clock : Nat
  shouldStop : Bool
  lastNotification : Nat
  nextSleepTime : Nat
  point : Point Handle
  /-- What the monitors have reported in this round. -/
  reported : List (Handle × MonitorEvaluationError)
  /-- The calls of `notify_alive`. -/
  notified : List Nat
  deriving DecidableEq, Repr

def start (settings : Settings Handle) (clock lastNotification : Nat) : State Handle where
  clock := clock
  shouldStop := false
  lastNotification := lastNotification
  nextSleepTime := settings.interval
  point := .loopHead
  reported := []
  notified := []

/-- Time passes, the owner joins the thread, the monitor whose turn it is reports errors
(or panics itself), or the thread takes a step of its own. -/
inductive Act where
  | elapse (duration : Nat)
  | requestStop
  | evaluate (errors : Option (List MonitorEvaluationError))
  | advance
  deriving DecidableEq, Repr

/-- `interval - now.elapsed()`; `none` is the overflow panic. -/
def sleepTime (interval elapsed : Nat) : Option Nat :=
  if elapsed ≤ interval then some (interval - elapsed) else none

def advance (settings : Settings Handle) (s : State Handle) : Option (State Handle) :=
  match s.point with
  | .loopHead =>
    if s.shouldStop then some { s with point := .exited }
    else some { s with point := .sleeping (s.clock + s.nextSleepTime) }
  | .sleeping wakeUp =>
    if wakeUp ≤ s.clock then
      some { s with point := .evaluating s.clock settings.monitors, reported := [] }
    else none
  | .evaluating _ (_ :: _) => none
  | .evaluating now [] =>
    if s.reported ≠ [] then some { s with point := .exited }
    else if settings.supervisorApiCycle < s.clock - s.lastNotification then
      some { s with point := .notifying now }
    else some { s with point := .roundDone now }
  | .notifying now =>
    some { s with
      lastNotification := s.clock, notified := s.clock :: s.notified, point := .roundDone now }
  | .roundDone now =>
    match sleepTime settings.interval (s.clock - now) with
    | some duration => some { s with nextSleepTime := duration, point := .loopHead }
    | none => some { s with point := .panicked }
  | .exited => none
  | .panicked => none

def step (settings : Settings Handle) (s : State Handle) : Act → Option (State Handle)
  | .elapse duration => some { s with clock := s.clock + duration }
  | .requestStop => some { s with shouldStop := true }
  | .evaluate errors =>
    match s.point with
    | .evaluating now (handle :: rest) =>
      match errors with
      | some errors =>
        some { s with
          point := .evaluating now rest, reported := s.reported ++ errors.map fun e => (handle, e) }
      | none => some { s with point := .panicked }
    | _ => none
  | .advance => advance settings s

/-- No evaluation panics, and when the next sleep time is computed the round has not taken
longer than the interval. -/
def InTime (settings : Settings Handle) (s : State Handle) : Act → Prop
  | .evaluate errors => errors ≠ none
  | .advance =>
    match s.point with
    | .roundDone now => s.clock - now ≤ settings.interval
    | _ => True
  | _ => True

instance (settings : Settings Handle) (s : State Handle) (a : Act) :
    Decidable (InTime settings s a) :=
  match a with
  | .evaluate errors => inferInstanceAs (Decidable (errors ≠ none))
  | .advance =>
    match h : s.point with
    | .roundDone now =>
      decidable_of_iff (s.clock - now ≤ settings.interval) (by simp [InTime, h])
    | .loopHead | .sleeping _ | .evaluating _ _ | .notifying _ | .exited | .panicked =>
      isTrue (by simp [InTime, h])
  | .elapse _ => isTrue trivial
  | .requestStop => isTrue trivial

/-- Why the thread has ended, if it has. -/
def Excused (s : State Handle) : Prop :=
  match s.point with
  | .exited => s.shouldStop = true ∨ s.reported ≠ []
  | .panicked => False
  | .notifying _ | .roundDone _ => s.reported = []
  | _ => True

variable {settings : Settings Handle} {s s' : State Handle}

theorem excused_advance (h : Excused s) (hintime : InTime settings s .advance)
    (hstep : advance settings s = some s') : Excused s' := by
  unfold advance at hstep
  split at hstep
  case h_1 =>
    split at hstep
    · rename_i hstop
      cases hstep
      exact .inl hstop
    · cases hstep
      trivial
  case h_2 =>
    obtain ⟨-, hstep⟩ := Option.ite_none_right_eq_some.mp hstep
    cases hstep
    trivial
  case h_3 => cases hstep
  case h_4 =>
    split at hstep
    · rename_i hreported
      cases hstep
      exact .inr hreported
    · rename_i hreported
      rw [not_not] at hreported
      split at hstep <;> cases hstep <;> exact hreported
  case h_5 now hpoint =>
    cases hstep
    simpa [Excused, hpoint] using h
  case h_6 now hpoint =>
    have hround : s.clock - now ≤ settings.interval := by simpa [InTime, hpoint] using hintime
    rw [sleepTime, if_pos hround] at hstep
    cases hstep
    trivial
  case h_7 => cases hstep
  case h_8 => cases hstep

theorem excused_step {a : Act} (h : Excused s) (hintime : InTime settings s a)
    (hstep : step settings s a = some s') : Excused s' := by
  cases a with
  | elapse duration =>
    cases hstep
    exact h
  | requestStop =>
    cases hstep
    unfold Excused at h ⊢
    split at h <;> simp_all
  | evaluate errors =>
    simp only [step] at hstep
    split at hstep
    · cases errors with
      | some errors =>
        cases hstep
        trivial
      | none => exact absurd rfl hintime
    · cases hstep
  | advance => exact excused_advance h hintime hstep

/-- The thread ends only because of a stop request or a reported error, as long as rounds are short.
-/
theorem ends_only_on_stop_or_error {clock lastNotification : Nat}
    (hrun : Run (step settings) (InTime settings) (start settings clock lastNotification) s) :
    s.point ≠ .panicked ∧ (s.point = .exited → s.shouldStop = true ∨ s.reported ≠ []) := by
  have hstart : Excused (start settings clock lastNotification) := trivial
  have h : Excused s :=
    Run.invariant Excused (fun h hok hstep => excused_step h hok hstep) hstart hrun
  constructor
  · intro hpoint
    simp [Excused, hpoint] at h
  · intro hpoint
    simpa [Excused, hpoint] using h

def sample : Settings Nat := ⟨[7], 50, 100⟩

/-- A good round, then one that takes the whole interval and reports an error. -/
def failingRounds : List Act :=
  [.advance, .elapse 100, .advance, .elapse 30, .evaluate (some []), .advance, .advance, .advance,
    .advance, .elapse 70, .advance, .elapse 100, .evaluate (some [.logic .invalidTransition]),
    .advance]

theorem ends_only_on_stop_or_error_reported :
    ∃ s, Run (step sample) (InTime sample) (start sample 0 0) s ∧ s.point = .exited ∧
      s.notified = [130] ∧ (s.shouldStop = true ∨ s.reported ≠ []) := by
  obtain ⟨s, hrun, hexited, hnotified⟩ :=
    Run.exists_of_exec (step sample) (InTime sample) (start sample 0 0)
      (fun s => s.point = .exited ∧ s.notified = [130]) failingRounds (by decide)
  exact ⟨s, hrun, hexited, hnotified, (ends_only_on_stop_or_error hrun).2 hexited⟩

/-- The evaluation has taken one time unit more than the interval. -/
theorem panics_after_long_round :
    ∃ s, Run (step sample) anyStep (start sample 0 0) s ∧ s.point = .panicked ∧
      s.shouldStop = false ∧ s.reported = [] :=
  Run.exists_of_exec _ _ _ _
    [.advance, .elapse 100, .advance, .elapse 101, .evaluate (some []), .advance, .advance,
      .advance]
    (by decide)

end Worker

end LaunchManager
