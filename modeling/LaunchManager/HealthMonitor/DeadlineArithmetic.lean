import LaunchManager.HealthMonitor.DeadlineCalls

/-!
# The integers of the deadline monitor

`start`, `stop` and `evaluate` with every conversion, addition and subtraction as it
can go wrong: a conversion that panics, a cast that drops bits, and sums and
differences that leave the 32 bits, which panic with overflow checks and wrap
without. Where nothing goes wrong the calls are those of the model on wrapping
integers.
-/

namespace LaunchManager

set_option autoImplicit false

open Runs

def DeadlineStateSnapshot.isStopped (s : DeadlineStateSnapshot) : Bool := (s.word &&& stopped) != 0

namespace DeadlineMonitor

inductive Fault where
  /-- The panic of `duration_to_int`. -/
  | durationTooBig
  /-- A cast with `as` that drops bits. -/
  | truncated
  | overflow
  /-- A failed `debug_assert!`. -/
  | assertion
  deriving DecidableEq, Repr

abbrev Checked := Except Fault

/-- From a duration in nanoseconds. -/
def durationToInt (duration : Nat) : Checked UInt32 :=
  if asMillis duration < 2 ^ 32 then .ok (UInt32.ofNat (asMillis duration))
  else .error .durationTooBig

def asU32 (ms : Nat) : Checked UInt32 :=
  if ms < 2 ^ 32 then .ok (UInt32.ofNat ms) else .error .truncated

def checkedAdd (a b : UInt32) : Checked UInt32 :=
  if a.toNat + b.toNat < 2 ^ 32 then .ok (a + b) else .error .overflow

/-- The sum is formed before the state is looked at. -/
def startInternal (range : TimeRange) (elapsed : Nat) (current : DeadlineStateSnapshot) :
    Checked (Option DeadlineStateSnapshot) := do
  let now ← durationToInt elapsed
  let max ← asU32 range.maxMs
  let maxTime ← checkedAdd now max
  return if current.isRunning || current.isUnderrun then none
    else some ((DeadlineStateSnapshot.default.setTimestampMs maxTime).setRunning)

section Arithmetic
variable {range : TimeRange} {elapsed startTime : Nat} {current : DeadlineStateSnapshot}

end Arithmetic

end DeadlineMonitor

namespace DeadlineCall

end DeadlineCall

namespace DeadlineCalls

open DeadlineMonitor

/-- The clock does not go back; a start and a stop are made, and a running deadline is evaluated,
before `2 ^ 32` milliseconds, and so is the end of a range that is started. -/
def inRange (range : TimeRange) (c : DeadlineCalls) : DeadlineCall → Prop
  | .start now => c.clock ≤ now ∧ now + range.maxMs < 2 ^ 32
  | .stop now => c.clock ≤ now ∧ now < 2 ^ 32
  | .evaluate now => c.clock ≤ now ∧
    (c.state.isUnderrun = false → c.state.isRunning = true → now < 2 ^ 32)

instance (range : TimeRange) (c : DeadlineCalls) :
    (act : DeadlineCall) → Decidable (inRange range c act)
  | .start _ | .stop _ => inferInstanceAs (Decidable (_ ∧ _))
  | .evaluate _ => inferInstanceAs (Decidable (_ ∧ (_ → _ → _)))

section Checked
variable {range : TimeRange} {c c' : DeadlineCalls} {act : DeadlineCall}

theorem isStopped_started (timestamp : UInt32) :
    (DeadlineStateSnapshot.started timestamp).isStopped = true := by
  rw [DeadlineStateSnapshot.isStopped, PackedWord.and_flag (n := 0) rfl,
    DeadlineStateSnapshot.toNat_started, PackedWord.testBit_pack (by decide) (by decide)]
  rfl

variable {s current : DeadlineStateSnapshot}

theorem isStopped_setUnderrun (h : s.isStopped = true) : s.setUnderrun.isStopped = true := by
  rw [DeadlineStateSnapshot.isStopped, PackedWord.and_flag (n := 0) rfl] at h ⊢
  rw [DeadlineStateSnapshot.setUnderrun, UInt64.toNat_or, Nat.testBit_or, h]
  rfl

theorem isStopped_startUpdate {now : UInt32}
    (h : startUpdate range now current = some s) : s.isStopped = true := by
  unfold startUpdate at h
  split at h
  · cases h
  · cases h
    exact isStopped_started _

theorem isStopped_stopUpdate {now : UInt32}
    (hcurrent : current.isStopped = true) (h : stopUpdate range now current = some s) :
    s.isStopped = true := by
  unfold stopUpdate at h
  dsimp only at h
  split at h
  · cases h
  · split at h
    · cases h
      exact isStopped_setUnderrun hcurrent
    · cases h
      rfl

/-- What the runs keep: the word is in step with the history, and its stopped bit is never
cleared. -/
structure Kept (range : TimeRange) (c : DeadlineCalls) : Prop where
  tracks : Tracks range c
  stopped : c.state.isStopped = true

theorem Kept.step (h : Kept range c) (hok : inRange range c act)
    (hstep : step range c act = some c') : Kept range c' := by
  cases act with
  | start now =>
    have hfits : fits range c (.start now) := hok
    refine ⟨(h.tracks.step hfits hstep).1, ?_⟩
    cases hhandle : c.handle with
    | some startTime => simp [DeadlineCalls.step, call, hhandle] at hstep
    | none =>
      cases hupdate : startUpdate range (UInt32.ofNat now) c.state with
      | none =>
        simp only [DeadlineCalls.step, call, hhandle, hupdate, Option.map_some,
          Option.some.injEq] at hstep
        subst hstep
        exact h.stopped
      | some s =>
        simp only [DeadlineCalls.step, call, hhandle, hupdate, Option.map_some,
          Option.some.injEq] at hstep
        subst hstep
        exact isStopped_startUpdate hupdate
  | stop now =>
    have hfits : fits range c (.stop now) := hok
    refine ⟨(h.tracks.step hfits hstep).1, ?_⟩
    cases hhandle : c.handle with
    | none => simp [DeadlineCalls.step, call, hhandle] at hstep
    | some startTime =>
      simp only [DeadlineCalls.step, call, hhandle, Option.map_some, Option.some.injEq] at hstep
      subst hstep
      cases hupdate : stopUpdate range (UInt32.ofNat now) c.state with
      | none => exact h.stopped
      | some s => exact isStopped_stopUpdate h.stopped hupdate
  | evaluate now =>
    cases hstep
    exact ⟨h.tracks.evaluate hok.1, h.stopped⟩

end Checked

end DeadlineCalls

end LaunchManager
