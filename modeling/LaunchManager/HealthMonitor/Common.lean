import Mathlib.Data.Nat.Init

/-!
# Time and errors of the health monitor

Durations are in nanoseconds, the timestamps of the monitors in whole
milliseconds.
-/

namespace LaunchManager

set_option autoImplicit false

inductive HealthMonitorError where
  | notFound
  | invalidArgument
  | wrongState
  deriving DecidableEq, Repr

def asMillis (duration : Nat) : Nat := duration / 1000000

structure TimeRange where
  min : Nat
  max : Nat
  min_le_max : min ≤ max

def TimeRange.minMs (range : TimeRange) : Nat := asMillis range.min

def TimeRange.maxMs (range : TimeRange) : Nat := asMillis range.max

theorem asMillis_mono {a b : Nat} (h : a ≤ b) : asMillis a ≤ asMillis b := Nat.div_le_div_right h

theorem TimeRange.minMs_le_maxMs (range : TimeRange) : range.minMs ≤ range.maxMs :=
  asMillis_mono range.min_le_max

theorem asMillis_add_mul (a ms : Nat) : asMillis (a + ms * 1000000) = asMillis a + ms :=
  Nat.add_mul_div_right a ms (by decide)

theorem asMillis_add_le (a b : Nat) : asMillis a + asMillis b ≤ asMillis (a + b) := by
  unfold asMillis
  omega

end LaunchManager
