import LaunchManager.HealthMonitor.DeadlineMonitor

/-!
# One deadline, call by call

The calls `start`, `stop` and `evaluate` on a single deadline, one after the other,
each with the clock reading it makes. A deadline that was started can only be
stopped, through the handle that the start returned; a start that fails returns no
handle. The updates of the state word are those of the deadline monitor.
-/

namespace LaunchManager

set_option autoImplicit false

open Runs

namespace DeadlineMonitor

/-- `possible_err` of `stop_internal`: the error and by how many milliseconds. -/
def possibleErr (range : TimeRange) (now : UInt32) (current : DeadlineStateSnapshot) :
    Option (DeadlineEvaluationError × UInt32) :=
  let expected := current.timestampMs
  if expected < now then some (.tooLate, now - expected)
  else
    let startTime := expected - UInt32.ofNat range.maxMs
    let earliestTime := startTime + UInt32.ofNat range.minMs
    if now < earliestTime then some (.tooEarly, earliestTime - now)
    else none

def evaluateOne (now : UInt32) (snapshot : DeadlineStateSnapshot) :
    Option DeadlineEvaluationError :=
  if snapshot.isUnderrun then some .tooEarly
  else if snapshot.isRunning then
    if now > snapshot.timestampMs then some .tooLate else none
  else none

theorem run_evaluate {ι : Type} [DecidableEq ι] {ranges : ι → TimeRange} {deadlines : List ι}
    {m : DeadlineMonitor ι} {d : ι} {rest : List ι} {now : UInt32}
    (hevaluator : m.evaluator = .loop (d :: rest)) (hnow : m.now = some now) :
    Run (step ranges deadlines) anyStep m { m with
      evaluator := .loop rest
      reports := ((evaluateOne now (m.activeDeadlines d)).map (d, ·)).toList ++ m.reports } := by
  have hload : step ranges deadlines m .load = some (m.load d rest) := by
    simp only [step, hevaluator]
  cases hunderrun : (m.activeDeadlines d).isUnderrun with
  | true =>
    refine .single (a := .load) trivial (hload.trans ?_)
    simp [load, evaluateOne, hunderrun]
  | false =>
    cases hrunning : (m.activeDeadlines d).isRunning with
    | false =>
      refine .single (a := .load) trivial (hload.trans ?_)
      simp [load, evaluateOne, hunderrun, hrunning]
    | true =>
      have hloaded : m.load d rest =
          { m with evaluator := .loaded d (m.activeDeadlines d) rest } := by
        simp [load, hunderrun, hrunning]
      rw [hloaded] at hload
      refine (Run.single (a := .load) trivial hload).tail (a := .readClock) trivial ?_
      have hnow' : DeadlineMonitor.now
          { m with evaluator := .loaded d (m.activeDeadlines d) rest } = some now := hnow
      simp only [step, hnow', compare, evaluateOne, hunderrun, hrunning]
      split <;> simp_all

end DeadlineMonitor

inductive DeadlineCall where
  | start (now : Nat)
  | stop (now : Nat)
  | evaluate (now : Nat)
  deriving DecidableEq, Repr

inductive DeadlineOutcome where
  | started
  | alreadyFailed
  | stopped (error : Option DeadlineEvaluationError)
  | evaluated (report : Option DeadlineEvaluationError)
  deriving DecidableEq, Repr

/-- `clock` is the latest reading and `handle` the reading of the start that is not stopped yet.
`violation` is a history variable: what the stop that failed has found. -/
structure DeadlineCalls where
  state : DeadlineStateSnapshot := .default
  clock : Nat := 0
  handle : Option Nat := none
  violation : Option DeadlineEvaluationError := none
  deriving DecidableEq

namespace DeadlineCalls

open DeadlineMonitor

def call (range : TimeRange) (c : DeadlineCalls) :
    DeadlineCall → Option (DeadlineCalls × DeadlineOutcome)
  | .start now =>
    match c.handle with
    | some _ => none
    | none =>
      match startUpdate range (UInt32.ofNat now) c.state with
      | some s => some ({ c with state := s, clock := now, handle := some now }, .started)
      | none => some ({ c with clock := now }, .alreadyFailed)
  | .stop now =>
    match c.handle with
    | none => none
    | some _ =>
      let error := (possibleErr range (UInt32.ofNat now) c.state).map Prod.fst
      some ({
        state := (stopUpdate range (UInt32.ofNat now) c.state).getD c.state
        clock := now
        handle := none
        violation := error }, .stopped error)
  | .evaluate now =>
    some ({ c with clock := now }, .evaluated (evaluateOne (UInt32.ofNat now) c.state))

def step (range : TimeRange) (c : DeadlineCalls) (act : DeadlineCall) : Option DeadlineCalls :=
  (call range c act).map Prod.fst

/-- The clock does not go back, and neither its readings nor the end of a range that is started
overflow. -/
def fits (range : TimeRange) (c : DeadlineCalls) : DeadlineCall → Prop
  | .start now => c.clock ≤ now ∧ now + range.maxMs < 2 ^ 32
  | .stop now | .evaluate now => c.clock ≤ now ∧ now < 2 ^ 32

instance (range : TimeRange) (c : DeadlineCalls) :
    (act : DeadlineCall) → Decidable (fits range c act)
  | .start _ => inferInstanceAs (Decidable (_ ∧ _))
  | .stop _ | .evaluate _ => inferInstanceAs (Decidable (_ ∧ _))

def Tracks (range : TimeRange) (c : DeadlineCalls) : Prop :=
  match c.violation, c.handle with
  | none, none => c.state = .default
  | none, some startTime =>
    c.state = .started (UInt32.ofNat (startTime + range.maxMs)) ∧ startTime + range.maxMs < 2 ^ 32
  | some .tooEarly, handle => handle = none ∧ c.state.isUnderrun = true
  | some .tooLate, handle => handle = none ∧ c.state.isUnderrun = false ∧
    c.state.isRunning = true ∧ c.state.timestampMs.toNat < c.clock

section Tracks
variable {range : TimeRange} {c c' : DeadlineCalls} {startTime now : Nat}

theorem possibleErr_started_eq (hfits : startTime + range.maxMs < 2 ^ 32) (hnow : now < 2 ^ 32) :
    (possibleErr range (UInt32.ofNat now)
        (.started (UInt32.ofNat (startTime + range.maxMs)))).map Prod.fst =
      if startTime + range.maxMs < now then some .tooLate
      else if now < startTime + range.minMs then some .tooEarly
      else none := by
  simp only [possibleErr, DeadlineStateSnapshot.timestampMs_started, expired_iff hfits hnow,
    early_iff hfits hnow]
  split
  · rfl
  · split <;> rfl

theorem evaluateOne_started (hfits : startTime + range.maxMs < 2 ^ 32) (hnow : now < 2 ^ 32) :
    evaluateOne (UInt32.ofNat now) (.started (UInt32.ofNat (startTime + range.maxMs))) =
      if startTime + range.maxMs < now then some .tooLate else none := by
  simp only [evaluateOne, DeadlineStateSnapshot.isUnderrun_started,
    DeadlineStateSnapshot.isRunning_started, DeadlineStateSnapshot.timestampMs_started,
    gt_iff_lt, expired_iff hfits hnow, Bool.false_eq_true, if_false, if_true]

theorem Tracks.start (h : Tracks range c) (hhandle : c.handle = none)
    (hviolation : c.violation = none) : call range c (.start now) = some ({ c with
      state := .started (UInt32.ofNat (now + range.maxMs))
      clock := now
      handle := some now }, .started) := by
  have hstate : c.state = .default := by
    unfold Tracks at h
    rwa [hviolation, hhandle] at h
  simp only [call, hhandle, hstate, startUpdate_default]

theorem Tracks.stop (h : Tracks range c) (hhandle : c.handle = some startTime) :
    c.violation = none ∧
      c.state = .started (UInt32.ofNat (startTime + range.maxMs)) ∧
      startTime + range.maxMs < 2 ^ 32 := by
  unfold Tracks at h
  rw [hhandle] at h
  cases hviolation : c.violation with
  | none =>
    rw [hviolation] at h
    exact ⟨rfl, h⟩
  | some e =>
    rw [hviolation] at h
    cases e <;> cases h.1

variable {e : DeadlineEvaluationError}

theorem Tracks.violated (h : Tracks range c) (hviolation : c.violation = some e) (now : Nat) :
    c.handle = none ∧ call range c (.start now) = some ({ c with clock := now }, .alreadyFailed) ∧
      (c.clock ≤ now → now < 2 ^ 32 → evaluateOne (UInt32.ofNat now) c.state = some e) := by
  unfold Tracks at h
  rw [hviolation] at h
  cases e with
  | tooEarly =>
    obtain ⟨hhandle, hunderrun⟩ := h
    refine ⟨hhandle, ?_, fun _ _ => ?_⟩
    · simp [call, hhandle, startUpdate, hunderrun]
    · simp [evaluateOne, hunderrun]
  | tooLate =>
    obtain ⟨hhandle, hunderrun, hrunning, hlate⟩ := h
    refine ⟨hhandle, ?_, fun hclock hnow => ?_⟩
    · simp [call, hhandle, startUpdate, hrunning]
    · have hexpired : UInt32.ofNat now > c.state.timestampMs := by
        rw [gt_iff_lt, UInt32.lt_iff_toNat_lt, UInt32.toNat_ofNat_of_lt' hnow]
        omega
      simp [evaluateOne, hunderrun, hrunning, hexpired]

theorem tracks_stopped (hfits : startTime + range.maxMs < 2 ^ 32) (hnow : now < 2 ^ 32) :
    let state := .started (UInt32.ofNat (startTime + range.maxMs))
    Tracks range
      { state := (stopUpdate range (UInt32.ofNat now) state).getD state
        clock := now
        handle := none
        violation := (possibleErr range (UInt32.ofNat now) state).map Prod.fst } := by
  intro state
  have htimestamp : state.timestampMs.toNat = startTime + range.maxMs := by
    rw [DeadlineStateSnapshot.timestampMs_started, UInt32.toNat_ofNat_of_lt' hfits]
  rw [Tracks, possibleErr_started_eq hfits hnow, stopUpdate_started_eq hfits hnow]
  by_cases hlate : startTime + range.maxMs < now
  · simp only [if_pos hlate]
    exact ⟨trivial, DeadlineStateSnapshot.isUnderrun_started _,
      DeadlineStateSnapshot.isRunning_started _, by rw [Option.getD_none, htimestamp]; exact hlate⟩
  · by_cases hearly : now < startTime + range.minMs
    · simp only [if_neg hlate, if_pos hearly]
      exact ⟨trivial, DeadlineStateSnapshot.isUnderrun_setUnderrun _⟩
    · simp only [if_neg hlate, if_neg hearly, Option.getD_some]

theorem Tracks.evaluate (h : Tracks range c) (hclock : c.clock ≤ now) :
    Tracks range { c with clock := now } := by
  unfold Tracks at h ⊢
  dsimp only
  split at h
  · exact h
  · exact h
  · exact h
  · exact ⟨h.1, h.2.1, h.2.2.1, by omega⟩

theorem Tracks.step {act : DeadlineCall} (h : Tracks range c) (hfits : fits range c act)
    (hstep : step range c act = some c') :
    Tracks range c' ∧ ∀ e, c.violation = some e → c'.violation = some e := by
  cases act with
  | start now =>
    obtain ⟨hclock, hfits⟩ := hfits
    cases hviolation : c.violation with
    | some e =>
      rw [DeadlineCalls.step, (h.violated hviolation now).2.1] at hstep
      cases hstep
      exact ⟨h.evaluate hclock, fun e' he' => hviolation.trans he'⟩
    | none =>
      refine ⟨?_, nofun⟩
      cases hhandle : c.handle with
      | some startTime => simp [DeadlineCalls.step, call, hhandle] at hstep
      | none =>
        rw [DeadlineCalls.step, h.start hhandle hviolation] at hstep
        cases hstep
        rw [Tracks]
        simp only [hviolation]
        exact ⟨trivial, hfits⟩
  | stop now =>
    obtain ⟨hclock, hnow⟩ := hfits
    cases hhandle : c.handle with
    | none => simp [DeadlineCalls.step, call, hhandle] at hstep
    | some startTime =>
      obtain ⟨hviolation, hstate, hend⟩ := h.stop hhandle
      simp only [DeadlineCalls.step, call, hhandle, hstate, Option.map_some,
        Option.some.injEq] at hstep
      subst hstep
      refine ⟨tracks_stopped hend hnow, fun e he => ?_⟩
      rw [hviolation] at he
      cases he
  | evaluate now =>
    cases hstep
    exact ⟨h.evaluate hfits.1, fun e he => he⟩

theorem tracks_of_run (run : Run (DeadlineCalls.step range) (fits range) {} c) :
    Tracks range c := by
  have hfresh : Tracks range {} := by
    unfold Tracks
    rfl
  exact run.invariant (Tracks range) (fun h hfits hstep => (h.step hfits hstep).1) hfresh

theorem violation_of_run (h : Tracks range c)
    (hviolation : c.violation = some e) (run : Run (DeadlineCalls.step range) (fits range) c c') :
    Tracks range c' ∧ c'.violation = some e :=
  run.invariant (fun c => Tracks range c ∧ c.violation = some e)
    (fun h hfits hstep => ⟨(h.1.step hfits hstep).1, (h.1.step hfits hstep).2 e h.2⟩)
    ⟨h, hviolation⟩

end Tracks

/-- A stop is accepted exactly within the range of its start, and a violation is reported from then
on. -/
theorem calls_follow_range (range : TimeRange) {c : DeadlineCalls}
    (run : Run (step range) (fits range) {} c) :
    (∀ startTime ∈ c.handle, ∀ now, c.clock ≤ now → now < 2 ^ 32 →
      (∃ c' error, call range c (.stop now) = some (c', .stopped error) ∧ c'.violation = error ∧
        (error = none ↔ startTime + range.minMs ≤ now ∧ now ≤ startTime + range.maxMs) ∧
        (error = some .tooEarly ↔ now < startTime + range.minMs) ∧
        (error = some .tooLate ↔ startTime + range.maxMs < now)) ∧
      ∃ c' report, call range c (.evaluate now) = some (c', .evaluated report) ∧
        report = if startTime + range.maxMs < now then some .tooLate else none) ∧
    (c.violation = none → c.handle = none → ∀ now, c.clock ≤ now → now + range.maxMs < 2 ^ 32 →
      ∃ c', call range c (.start now) = some (c', .started) ∧ c'.handle = some now) ∧
    ∀ e ∈ c.violation, ∀ later, Run (step range) (fits range) c later → ∀ now, later.clock ≤ now →
      (∃ c', call range later (.start now) = some (c', .alreadyFailed)) ∧
      (now < 2 ^ 32 → ∃ c', call range later (.evaluate now) =
        some (c', .evaluated (some e))) := by
  have h := tracks_of_run run
  refine ⟨fun startTime hhandle now hclock hnow => ?_, fun hviolation hhandle now _ _ => ?_,
    fun e hviolation later hlater now hclock => ?_⟩
  · obtain ⟨-, hstate, hend⟩ := h.stop hhandle
    have hmin := range.minMs_le_maxMs
    have hstop : ∃ c', call range c (.stop now) = some (c', .stopped c'.violation) ∧
        c'.violation = (possibleErr range (UInt32.ofNat now) c.state).map Prod.fst := by
      simp only [call, Option.mem_def.mp hhandle]
      exact ⟨_, rfl, rfl⟩
    obtain ⟨c', hcall, herror⟩ := hstop
    refine ⟨⟨c', _, hcall, rfl, ?_⟩, _, _, rfl, by rw [hstate, evaluateOne_started hend hnow]⟩
    rw [herror, hstate, possibleErr_started_eq hend hnow]
    split
    · refine ⟨⟨nofun, fun hin => ?_⟩, ⟨nofun, fun hin => ?_⟩, fun _ => ‹_›, fun _ => rfl⟩ <;> omega
    · split
      · refine ⟨⟨nofun, fun hin => ?_⟩, ⟨fun _ => ‹_›, fun _ => rfl⟩, nofun, fun hin => ?_⟩ <;>
          omega
      · refine ⟨⟨fun _ => by omega, fun _ => rfl⟩, ⟨nofun, fun hin => ?_⟩, nofun, fun hin => ?_⟩ <;>
          omega
  · exact ⟨_, h.start hhandle hviolation, rfl⟩
  · obtain ⟨htracks, hlaterViolation⟩ := violation_of_run h hviolation hlater
    obtain ⟨-, hstart, hreport⟩ := htracks.violated hlaterViolation now
    refine ⟨⟨_, hstart⟩, fun hnow => ⟨{ later with clock := now }, ?_⟩⟩
    rw [call, hreport hclock hnow]

theorem calls_follow_range_early :
    ∃ c, Run (step ⟨10000000, 20000000, by decide⟩) (fits ⟨10000000, 20000000, by decide⟩) {} c ∧
      c.violation = some .tooEarly ∧
      ∃ c', call ⟨10000000, 20000000, by decide⟩ c (.evaluate 100) =
        some (c', .evaluated (some .tooEarly)) := by
  obtain ⟨c, run, hviolation, hclock⟩ := Run.exists_of_exec
    (step ⟨10000000, 20000000, by decide⟩) (fits ⟨10000000, 20000000, by decide⟩) {}
    (fun c => c.violation = some .tooEarly ∧ c.clock = 55)
    [.start 5, .evaluate 12, .stop 25, .start 50, .stop 55] (by decide +kernel)
  have h := (calls_follow_range _ run).2.2 .tooEarly hviolation c (.refl c) 100 (by omega)
  exact ⟨c, run, hviolation, h.2 (by decide)⟩

end DeadlineCalls

end LaunchManager
