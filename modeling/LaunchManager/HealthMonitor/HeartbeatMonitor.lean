import LaunchManager.Library.PackedWord
import LaunchManager.Library.Runs
import LaunchManager.HealthMonitor.Common
import Mathlib.Tactic.IntervalCases

/-!
# The heartbeat monitor

A heartbeat writes its timestamp and raises a two-bit counter in one word. The
evaluation loads the timestamp of the last accepted heartbeat, reads the clock,
takes the word by a swap and judges it. Times of the clock are in nanoseconds
since the starting point of the monitor.
-/

namespace LaunchManager

open List

set_option autoImplicit false

open Runs

inductive HeartbeatEvaluationError where
  | tooEarly
  | tooLate
  | multipleHeartbeats
  deriving DecidableEq, Repr

structure InternalRange where
  min : Nat
  max : Nat
  min_le_max : min ≤ max

/-- The range of the monitor; `none` when the processing cycle is refused or the range does not
fit. -/
def HeartbeatMonitorBuilder.build (range : TimeRange) (internalProcessingCycle : Nat) :
    Option InternalRange :=
  let rangeMinMs := range.minMs % 2 ^ 64
  let internalProcessingCycleMs := asMillis internalProcessingCycle % 2 ^ 64
  if rangeMinMs * 2 % 2 ^ 64 ≤ internalProcessingCycleMs then none
  else if range.maxMs < 2 ^ 64 then some ⟨range.minMs, range.maxMs, range.minMs_le_maxMs⟩
  else none

theorem HeartbeatMonitorBuilder.build_eq_some {range : TimeRange} {cycle : Nat} {r : InternalRange}
    (h : build range cycle = some r) : r.min = range.minMs ∧ r.max = range.maxMs ∧ 0 < r.min := by
  unfold build at h
  dsimp only at h
  split at h
  · cases h
  · rename_i hcycle
    split at h
    · cases h
      refine ⟨rfl, rfl, Nat.pos_of_ne_zero fun hzero => hcycle ?_⟩
      change range.minMs = 0 at hzero
      rw [hzero]
      exact Nat.zero_le _
    · cases h

/-- The timestamp has the upper 62 bits of the word, the counter the lower two. -/
structure HeartbeatStateSnapshot where
  word : UInt64
  deriving DecidableEq, Repr

namespace HeartbeatStateSnapshot

def beatMask : UInt64 := 0xFFFFFFFFFFFFFFFC
def beatOffset : UInt64 := 2
def countMask : UInt64 := 0b0011

def new : HeartbeatStateSnapshot := ⟨0⟩

variable (s : HeartbeatStateSnapshot)

def heartbeatTimestamp : UInt64 := (s.word &&& beatMask) >>> beatOffset

def setHeartbeatTimestamp (value : Nat) : Option HeartbeatStateSnapshot :=
  if value < 2 ^ 62 then some ⟨(UInt64.ofNat value <<< beatOffset) ||| (s.word &&& ~~~beatMask)⟩
  else none

def counter : UInt8 := (s.word &&& countMask).toUInt8

def incrementCounter : HeartbeatStateSnapshot :=
  ⟨(min (s.counter + 1) 3).toUInt64 ||| (s.word &&& ~~~countMask)⟩

structure Encodes (s : HeartbeatStateSnapshot) (timestamp count : Nat) : Prop where
  word : s.word.toNat = 2 ^ 2 * timestamp + count
  count_lt : count < 2 ^ 2

variable {s} {timestamp count : Nat}

theorem encodes_new : new.Encodes 0 0 := ⟨rfl, by decide⟩

theorem Encodes.timestamp_eq (h : s.Encodes timestamp count) :
    s.heartbeatTimestamp.toNat = timestamp := by
  have hlt := h.count_lt
  rw [heartbeatTimestamp, PackedWord.toNat_high (by decide) (by decide), h.word]
  change (2 ^ 2 * timestamp + count) / 2 ^ 2 = timestamp
  omega

theorem Encodes.counter_eq (h : s.Encodes timestamp count) : s.counter = UInt8.ofNat count := by
  have hlt := h.count_lt
  apply UInt8.toNat_inj.mp
  rw [counter, UInt64.toNat_toUInt8, PackedWord.toNat_low (n := 2) (by decide), h.word,
    UInt8.toNat_ofNat']
  omega

theorem Encodes.setHeartbeatTimestamp (h : s.Encodes timestamp count) {value : Nat}
    (hvalue : value < 2 ^ 62) :
    ∃ s', s.setHeartbeatTimestamp value = some s' ∧ s'.Encodes value count := by
  have hlt := h.count_lt
  have hlow : (s.word &&& ~~~beatMask).toNat = count := by
    rw [PackedWord.toNat_low (n := 2) (by decide), h.word]
    omega
  have hhigh : (UInt64.ofNat value).toNat = value :=
    UInt64.toNat_ofNat_of_lt' (Nat.lt_of_lt_of_le hvalue (by decide))
  refine ⟨_, if_pos hvalue, ?_, hlt⟩
  rw [PackedWord.toNat_pack (by decide) (by rw [hhigh]; exact hvalue) (by rw [hlow]; exact hlt),
    hhigh, hlow]
  rfl

theorem Encodes.incrementCounter (h : s.Encodes timestamp count) :
    s.incrementCounter.Encodes timestamp (min (count + 1) 3) := by
  have hlt := h.count_lt
  have hcount : (min (s.counter + 1) 3).toUInt64.toNat = min (count + 1) 3 := by
    rw [h.counter_eq]
    interval_cases count <;> rfl
  have hrest : (s.word &&& ~~~countMask).toNat = 2 ^ 2 * timestamp := by
    rw [PackedWord.toNat_clear (n := 2) (by decide) (by decide) (by decide), h.word]
    omega
  refine ⟨?_, by omega⟩
  rw [HeartbeatStateSnapshot.incrementCounter,
    PackedWord.toNat_or_low (n := 2) (by omega) hrest, hcount]

end HeartbeatStateSnapshot

inductive HeartbeatEvaluator where
  | idle
  | started (startTimestamp : Nat)
  | timed (startTimestamp monitorNow : Nat)
  deriving DecidableEq, Repr

/-- The last three members are history variables: the clock readings of the recorded heartbeats
with the latest first, how many of them no evaluation has taken, and the time of the last
evaluation. -/
structure HeartbeatMonitor where
  clock : Nat := 0
  startTimestamp : Nat := 0
  heartbeatState : HeartbeatStateSnapshot := .new
  evaluator : HeartbeatEvaluator := .idle
  reports : List HeartbeatEvaluationError := []
  heartbeats : List Nat := []
  pending : Nat := 0
  lastEvaluation : Nat

namespace HeartbeatMonitor

/-- The monitor of a health monitor that is started at `hmonStart`. -/
def create (hmonStart : Nat) : HeartbeatMonitor where
  lastEvaluation := hmonStart

inductive Act where
  | tick (ns : Nat)
  | heartbeat (reading : Nat)
  | evaluate
  | readClock
  | reset
  deriving DecidableEq, Repr

/-- What `evaluate` makes of a snapshot: an error, or the timestamp of a heartbeat that starts a
new cycle. -/
def judge (range : InternalRange) (startTimestamp monitorNow : Nat)
    (snapshot : HeartbeatStateSnapshot) : Except HeartbeatEvaluationError (Option Nat) :=
  let heartbeatTimestamp := snapshot.heartbeatTimestamp.toNat
  let rangeMin := range.min + startTimestamp
  let rangeMax := range.max + startTimestamp
  if snapshot.counter > 1 then .error .multipleHeartbeats
  else if snapshot.counter = 0 then
    if monitorNow > rangeMax then .error .tooLate else .ok none
  else if heartbeatTimestamp < rangeMin then .error .tooEarly
  else if heartbeatTimestamp > rangeMax then .error .tooLate
  else .ok (some heartbeatTimestamp)

/-- The last part of `evaluate`, from the reset of the word on. -/
def conclude (m : HeartbeatMonitor) (range : InternalRange) (startTimestamp monitorNow : Nat) :
    HeartbeatMonitor :=
  let taken := { m with
    heartbeatState := .new
    evaluator := .idle
    pending := 0
    lastEvaluation := m.clock }
  match judge range startTimestamp monitorNow m.heartbeatState with
  | .error e => { taken with reports := e :: m.reports }
  | .ok none => taken
  | .ok (some timestamp) => { taken with startTimestamp := timestamp }

/-- The first heartbeat is measured from the start of the health monitor. -/
def cycleStart (hmonStart startTimestamp : Nat) : Nat :=
  if startTimestamp > 0 then startTimestamp else asMillis hmonStart

/-- A heartbeat may be recorded some time after it has read the clock. -/
def step (range : InternalRange) (hmonStart : Nat) (m : HeartbeatMonitor) :
    Act → Option HeartbeatMonitor
  | .tick ns => some { m with clock := m.clock + ns }
  | .heartbeat reading =>
    if reading ≤ m.clock then
      (m.heartbeatState.setHeartbeatTimestamp (asMillis reading)).map fun s =>
        { m with
          heartbeatState := s.incrementCounter
          heartbeats := reading :: m.heartbeats
          pending := m.pending + 1 }
    else none
  | .evaluate =>
    match m.evaluator with
    | .idle => some { m with evaluator := .started m.startTimestamp }
    | _ => none
  | .readClock =>
    match m.evaluator with
    | .started startTimestamp =>
      if hmonStart ≤ m.clock then
        let offset := asMillis hmonStart
        let monitorNow := offset + asMillis (m.clock - hmonStart)
        some { m with evaluator := .timed startTimestamp monitorNow }
      else none
    | _ => none
  | .reset =>
    match m.evaluator with
    | .timed startTimestamp monitorNow =>
      let start := cycleStart hmonStart startTimestamp
      if range.max + start < 2 ^ 64 then some (m.conclude range start monitorNow) else none
    | _ => none

/-- The instant that a heartbeat after these ones is measured from, in nanoseconds. -/
def previous (hmonStart : Nat) : List Nat → Nat
  | [] => hmonStart
  | reading :: _ => reading

def taken (m : HeartbeatMonitor) : List Nat := m.heartbeats.drop m.pending

def fresh (m : HeartbeatMonitor) : List Nat := m.heartbeats.take m.pending

section Invariant
variable {range : InternalRange} {hmonStart : Nat} {m m' : HeartbeatMonitor}

/-- As long as no error was reported, the monitor knows the last heartbeat that it has taken, and
the word tells of those since then. -/
structure Tracks (hmonStart : Nat) (m : HeartbeatMonitor) : Prop where
  pending_le : m.pending ≤ m.heartbeats.length
  word : m.heartbeatState.Encodes
    (match m.fresh with | [] => 0 | reading :: _ => asMillis reading) (min m.pending 3)
  start : m.reports = [] →
    m.startTimestamp = match m.taken with | [] => 0 | reading :: _ => asMillis reading
  positive : m.reports = [] → ∀ reading ∈ m.taken, 0 < asMillis reading
  evaluator : match m.evaluator with
    | .idle => True
    | .started startTimestamp => startTimestamp = m.startTimestamp
    | .timed startTimestamp _ => startTimestamp = m.startTimestamp

theorem Tracks.create (hmonStart : Nat) : Tracks hmonStart (create hmonStart) where
  pending_le := le_rfl
  word := HeartbeatStateSnapshot.encodes_new
  start := fun _ => rfl
  positive := fun _ _ h => nomatch h
  evaluator := trivial

theorem judge_eq {s : HeartbeatStateSnapshot} {timestamp count start now : Nat}
    (h : s.Encodes timestamp count) : judge range start now s =
      if 1 < count then .error .multipleHeartbeats
      else if count = 0 then
        if range.max + start < now then .error .tooLate else .ok none
      else if timestamp < range.min + start then .error .tooEarly
      else if range.max + start < timestamp then .error .tooLate
      else .ok (some timestamp) := by
  have hlt := h.count_lt
  unfold judge
  dsimp only
  rw [h.timestamp_eq, h.counter_eq]
  interval_cases count <;> rfl

theorem Tracks.cycleStart_eq (h : Tracks hmonStart m) (hnone : m.reports = []) :
    cycleStart hmonStart m.startTimestamp = asMillis (previous hmonStart m.taken) := by
  have hstart := h.start hnone
  have hpositive := h.positive hnone
  cases htaken : m.taken with
  | nil =>
    rw [htaken] at hstart
    rw [hstart]
    rfl
  | cons reading rest =>
    rw [htaken] at hstart hpositive
    rw [hstart]
    exact if_pos (hpositive reading mem_cons_self)

theorem Tracks.heartbeat (h : Tracks hmonStart m) {reading : Nat}
    (hstep : step range hmonStart m (.heartbeat reading) = some m') : Tracks hmonStart m' := by
  rw [step] at hstep
  split at hstep
  · obtain ⟨s, hset, rfl⟩ := Option.map_eq_some_iff.mp hstep
    have hvalue : asMillis reading < 2 ^ 62 := by
      by_contra hnot
      rw [HeartbeatStateSnapshot.setHeartbeatTimestamp, if_neg hnot] at hset
      cases hset
    obtain ⟨s', hset', hencodes⟩ := h.word.setHeartbeatTimestamp hvalue
    obtain rfl : s' = s := Option.some.inj (hset'.symm.trans hset)
    refine ⟨Nat.succ_le_succ h.pending_le, ?_, h.start, h.positive, h.evaluator⟩
    have hcount : min (min m.pending 3 + 1) 3 = min (m.pending + 1) 3 := by omega
    exact hcount ▸ hencodes.incrementCounter
  · cases hstep

theorem Tracks.judge_cases (h : Tracks hmonStart m) (range : InternalRange) (start now : Nat) :
    (∃ e, judge range start now m.heartbeatState = .error e) ∨
    (judge range start now m.heartbeatState = .ok none ∧ m.pending = 0 ∧
      now ≤ range.max + start) ∨
    ∃ reading, judge range start now m.heartbeatState = .ok (some (asMillis reading)) ∧
      m.pending = 1 ∧ m.heartbeats = reading :: m.taken ∧
      range.min + start ≤ asMillis reading ∧ asMillis reading ≤ range.max + start := by
  have hle := h.pending_le
  rw [judge_eq h.word]
  by_cases hmultiple : 1 < min m.pending 3
  · exact .inl ⟨_, if_pos hmultiple⟩
  rw [if_neg hmultiple]
  by_cases hzero : m.pending = 0
  · rw [if_pos (by omega)]
    by_cases hlate : range.max + start < now
    · exact .inl ⟨_, if_pos hlate⟩
    · exact .inr (.inl ⟨if_neg hlate, hzero, Nat.not_lt.mp hlate⟩)
  · have hone : m.pending = 1 := by omega
    rw [if_neg (by omega)]
    unfold fresh taken
    rw [hone] at hle ⊢
    cases hbeats : m.heartbeats with
    | nil =>
      rw [hbeats] at hle
      cases hle
    | cons reading rest =>
      change (∃ e, (if asMillis reading < _ then _ else _) = _) ∨ _
      by_cases hearly : asMillis reading < range.min + start
      · exact .inl ⟨_, if_pos hearly⟩
      by_cases hlate : range.max + start < asMillis reading
      · exact .inl ⟨_, (if_neg hearly).trans (if_pos hlate)⟩
      · exact .inr (.inr ⟨reading, (if_neg hearly).trans (if_neg hlate), rfl, rfl,
          Nat.not_lt.mp hearly, Nat.not_lt.mp hlate⟩)

theorem Tracks.conclude (h : Tracks hmonStart m) (hmin : 0 < range.min) (start now : Nat) :
    Tracks hmonStart (m.conclude range start now) := by
  unfold HeartbeatMonitor.conclude
  rcases h.judge_cases range start now with
    ⟨e, hjudge⟩ | ⟨hjudge, hzero, -⟩ | ⟨reading, hjudge, -, hbeats, hearly, -⟩
  · rw [hjudge]
    exact ⟨Nat.zero_le _, HeartbeatStateSnapshot.encodes_new, (fun hnil => nomatch hnil),
      (fun hnil => nomatch hnil), trivial⟩
  · rw [hjudge]
    have htaken : m.taken = m.heartbeats := by rw [taken, hzero, drop_zero]
    have hstart := h.start
    have hpositive := h.positive
    rw [htaken] at hstart hpositive
    exact ⟨Nat.zero_le _, HeartbeatStateSnapshot.encodes_new, hstart, hpositive, trivial⟩
  · rw [hjudge]
    refine ⟨Nat.zero_le _, HeartbeatStateSnapshot.encodes_new, fun _ => ?_, fun hnone => ?_,
      trivial⟩
    · change asMillis reading = match m.heartbeats with | [] => 0 | reading :: _ => asMillis reading
      rw [hbeats]
    · change ∀ reading ∈ m.heartbeats, 0 < asMillis reading
      rw [hbeats]
      intro reading' hmem
      rcases mem_cons.mp hmem with rfl | hmem
      · omega
      · exact h.positive hnone reading' hmem

theorem Tracks.step {act : Act} (h : Tracks hmonStart m) (hmin : 0 < range.min)
    (hstep : step range hmonStart m act = some m') : Tracks hmonStart m' := by
  cases act with
  | tick ns =>
    cases hstep
    exact { h with }
  | heartbeat reading => exact h.heartbeat hstep
  | evaluate =>
    simp only [HeartbeatMonitor.step] at hstep
    split at hstep
    · cases hstep
      exact { h with evaluator := rfl }
    · cases hstep
  | readClock =>
    have hevaluator := h.evaluator
    simp only [HeartbeatMonitor.step] at hstep
    split at hstep
    · rename_i heq
      rw [heq] at hevaluator
      split at hstep
      · cases hstep
        exact { h with evaluator := hevaluator }
      · cases hstep
    · cases hstep
  | reset =>
    have hevaluator := h.evaluator
    simp only [HeartbeatMonitor.step] at hstep
    split at hstep
    · rename_i heq
      rw [heq] at hevaluator
      subst hevaluator
      split at hstep
      · cases hstep
        exact h.conclude hmin _ _
      · cases hstep
    · cases hstep

theorem tracks_of_run {ok : HeartbeatMonitor → Act → Prop} (hmin : 0 < range.min)
    (hrun : Run (HeartbeatMonitor.step range hmonStart) ok (create hmonStart) m) :
    Tracks hmonStart m :=
  hrun.invariant (Tracks hmonStart) (fun h _ hstep => h.step hmin hstep) (Tracks.create hmonStart)

end Invariant

section Completeness
open HeartbeatMonitorBuilder

end Completeness

section Soundness
open HeartbeatMonitorBuilder

/-- Heartbeats come within the range of each other and are recorded at once, and evaluations are at
most a processing cycle apart. -/
def regular (range : TimeRange) (hmonStart cycle : Nat) (m : HeartbeatMonitor) : Act → Prop
  | .tick ns => m.clock + ns ≤ previous hmonStart m.heartbeats + range.max
  | .heartbeat reading => reading = m.clock ∧
      previous hmonStart m.heartbeats + range.min ≤ m.clock ∧
      m.clock ≤ previous hmonStart m.heartbeats + range.max
  | .reset => m.clock ≤ m.lastEvaluation + cycle
  | _ => True

/-- No heartbeat waits for an evaluation when the next one comes. -/
def separated (m : HeartbeatMonitor) : Act → Prop
  | .heartbeat _ => m.pending = 0
  | _ => True

instance (range : TimeRange) (hmonStart cycle : Nat) (m : HeartbeatMonitor) :
    (act : Act) → Decidable (m.regular range hmonStart cycle act)
  | .tick _ => inferInstanceAs (Decidable (_ ≤ _))
  | .heartbeat _ => inferInstanceAs (Decidable (_ ∧ _))
  | .reset => inferInstanceAs (Decidable (_ ≤ _))
  | .evaluate | .readClock => isTrue trivial

instance (m : HeartbeatMonitor) : (act : Act) → Decidable (m.separated act)
  | .heartbeat _ => inferInstanceAs (Decidable (_ = _))
  | .tick _ | .evaluate | .readClock | .reset => isTrue trivial

variable {range : TimeRange} {r : InternalRange} {hmonStart cycle : Nat} {m m' : HeartbeatMonitor}

structure Spaced (range : TimeRange) (hmonStart : Nat) (m : HeartbeatMonitor) : Prop where
  clock : m.clock ≤ previous hmonStart m.heartbeats + range.max
  pending : m.pending ≤ 1
  fresh : m.pending = 1 →
    previous hmonStart m.taken + range.min ≤ previous hmonStart m.heartbeats ∧
      previous hmonStart m.heartbeats ≤ previous hmonStart m.taken + range.max
  now : ∀ startTimestamp monitorNow, m.evaluator = .timed startTimestamp monitorNow →
    hmonStart ≤ m.clock ∧ monitorNow ≤ asMillis hmonStart + asMillis (m.clock - hmonStart)
  silent : m.reports = []

/-- A whole number of milliseconds lies between the rounded instants as well. -/
theorem asMillis_add_of_dvd {d : Nat} (h : 1000000 ∣ d) (a : Nat) :
    asMillis (a + d) = asMillis a + asMillis d := by
  have hd : asMillis d * 1000000 = d := Nat.div_mul_cancel h
  rw [← hd, asMillis_add_mul, hd]

theorem Spaced.taken_of_zero (hzero : m.pending = 0) : m.taken = m.heartbeats := by
  rw [taken, hzero, drop_zero]

theorem Spaced.not_error (h : Spaced range hmonStart m) (htracks : Tracks hmonStart m)
    (hmin : r.min = range.minMs) (hmax : r.max = range.maxMs)
    (hwholeMin : 1000000 ∣ range.min) (hwholeMax : 1000000 ∣ range.max)
    {startTimestamp now : Nat} (heval : m.evaluator = .timed startTimestamp now)
    (e : HeartbeatEvaluationError) :
    judge r (asMillis (previous hmonStart m.taken)) now m.heartbeatState ≠ .error e := by
  obtain ⟨hstarted, hnow⟩ := h.now startTimestamp now heval
  have hpending := h.pending
  rw [judge_eq htracks.word, if_neg (by omega)]
  by_cases hzero : m.pending = 0
  · rw [if_pos (by omega), Spaced.taken_of_zero hzero, if_neg ?_]
    · intro heq
      cases heq
    · have hclock := asMillis_mono h.clock
      rw [asMillis_add_of_dvd hwholeMax] at hclock
      have hsum := asMillis_add_le hmonStart (m.clock - hmonStart)
      rw [Nat.add_sub_cancel' hstarted] at hsum
      rw [hmax, TimeRange.maxMs]
      omega
  · have hone : m.pending = 1 := by omega
    obtain ⟨hearly, hlate⟩ := h.fresh hone
    have hearly' := asMillis_mono hearly
    have hlate' := asMillis_mono hlate
    rw [asMillis_add_of_dvd hwholeMin] at hearly'
    rw [asMillis_add_of_dvd hwholeMax] at hlate'
    have hfresh : (match m.fresh with | [] => 0 | reading :: _ => asMillis reading) =
        asMillis (previous hmonStart m.heartbeats) := by
      have hle := htracks.pending_le
      unfold HeartbeatMonitor.fresh
      rw [hone] at hle ⊢
      cases hbeats : m.heartbeats with
      | nil =>
        rw [hbeats] at hle
        cases hle
      | cons reading rest => rfl
    rw [if_neg (by omega), hfresh, if_neg, if_neg]
    · intro heq
      cases heq
    · rw [hmax, TimeRange.maxMs]
      omega
    · rw [hmin, TimeRange.minMs]
      omega

theorem Spaced.conclude (h : Spaced range hmonStart m) {start now : Nat}
    (hjudge : ∀ e, judge r start now m.heartbeatState ≠ .error e) :
    Spaced range hmonStart (m.conclude r start now) := by
  unfold HeartbeatMonitor.conclude
  split
  · rename_i e heq
    exact absurd heq (hjudge e)
  · exact ⟨h.clock, Nat.zero_le 1, (fun hone => nomatch hone), (fun _ _ heq => nomatch heq),
      h.silent⟩
  · exact ⟨h.clock, Nat.zero_le 1, (fun hone => nomatch hone), (fun _ _ heq => nomatch heq),
      h.silent⟩

theorem Spaced.heartbeat (h : Spaced range hmonStart m) {reading : Nat}
    (hregular : m.regular range hmonStart cycle (.heartbeat reading))
    (hseparated : m.separated (.heartbeat reading))
    (hstep : step r hmonStart m (.heartbeat reading) = some m') : Spaced range hmonStart m' := by
  obtain ⟨rfl, hearly, hlate⟩ := hregular
  have hzero : m.pending = 0 := hseparated
  rw [step, if_pos le_rfl] at hstep
  obtain ⟨s, -, rfl⟩ := Option.map_eq_some_iff.mp hstep
  have htaken : List.drop (m.pending + 1) (m.clock :: m.heartbeats) = m.heartbeats :=
    Spaced.taken_of_zero hzero
  refine ⟨Nat.le_add_right _ _, by simp [hzero], fun _ => ?_, h.now, h.silent⟩
  change previous hmonStart (List.drop (m.pending + 1) (m.clock :: m.heartbeats)) + _ ≤ m.clock ∧
    m.clock ≤ previous hmonStart (List.drop (m.pending + 1) (m.clock :: m.heartbeats)) + _
  rw [htaken]
  exact ⟨hearly, hlate⟩

theorem Spaced.step {act : Act} (h : Spaced range hmonStart m) (htracks : Tracks hmonStart m)
    (hmin : r.min = range.minMs) (hmax : r.max = range.maxMs)
    (hwholeMin : 1000000 ∣ range.min) (hwholeMax : 1000000 ∣ range.max)
    (hok : m.regular range hmonStart cycle act ∧ m.separated act)
    (hstep : step r hmonStart m act = some m') : Spaced range hmonStart m' := by
  obtain ⟨hregular, hseparated⟩ := hok
  cases act with
  | tick ns =>
    cases hstep
    refine { h with clock := hregular, now := fun st now heval => ?_ }
    obtain ⟨hstarted, hnow⟩ := h.now st now heval
    have hmono : asMillis (m.clock - hmonStart) ≤ asMillis (m.clock + ns - hmonStart) :=
      asMillis_mono (by omega)
    exact ⟨Nat.le_add_right_of_le hstarted, hnow.trans (Nat.add_le_add_left hmono _)⟩
  | heartbeat reading => exact h.heartbeat hregular hseparated hstep
  | evaluate =>
    simp only [HeartbeatMonitor.step] at hstep
    split at hstep
    · cases hstep
      exact { h with now := fun _ _ heq => nomatch heq }
    · cases hstep
  | readClock =>
    simp only [HeartbeatMonitor.step] at hstep
    split at hstep
    · split at hstep
      · rename_i hstarted
        cases hstep
        refine { h with now := fun st now heval => ?_ }
        cases heval
        exact ⟨hstarted, le_rfl⟩
      · cases hstep
    · cases hstep
  | reset =>
    have hevaluator := htracks.evaluator
    simp only [HeartbeatMonitor.step] at hstep
    split at hstep
    · rename_i heval
      rw [heval] at hevaluator
      subst hevaluator
      split at hstep
      · cases hstep
        rw [htracks.cycleStart_eq h.silent]
        exact h.conclude (h.not_error htracks hmin hmax hwholeMin hwholeMax heval)
      · cases hstep
    · cases hstep

/-- Regular heartbeats are never reported, as long as no two of them fall between two
evaluations. -/
theorem regular_heartbeats_not_reported (range : TimeRange) (hwholeMin : 1000000 ∣ range.min)
    (hwholeMax : 1000000 ∣ range.max) (cycle hmonStart : Nat) (r : InternalRange)
    (hbuild : build range cycle = some r) (m : HeartbeatMonitor)
    (hrun : Run (step r hmonStart)
      (fun m act => m.regular range hmonStart cycle act ∧ m.separated act) (create hmonStart) m) :
    m.reports = [] := by
  obtain ⟨hmin, hmax, hpos⟩ := build_eq_some hbuild
  have hstart : Spaced range hmonStart (create hmonStart) :=
    ⟨Nat.zero_le _, Nat.zero_le 1, (fun hone => nomatch hone), (fun _ _ heq => nomatch heq), rfl⟩
  have hinv := hrun.invariant (fun m => Tracks hmonStart m ∧ Spaced range hmonStart m)
    (fun h hok hstep => ⟨h.1.step hpos hstep,
      h.2.step h.1 hmin hmax hwholeMin hwholeMax hok hstep⟩) ⟨Tracks.create hmonStart, hstart⟩
  exact hinv.2.silent

def slowRange : TimeRange := ⟨500000000, 1000000000, by decide⟩

def slowInternalRange : InternalRange := ⟨500, 1000, by decide⟩

theorem regular_heartbeats_not_reported_twice :
    ∃ m, Run (step slowInternalRange 0)
        (fun m act => m.regular slowRange 0 900000000 act ∧ m.separated act) (create 0) m ∧
      m.heartbeats = [1000000000, 500000000] ∧ m.reports = [] := by
  obtain ⟨m, hrun, hbeats⟩ := Run.exists_of_exec (step slowInternalRange 0)
    (fun m act => m.regular slowRange 0 900000000 act ∧ m.separated act) (create 0)
    (fun m => m.heartbeats = [1000000000, 500000000])
    [.tick 500000000, .heartbeat 500000000, .evaluate, .readClock, .reset, .tick 500000000,
      .heartbeat 1000000000, .evaluate, .readClock, .reset] (by decide +kernel)
  exact ⟨m, hrun, hbeats, regular_heartbeats_not_reported slowRange (by decide) (by decide)
    900000000 0 slowInternalRange rfl m hrun⟩

/-- An accepted processing cycle is long enough for two regular heartbeats, which are reported. -/
theorem regular_heartbeats_reported :
    build slowRange 900000000 = some slowInternalRange ∧
    ∃ m, Run (step slowInternalRange 0) (regular slowRange 0 900000000) (create 0) m ∧
      m.reports = [.multipleHeartbeats] := by
  refine ⟨rfl, ?_⟩
  exact Run.exists_of_exec _ _ _ _
    [.tick 450000000, .evaluate, .readClock, .reset, .tick 50000000, .heartbeat 500000000,
      .tick 500000000, .heartbeat 1000000000, .tick 300000000, .evaluate, .readClock, .reset]
    (by decide +kernel)

end Soundness

end HeartbeatMonitor

end LaunchManager
