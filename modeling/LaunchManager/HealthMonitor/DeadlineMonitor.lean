import LaunchManager.Library.PackedWord
import LaunchManager.Library.Runs
import LaunchManager.HealthMonitor.Common
import Mathlib.Logic.Function.Basic

/-!
# The deadline monitor

A thread starts and stops a deadline: each call reads the clock and then updates
the state word of the deadline in one atomic step. The background thread
evaluates all deadlines: it loads the word, and reads the clock afterwards. Times
are in milliseconds since the starting point of the monitor.
-/

namespace LaunchManager

set_option autoImplicit false

open Runs

inductive DeadlineEvaluationError where
  | tooEarly
  | tooLate
  deriving DecidableEq, Repr

/-- The word holds the timestamp in its upper half and the flags in its lowest bits. -/
structure DeadlineStateSnapshot where
  word : UInt64
  deriving DecidableEq, Repr

namespace DeadlineStateSnapshot

def stateMask : UInt64 := 0b00001111
def running : UInt64 := 0b00000010
def stopped : UInt64 := 0b00000001
def finishedTooEarly : UInt64 := 0b00001000

def default : DeadlineStateSnapshot := ⟨stopped⟩

variable (s : DeadlineStateSnapshot)

def isRunning : Bool := (s.word &&& running) != 0

def isUnderrun : Bool := (s.word &&& finishedTooEarly) != 0

def timestampMs : UInt32 := ((s.word &&& ~~~stateMask) >>> 32).toUInt32

def setTimestampMs (timestamp : UInt32) : DeadlineStateSnapshot :=
  ⟨(timestamp.toUInt64 <<< 32) ||| (s.word &&& stateMask)⟩

def setRunning : DeadlineStateSnapshot := ⟨s.word ||| running⟩

def setUnderrun : DeadlineStateSnapshot := ⟨s.word ||| finishedTooEarly⟩

def started (timestamp : UInt32) : DeadlineStateSnapshot :=
  (default.setTimestampMs timestamp).setRunning

theorem toNat_started (timestamp : UInt32) :
    (started timestamp).word.toNat = 2 ^ 32 * timestamp.toNat + 3 := by
  have hword : (started timestamp).word = (timestamp.toUInt64 <<< 32) ||| 3 := by
    change ((timestamp.toUInt64 <<< 32) ||| (stopped &&& stateMask)) ||| running = _
    rw [UInt64.or_assoc]
    rfl
  rw [hword, PackedWord.toNat_pack (by decide) ?_ (by decide)]
  · rfl
  · exact timestamp.toNat_lt

@[simp] theorem isRunning_started (timestamp : UInt32) : (started timestamp).isRunning = true := by
  rw [isRunning, PackedWord.and_flag (n := 1) rfl, toNat_started,
    PackedWord.testBit_pack (by decide) (by decide)]
  rfl

@[simp] theorem isUnderrun_started (timestamp : UInt32) :
    (started timestamp).isUnderrun = false := by
  rw [isUnderrun, PackedWord.and_flag (n := 3) rfl, toNat_started,
    PackedWord.testBit_pack (by decide) (by decide)]
  rfl

theorem isUnderrun_setUnderrun (s : DeadlineStateSnapshot) : s.setUnderrun.isUnderrun = true := by
  rw [isUnderrun, PackedWord.and_flag (n := 3) rfl, setUnderrun, UInt64.toNat_or, Nat.testBit_or]
  exact Bool.or_true _

@[simp] theorem timestampMs_started (timestamp : UInt32) :
    (started timestamp).timestampMs = timestamp := by
  have hhigh : (((started timestamp).word &&& ~~~stateMask) >>> 32).toNat = timestamp.toNat := by
    rw [PackedWord.toNat_high (by decide) (by decide), toNat_started]
    change (2 ^ 32 * timestamp.toNat + 3) / 2 ^ 32 = timestamp.toNat
    omega
  apply UInt32.toNat_inj.mp
  rw [timestampMs, UInt64.toNat_toUInt32, hhigh, Nat.mod_eq_of_lt timestamp.toNat_lt]

end DeadlineStateSnapshot

/-- Where the owner of a deadline is: `started` between the calls, otherwise inside a call that
has read the clock. `startTime` is what the start has read. -/
inductive DeadlineThread where
  | idle
  | starting (startTime : Nat)
  | started (startTime : Nat)
  | stopping (startTime now : Nat)
  deriving DecidableEq, Repr

inductive DeadlineEvaluator (ι : Type) where
  | idle
  | loop (rest : List ι)
  | loaded (deadline : ι) (snapshot : DeadlineStateSnapshot) (rest : List ι)
  deriving DecidableEq, Repr

/-- `reports` is a history variable with the calls of `on_error`. -/
structure DeadlineMonitor (ι : Type) where
  clock : Nat := 0
  activeDeadlines : ι → DeadlineStateSnapshot := fun _ => .default
  thread : ι → DeadlineThread := fun _ => .idle
  evaluator : DeadlineEvaluator ι := .idle
  reports : List (ι × DeadlineEvaluationError) := []

namespace DeadlineMonitor
variable {ι : Type}

/-- The conversion of `elapsed` fails when the number does not fit. -/
def now (m : DeadlineMonitor ι) : Option UInt32 :=
  if m.clock < 2 ^ 32 then some (UInt32.ofNat m.clock) else none

/-- The update of `start_internal`; `none` when the deadline is broken. -/
def startUpdate (range : TimeRange) (now : UInt32) (current : DeadlineStateSnapshot) :
    Option DeadlineStateSnapshot :=
  if current.isRunning || current.isUnderrun then none
  else some
    ((DeadlineStateSnapshot.default.setTimestampMs (now + UInt32.ofNat range.maxMs)).setRunning)

/-- The update of `stop_internal`; `none` when the deadline was missed. -/
def stopUpdate (range : TimeRange) (now : UInt32) (current : DeadlineStateSnapshot) :
    Option DeadlineStateSnapshot :=
  let expected := current.timestampMs
  if expected < now then none
  else
    let startTime := expected - UInt32.ofNat range.maxMs
    let earliestTime := startTime + UInt32.ofNat range.minMs
    if now < earliestTime then some current.setUnderrun
    else some .default

inductive Act (ι : Type) where
  | tick (ms : Nat)
  | startRead (deadline : ι)
  | startUpdate (deadline : ι)
  | stopRead (deadline : ι)
  | stopUpdate (deadline : ι)
  | evaluate
  | load
  | readClock
  | finish
  deriving DecidableEq, Repr

section Tracked
variable {ranges : ι → TimeRange} {d : ι} {m m' : DeadlineMonitor ι}

theorem now_toNat {now : UInt32} (h : m.now = some now) : now.toNat = m.clock := by
  unfold DeadlineMonitor.now at h
  split at h
  · cases h
    exact UInt32.toNat_ofNat_of_lt' (by assumption)
  · cases h

/-- The state word of a deadline that is used in time. -/
def Tracked (range : TimeRange) : DeadlineThread → DeadlineStateSnapshot → Prop
  | .idle, s => s = .default
  | .starting startTime, s => s = .default ∧ startTime + range.maxMs < 2 ^ 32
  | .started startTime, s =>
    s = .started (UInt32.ofNat (startTime + range.maxMs)) ∧ startTime + range.maxMs < 2 ^ 32
  | .stopping startTime now, s =>
    s = .started (UInt32.ofNat (startTime + range.maxMs)) ∧ startTime + range.maxMs < 2 ^ 32 ∧
      startTime + range.minMs ≤ now ∧ now ≤ startTime + range.maxMs

theorem Tracked.not_underrun {range : TimeRange} {t : DeadlineThread} {s : DeadlineStateSnapshot}
    (h : Tracked range t s) : s.isUnderrun = false := by
  cases t with
  | idle =>
    cases h
    rfl
  | starting _ =>
    cases h.1
    rfl
  | started _ | stopping _ _ =>
    rw [h.1]
    exact DeadlineStateSnapshot.isUnderrun_started _

structure Inv (ranges : ι → TimeRange) (d : ι) (m : DeadlineMonitor ι) : Prop where
  tracked : Tracked (ranges d) (m.thread d) (m.activeDeadlines d)
  silent : ∀ e, (d, e) ∉ m.reports

theorem Inv.congr (h : Inv ranges d m) (hthread : m'.thread d = m.thread d)
    (hstate : m'.activeDeadlines d = m.activeDeadlines d) (hreports : m'.reports = m.reports) :
    Inv ranges d m' := by
  refine ⟨?_, ?_⟩
  · rw [hthread, hstate]
    exact h.tracked
  · rw [hreports]
    exact h.silent

end Tracked

variable [DecidableEq ι]

def setThread (m : DeadlineMonitor ι) (d : ι) (t : DeadlineThread) : DeadlineMonitor ι :=
  { m with thread := Function.update m.thread d t }

def setState (m : DeadlineMonitor ι) (d : ι) (s : DeadlineStateSnapshot) : DeadlineMonitor ι :=
  { m with activeDeadlines := Function.update m.activeDeadlines d s }

def load (m : DeadlineMonitor ι) (d : ι) (rest : List ι) : DeadlineMonitor ι :=
  let snapshot := m.activeDeadlines d
  if snapshot.isUnderrun then
    { m with evaluator := .loop rest, reports := (d, .tooEarly) :: m.reports }
  else if snapshot.isRunning then { m with evaluator := .loaded d snapshot rest }
  else { m with evaluator := .loop rest }

def compare (m : DeadlineMonitor ι) (now : UInt32) (d : ι) (snapshot : DeadlineStateSnapshot)
    (rest : List ι) : DeadlineMonitor ι :=
  if now > snapshot.timestampMs then
    { m with evaluator := .loop rest, reports := (d, .tooLate) :: m.reports }
  else { m with evaluator := .loop rest }

def step (ranges : ι → TimeRange) (deadlines : List ι) (m : DeadlineMonitor ι) :
    Act ι → Option (DeadlineMonitor ι)
  | .tick ms => some { m with clock := m.clock + ms }
  | .startRead d =>
    match m.thread d, m.now with
    | .idle, some _ => some (m.setThread d (.starting m.clock))
    | _, _ => none
  | .startUpdate d =>
    match m.thread d with
    | .starting startTime =>
      match startUpdate (ranges d) (UInt32.ofNat startTime) (m.activeDeadlines d) with
      | some s => some ((m.setState d s).setThread d (.started startTime))
      | none => some (m.setThread d .idle)
    | _ => none
  | .stopRead d =>
    match m.thread d, m.now with
    | .started startTime, some _ => some (m.setThread d (.stopping startTime m.clock))
    | _, _ => none
  | .stopUpdate d =>
    match m.thread d with
    | .stopping _ now =>
      match stopUpdate (ranges d) (UInt32.ofNat now) (m.activeDeadlines d) with
      | some s => some ((m.setState d s).setThread d .idle)
      | none => some (m.setThread d .idle)
    | _ => none
  | .evaluate =>
    match m.evaluator with
    | .idle => some { m with evaluator := .loop deadlines }
    | _ => none
  | .load =>
    match m.evaluator with
    | .loop (d :: rest) => some (m.load d rest)
    | _ => none
  | .readClock =>
    match m.evaluator, m.now with
    | .loaded d snapshot rest, some now => some (m.compare now d snapshot rest)
    | _, _ => none
  | .finish =>
    match m.evaluator with
    | .loop [] => some { m with evaluator := .idle }
    | _ => none

/-- The time of the start of a deadline that is running and not about to be stopped. -/
def runningSince (m : DeadlineMonitor ι) (d : ι) : Option Nat :=
  match m.thread d with
  | .started startTime => some startTime
  | _ => none

/-- The state of the deadline that `evaluate` is going to compare with the clock. -/
def loaded (m : DeadlineMonitor ι) (d : ι) : Option DeadlineStateSnapshot :=
  match m.evaluator with
  | .loaded d' snapshot _ => if d' = d then some snapshot else none
  | _ => none

section Timeliness
variable (ranges : ι → TimeRange) (d : ι)

/-- The deadline is stopped within its range, and is not past its maximum when `evaluate` reads the
clock while it is running. -/
def timely (m : DeadlineMonitor ι) : Act ι → Prop
  | .stopRead d' => d' = d → ∀ startTime ∈ m.runningSince d,
      startTime + (ranges d).minMs ≤ m.clock ∧ m.clock ≤ startTime + (ranges d).maxMs
  | .readClock => (m.loaded d).isSome → ∀ startTime ∈ m.runningSince d,
      m.clock ≤ startTime + (ranges d).maxMs
  | _ => True

/-- The end of the range is a timestamp when the deadline is started, and a deadline that was loaded
as running is not past its maximum, or still running, when `evaluate` reads the clock. -/
def undisturbed (m : DeadlineMonitor ι) : Act ι → Prop
  | .startRead d' => d' = d → m.clock + (ranges d).maxMs < 2 ^ 32
  | .readClock => ∀ snapshot ∈ m.loaded d, m.clock ≤ snapshot.timestampMs.toNat ∨
      ∃ startTime ∈ m.runningSince d,
        snapshot.timestampMs.toNat = startTime + (ranges d).maxMs
  | _ => True

instance (m : DeadlineMonitor ι) : (act : Act ι) → Decidable (m.timely ranges d act)
  | .stopRead _ => inferInstanceAs (Decidable (_ → _))
  | .readClock => inferInstanceAs (Decidable (_ → _))
  | .tick _ | .startRead _ | .startUpdate _ | .stopUpdate _ | .evaluate | .load | .finish =>
    isTrue trivial

instance (m : DeadlineMonitor ι) : (act : Act ι) → Decidable (m.undisturbed ranges d act)
  | .startRead _ => inferInstanceAs (Decidable (_ → _))
  | .readClock => inferInstanceAs (Decidable (∀ _ ∈ m.loaded d, _))
  | .tick _ | .startUpdate _ | .stopRead _ | .stopUpdate _ | .evaluate | .load | .finish =>
    isTrue trivial

end Timeliness

section Updates
variable {range : TimeRange} {startTime now : Nat}

theorem startUpdate_default : startUpdate range (UInt32.ofNat startTime) .default =
      some (.started (UInt32.ofNat (startTime + range.maxMs))) := by
  rw [UInt32.ofNat_add]
  rfl

theorem expired_iff (hfits : startTime + range.maxMs < 2 ^ 32) (hnow : now < 2 ^ 32) :
    UInt32.ofNat (startTime + range.maxMs) < UInt32.ofNat now ↔ startTime + range.maxMs < now := by
  rw [UInt32.lt_iff_toNat_lt, UInt32.toNat_ofNat_of_lt' hfits, UInt32.toNat_ofNat_of_lt' hnow]

theorem early_iff (hfits : startTime + range.maxMs < 2 ^ 32) (hnow : now < 2 ^ 32) :
    UInt32.ofNat now < UInt32.ofNat (startTime + range.maxMs) - UInt32.ofNat range.maxMs +
      UInt32.ofNat range.minMs ↔ now < startTime + range.minMs := by
  have hfits' : startTime + range.minMs < 2 ^ 32 :=
    Nat.lt_of_le_of_lt (Nat.add_le_add_left range.minMs_le_maxMs startTime) hfits
  rw [UInt32.ofNat_add, UInt32.add_sub_cancel, ← UInt32.ofNat_add, UInt32.lt_iff_toNat_lt,
    UInt32.toNat_ofNat_of_lt' hnow, UInt32.toNat_ofNat_of_lt' hfits']

theorem stopUpdate_started_eq (hfits : startTime + range.maxMs < 2 ^ 32) (hnow : now < 2 ^ 32) :
    stopUpdate range (UInt32.ofNat now) (.started (UInt32.ofNat (startTime + range.maxMs))) =
      if startTime + range.maxMs < now then none
      else if now < startTime + range.minMs then
        some (DeadlineStateSnapshot.started (UInt32.ofNat (startTime + range.maxMs))).setUnderrun
      else some .default := by
  simp only [stopUpdate, DeadlineStateSnapshot.timestampMs_started, expired_iff hfits hnow,
    early_iff hfits hnow]

theorem stopUpdate_started (hfits : startTime + range.maxMs < 2 ^ 32)
    (hmin : startTime + range.minMs ≤ now) (hmax : now ≤ startTime + range.maxMs) :
    stopUpdate range (UInt32.ofNat now) (.started (UInt32.ofNat (startTime + range.maxMs))) =
      some .default := by
  rw [stopUpdate_started_eq hfits (Nat.lt_of_le_of_lt hmax hfits), if_neg (Nat.not_lt.mpr hmax),
    if_neg (Nat.not_lt.mpr hmin)]

end Updates

section Invariant
variable {ranges : ι → TimeRange} {deadlines : List ι} {d : ι} {m m' : DeadlineMonitor ι}

theorem setThread_self (m : DeadlineMonitor ι) (d : ι) (t : DeadlineThread) :
    (m.setThread d t).thread d = t := by
  simp [setThread]

variable {d' : ι} {t : DeadlineThread} {startTime : Nat}

theorem setThread_of_ne (hne : d ≠ d') (m : DeadlineMonitor ι) (t : DeadlineThread) :
    (m.setThread d' t).thread d = m.thread d := by
  simp [setThread, hne]

theorem setState_self (m : DeadlineMonitor ι) (d : ι) (s : DeadlineStateSnapshot) :
    (m.setState d s).activeDeadlines d = s := by
  simp [setState]

theorem setState_of_ne (hne : d ≠ d') (m : DeadlineMonitor ι) (s : DeadlineStateSnapshot) :
    (m.setState d' s).activeDeadlines d = m.activeDeadlines d := by
  simp [setState, hne]

theorem Inv.other (h : Inv ranges d m) (hne : d ≠ d') (t : DeadlineThread) :
    Inv ranges d (m.setThread d' t) :=
  h.congr (setThread_of_ne hne m t) rfl rfl

theorem Inv.other_state (h : Inv ranges d m) (hne : d ≠ d') (s : DeadlineStateSnapshot)
    (t : DeadlineThread) : Inv ranges d ((m.setState d' s).setThread d' t) :=
  h.congr (setThread_of_ne hne _ t) (setState_of_ne hne m s) rfl

theorem Inv.own (h : Inv ranges d m)
    (htracked : Tracked (ranges d) t (m.activeDeadlines d)) : Inv ranges d (m.setThread d t) := by
  refine ⟨?_, h.silent⟩
  rw [setThread_self]
  exact htracked

theorem Inv.own_state (h : Inv ranges d m) {s : DeadlineStateSnapshot}
    (htracked : Tracked (ranges d) t s) : Inv ranges d ((m.setState d s).setThread d t) := by
  refine ⟨?_, h.silent⟩
  rw [setThread_self]
  exact (setState_self m d s).symm ▸ htracked

theorem Inv.startRead (h : Inv ranges d m) (hok : m.undisturbed ranges d (.startRead d'))
    (hidle : m.thread d' = .idle) : Inv ranges d (m.setThread d' (.starting m.clock)) := by
  by_cases heq : d = d'
  · subst heq
    have htracked := h.tracked
    rw [hidle] at htracked
    exact h.own ⟨htracked, hok rfl⟩
  · exact h.other heq _

theorem Inv.startUpdate (h : Inv ranges d m) (hthread : m.thread d' = .starting startTime)
    (hstep : step ranges deadlines m (.startUpdate d') = some m') : Inv ranges d m' := by
  simp only [step, hthread] at hstep
  by_cases heq : d = d'
  · subst heq
    have htracked := h.tracked
    rw [hthread] at htracked
    rw [htracked.1, startUpdate_default] at hstep
    cases hstep
    exact h.own_state ⟨rfl, htracked.2⟩
  · split at hstep
    · cases hstep
      exact h.other_state heq _ _
    · cases hstep
      exact h.other heq _

omit [DecidableEq ι] in
theorem runningSince_of_started (h : m.thread d = .started startTime) :
    m.runningSince d = some startTime := by
  rw [runningSince, h]

theorem Inv.stopRead (h : Inv ranges d m)
    (hok : m.timely ranges d (.stopRead d')) (hthread : m.thread d' = .started startTime) :
    Inv ranges d (m.setThread d' (.stopping startTime m.clock)) := by
  by_cases heq : d = d'
  · subst heq
    have htracked := h.tracked
    rw [hthread] at htracked
    exact h.own ⟨htracked.1, htracked.2, hok rfl startTime (runningSince_of_started hthread)⟩
  · exact h.other heq _

theorem Inv.stopUpdate {now : Nat} (h : Inv ranges d m)
    (hthread : m.thread d' = .stopping startTime now)
    (hstep : step ranges deadlines m (.stopUpdate d') = some m') : Inv ranges d m' := by
  simp only [step, hthread] at hstep
  by_cases heq : d = d'
  · subst heq
    have htracked := h.tracked
    rw [hthread] at htracked
    obtain ⟨hstate, hfits, hmin, hmax⟩ := htracked
    rw [hstate, stopUpdate_started hfits hmin hmax] at hstep
    cases hstep
    exact h.own_state rfl
  · split at hstep
    · cases hstep
      exact h.other_state heq _ _
    · cases hstep
      exact h.other heq _

omit [DecidableEq ι] in
theorem Inv.load (h : Inv ranges d m) (d' : ι) (rest : List ι) : Inv ranges d (m.load d' rest) := by
  unfold DeadlineMonitor.load
  dsimp only
  split
  · rename_i hunderrun
    refine ⟨h.tracked, fun e hmem => ?_⟩
    rcases List.mem_cons.mp hmem with heq | hmem
    · cases heq
      exact Bool.false_ne_true (h.tracked.not_underrun.symm.trans hunderrun)
    · exact h.silent e hmem
  · split
    · exact h.congr rfl rfl rfl
    · exact h.congr rfl rfl rfl

theorem Inv.readClock {snapshot : DeadlineStateSnapshot} {rest : List ι} {now : UInt32}
    (h : Inv ranges d m) (htimely : m.timely ranges d .readClock)
    (hok : m.undisturbed ranges d .readClock)
    (heval : m.evaluator = .loaded d' snapshot rest) (hnow : m.now = some now) :
    Inv ranges d (m.compare now d' snapshot rest) := by
  unfold compare
  split
  · rename_i hlate
    refine ⟨h.tracked, fun e hmem => ?_⟩
    rcases List.mem_cons.mp hmem with heq | hmem
    · cases heq
      have hpast : snapshot.timestampMs.toNat < m.clock := now_toNat hnow ▸ hlate
      have hloaded : m.loaded d = some snapshot := by
        rw [loaded, heval]
        exact if_pos rfl
      rcases hok snapshot hloaded with hle | ⟨startTime, hsince, hexpected⟩
      · exact Nat.not_lt.mpr hle hpast
      · exact Nat.not_lt.mpr (htimely (by rw [hloaded]; rfl) startTime hsince) (hexpected ▸ hpast)
    · exact h.silent e hmem
  · exact h.congr rfl rfl rfl

theorem Inv.step {act : Act ι} (h : Inv ranges d m)
    (hok : m.timely ranges d act ∧ m.undisturbed ranges d act)
    (hstep : step ranges deadlines m act = some m') : Inv ranges d m' := by
  obtain ⟨htimely, hok⟩ := hok
  cases act with
  | tick ms =>
    cases hstep
    exact h.congr rfl rfl rfl
  | startRead d' =>
    simp only [DeadlineMonitor.step] at hstep
    split at hstep
    · cases hstep
      exact h.startRead hok (by assumption)
    · cases hstep
  | startUpdate d' =>
    cases hthread : m.thread d' with
    | starting startTime => exact h.startUpdate hthread hstep
    | _ => simp [DeadlineMonitor.step, hthread] at hstep
  | stopRead d' =>
    simp only [DeadlineMonitor.step] at hstep
    split at hstep
    · cases hstep
      exact h.stopRead htimely (by assumption)
    · cases hstep
  | stopUpdate d' =>
    cases hthread : m.thread d' with
    | stopping startTime now => exact h.stopUpdate hthread hstep
    | _ => simp [DeadlineMonitor.step, hthread] at hstep
  | evaluate | finish =>
    simp only [DeadlineMonitor.step] at hstep
    split at hstep
    · cases hstep
      exact h.congr rfl rfl rfl
    · cases hstep
  | load =>
    simp only [DeadlineMonitor.step] at hstep
    split at hstep
    · cases hstep
      exact h.load _ _
    · cases hstep
  | readClock =>
    simp only [DeadlineMonitor.step] at hstep
    split at hstep
    · cases hstep
      exact h.readClock htimely hok (by assumption) (by assumption)
    · cases hstep

end Invariant

end DeadlineMonitor

end LaunchManager
