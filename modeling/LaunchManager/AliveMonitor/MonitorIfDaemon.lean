import LaunchManager.Library.Runs
import LaunchManager.AliveMonitor.Alive
import LaunchManager.AliveMonitor.RingBuffer

/-!
# The checkpoint interface of a process

`MonitorIfDaemon` reads the checkpoints of one process from shared memory and hands
them to its observers. Once the channel was found broken it is not read any more;
the overflow is reported, and reported again after a restart of the process. The
channel is arbitrary here: it is only known by its operations, and it may change
between any two of them.
-/

namespace LaunchManager

open List

set_option autoImplicit false

open Runs

/-- The operations of the daemon on a channel, each under one lock, and what others do to it.
`ρ` is the type of pointers to elements. -/
structure CheckpointChannel (χ ρ ε : Type) where
  hasOverflow : χ → Bool
  empty : χ → Bool
  tryPeek : χ → Option ρ
  timestamp : χ → ρ → Nat
  tryPop : χ → χ × Bool
  outside : χ → ε → χ

inductive InternalState where
  | active
  | inactive
  | inactiveOverflow
  deriving DecidableEq, Repr

/-- What is pushed to the observers; an overflow is pushed as a checkpoint with timestamp zero. -/
inductive Notification where
  | checkpoint (timestamp : Nat)
  | overflow
  deriving DecidableEq, Repr

/-- Where `checkForNewData` stands in the loop of `readIpcUntil`. -/
inductive DrainPoint (ρ : Type) where
  | idle
  | empty (sync : Nat)
  | peek (sync : Nat)
  | compare (sync : Nat) (elem : ρ)
  | push (sync : Nat) (elem : ρ)
  | pop (sync : Nat)
  deriving DecidableEq, Repr

/-- `pushed` has the latest notification first. -/
structure MonitorIfDaemon (χ ρ : Type) where
  channel : χ
  status : InternalState := .inactive
  isActivateRequest : Bool := false
  isDeactivateRequest : Bool := false
  isProcessRestarted : Bool := false
  point : DrainPoint ρ := .idle
  pushed : List Notification := []
  deriving DecidableEq, Repr

namespace MonitorIfDaemon
variable {χ ρ ε : Type}

def updateData (m : MonitorIfDaemon χ ρ) : SupervisionEventType → MonitorIfDaemon χ ρ
  | .activation =>
    { m with
      isProcessRestarted := m.isDeactivateRequest || m.isProcessRestarted
      isActivateRequest := true
      isDeactivateRequest := false }
  | .deactivation => { m with isDeactivateRequest := true }

def pushOverflowInfoToObservers (m : MonitorIfDaemon χ ρ) : MonitorIfDaemon χ ρ :=
  { m with pushed := .overflow :: m.pushed }

def handleOverflow (m : MonitorIfDaemon χ ρ) : MonitorIfDaemon χ ρ :=
  { m.pushOverflowInfoToObservers with status := .inactiveOverflow, point := .idle }

def finishRead (m : MonitorIfDaemon χ ρ) (success : Bool) : MonitorIfDaemon χ ρ :=
  if !success then m.handleOverflow
  else if m.isDeactivateRequest then
    { m with
      status := .inactive, isActivateRequest := false, isDeactivateRequest := false,
      point := .idle }
  else { m with point := .idle }

def activateIfRequested (m : MonitorIfDaemon χ ρ) : MonitorIfDaemon χ ρ :=
  if m.isActivateRequest = true ∧ m.status = .inactive then { m with status := .active } else m

/-- `checkForNewData` up to the loop of `readIpcUntil`. -/
def checkForNewData (ch : CheckpointChannel χ ρ ε) (m : MonitorIfDaemon χ ρ) (sync : Nat) :
    MonitorIfDaemon χ ρ :=
  let m := m.activateIfRequested
  match m.status with
  | .active =>
    if ch.hasOverflow m.channel then m.handleOverflow else { m with point := .empty sync }
  | .inactiveOverflow =>
    if m.isProcessRestarted then
      { m with isProcessRestarted := false }.pushOverflowInfoToObservers
    else m
  | .inactive => m

/-- The next step of the loop. The element is read where the pointer points to, twice. -/
def advance (ch : CheckpointChannel χ ρ ε) (m : MonitorIfDaemon χ ρ) :
    Option (MonitorIfDaemon χ ρ) :=
  match m.point with
  | .idle => none
  | .empty sync =>
    if ch.empty m.channel then some (m.finishRead true) else some { m with point := .peek sync }
  | .peek sync =>
    match ch.tryPeek m.channel with
    | some elem => some { m with point := .compare sync elem }
    | none => some (m.finishRead false)
  | .compare sync elem =>
    if ch.timestamp m.channel elem ≤ sync then some { m with point := .push sync elem }
    else some (m.finishRead true)
  | .push sync elem =>
    some { m with
      pushed := .checkpoint (ch.timestamp m.channel elem) :: m.pushed, point := .pop sync }
  | .pop sync =>
    match ch.tryPop m.channel with
    | (channel, true) => some { m with channel := channel, point := .empty sync }
    | (channel, false) => some ({ m with channel := channel }.finishRead false)

inductive Act (ε : Type) where
  | updateData (eventType : SupervisionEventType)
  | checkForNewData (sync : Nat)
  | advance
  | outside (e : ε)
  deriving DecidableEq, Repr

/-- The daemon is one thread; others change the channel at any time. -/
def step (ch : CheckpointChannel χ ρ ε) (m : MonitorIfDaemon χ ρ) :
    Act ε → Option (MonitorIfDaemon χ ρ)
  | .updateData eventType =>
    match m.point with
    | .idle => some (m.updateData eventType)
    | _ => none
  | .checkForNewData sync =>
    match m.point with
    | .idle => some (m.checkForNewData ch sync)
    | _ => none
  | .advance => m.advance ch
  | .outside e => some { m with channel := ch.outside m.channel e }

def reports (m : MonitorIfDaemon χ ρ) : Nat := m.pushed.count .overflow

/-- The loop goes on, perhaps after a checkpoint was pushed or the channel popped. -/
def goOn (m : MonitorIfDaemon χ ρ) (channel : χ) (point : DrainPoint ρ) (timestamps : List Nat) :
    MonitorIfDaemon χ ρ :=
  { m with channel, point, pushed := timestamps.map .checkpoint ++ m.pushed }

theorem advance_cases {ch : CheckpointChannel χ ρ ε} {m m' : MonitorIfDaemon χ ρ}
    (hstep : m.advance ch = some m') : m.point ≠ .idle ∧
      ((∃ channel point timestamps, m' = m.goOn channel point timestamps ∧ point ≠ .idle) ∨
        m' = m.finishRead true ∨ ∃ channel, m' = { m with channel }.finishRead false) := by
  unfold advance at hstep
  split at hstep
  case h_1 => cases hstep
  case h_2 sync hpoint =>
    refine ⟨by simp [hpoint], ?_⟩
    split at hstep
    · cases hstep
      exact .inr (.inl rfl)
    · cases hstep
      exact .inl ⟨m.channel, _, [], rfl, by rintro ⟨⟩⟩
  case h_3 sync hpoint =>
    refine ⟨by simp [hpoint], ?_⟩
    split at hstep
    · cases hstep
      exact .inl ⟨m.channel, _, [], rfl, by rintro ⟨⟩⟩
    · cases hstep
      exact .inr (.inr ⟨m.channel, rfl⟩)
  case h_4 sync elem hpoint =>
    refine ⟨by simp [hpoint], ?_⟩
    split at hstep
    · cases hstep
      exact .inl ⟨m.channel, _, [], rfl, by rintro ⟨⟩⟩
    · cases hstep
      exact .inr (.inl rfl)
  case h_5 sync elem hpoint =>
    cases hstep
    exact ⟨by simp [hpoint], .inl ⟨m.channel, _, [ch.timestamp m.channel elem], rfl, by rintro ⟨⟩⟩⟩
  case h_6 sync hpoint =>
    refine ⟨by simp [hpoint], ?_⟩
    split at hstep
    · cases hstep
      exact .inl ⟨_, _, [], rfl, by rintro ⟨⟩⟩
    · cases hstep
      exact .inr (.inr ⟨_, rfl⟩)

theorem advance_isSome (ch : CheckpointChannel χ ρ ε) {m : MonitorIfDaemon χ ρ}
    (h : m.point ≠ .idle) : ∃ m', m.advance ch = some m' := by
  unfold advance
  split
  case h_1 hidle => exact absurd hidle h
  case h_5 => exact ⟨_, rfl⟩
  all_goals split <;> exact ⟨_, rfl⟩

/-! ### Restarts -/

/-- `restarts` counts the restarts since the last report. `early` says that a restart came
before the first report and before its deactivation had taken effect. -/
structure Ledger where
  lastEvent : Option SupervisionEventType := none
  restarts : Nat := 0
  early : Bool := false
  deriving DecidableEq, Repr

namespace Ledger

/-- An activation right after a deactivation completes a restart. -/
def observe (l : Ledger) (m : MonitorIfDaemon χ ρ) (eventType : SupervisionEventType) : Ledger :=
  if eventType = .activation ∧ l.lastEvent = some .deactivation then
    { lastEvent := some eventType
      restarts := l.restarts + 1
      early := l.early || (decide (m.reports = 0) && m.isDeactivateRequest) }
  else { l with lastEvent := some eventType }

/-- A report settles the restarts before it. -/
def settle (l : Ledger) (before after : Nat) : Ledger :=
  if before < after then { l with restarts := 0 } else l

def note (m : MonitorIfDaemon χ ρ) (a : Act ε) (m' : MonitorIfDaemon χ ρ) (l : Ledger) : Ledger :=
  match a with
  | .updateData eventType => l.observe m eventType
  | _ => l.settle m.reports m'.reports

def Due (l : Ledger) (reports : Nat) : Prop := 0 < l.restarts ∨ (reports = 1 ∧ l.early = true)

instance (l : Ledger) (reports : Nat) : Decidable (l.Due reports) :=
  inferInstanceAs (Decidable (0 < l.restarts ∨ (reports = 1 ∧ l.early = true)))

end Ledger

/-- How the flags stand to the events and reports so far. -/
structure Books (m : MonitorIfDaemon χ ρ) (l : Ledger) : Prop where
  pending : m.isDeactivateRequest = true → l.lastEvent = some .deactivation
  requested : m.status ≠ .inactive → m.isActivateRequest = true
  kept : m.isActivateRequest = true → l.lastEvent = some .deactivation →
    m.isDeactivateRequest = true
  broken : m.status = .inactiveOverflow ↔ 0 < m.reports
  before : m.reports = 0 → m.isProcessRestarted = l.early
  after : 0 < m.reports → (m.isProcessRestarted = true ↔ l.Due m.reports)
  reading : m.point ≠ .idle → m.status = .active

section Books
variable {ch : CheckpointChannel χ ρ ε} {m m' : MonitorIfDaemon χ ρ} {l : Ledger}

@[simp] theorem reports_handleOverflow (m : MonitorIfDaemon χ ρ) :
    m.handleOverflow.reports = m.reports + 1 := count_cons_self

@[simp] theorem reports_finishRead_true (m : MonitorIfDaemon χ ρ) :
    (m.finishRead true).reports = m.reports := by
  unfold finishRead
  split
  · contradiction
  · split <;> rfl

@[simp] theorem reports_updateData (m : MonitorIfDaemon χ ρ) (eventType : SupervisionEventType) :
    (m.updateData eventType).reports = m.reports := by
  cases eventType <;> rfl

@[simp] theorem reports_goOn (m : MonitorIfDaemon χ ρ) (channel : χ) (point : DrainPoint ρ)
    (timestamps : List Nat) : (m.goOn channel point timestamps).reports = m.reports := by
  have hnone : (timestamps.map Notification.checkpoint).count .overflow = 0 := by
    rw [count_eq_zero]
    simp
  rw [reports, goOn, count_append, hnone, Nat.zero_add]
  rfl

namespace Ledger

theorem settle_of_report {before after : Nat} (h : before < after) :
    l.settle before after = { l with restarts := 0 } := if_pos h

theorem settle_self (reports : Nat) : l.settle reports reports = l := if_neg (Nat.lt_irrefl _)

end Ledger

namespace Books

theorem reports_eq_zero (h : Books m l) (hactive : m.status ≠ .inactiveOverflow) :
    m.reports = 0 := by
  by_contra hne
  exact hactive (h.broken.mpr (Nat.pos_of_ne_zero hne))

theorem restart (h : Books m l) (hlast : l.lastEvent = some .deactivation) :
    Books (m.updateData .activation)
      { lastEvent := some .activation
        restarts := l.restarts + 1
        early := l.early || (decide (m.reports = 0) && m.isDeactivateRequest) } := by
  constructor
  · intro hpending
    cases hpending
  · exact fun _ => rfl
  · intro _ hevent
    cases hevent
  · exact h.broken
  · intro hzero
    have hzero : m.reports = 0 := hzero
    have hearly := h.before hzero
    simp [MonitorIfDaemon.updateData, hearly, hzero, Bool.or_comm]
  · intro hpos
    have hrequested := h.requested (by rw [h.broken.mpr hpos]; decide)
    have hpending := h.kept hrequested hlast
    simp [MonitorIfDaemon.updateData, hpending, Ledger.Due]
  · exact h.reading

theorem updateData (h : Books m l) (eventType : SupervisionEventType) :
    Books (m.updateData eventType) (l.observe m eventType) := by
  unfold Ledger.observe
  split
  · rename_i hrestart
    obtain ⟨rfl, hlast⟩ := hrestart
    exact h.restart hlast
  rename_i hrestart
  cases eventType with
  | activation =>
    have hpending : m.isDeactivateRequest = false :=
      Bool.eq_false_iff.mpr fun hpending => hrestart ⟨rfl, h.pending hpending⟩
    have hrestarted : (m.updateData .activation).isProcessRestarted = m.isProcessRestarted := by
      simp [MonitorIfDaemon.updateData, hpending]
    constructor
    · intro hpending
      cases hpending
    · exact fun _ => rfl
    · intro _ hevent
      cases hevent
    · exact h.broken
    · rw [hrestarted]
      exact h.before
    · rw [hrestarted]
      exact h.after
    · exact h.reading
  | deactivation => exact { h with pending := fun _ => rfl, kept := fun _ _ => rfl }

theorem handleOverflow (h : Books m l) (hactive : m.status = .active) :
    Books m.handleOverflow { l with restarts := 0 } := by
  have hzero : m.reports = 0 := h.reports_eq_zero (by rw [hactive]; decide)
  have hone : m.handleOverflow.reports = 1 := by rw [reports_handleOverflow, hzero]
  have hrequested := h.requested (by rw [hactive]; decide)
  constructor
  · exact h.pending
  · exact fun _ => hrequested
  · exact h.kept
  · rw [hone]
    exact ⟨fun _ => Nat.one_pos, fun _ => rfl⟩
  · intro hnone
    omega
  · intro _
    have hearly := h.before hzero
    rw [hone, Ledger.Due]
    simp [MonitorIfDaemon.handleOverflow, pushOverflowInfoToObservers, hearly]
  · intro hne
    exact absurd rfl hne

theorem finishRead_true (h : Books m l) (hactive : m.status = .active) :
    Books (m.finishRead true) l := by
  have hzero : m.reports = 0 := h.reports_eq_zero (by rw [hactive]; decide)
  unfold finishRead
  split
  · contradiction
  split
  · constructor
    · intro hpending
      cases hpending
    · intro hne
      exact absurd rfl hne
    · intro hrequest
      cases hrequest
    · refine ⟨fun hstatus => ?_, fun hpos => ?_⟩
      · cases hstatus
      · exact absurd hzero (Nat.ne_of_gt hpos)
    · exact h.before
    · exact h.after
    · intro hne
      exact absurd rfl hne
  · exact { h with reading := fun hne => absurd rfl hne }

theorem goOn (h : Books m l) (hactive : m.status = .active) (channel : χ) (point : DrainPoint ρ)
    (timestamps : List Nat) : Books (m.goOn channel point timestamps) l := by
  have hreports := reports_goOn m channel point timestamps
  refine { h with broken := ?_, before := ?_, after := ?_, reading := fun _ => hactive } <;>
    rw [hreports]
  exacts [h.broken, h.before, h.after]

theorem activateIfRequested (h : Books m l) (hidle : m.point = .idle) :
    Books m.activateIfRequested l := by
  unfold MonitorIfDaemon.activateIfRequested
  split
  · rename_i hwake
    have hzero : m.reports = 0 := h.reports_eq_zero (by rw [hwake.2]; decide)
    refine ⟨h.pending, fun _ => hwake.1, h.kept, ⟨fun hstatus => ?_, fun hpos => ?_⟩, h.before,
      h.after, fun hne => absurd hidle hne⟩
    · cases hstatus
    · exact absurd hzero (Nat.ne_of_gt hpos)
  · exact h

theorem reportAgain (h : Books m l) (hbroken : m.status = .inactiveOverflow) :
    Books { m with isProcessRestarted := false }.pushOverflowInfoToObservers
      { l with restarts := 0 } := by
  have hpos := h.broken.mp hbroken
  have hmore : ({ m with isProcessRestarted := false }.pushOverflowInfoToObservers).reports =
      m.reports + 1 := count_cons_self
  refine ⟨h.pending, h.requested, h.kept, ?_, ?_, ?_, h.reading⟩
  · rw [hmore]
    exact ⟨fun _ => Nat.succ_pos _, fun _ => hbroken⟩
  · intro hzero
    omega
  · intro _
    rw [hmore, Ledger.Due]
    simp [pushOverflowInfoToObservers]
    omega

theorem checkForNewData (h : Books m l) (hidle : m.point = .idle) (sync : Nat) :
    Books (m.checkForNewData ch sync)
      (l.settle m.reports (m.checkForNewData ch sync).reports) := by
  have hreports : m.activateIfRequested.reports = m.reports := by
    unfold MonitorIfDaemon.activateIfRequested
    split <;> rfl
  have h := h.activateIfRequested hidle
  unfold MonitorIfDaemon.checkForNewData
  rw [← hreports]
  generalize m.activateIfRequested = m at h
  dsimp only
  split
  · rename_i hactive
    split
    · rw [reports_handleOverflow, Ledger.settle_of_report (Nat.lt_succ_self _)]
      exact h.handleOverflow hactive
    · change Books (m.goOn m.channel (.empty sync) [])
        (l.settle m.reports (m.goOn m.channel (.empty sync) []).reports)
      rw [reports_goOn, Ledger.settle_self]
      exact h.goOn hactive m.channel (.empty sync) []
  · rename_i hbroken
    split
    · have hmore : m.reports <
          ({ m with isProcessRestarted := false }.pushOverflowInfoToObservers).reports :=
        Nat.lt_of_lt_of_eq (Nat.lt_succ_self _) count_cons_self.symm
      rw [Ledger.settle_of_report hmore]
      exact h.reportAgain hbroken
    · rw [Ledger.settle_self]
      exact h
  · rw [Ledger.settle_self]
    exact h

theorem advance (h : Books m l) (hstep : m.advance ch = some m') :
    Books m' (l.settle m.reports m'.reports) := by
  obtain ⟨hpoint, hcases⟩ := advance_cases hstep
  have hactive := h.reading hpoint
  rcases hcases with ⟨channel, point, timestamps, rfl, -⟩ | rfl | ⟨channel, rfl⟩
  · rw [reports_goOn, Ledger.settle_self]
    exact h.goOn hactive channel point timestamps
  · rw [reports_finishRead_true, Ledger.settle_self]
    exact h.finishRead_true hactive
  · have hfinish : { m with channel }.finishRead false = { m with channel }.handleOverflow := rfl
    have hmore : m.reports < { m with channel }.handleOverflow.reports := by
      rw [reports_handleOverflow]
      exact Nat.lt_succ_self _
    rw [hfinish, Ledger.settle_of_report hmore]
    exact handleOverflow (h.goOn hactive channel m.point []) hactive

theorem step {a : Act ε} (h : Books m l) (hstep : m.step ch a = some m') :
    Books m' (Ledger.note m a m' l) := by
  cases a with
  | updateData eventType =>
    simp only [MonitorIfDaemon.step] at hstep
    split at hstep
    · cases hstep
      exact h.updateData eventType
    · cases hstep
  | checkForNewData sync =>
    simp only [MonitorIfDaemon.step] at hstep
    split at hstep
    · rename_i hidle
      cases hstep
      exact h.checkForNewData hidle sync
    · cases hstep
  | advance => exact h.advance hstep
  | outside e =>
    cases hstep
    have hsame : Ledger.note m (.outside e) { m with channel := ch.outside m.channel e } l = l :=
      Ledger.settle_self m.reports
    rw [hsame]
    exact { h with }

end Books

def Act.isCycle : Act ε → Bool
  | .checkForNewData _ => true
  | _ => false

/-- Until the overflow is reported, a cycle comes between a deactivation and an activation. -/
def Spaced (p : MonitorIfDaemon χ ρ × Ledger) : Act ε → Prop
  | .updateData .activation => p.1.reports = 0 → p.1.isDeactivateRequest = false
  | _ => True

instance (p : MonitorIfDaemon χ ρ × Ledger) : ∀ a : Act ε, Decidable (Spaced p a)
  | .updateData .activation =>
    inferInstanceAs (Decidable (p.1.reports = 0 → p.1.isDeactivateRequest = false))
  | .updateData .deactivation | .checkForNewData _ | .advance | .outside _ => isTrue trivial

theorem Ledger.early_settle (l : Ledger) (before after : Nat) :
    (l.settle before after).early = l.early := by
  unfold settle
  split <;> rfl

theorem Ledger.early_note {a : Act ε} (h : l.early = false) (hok : Spaced (m, l) a)
    (m' : MonitorIfDaemon χ ρ) : (Ledger.note m a m' l).early = false := by
  cases a with
  | updateData eventType =>
    simp only [note, observe]
    split
    · rename_i hrestart
      obtain ⟨rfl, -⟩ := hrestart
      have hspaced : m.reports = 0 → m.isDeactivateRequest = false := hok
      simpa [h] using hspaced
    · exact h
  | _ => exact (l.early_settle _ _).trans h

theorem Books.of_run {c : χ} {ok : MonitorIfDaemon χ ρ × Ledger → Act ε → Prop}
    (hrun : Run (recorded (MonitorIfDaemon.step ch) Ledger.note) ok ({ channel := c }, {})
      (m, l)) : Books m l := by
  have hstart : Books ({ channel := c } : MonitorIfDaemon χ ρ) {} := by
    refine ⟨?_, ?_, ?_, ?_, ?_, ?_, ?_⟩ <;> simp [reports]
  refine Run.invariant (fun p : MonitorIfDaemon χ ρ × Ledger => Books p.1 p.2) ?_ hstart hrun
  intro p q a h _ hstep
  obtain ⟨hq, hnote⟩ := Run.of_recorded hstep
  rw [hnote]
  exact h.step hq

theorem Books.reports_checkForNewData (h : Books m l) (hreported : 0 < m.reports) (sync : Nat) :
    (m.checkForNewData ch sync).reports = m.reports + if l.Due m.reports then 1 else 0 := by
  have hbroken := h.broken.mpr hreported
  have hawake : m.activateIfRequested = m := if_neg (by simp [hbroken])
  have hdue := h.after hreported
  simp only [MonitorIfDaemon.checkForNewData, hawake, hbroken]
  by_cases hrestarted : m.isProcessRestarted = true
  · rw [if_pos hrestarted, if_pos (hdue.mp hrestarted)]
    exact count_cons_self
  · rw [if_neg hrestarted, if_neg (mt hdue.mpr hrestarted)]
    rfl

theorem Books.reports_of_step {a : Act ε} (h : Books m l) (hreported : 0 < m.reports)
    (hstep : m.step ch a = some m') :
    m'.reports = m.reports + if a.isCycle = true ∧ l.Due m.reports then 1 else 0 := by
  cases a with
  | updateData eventType =>
    simp only [MonitorIfDaemon.step] at hstep
    split at hstep
    · cases hstep
      simp [Act.isCycle]
    · cases hstep
  | checkForNewData sync =>
    simp only [MonitorIfDaemon.step] at hstep
    split at hstep
    · cases hstep
      simpa [Act.isCycle] using h.reports_checkForNewData hreported sync
    · cases hstep
  | advance =>
    -- the channel is not read any more
    have hactive := h.reading (advance_cases hstep).1
    rw [h.broken.mpr hreported] at hactive
    cases hactive
  | outside e =>
    cases hstep
    simp [Act.isCycle, reports]

/-- Once the overflow was reported, a cycle reports it again for a restart, and nothing else does.
-/
theorem overflow_reported_again (ch : CheckpointChannel χ ρ ε) (c : χ) {a : Act ε}
    (hrun : Run (recorded (step ch) Ledger.note) Spaced ({ channel := c }, {}) (m, l))
    (hreported : 0 < m.reports) (hsingle : l.restarts ≤ 1) (hstep : m.step ch a = some m') :
    m'.reports = m.reports + if a.isCycle = true then l.restarts else 0 := by
  have hearly : l.early = false := by
    refine hrun.invariant (fun p : MonitorIfDaemon χ ρ × Ledger => p.2.early = false)
      (fun {p q a} h hok hs => ?_) rfl
    rw [(Run.of_recorded hs).2]
    exact Ledger.early_note h hok q.1
  rw [(Books.of_run hrun).reports_of_step hreported hstep]
  by_cases hcycle : a.isCycle = true
  · have hdue : l.Due m.reports ↔ 0 < l.restarts := by simp [Ledger.Due, hearly]
    simp only [hcycle, hdue, true_and, if_true]
    split <;> omega
  · simp [hcycle]

end Books

/-! ### The channel in shared memory -/

/-- The ring buffer of the checkpoints. The pointer to an element is its index; others write
checkpoints. -/
def ringChannel : CheckpointChannel (RingBuffer Nat) Nat Nat where
  hasOverflow b := b.overflowFlag
  empty b := b.empty
  tryPeek b := b.tryPeek.map fun _ => b.readHead
  timestamp b i := (b.nodes[i]?).join.getD 0
  tryPop b := b.tryPop
  outside b timestamp := (b.tryEnqueue timestamp).1

theorem overflow_reported_again_once :
    ∃ m l m',
      Run (recorded (step ringChannel) Ledger.note) Spaced ({ channel := .create 1 }, {}) (m, l) ∧
      m.reports = 1 ∧ l.restarts = 1 ∧
      m.step ringChannel (.checkForNewData 5) = some m' ∧ m'.reports = 2 := by
  obtain ⟨⟨m, l⟩, hrun, hreports, hrestarts, hidle⟩ :=
    Run.exists_of_exec (recorded (step ringChannel) Ledger.note) Spaced
      ({ channel := .create 1 }, {})
      (fun p => p.1.reports = 1 ∧ p.2.restarts = 1 ∧ p.1.point = .idle)
      [.updateData .activation, .outside 1, .outside 2, .checkForNewData 3,
        .updateData .deactivation, .checkForNewData 4, .updateData .activation]
      (by decide)
  dsimp only at hreports hrestarts hidle
  have hstep : m.step ringChannel (.checkForNewData 5) =
      some (m.checkForNewData ringChannel 5) := by
    simp only [step, hidle]
  refine ⟨m, l, _, hrun, hreports, hrestarts, hstep, ?_⟩
  have hagain := overflow_reported_again ringChannel (.create 1) hrun (by omega) (by omega) hstep
  simpa [Act.isCycle, hreports, hrestarts] using hagain

/-- A restart between two cycles is reported twice; two restarts after the report are reported once.
-/
theorem overflow_reports_and_restarts_differ :
    (∃ m l, Run (recorded (step ringChannel) Ledger.note) anyStep ({ channel := .create 1 }, {})
        (m, l) ∧
      m.reports = 1 ∧ l.restarts = 0 ∧
      (m.step ringChannel (.checkForNewData 5)).map reports = some 2) ∧
    ∃ m l, Run (recorded (step ringChannel) Ledger.note) anyStep ({ channel := .create 1 }, {})
        (m, l) ∧
      m.reports = 1 ∧ l.restarts = 2 ∧
      ((m.step ringChannel (.checkForNewData 5)).bind
        (step ringChannel · (.checkForNewData 6))).map reports = some 2 := by
  constructor
  · obtain ⟨⟨m, l⟩, hrun, hreports⟩ :=
      Run.exists_of_exec (recorded (step ringChannel) Ledger.note) anyStep
        ({ channel := .create 1 }, {})
        (fun p => p.1.reports = 1 ∧ p.2.restarts = 0 ∧
          (p.1.step ringChannel (.checkForNewData 5)).map reports = some 2)
        [.updateData .activation, .checkForNewData 1, .advance, .updateData .deactivation,
          .updateData .activation, .outside 2, .outside 3, .checkForNewData 4]
        (by decide)
    exact ⟨m, l, hrun, hreports⟩
  · obtain ⟨⟨m, l⟩, hrun, hreports⟩ :=
      Run.exists_of_exec (recorded (step ringChannel) Ledger.note) anyStep
        ({ channel := .create 1 }, {})
        (fun p => p.1.reports = 1 ∧ p.2.restarts = 2 ∧
          ((p.1.step ringChannel (.checkForNewData 5)).bind
            (step ringChannel · (.checkForNewData 6))).map reports = some 2)
        [.updateData .activation, .outside 1, .outside 2, .checkForNewData 3,
          .updateData .deactivation, .updateData .activation, .updateData .deactivation,
          .updateData .activation]
        (by decide)
    exact ⟨m, l, hrun, hreports⟩

end MonitorIfDaemon

end LaunchManager
