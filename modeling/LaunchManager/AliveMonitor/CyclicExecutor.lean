import LaunchManager.AliveMonitor.ObservableEventReader
import LaunchManager.AliveMonitor.MonitorIfDaemon
import LaunchManager.AliveMonitor.Rounds

/-!
# The cycle of the alive monitor

`performCyclicTriggers` reads the clock, distributes the supervision events, reads the
checkpoints of every process and evaluates every supervision, all with one sync
timestamp. Other threads queue events while these are distributed, and the processes
write checkpoints while these are read: a schedule says at which steps of the daemon.
For each supervision such a cycle is a round, with the inputs that reach it in the
cycle.
-/

namespace LaunchManager

open Option List

set_option autoImplicit false

open Runs

structure Timespec where
  tvSec : Int
  tvNsec : Int
  deriving DecidableEq, Repr

def convertToNanoSec (t : Timespec) : Nat :=
  if t.tvSec > maxNanoseconds / 1000000000 ∨ t.tvSec < 0 then 0
  else if t.tvNsec > maxNanoseconds ∨ t.tvNsec < 0 then 0
  else if maxNanoseconds - 1000000000 * t.tvSec < t.tvNsec then 0
  else (1000000000 * t.tvSec + t.tvNsec).toNat

/-- The argument is what `clock_gettime` returns, `none` for an error. -/
def getMonotonicSystemClock : Option Timespec → Nat
  | some systemClock => convertToNanoSec systemClock
  | none => 0

def syncTimestamp (clock : Nat) : Nat := if clock = 0 then maxNanoseconds else clock

def defaultAliveSupCheckpointBufferElements : UInt16 := 100

/-- What the supervision makes of a notification of its interface. -/
def Notification.input : Notification → AliveInput
  | .checkpoint t => .checkpoint t
  | .overflow => .checkpoint 0

def SupervisionEvent.input {Id : Type} (e : SupervisionEvent Id) : AliveInput :=
  .supervisionEvent e.systemClockTimestamp e.eventType

namespace MonitorIfDaemon
variable {χ ρ ε : Type}

def isIdle (m : MonitorIfDaemon χ ρ) : Bool :=
  match m.point with
  | .idle => true
  | _ => false

def readStep (ch : CheckpointChannel χ ρ ε) (m : MonitorIfDaemon χ ρ) :
    Option ε → Option (MonitorIfDaemon χ ρ)
  | none => m.step ch .advance
  | some change => m.step ch (.outside change)

def readChannel (ch : CheckpointChannel χ ρ ε) (m : MonitorIfDaemon χ ρ) (sync : Nat)
    (schedule : List (Option ε)) : Option (MonitorIfDaemon χ ρ) :=
  (schedule.foldlM (readStep ch) (m.checkForNewData ch sync)).filter isIdle

/-- The notifications since an earlier state, the oldest first. -/
def pushedSince (m earlier : MonitorIfDaemon χ ρ) : List Notification :=
  (m.pushed.take (m.pushed.length - earlier.pushed.length)).reverse

end MonitorIfDaemon

namespace EventDistribution
variable {Id : Type} [DecidableEq Id]

def distributeStep (s : EventDistribution Id) :
    Option (SupervisionEvent Id) → Option (EventDistribution Id)
  | none => s.step .next
  | some event => s.step (.queueSupervisionEvent event)

def distributeChanges (s : EventDistribution Id) (sync : Nat)
    (schedule : List (Option (SupervisionEvent Id))) : Option (EventDistribution Id) :=
  (schedule.foldlM distributeStep (s.startDistribution sync)).filter (·.cycle.isNone)

end EventDistribution

/-- The two observers of the events of a process; the second one also observes the first one. -/
structure Supervised (χ ρ : Type) where
  interface : MonitorIfDaemon χ ρ
  alive : Alive

namespace Supervised
variable {Id χ ρ ε : Type}

def updateData (p : Supervised χ ρ) (e : SupervisionEvent Id) : Supervised χ ρ where
  interface := p.interface.updateData e.eventType
  alive := p.alive.updateData e.input

def checkForNewData (ch : CheckpointChannel χ ρ ε) (p : Supervised χ ρ) (sync : Nat)
    (schedule : List (Option ε)) : Option (Supervised χ ρ) :=
  (p.interface.readChannel ch sync schedule).map fun m =>
    { interface := m
      alive := ((m.pushedSince p.interface).map Notification.input).foldl Alive.updateData
        p.alive }

def evaluate (p : Supervised χ ρ) (sync : Nat) : Option (Supervised χ ρ) :=
  (p.alive.evaluate sync).map fun alive => { p with alive := alive }

end Supervised

/-- The processes with their ids, in the order of their construction. -/
structure CyclicExecutor (Id χ ρ : Type) where
  events : EventDistribution Id
  supervised : List (Id × Supervised χ ρ)

/-- One call of `performCyclicTriggers`: the answer of the clock, and what others do meanwhile. -/
structure Trigger (Id ε : Type) where
  clockGettime : Option Timespec
  distributing : List (Option (SupervisionEvent Id))
  reading : Id → List (Option ε)

structure SupervisedConfig (Id χ : Type) where
  id : Id
  channel : χ
  config : AliveConfig
  recoveryClient : Nat → Bool

def Trigger.sync {Id ε : Type} (c : Trigger Id ε) : Nat :=
  syncTimestamp (getMonotonicSystemClock c.clockGettime)

namespace CyclicExecutor
variable {Id χ ρ ε : Type} [DecidableEq Id]

def create (processes : List (SupervisedConfig Id χ)) : CyclicExecutor Id χ ρ where
  events := .create fun id => processes.any (·.id = id)
  supervised := processes.map fun p =>
    (p.id, { interface := { channel := p.channel }
             alive := .create p.config p.recoveryClient defaultAliveSupCheckpointBufferElements })

def pushedTo (x : CyclicExecutor Id χ ρ) (events : EventDistribution Id) (id : Id) :
    List (SupervisionEvent Id) :=
  (events.delivered.drop x.events.delivered.length).filter (·.id = id)

def notify (x : CyclicExecutor Id χ ρ) (events : EventDistribution Id) : CyclicExecutor Id χ ρ where
  events := events
  supervised := x.supervised.map fun q =>
    (q.1, (x.pushedTo events q.1).foldl Supervised.updateData q.2)

def forAll (x : CyclicExecutor Id χ ρ) (f : Id → Supervised χ ρ → Option (Supervised χ ρ)) :
    Option (CyclicExecutor Id χ ρ) :=
  (x.supervised.mapM fun (q : Id × Supervised χ ρ) => (f q.1 q.2).map (Prod.mk q.1)).map
    fun supervised => { x with supervised := supervised }

def checkInterfaceForNewData (ch : CheckpointChannel χ ρ ε) (x : CyclicExecutor Id χ ρ)
    (sync : Nat) (reading : Id → List (Option ε)) : Option (CyclicExecutor Id χ ρ) :=
  x.forAll fun id p => p.checkForNewData ch sync (reading id)

def evaluateSupervisions (x : CyclicExecutor Id χ ρ) (sync : Nat) :
    Option (CyclicExecutor Id χ ρ) :=
  x.forAll fun _ p => p.evaluate sync

def performCyclicTriggers (ch : CheckpointChannel χ ρ ε) (x : CyclicExecutor Id χ ρ)
    (c : Trigger Id ε) : Option (CyclicExecutor Id χ ρ) := do
  let events ← x.events.distributeChanges c.sync c.distributing
  let x := x.notify events
  if events.flagSuccess then
    let x ← x.checkInterfaceForNewData ch c.sync c.reading
    x.evaluateSupervisions c.sync
  else some x

/-- What happens to the channel of a process while another one is dealt with happens between the
cycles here. -/
inductive Act (Id ε : Type) where
  | queueSupervisionEvent (event : SupervisionEvent Id)
  | outside (i : Nat) (change : ε)
  | performCyclicTriggers (c : Trigger Id ε)

def changeChannel (ch : CheckpointChannel χ ρ ε) (change : ε) (q : Id × Supervised χ ρ) :
    Id × Supervised χ ρ :=
  (q.1, { q.2 with
    interface := { q.2.interface with channel := ch.outside q.2.interface.channel change } })

def step (ch : CheckpointChannel χ ρ ε) (x : CyclicExecutor Id χ ρ) :
    Act Id ε → Option (CyclicExecutor Id χ ρ)
  | .queueSupervisionEvent event =>
    some { x with events := x.events.queueSupervisionEvent event }
  | .outside i change =>
    some { x with supervised := x.supervised.modify i (changeChannel ch change) }
  | .performCyclicTriggers c => x.performCyclicTriggers ch c

/-- The inputs that reach the supervision of the `i`-th process in a cycle, in this order. -/
def inputsOf (ch : CheckpointChannel χ ρ ε) (x : CyclicExecutor Id χ ρ) (c : Trigger Id ε)
    (i : Nat) : Option (List AliveInput) := do
  let events ← x.events.distributeChanges c.sync c.distributing
  let q ← (x.notify events).supervised[i]?
  let pushed := (x.pushedTo events q.1).map SupervisionEvent.input
  if events.flagSuccess then
    let m ← q.2.interface.readChannel ch c.sync (c.reading q.1)
    some (pushed ++ (m.pushedSince q.2.interface).map Notification.input)
  else some pushed

end CyclicExecutor

/-! ### The distribution -/

namespace EventDistribution
variable {Id : Type} {s t : EventDistribution Id}

/-- The buffer is intact, and a distribution fails for its overflow only. -/
structure Intact (s : EventDistribution Id) : Prop where
  holds : ∃ waiting, s.buffer.Holds waiting
  failed : s.flagSuccess = false → s.buffer.overflowFlag = true

theorem overflowFlag_queueSupervisionEvent (event : SupervisionEvent Id)
    (h : s.buffer.overflowFlag = true) :
    (s.queueSupervisionEvent event).buffer.overflowFlag = true := by
  unfold queueSupervisionEvent RingBuffer.tryEnqueue
  by_cases hfull : s.buffer.full = true
  · rw [if_pos hfull]
  · rw [if_neg hfull]
    exact h

theorem queueSupervisionEvent_frame (s : EventDistribution Id) (event : SupervisionEvent Id) :
    (s.queueSupervisionEvent event).cycle = s.cycle ∧
      (s.queueSupervisionEvent event).flagSuccess = s.flagSuccess := by
  unfold queueSupervisionEvent
  split <;> exact ⟨rfl, rfl⟩

theorem Intact.queueSupervisionEvent (h : s.Intact) (event : SupervisionEvent Id) :
    (s.queueSupervisionEvent event).Intact := by
  obtain ⟨waiting, hholds⟩ := h.holds
  refine ⟨?_, fun hfailed => ?_⟩
  · rcases Nat.lt_or_ge s.buffer.size s.buffer.capacity with hroom | hfull
    · rw [queueSupervisionEvent_eq hroom]
      exact ⟨_, hholds.tryEnqueue hroom⟩
    · have hsize : s.buffer.size = s.buffer.capacity :=
        Nat.le_antisymm (hholds.size ▸ hholds.size_le) hfull
      rw [EventDistribution.queueSupervisionEvent, RingBuffer.tryEnqueue_full hsize]
      exact ⟨waiting, { hholds with }⟩
  · rw [(queueSupervisionEvent_frame s event).2] at hfailed
    exact overflowFlag_queueSupervisionEvent event (h.failed hfailed)

theorem Intact.startDistribution (h : s.Intact) (sync : Nat) :
    (s.startDistribution sync).Intact := by
  rw [startDistribution_eq]
  exact ⟨h.holds, by rintro ⟨⟩⟩

variable [DecidableEq Id]

theorem handleNext_of_overflow (h : s.buffer.overflowFlag = true) (sync : Nat) :
    s.handleNext sync = { s with cycle := none, flagSuccess := false } := by
  rw [handleNext, if_pos h]

theorem Intact.handleNext (h : s.Intact) (sync : Nat) : (s.handleNext sync).Intact := by
  obtain ⟨waiting, hholds⟩ := h.holds
  cases hflag : s.buffer.overflowFlag with
  | true =>
    rw [handleNext_of_overflow hflag]
    exact ⟨h.holds, fun _ => hflag⟩
  | false =>
    have hsuccess : s.flagSuccess ≠ false := fun hfailed => by
      cases hflag.symm.trans (h.failed hfailed)
    cases waiting with
    | nil =>
      have hempty : s.buffer.empty = true := beq_iff_eq.mpr hholds.size
      rw [EventDistribution.handleNext, hflag, if_neg Bool.false_ne_true, hempty, if_pos rfl]
      exact ⟨h.holds, h.failed⟩
    | cons event waiting =>
      have hread : s.buffer.tryDequeue = (s.buffer.tryDequeue.1, some event) :=
        Prod.ext rfl hholds.tryDequeue_cons.1
      rw [EventDistribution.handleNext, hflag, if_neg Bool.false_ne_true, hholds.not_empty,
        if_neg Bool.false_ne_true, hread]
      exact ⟨⟨waiting, hholds.tryDequeue_cons.2⟩, fun hfailed => absurd hfailed hsuccess⟩

variable {queued : Option (SupervisionEvent Id)} {sync : Nat}

theorem Intact.distributeStep (h : s.Intact)
    (hstep : s.distributeStep queued = some t) : t.Intact := by
  cases queued with
  | none =>
    obtain ⟨sync, -, rfl⟩ := map_eq_some_iff.mp hstep
    exact h.handleNext sync
  | some event =>
    cases hstep
    exact h.queueSupervisionEvent event

variable {schedule : List (Option (SupervisionEvent Id))}

theorem Intact.distribute (h : s.Intact)
    (hrun : schedule.foldlM EventDistribution.distributeStep s = some t) : t.Intact := by
  induction schedule generalizing s with
  | nil =>
    cases hrun
    exact h
  | cons queued schedule ih =>
    rw [foldlM_cons] at hrun
    obtain ⟨u, hu, hrest⟩ := bind_eq_some_iff.mp hrun
    exact ih (h.distributeStep hu) hrest

theorem overflowFlag_distributeStep
    (h : s.buffer.overflowFlag = true) (hstep : s.distributeStep queued = some t) :
    t.buffer.overflowFlag = true := by
  cases queued with
  | none =>
    obtain ⟨sync, -, rfl⟩ := map_eq_some_iff.mp hstep
    rw [handleNext_of_overflow h]
    exact h
  | some event =>
    cases hstep
    exact overflowFlag_queueSupervisionEvent event h

theorem overflowFlag_distribute (h : s.buffer.overflowFlag = true)
    (hrun : schedule.foldlM distributeStep (s.startDistribution sync) = some t) :
    t.buffer.overflowFlag = true := by
  have hstart : (s.startDistribution sync).buffer.overflowFlag = true := by
    rw [startDistribution_eq]
    exact h
  generalize s.startDistribution sync = u at hrun hstart
  induction schedule generalizing u with
  | nil =>
    cases hrun
    exact hstart
  | cons queued schedule ih =>
    rw [foldlM_cons] at hrun
    obtain ⟨v, hv, hrest⟩ := bind_eq_some_iff.mp hrun
    exact ih v hrest (overflowFlag_distributeStep hstart hv)

theorem failed_distribute (hcycle : s.cycle = none) (hfailed : s.flagSuccess = false)
    (hrun : schedule.foldlM distributeStep s = some t) : t.flagSuccess = false := by
  induction schedule generalizing s with
  | nil =>
    cases hrun
    exact hfailed
  | cons queued schedule ih =>
    rw [foldlM_cons] at hrun
    obtain ⟨u, hu, hrest⟩ := bind_eq_some_iff.mp hrun
    cases queued with
    | none =>
      obtain ⟨sync, hsync, -⟩ := map_eq_some_iff.mp hu
      cases hcycle.symm.trans hsync
    | some event =>
      cases hu
      obtain ⟨hcycle', hfailed'⟩ := queueSupervisionEvent_frame s event
      exact ih (hcycle'.trans hcycle) (hfailed'.trans hfailed) hrest

theorem failed_of_overflow
    (h : s.buffer.overflowFlag = true) (hrun : s.distributeChanges sync schedule = some t) :
    t.flagSuccess = false := by
  obtain ⟨hfold, hover⟩ := filter_eq_some_iff.mp hrun
  have hstart : (s.startDistribution sync).buffer.overflowFlag = true ∧
      ((s.startDistribution sync).cycle = none →
        (s.startDistribution sync).flagSuccess = false) := by
    rw [startDistribution_eq]
    exact ⟨h, by rintro ⟨⟩⟩
  clear hrun
  generalize s.startDistribution sync = u at hfold hstart
  induction schedule generalizing u with
  | nil =>
    cases hfold
    exact hstart.2 (isNone_iff_eq_none.mp hover)
  | cons queued schedule ih =>
    rw [foldlM_cons] at hfold
    obtain ⟨v, hv, hrest⟩ := bind_eq_some_iff.mp hfold
    refine ih v hrest ⟨overflowFlag_distributeStep hstart.1 hv, ?_⟩
    cases queued with
    | none =>
      obtain ⟨sync', -, rfl⟩ := map_eq_some_iff.mp hv
      rw [handleNext_of_overflow hstart.1]
      exact fun _ => rfl
    | some event =>
      cases hv
      obtain ⟨hcycle, hflag⟩ := queueSupervisionEvent_frame u event
      rw [hcycle, hflag]
      exact hstart.2

/-- In the state before some iteration of the loop the buffer has overflowed. -/
def FindsOverflow (s : EventDistribution Id) (sync : Nat)
    (schedule : List (Option (SupervisionEvent Id))) : Prop :=
  ∃ before after t, schedule = before ++ none :: after ∧
    before.foldlM distributeStep (s.startDistribution sync) = some t ∧
    t.buffer.overflowFlag = true

theorem failed_of_findsOverflow
    (h : s.FindsOverflow sync schedule) (hrun : s.distributeChanges sync schedule = some t) :
    t.flagSuccess = false := by
  obtain ⟨before, after, u, rfl, hbefore, hflag⟩ := h
  have hfold := (filter_eq_some_iff.mp hrun).1
  rw [foldlM_append, hbefore] at hfold
  change List.foldlM distributeStep u (none :: after) = some t at hfold
  rw [foldlM_cons] at hfold
  obtain ⟨v, hv, hrest⟩ := bind_eq_some_iff.mp hfold
  obtain ⟨sync', -, rfl⟩ := map_eq_some_iff.mp hv
  rw [handleNext_of_overflow hflag] at hrest
  exact failed_distribute rfl rfl hrest

theorem overflowFlag_handleNext (s : EventDistribution Id) (sync : Nat) :
    (s.handleNext sync).buffer.overflowFlag = s.buffer.overflowFlag := by
  unfold handleNext
  split
  · rfl
  · split
    · rfl
    · have hread := RingBuffer.overflowFlag_tryDequeue s.buffer
      split <;> rename_i hdequeue <;> rw [hdequeue] at hread <;> exact hread

theorem findsOverflow_of_failed (h : s.Intact) (hrun : s.distributeChanges sync schedule = some t)
    (hfailed : t.flagSuccess = false) : s.FindsOverflow sync schedule := by
  have hfold := (filter_eq_some_iff.mp hrun).1
  have hintact := h.startDistribution sync
  have hsuccess : (s.startDistribution sync).flagSuccess = true := by
    rw [startDistribution_eq]
  unfold FindsOverflow
  clear hrun
  generalize s.startDistribution sync = u at hfold hintact hsuccess
  induction schedule generalizing u with
  | nil =>
    cases hfold
    cases hsuccess.symm.trans hfailed
  | cons queued schedule ih =>
    rw [foldlM_cons] at hfold
    obtain ⟨v, hv, hrest⟩ := bind_eq_some_iff.mp hfold
    by_cases hfound : queued = none ∧ u.buffer.overflowFlag = true
    · obtain ⟨rfl, hflag⟩ := hfound
      exact ⟨[], schedule, u, rfl, rfl, hflag⟩
    · have hv' := hintact.distributeStep hv
      have hgoes : v.flagSuccess = true := by
        cases queued with
        | none =>
          obtain ⟨sync', -, rfl⟩ := map_eq_some_iff.mp hv
          by_contra hfalse
          have hflag := hv'.failed (Bool.eq_false_iff.mpr hfalse)
          rw [overflowFlag_handleNext] at hflag
          exact hfound ⟨rfl, hflag⟩
        | some event =>
          cases hv
          exact (queueSupervisionEvent_frame u event).2.trans hsuccess
      obtain ⟨before, after, w, rfl, hbefore, hflag⟩ := ih v hrest hv' hgoes
      refine ⟨queued :: before, after, w, rfl, ?_, hflag⟩
      rw [foldlM_cons, hv]
      exact hbefore

end EventDistribution

/-! ### The loops over the processes -/

theorem getElem?_of_mapM {α β : Type} {f : α → Option β} {l : List α} {l' : List β}
    (h : l.mapM f = some l') : l'.length = l.length ∧
      ∀ (i : Nat) a, l[i]? = some a → ∃ b, f a = some b ∧ l'[i]? = some b := by
  induction l generalizing l' with
  | nil =>
    cases h
    exact ⟨rfl, fun i a ha => by cases ha⟩
  | cons a l ih =>
    rw [mapM_cons] at h
    obtain ⟨b, hb, hrest⟩ := bind_eq_some_iff.mp h
    obtain ⟨bs, hbs, hl'⟩ := bind_eq_some_iff.mp hrest
    cases hl'
    obtain ⟨hlength, hget⟩ := ih hbs
    refine ⟨congrArg (· + 1) hlength, fun i a' ha' => ?_⟩
    cases i with
    | zero =>
      cases ha'
      exact ⟨b, hb, rfl⟩
    | succ i => exact hget i a' ha'

theorem Supervised.interface_foldl {Id χ ρ : Type} (p : Supervised χ ρ)
    (events : List (SupervisionEvent Id)) : (events.foldl Supervised.updateData p).interface =
      (events.map (·.eventType)).foldl MonitorIfDaemon.updateData p.interface := by
  induction events generalizing p with
  | nil => rfl
  | cons e events ih => exact ih (p.updateData e)

theorem Supervised.alive_foldl {Id χ ρ : Type} (p : Supervised χ ρ)
    (events : List (SupervisionEvent Id)) : (events.foldl Supervised.updateData p).alive =
      (events.map SupervisionEvent.input).foldl Alive.updateData p.alive := by
  induction events generalizing p with
  | nil => rfl
  | cons e events ih => exact ih (p.updateData e)

namespace CyclicExecutor
variable {Id χ ρ ε : Type} {ch : CheckpointChannel χ ρ ε} {x x' : CyclicExecutor Id χ ρ}

theorem forAll_cases {f : Id → Supervised χ ρ → Option (Supervised χ ρ)}
    (h : x.forAll f = some x') : x'.events = x.events ∧
      x'.supervised.length = x.supervised.length ∧
      ∀ (i : Nat) q, x.supervised[i]? = some q →
        ∃ p, f q.1 q.2 = some p ∧ x'.supervised[i]? = some (q.1, p) := by
  obtain ⟨supervised, hsupervised, rfl⟩ := map_eq_some_iff.mp h
  obtain ⟨hlength, hget⟩ := getElem?_of_mapM hsupervised
  refine ⟨rfl, hlength, fun i q hq => ?_⟩
  obtain ⟨q', hq', hi⟩ := hget i q hq
  obtain ⟨p, hp, rfl⟩ := map_eq_some_iff.mp hq'
  exact ⟨p, hp, hi⟩

variable [DecidableEq Id] {c : Trigger Id ε}

/-- What a cycle that pushes the given events to a process makes of it. -/
inductive Handled (ch : CheckpointChannel χ ρ ε) (c : Trigger Id ε) (events : EventDistribution Id)
    (pushed : List (SupervisionEvent Id)) (inputs : List AliveInput)
    (q q' : Id × Supervised χ ρ) : Prop where
  | evaluated (success : events.flagSuccess = true)
      (round : q.2.alive.round ⟨inputs, c.sync⟩ = some q'.2.alive)
      (read : ((pushed.map (·.eventType)).foldl MonitorIfDaemon.updateData
        q.2.interface).readChannel ch c.sync (c.reading q.1) = some q'.2.interface)
      (forwarded : inputs = pushed.map SupervisionEvent.input ++ (q'.2.interface.pushedSince
        ((pushed.map (·.eventType)).foldl MonitorIfDaemon.updateData q.2.interface)).map
          Notification.input)
  | skipped (failed : events.flagSuccess = false)
      (collected : q'.2.alive = inputs.foldl Alive.updateData q.2.alive)

/-- A cycle is a round for every process, unless the distribution fails. -/
theorem performCyclicTriggers_cases (h : x.performCyclicTriggers ch c = some x') :
    ∃ events, x.events.distributeChanges c.sync c.distributing = some events ∧
      x'.events = events ∧ x'.supervised.length = x.supervised.length ∧
      ∀ (i : Nat) q, x.supervised[i]? = some q → ∃ inputs q', x.inputsOf ch c i = some inputs ∧
        x'.supervised[i]? = some q' ∧ q'.1 = q.1 ∧
        Handled ch c events (x.pushedTo events q.1) inputs q q' := by
  obtain ⟨events, hevents, hrest⟩ := bind_eq_some_iff.mp h
  refine ⟨events, hevents, ?_⟩
  have hnotified : ∀ (i : Nat) q, x.supervised[i]? = some q → (x.notify events).supervised[i]? =
      some (q.1, (x.pushedTo events q.1).foldl Supervised.updateData q.2) := by
    intro i q hq
    rw [notify, List.getElem?_map, hq]
    rfl
  have hlength : (x.notify events).supervised.length = x.supervised.length := length_map _
  cases hflag : events.flagSuccess with
  | true =>
    dsimp only at hrest
    rw [if_pos hflag] at hrest
    obtain ⟨y, hread, hevaluate⟩ := bind_eq_some_iff.mp hrest
    obtain ⟨hevents₁, hlength₁, hget₁⟩ := forAll_cases hread
    obtain ⟨hevents₂, hlength₂, hget₂⟩ := forAll_cases hevaluate
    refine ⟨hevents₂.trans hevents₁, (hlength₂.trans hlength₁).trans hlength, fun i q hq => ?_⟩
    obtain ⟨p, hp, hy⟩ := hget₁ i _ (hnotified i q hq)
    obtain ⟨p', hp', hx'⟩ := hget₂ i _ hy
    obtain ⟨m, hm, rfl⟩ := map_eq_some_iff.mp hp
    obtain ⟨a', ha', rfl⟩ := map_eq_some_iff.mp hp'
    rw [Supervised.interface_foldl] at hm
    refine ⟨_, _, ?_, hx', rfl, .evaluated hflag ?_ hm rfl⟩
    · simp only [inputsOf, hevents, bind_eq_bind, bind_some, hnotified i q hq, hflag,
        if_true, Supervised.interface_foldl, hm]
    · rw [Alive.round, foldl_append, ← Supervised.alive_foldl, ← Supervised.interface_foldl]
      exact ha'
  | false =>
    dsimp only at hrest
    rw [if_neg (by rw [hflag]; decide)] at hrest
    cases hrest
    refine ⟨rfl, hlength, fun i q hq => ?_⟩
    refine ⟨_, _, ?_, hnotified i q hq, rfl, .skipped hflag (Supervised.alive_foldl _ _)⟩
    simp only [inputsOf, hevents, bind_eq_bind, bind_some, hnotified i q hq, hflag,
      Bool.false_eq_true, if_false]

end CyclicExecutor

end LaunchManager
