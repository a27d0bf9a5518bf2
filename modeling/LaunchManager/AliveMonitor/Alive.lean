import LaunchManager.AliveMonitor.TimeSortingBuffer
import Mathlib.Algebra.Group.Nat.Defs

/-!
# Alive supervision

The class of `Alive.cpp`. Checkpoints and supervision events are collected in the
time sorting buffer; `evaluate` adds the sync event and works the buffer off.
Timestamps are nanoseconds. The answers of the recovery client are a parameter,
its requests a history variable; logging and the observers of the result are
left out. `none` stands for a failed assertion.
-/

namespace LaunchManager

set_option autoImplicit false

def maxNanoseconds : Nat := 2 ^ 63 - 1

def maxUInt32 : Nat := 2 ^ 32 - 1

structure ComponentAliveSupervision where
  reportingCycleMs : UInt32
  failedCyclesTolerance : UInt32
  minIndications : Option UInt32
  maxIndications : Option UInt32
  deriving DecidableEq, Repr

/-- A configuration that meets the precondition of the constructor. -/
structure AliveConfig extends ComponentAliveSupervision where
  reportingCycle_ne_zero : reportingCycleMs ≠ 0

namespace AliveConfig
variable (c : AliveConfig)

def aliveReferenceCycle : Nat := 1000000 * c.reportingCycleMs.toNat

def minAliveIndications : Nat := (c.minIndications.getD 0).toNat

def maxAliveIndications : Nat := (c.maxIndications.getD 0).toNat

def isMinCheckDisabled : Bool := decide (c.minAliveIndications = 0)

def isMaxCheckDisabled : Bool := decide (c.maxAliveIndications = 0)

def failedSupervisionCyclesTolerance : Nat := c.failedCyclesTolerance.toNat

theorem aliveReferenceCycle_pos : 0 < c.aliveReferenceCycle := by
  have hne : c.reportingCycleMs.toNat ≠ 0 := fun h =>
    c.reportingCycle_ne_zero (UInt32.toNat_inj.mp h)
  rw [aliveReferenceCycle]
  omega

theorem tolerance_le : c.failedSupervisionCyclesTolerance ≤ maxUInt32 := by
  have h := c.failedCyclesTolerance.toNat_lt
  rw [failedSupervisionCyclesTolerance, maxUInt32]
  omega

theorem aliveReferenceCycle_lt : c.aliveReferenceCycle < maxNanoseconds := by
  have h := c.reportingCycleMs.toNat_lt
  rw [aliveReferenceCycle, maxNanoseconds]
  omega

end AliveConfig

inductive AliveStatus where
  | ok
  | failed
  | expired
  | deactivated
  deriving DecidableEq, Repr

inductive DataLossReason where
  | noDataLoss
  | bufferFull
  | sharedMemory
  deriving DecidableEq, Repr

inductive SupervisionEventType where
  | activation
  | deactivation
  deriving DecidableEq, Repr

inductive TimeSortedUpdateEvent where
  | supervisionEvent (timestamp : Nat) (eventType : SupervisionEventType)
  | checkpoint (timestamp : Nat)
  | sync (timestamp : Nat)
  deriving DecidableEq, Repr

inductive UpdateEventType where
  | activation
  | deactivation
  | checkpoint
  | evaluation
  | sync
  deriving DecidableEq, Repr

/-- What the observed interfaces report: a checkpoint, or a change of the process. -/
inductive AliveInput where
  | checkpoint (timestamp : Nat)
  | supervisionEvent (timestamp : Nat) (eventType : SupervisionEventType)
  deriving DecidableEq, Repr

/-- What the supervision shows to the outside: a new status, or a recovery request with its
timestamp. -/
inductive AliveOutput where
  | status (status : AliveStatus)
  | recoveryRequest (timestamp : Nat)
  deriving DecidableEq, Repr

/-- The members that the transitions work on. `history` is a history variable with the latest
output first; `recoveryClient n` says whether the `n`-th request is enqueued. -/
structure AliveState where
  config : AliveConfig
  recoveryClient : Nat → Bool
  recoveryEnqueueFailed : Bool := false
  dataLossReason : DataLossReason := .noDataLoss
  aliveStatus : AliveStatus := .deactivated
  referenceCycleStart : Nat := 0
  referenceCycleEnd : Nat := maxNanoseconds
  indicationCount : Nat := 0
  failedSupervisionCycles : Nat := 0
  eventTimestamp : Nat := 0
  history : List AliveOutput := []

structure Alive extends AliveState where
  lastSyncTimestamp : Nat := 0
  timeSortingUpdateEventBuffer : TimeSortingBuffer TimeSortedUpdateEvent

def AliveState.recoveryRequests (s : AliveState) : List Nat :=
  s.history.filterMap fun
    | .recoveryRequest t => some t
    | .status _ => none

def TimeSortedUpdateEvent.timestamp : TimeSortedUpdateEvent → Nat
  | .supervisionEvent t _ => t
  | .checkpoint t => t
  | .sync t => t

def TimeSortedUpdateEvent.isSync : TimeSortedUpdateEvent → Bool
  | .sync _ => true
  | _ => false

def AliveInput.timestamp : AliveInput → Nat
  | .checkpoint t => t
  | .supervisionEvent t _ => t

/-- A checkpoint without a timestamp reports a data loss. -/
def AliveInput.isDataLossEvent : AliveInput → Bool
  | .checkpoint t => t == 0
  | .supervisionEvent _ _ => false

def AliveInput.event : AliveInput → TimeSortedUpdateEvent
  | .checkpoint t => .checkpoint t
  | .supervisionEvent t type => .supervisionEvent t type

namespace AliveState

def switchToDeactivated (s : AliveState) : AliveState :=
  { s with
    aliveStatus := .deactivated
    failedSupervisionCycles := 0
    indicationCount := 0
    referenceCycleStart := 0
    referenceCycleEnd := maxNanoseconds
    history := .status .deactivated :: s.history }

def switchToOk (s : AliveState) : AliveState :=
  { s with
    aliveStatus := .ok
    failedSupervisionCycles := 0
    history := .status .ok :: s.history }

def switchToExpired (s : AliveState) : AliveState :=
  { s with
    aliveStatus := .expired
    failedSupervisionCycles := s.config.failedSupervisionCyclesTolerance
    indicationCount := 0
    referenceCycleStart := 0
    referenceCycleEnd := maxNanoseconds
    dataLossReason := .noDataLoss
    history := .recoveryRequest s.eventTimestamp :: .status .expired :: s.history
    recoveryEnqueueFailed :=
      if s.recoveryClient s.recoveryRequests.length then s.recoveryEnqueueFailed else true }

/-- The flag of the result tells of an overflow. -/
def setReferenceCycleTimestamps (s : AliveState) (base : Nat) : AliveState × Bool :=
  if base > maxNanoseconds - s.config.aliveReferenceCycle then
    ({ s with eventTimestamp := base }.switchToExpired, true)
  else
    ({ s with
       referenceCycleStart := base
       referenceCycleEnd := base + s.config.aliveReferenceCycle }, false)

def setNextCycle (s : AliveState) : AliveState :=
  match s.setReferenceCycleTimestamps s.referenceCycleEnd with
  | (s, true) => s
  | (s, false) => { s with indicationCount := 0 }

def switchToFailed (s : AliveState) : AliveState :=
  { s with
    aliveStatus := .failed
    failedSupervisionCycles := s.failedSupervisionCycles + 1
    history := .status .failed :: s.history }.setNextCycle

def isMinError (s : AliveState) : Bool :=
  !s.config.isMinCheckDisabled && decide (s.indicationCount < s.config.minAliveIndications)

def isMaxError (s : AliveState) : Bool :=
  !s.config.isMaxCheckDisabled && decide (s.indicationCount > s.config.maxAliveIndications)

def incIndicationCount (s : AliveState) (timestamp : Nat) : AliveState :=
  if s.indicationCount = maxUInt32 then { s with eventTimestamp := timestamp }.switchToExpired
  else { s with indicationCount := s.indicationCount + 1 }

def evaluateRefCycleOutOfOk (s : AliveState) : AliveState :=
  if s.isMinError || s.isMaxError then
    if s.failedSupervisionCycles < s.config.failedSupervisionCyclesTolerance then s.switchToFailed
    else s.switchToExpired
  else s.setNextCycle

def evaluateRefCycleOutOfFailed (s : AliveState) : AliveState :=
  if s.isMinError || s.isMaxError then
    if s.failedSupervisionCycles = maxUInt32 then s.switchToExpired
    else
      let s := { s with failedSupervisionCycles := s.failedSupervisionCycles + 1 }
      if s.failedSupervisionCycles ≤ s.config.failedSupervisionCyclesTolerance then s.setNextCycle
      else s.switchToExpired
  else
    let s :=
      if s.failedSupervisionCycles ≤ 1 then s.switchToOk
      else { s with failedSupervisionCycles := s.failedSupervisionCycles - 1 }
    s.setNextCycle

def checkTransitionsOutOfDeactivated (s : AliveState) (type : UpdateEventType) (timestamp : Nat) :
    AliveState :=
  if type = .activation then
    match s.setReferenceCycleTimestamps timestamp with
    | (s, true) => s
    | (s, false) => { s with eventTimestamp := timestamp }.switchToOk
  else s

def checkTransitionsOutOfOk (s : AliveState) (type : UpdateEventType) (timestamp : Nat) :
    AliveState :=
  if type = .evaluation then s.evaluateRefCycleOutOfOk
  else if type = .checkpoint then s.incIndicationCount timestamp
  else s

def checkTransitionsOutOfFailed (s : AliveState) (type : UpdateEventType) (timestamp : Nat) :
    AliveState :=
  if type = .evaluation then s.evaluateRefCycleOutOfFailed
  else if type = .checkpoint then s.incIndicationCount timestamp
  else s

def checkTransitionsToDeactivated (s : AliveState) (type : UpdateEventType) (timestamp : Nat) :
    AliveState :=
  if type = .deactivation ∧ s.aliveStatus ≠ .deactivated then
    { s with eventTimestamp := timestamp }.switchToDeactivated
  else s

/-- A sync event at the end of a cycle triggers its evaluation, a checkpoint there belongs to the
cycle. -/
def detectEvaluationEvent (s : AliveState) (e : TimeSortedUpdateEvent) : Bool :=
  match s.aliveStatus with
  | .deactivated | .expired => false
  | .ok | .failed =>
    decide (s.referenceCycleEnd < e.timestamp) ||
      (decide (s.referenceCycleEnd = e.timestamp) && e.isSync)

def getAliveEventType (isEvaluationEvent : Bool) (e : TimeSortedUpdateEvent) : UpdateEventType :=
  if isEvaluationEvent then .evaluation
  else match e with
    | .supervisionEvent _ .activation => .activation
    | .supervisionEvent _ .deactivation => .deactivation
    | .checkpoint _ => .checkpoint
    | .sync _ => .sync

/-- The switch over the status in the loop of `evaluate`. -/
def checkTransitions (s : AliveState) (type : UpdateEventType) (timestamp : Nat) : AliveState :=
  match s.aliveStatus with
  | .deactivated => s.checkTransitionsOutOfDeactivated type timestamp
  | .ok => s.checkTransitionsOutOfOk type timestamp
  | .failed => s.checkTransitionsOutOfFailed type timestamp
  | .expired => s

/-- The body of the loop of `evaluate`, without the step to the next element. -/
def processEvent (s : AliveState) (e : TimeSortedUpdateEvent) : AliveState :=
  let isEvaluationEvent := s.detectEvaluationEvent e
  let timestamp := if isEvaluationEvent then s.referenceCycleEnd else e.timestamp
  let type := getAliveEventType isEvaluationEvent e
  let s := if isEvaluationEvent then { s with eventTimestamp := s.referenceCycleEnd } else s
  (s.checkTransitions type timestamp).checkTransitionsToDeactivated type timestamp

/-- The loop of `evaluate`, which keeps an event as long as it triggers evaluations. `fuel` bounds
the iterations. -/
def processEvents (sync : Nat) : Nat → TimeSortingBuffer TimeSortedUpdateEvent →
    Option TimeSortedUpdateEvent → AliveState → Option AliveState
  | _, _, none, s => some s
  | 0, _, some _, _ => none
  | fuel + 1, b, some e, s =>
    if e.timestamp ≤ sync then
      if s.detectEvaluationEvent e then processEvents sync fuel b (some e) (s.processEvent e)
      else
        let (next, b) := b.getNextElement
        processEvents sync fuel b next (s.processEvent e)
    else none

end AliveState

namespace Alive

def create (config : AliveConfig) (recoveryClient : Nat → Bool) (bufferSize : UInt16) : Alive where
  config := config
  recoveryClient := recoveryClient
  timeSortingUpdateEventBuffer := { capacity := bufferSize.toNat }

/-- A push into the buffer; a full buffer is a data loss. -/
def store (a : Alive) (e : TimeSortedUpdateEvent) : Alive :=
  match a.timeSortingUpdateEventBuffer.push e e.timestamp with
  | (b, true) => { a with timeSortingUpdateEventBuffer := b }
  | (b, false) =>
    { a with
      timeSortingUpdateEventBuffer := b
      dataLossReason := .bufferFull
      eventTimestamp := a.lastSyncTimestamp }

def updateData (a : Alive) (input : AliveInput) : Alive :=
  if input.isDataLossEvent then
    { a with
      dataLossReason := .sharedMemory
      eventTimestamp := if input.timestamp = 0 then a.lastSyncTimestamp else input.timestamp }
  else a.store input.event

def storeSyncEvent (a : Alive) (sync : Nat) : Alive := a.store (.sync sync)

def handleDataLossReaction (a : Alive) : Alive :=
  let s := if a.aliveStatus ≠ .expired then a.switchToExpired else a.toAliveState
  { a with
    toAliveState := { s with dataLossReason := .noDataLoss }
    timeSortingUpdateEventBuffer := a.timeSortingUpdateEventBuffer.clear }

/-- Between two elements of the buffer there are at most `sync + 1` evaluations, since each of them
moves the end of the cycle. -/
def evaluate (a : Alive) (sync : Nat) : Option Alive :=
  let a := a.storeSyncEvent sync
  if a.dataLossReason ≠ .noDataLoss then
    some { a.handleDataLossReaction with lastSyncTimestamp := sync }
  else
    let fuel := a.timeSortingUpdateEventBuffer.timeSortedBuffer.length * (sync + 2)
    let (first, b) := a.timeSortingUpdateEventBuffer.getNextElement
    (AliveState.processEvents sync fuel b first a.toAliveState).map fun s =>
      { a with
        toAliveState := s
        timeSortingUpdateEventBuffer := a.timeSortingUpdateEventBuffer.clear
        lastSyncTimestamp := sync }

end Alive

end LaunchManager
