import Mathlib.Logic.Function.Basic
import LaunchManager.Graph
import LaunchManager.Library.Runs

/-!
# A process component

The class of `process_info_node.cpp` and the three threads that work on it: a
worker that runs `activate` or `deactivate`, the thread that reaps processes and
calls `tryHandleTermination`, and the main thread, which deactivates a component
that terminated unexpectedly and kills what is left at the end. Each access to a
shared variable is one step. The functions of the class are step functions over
their program points; a function that calls another one carries the point of the
callee.
-/

namespace LaunchManager.ProcessInfoNode

set_option autoImplicit false

inductive ProcessState where
  | idle
  | starting
  | running
  | terminating
  | terminated
  | failed
  deriving DecidableEq, Repr

def ProcessState.toNat : ProcessState → Nat
  | .idle => 0
  | .starting => 1
  | .running => 2
  | .terminating => 3
  | .terminated => 4
  | .failed => 5

inductive TerminationResult where
  | ignore
  | failure
  deriving DecidableEq, Repr

inductive ReadyCondition where
  | running
  | terminated
  | file
  deriving DecidableEq, Repr

structure ComponentConfig where
  isSelfTerminating : Bool
  isReporting : Bool
  readyCondition : ReadyCondition
  activationRetryAttempts : Nat
  deriving DecidableEq, Repr

/-- A call of `kill`; `own` says that its target is the process that was started last, and that this
process has not been reaped and its termination has not been handled. -/
structure Signal where
  pid : Nat
  own : Bool
  deriving DecidableEq, Repr

/-- A termination reported as unexpected, with what had happened to the process before. -/
structure Verdict where
  process : Nat
  reachedRunning : Bool
  stopInitiated : Bool
  deriving DecidableEq, Repr

/-- A process the component has started, as the system and the process map know it; the last four
fields are history. `result` is how its end was rated. -/
structure Process where
  pid : Nat := 0
  exited : Option Int := none
  inserted : Bool := false
  reaped : Bool := false
  early : Bool := false
  result : Option TerminationResult := none
  handled : Bool := false
  reachedRunning : Bool := false
  stopInitiated : Bool := false

/-- The state of the component, the stored process identifier, the processes in the order in which
they were started, and history: the signals sent and the terminations reported as unexpected, of
which `unexpected` wait for the main thread. -/
structure Custody where
  processState : ProcessState := .idle
  pid : Nat := 0
  started : Nat := 0
  processes : Nat → Process := fun _ => { handled := true }
  unexpected : Nat := 0
  signals : List Signal := []
  verdicts : List Verdict := []

namespace Custody

def last (k : Custody) : Process := k.processes k.started

def modify (k : Custody) (process : Nat) (f : Process → Process) : Custody :=
  { k with processes := Function.update k.processes process (f (k.processes process)) }

/-- The new value of `process_state_`, with what the history notes about the process. -/
def enter (k : Custody) (new : ProcessState) : Custody :=
  { k with processState := new }.modify k.started fun p =>
    { p with
      reachedRunning := p.reachedRunning || new == ProcessState.running
      stopInitiated := p.stopInitiated || new == ProcessState.terminating }

/-- A call of `kill` with the stored identifier, which is made only if that is positive. -/
def kill (k : Custody) : Custody :=
  if k.pid = 0 then k
  else { k with
    signals := ⟨k.pid, k.pid == k.last.pid && !k.last.reaped && !k.last.handled⟩ :: k.signals }

def launch (k : Custody) (pid : Nat) : Custody :=
  { k with
    pid := pid
    started := k.started + 1
    processes := Function.update k.processes (k.started + 1) { pid := pid } }

def handle (k : Custody) (process : Nat) (result : TerminationResult) : Custody :=
  let p := k.processes process
  match result with
  | .ignore => k.modify process ({ · with handled := true })
  | .failure =>
    { k with
      unexpected := k.unexpected + 1
      verdicts := ⟨process, p.reachedRunning, p.stopInitiated⟩ :: k.verdicts }.modify process
        ({ · with handled := true })

end Custody

structure Node extends Custody where
  terminationRequested : Bool := false
  exitStatus : Int := 0
  terminationResult : Option TerminationResult := none
  successReturned : Bool := false
  reachedReady : Bool := false
  isTerminated : Bool := false

namespace Node

def active (n : Node) : Bool := n.reachedReady

def update (n : Node) (k : Custody) : Node := { n with toCustody := k }

end Node

inductive Progress (P α : Type) where
  | next (p : P)
  | done (a : α)
  deriving DecidableEq, Repr

namespace Progress
variable {P Q α β : Type}

def point : Progress P α → Option P
  | .next p => some p
  | .done _ => none

def result : Progress P α → Option α
  | .next _ => none
  | .done a => some a

def call (within : P → Q) (after : α → Progress Q β) : Progress P α → Progress Q β
  | .next p => .next (within p)
  | .done a => after a

end Progress

/-- Whether `setState` tries to exchange `old` for `new`: the state may only grow, or stay idle. -/
def ProcessState.MayBecome (old new : ProcessState) : Prop :=
  old.toNat < new.toNat ∨ new = old ∧ new = .idle

instance (old new : ProcessState) : Decidable (old.MayBecome new) :=
  inferInstanceAs (Decidable (_ ∨ _))

/-- `setState`: the state is read, then exchanged, or stored if a process that ended becomes
idle. -/
inductive SetState (new : ProcessState) where
  | load
  | cas (old : ProcessState) (h : old.MayBecome new)
  | store (h : new = .idle)
  deriving DecidableEq

def SetState.step {new : ProcessState} (n : Node) :
    SetState new → Node × Progress (SetState new) Bool
  | .load =>
    if h : n.processState.MayBecome new then (n, .next (.cas n.processState h))
    else if h : new = .idle ∧ (n.processState = .terminated ∨ n.processState = .failed) then
      (n, .next (.store h.1))
    else (n, .done false)
  | .cas old _ =>
    if n.processState = old then (n.update (n.enter new), .done true) else (n, .done false)
  | .store _ => (n.update (n.enter new), .done true)

inductive TryHandleTermination where
  | storeStatus
  | storeResult
  | exchange
  | requested (p : SetState .terminated)
  | casStarting
  | normal (p : SetState .terminated)
  | branch
  | testAndSet
  | storeReady
  | terminated (result : TerminationResult)
  deriving DecidableEq

def ComponentConfig.terminationResult (c : ComponentConfig) (status : Int) : TerminationResult :=
  if c.isSelfTerminating ∧ status = 0 then .ignore else .failure

/-- `tryHandleTermination` for the end of `process` with `status`. When it returns a failure, the
caller raises an unexpected termination. -/
def TryHandleTermination.step (c : ComponentConfig) (process : Nat) (status : Int) (n : Node) :
    TryHandleTermination → Node × Progress TryHandleTermination TerminationResult
  | .storeStatus => ({ n with exitStatus := status }, .next .storeResult)
  | .storeResult =>
    let result := some (c.terminationResult status)
    ({ n with terminationResult := result }.update
      (n.modify process ({ · with result := result })), .next .exchange)
  | .exchange =>
    ({ n with terminationRequested := false },
      .next (if n.terminationRequested then .requested .load else .casStarting))
  | .requested p =>
    let r := p.step n
    (r.1, r.2.call .requested fun _ => .next (.terminated .ignore))
  | .casStarting =>
    if n.processState = .starting then
      (n.update (n.enter .terminated), .next (.terminated .ignore))
    else (n, .next (.normal .load))
  | .normal p =>
    let r := p.step n
    (r.1, r.2.call .normal fun _ => .next .branch)
  | .branch =>
    if n.terminationResult = some .ignore then
      -- `tryReportCompletion` succeeds only if the component waits for its termination
      (n, .next (if c.readyCondition = .terminated then .testAndSet else .terminated .ignore))
    else (n, .next (.terminated .failure))
  | .testAndSet =>
    ({ n with successReturned := true },
      .next (if n.successReturned then .terminated .ignore else .storeReady))
  | .storeReady => ({ n with reachedReady := true }, .next (.terminated .ignore))
  | .terminated result =>
    ({ n with isTerminated := true }.update (n.handle process result), .done result)

/-- `terminateProcess` with `handleTerminationProcess` and `handleForcedTermination`. -/
inductive TerminateProcess where
  | setTerminating (p : SetState .terminating)
  | request
  | sigterm
  | waitTerm
  | sigkill
  | waitKill
  | release
  deriving DecidableEq

/-- `ok` is the result of a call of `kill`. A wait returns what the waiter knows at its end. -/
def TerminateProcess.step (ok : Bool) (n : Node) :
    TerminateProcess → Node × Progress TerminateProcess Unit
  | .setTerminating p =>
    let r := p.step n
    (r.1, r.2.call .setTerminating fun changed => if changed then .next .request else .done ())
  | .request => ({ n with terminationRequested := true }, .next .sigterm)
  | .sigterm => (n.update n.kill, .next (if ok ∧ n.pid ≠ 0 then .waitTerm else .release))
  | .waitTerm => (n, .next (if n.isTerminated then .release else .sigkill))
  | .sigkill => (n.update n.kill, .next (if ok ∧ n.pid ≠ 0 then .waitKill else .release))
  | .waitKill => (n, .next (if n.isTerminated then .release else .sigkill))
  | .release => ({ n with terminationRequested := false }, .done ())

inductive Deactivate where
  | clear
  | unready
  | terminate (t : TerminateProcess)
  | setIdle (p : SetState .idle)
  deriving DecidableEq

def Deactivate.step (ok : Bool) (n : Node) :
    Deactivate → Node × Progress Deactivate RequestResult
  | .clear => ({ n with successReturned := false }, .next .unready)
  | .unready => ({ n with reachedReady := false }, .next (.terminate (.setTerminating .load)))
  | .terminate t =>
    let r := t.step ok n
    (r.1, r.2.call .terminate fun _ => .next (.setIdle .load))
  | .setIdle p =>
    let r := p.step n
    (r.1, r.2.call .setIdle fun _ => .done .success)

/-- `activate` with `startProcess` and what that calls. -/
inductive Activate where
  | clear
  | checkReady
  | setIdle (p : SetState .idle)
  | resetPid
  | resetStatus
  | resetResult
  | resetWaiter
  | setStarting (p : SetState .starting)
  | launch
  | insert
  | inline (status : Int) (h : TryHandleTermination)
  | waitRunning
  | waitTerminated
  | waitFile
  | loadStatus
  | getState
  | terminate (t : TerminateProcess)
  | terminateFatal (t : TerminateProcess)
  | setFailed (p : SetState .failed)
  | setRunning (p : SetState .running)
  | readResult
  | testAndSet
  | storeReady
  | reportError (error : RequestResult)
  deriving DecidableEq

/-- An ordinary failure of an attempt: the loop goes on or is left with the error. -/
def retry (c : ComponentConfig) (attempt : Nat) (error : RequestResult) :
    Progress (Nat × Activate) RequestResult :=
  if attempt < c.activationRetryAttempts then .next (attempt + 1, .setIdle .load)
  else .next (attempt, .reportError error)

def firstWait (c : ComponentConfig) : Activate :=
  match c.readyCondition with
  | .running => if c.isReporting then .waitRunning else .loadStatus
  | .terminated => if c.isReporting then .waitRunning else .waitTerminated
  | .file => .waitFile

/-- `ok` is the outcome of a wait, of the insertion into the process map or of a call of `kill`.
The start of a process that succeeds is a step of its own. -/
def Activate.step (c : ComponentConfig) (attempt : Nat) (ok : Bool) (n : Node) :
    Activate → Node × Progress (Nat × Activate) RequestResult
  | .clear => ({ n with successReturned := false }, .next (attempt, .checkReady))
  | .checkReady =>
    (n, .next (attempt, if n.reachedReady then .testAndSet else .setIdle .load))
  | .setIdle p =>
    let r := p.step n
    (r.1, r.2.call (fun p' => (attempt, .setIdle p')) fun changed =>
      .next (attempt, if changed then .resetPid else .reportError .failure))
  | .resetPid => (n.update { n.toCustody with pid := 0 }, .next (attempt, .resetStatus))
  | .resetStatus => ({ n with exitStatus := 0 }, .next (attempt, .resetResult))
  | .resetResult => ({ n with terminationResult := none }, .next (attempt, .resetWaiter))
  | .resetWaiter => ({ n with isTerminated := false }, .next (attempt, .setStarting .load))
  | .setStarting p =>
    let r := p.step n
    (r.1, r.2.call (fun p' => (attempt, .setStarting p')) fun _ => .next (attempt, .launch))
  | .launch => (n, .next (attempt, .setFailed .load))
  | .insert =>
    if n.last.early then
      (n.update (n.modify n.started ({ · with early := false })),
        .next (attempt, .inline (n.last.exited.getD 0) .storeStatus))
    else if ok then
      (n.update (n.modify n.started ({ · with inserted := true })), .next (attempt, firstWait c))
    else (n, .next (attempt, .terminateFatal (.setTerminating .load)))
  | .inline status h =>
    let r := h.step c n.started status n
    (r.1, r.2.call (fun h' => (attempt, .inline status h')) fun _ =>
      if c.isReporting then retry c attempt .failure else .next (attempt, .setRunning .load))
  | .waitRunning =>
    (n, .next (attempt,
      if ok then if c.readyCondition = .terminated then .waitTerminated else .loadStatus
      else .getState))
  | .waitTerminated => (n, .next (attempt, if n.isTerminated then .loadStatus else .getState))
  | .waitFile => (n, .next (attempt, if ok then .loadStatus else .getState))
  | .loadStatus =>
    (n, .next (attempt, if n.exitStatus = 0 then .setRunning .load else .getState))
  | .getState =>
    (n, if n.processState = .terminated then retry c attempt .failure
      else .next (attempt, .terminate (.setTerminating .load)))
  | .terminate t =>
    let r := t.step ok n
    (r.1, r.2.call (fun t' => (attempt, .terminate t')) fun _ => retry c attempt .timeout)
  | .terminateFatal t =>
    let r := t.step ok n
    (r.1, r.2.call (fun t' => (attempt, .terminateFatal t')) fun _ =>
      .next (attempt, .setFailed .load))
  | .setFailed p =>
    let r := p.step n
    (r.1, r.2.call (fun p' => (attempt, .setFailed p')) fun _ =>
      .next (attempt, .reportError .failure))
  | .setRunning p =>
    let r := p.step n
    (r.1, r.2.call (fun p' => (attempt, .setRunning p')) fun changed =>
      if changed then
        -- `tryReportCompletion`
        if c.readyCondition = .terminated then .done .failure else .next (attempt, .testAndSet)
      else .next (attempt, .readResult))
  | .readResult =>
    (n, .next (attempt,
      if n.terminationResult = some .ignore then .testAndSet else .reportError .failure))
  | .testAndSet =>
    ({ n with successReturned := true },
      if n.successReturned then .done .failure else .next (attempt, .storeReady))
  | .storeReady => ({ n with reachedReady := true }, .done .success)
  | .reportError error =>
    ({ n with successReturned := true }, .done (if n.successReturned then .failure else error))

inductive Job where
  | activate (attempt : Nat) (pc : Activate)
  | deactivate (pc : Deactivate)
  deriving DecidableEq

def Job.start : ComponentTaskType → Job
  | .activate => .activate 0 .clear
  | .deactivate => .deactivate .clear

def Job.step (c : ComponentConfig) (ok : Bool) (n : Node) :
    Job → Node × Progress Job (ComponentTaskType × RequestResult)
  | .activate attempt pc =>
    let r := pc.step c attempt ok n
    (r.1, r.2.call (fun (attempt', pc') => .activate attempt' pc') fun result =>
      .done (.activate, result))
  | .deactivate pc =>
    let r := pc.step ok n
    (r.1, r.2.call .deactivate fun result => .done (.deactivate, result))

/-- A call of `tryHandleTermination` by the thread that reaps processes. -/
structure Handler where
  process : Nat
  status : Int
  pc : TryHandleTermination
  deriving DecidableEq

/-- The component with the threads; `returned` is the last job the worker has finished. -/
structure System where
  node : Node := {}
  worker : Option Job := none
  os : Option Handler := none
  main : Option Deactivate := none
  returned : Option (ComponentTaskType × RequestResult) := none

inductive Act where
  | begin (type : ComponentTaskType)
  | worker (ok : Bool)
  | launched (pid : Nat)
  | exit (process : Nat) (status : Int)
  | reap (process : Nat)
  | reapEarly (process : Nat) (room : Bool)
  | os
  | takeEvent
  | main (ok : Bool)
  | forceKill
  deriving DecidableEq, Repr

namespace System

def workerStep (c : ComponentConfig) (ok : Bool) (s : System) (j : Job) : System :=
  let r := j.step c ok s.node
  { s with node := r.1, worker := r.2.point, returned := r.2.result.or s.returned }

def osStep (c : ComponentConfig) (s : System) (h : Handler) : System :=
  let r := h.pc.step c h.process h.status s.node
  { s with node := r.1, os := r.2.point.map ({ h with pc := · }) }

def mainStep (ok : Bool) (s : System) (pc : Deactivate) : System :=
  let r := pc.step ok s.node
  { s with node := r.1, main := r.2.point }

/-- A process that ended is reaped: if it is in the map its termination is handled at once, else
the map remembers it for the worker as long as it has room. -/
def step (c : ComponentConfig) (s : System) : Act → Option System
  | .begin type => if s.worker = none then some { s with worker := some (.start type) } else none
  | .worker ok => s.worker.map (s.workerStep c ok)
  | .launched pid =>
    match s.worker with
    | some (.activate attempt .launch) =>
      if pid ≠ 0 then
        some { s with
          node := s.node.update (s.node.launch pid), worker := some (.activate attempt .insert) }
      else none
    | _ => none
  | .exit process status =>
    if 0 < process ∧ process ≤ s.node.started ∧ (s.node.processes process).exited = none then
      some { s with
        node := s.node.update (s.node.modify process ({ · with exited := some status })) }
    else none
  | .reap process =>
    match (s.node.processes process).exited with
    | some status =>
      if s.os = none ∧ process ≤ s.node.started ∧ (s.node.processes process).inserted ∧
          ¬ (s.node.processes process).reaped then
        some { s with
          node := s.node.update (s.node.modify process ({ · with reaped := true }))
          os := some ⟨process, status, .storeStatus⟩ }
      else none
    | none => none
  | .reapEarly process room =>
    if s.os = none ∧ process ≤ s.node.started ∧ (s.node.processes process).exited.isSome ∧
        ¬ (s.node.processes process).inserted ∧ ¬ (s.node.processes process).reaped then
      some { s with
        node := s.node.update
          (s.node.modify process ({ · with reaped := true, early := room })) }
    else none
  | .os => s.os.map (s.osStep c)
  | .takeEvent =>
    if s.main = none ∧ 0 < s.node.unexpected then
      some { s with
        node := s.node.update { s.node.toCustody with unexpected := s.node.unexpected - 1 }
        main := some .clear }
    else none
  | .main ok => s.main.map (s.mainStep ok)
  | .forceKill =>
    if s.main = none then some { s with node := s.node.update s.node.kill } else none

end System

end LaunchManager.ProcessInfoNode
