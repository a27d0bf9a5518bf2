import LaunchManager.Graph

/-!
# The daemon

The main thread of `process_group_manager.cpp` with the worker threads of the
pool, the two queues between them and the processes of the components. Every
action is one step of one thread: the main thread handles an event, a request
or an iteration of its loop, a worker takes a job, checks its stop token, acts
on its component or posts the completion, and processes end when they want.
-/

namespace LaunchManager

open Option

set_option autoImplicit false

universe u

structure Config (Key : Type u) where
  off : Key
  fallback : Key

/-- How a job ended. An activation fails with or without a timeout. -/
inductive Outcome where
  | succeeded
  | failed (timeout : Bool)
  | skipped
  deriving DecidableEq, Repr

def Outcome.result : Outcome → RequestResult
  | .succeeded => .success
  | .failed true => .timeout
  | .failed false => .failure
  | .skipped => .success

inductive Notice (Key : Type u) where
  | unexpectedTermination (node : Key)
  | supervisionFailure (process : Key)
  | getActiveRunTarget
  | setRequestedRunTarget (runTarget : Key)
  deriving DecidableEq, Repr

/-- An entry of the event queue. A completion carries the task that it completes. -/
inductive Queued (Key : Type u) where
  | completion (task : ComponentTask Key) (outcome : Outcome)
  | notice (notice : Notice Key)
  deriving DecidableEq, Repr

def Notice.event {Key : Type u} : Notice Key → ComponentEvent Key
  | .unexpectedTermination node => .unexpectedTermination node
  | .supervisionFailure process => .supervisionFailure process
  | .getActiveRunTarget => .getActiveRunTarget
  | .setRequestedRunTarget runTarget => .setRequestedRunTarget runTarget

def Queued.event {Key : Type u} : Queued Key → ComponentEvent Key
  | .completion task .succeeded =>
    match task.type with
    | .activate => .activationSuccessful task.component
    | .deactivate => .deactivationComplete task.component
  | .completion task (.failed timeout) =>
    .activationFailed task.component (Outcome.failed timeout).result
  | .completion task .skipped => .jobSkipped task.component
  | .notice n => n.event

def Queued.task? {Key : Type u} : Queued Key → Option (ComponentTask Key)
  | .completion task _ => some task
  | .notice _ => none

/-- A worker with its job; it is `begun` after the check of the stop token. -/
structure Worker (Key : Type u) where
  task : ComponentTask Key
  begun : Bool
  deriving DecidableEq, Repr

instance {Key : Type u} [DecidableEq Key] : LawfulBEq (Worker Key) := inferInstance

/-- Where the main thread is: between two steps, in the loop over the ready nodes, or waiting
for room in the job queue. The flag says that `processGroupHandler` looks at the state again
after the loop. -/
inductive MainMode (Key : Type u) where
  | idle
  | draining (handler : Bool)
  | pushing (task : ComponentTask Key) (handler : Bool)
  deriving DecidableEq, Repr

/-- `run` and the two waits of `allProcessGroupsOff`. -/
inductive Stage where
  | initial
  | running
  | cancelling
  | toOff
  | ended
  deriving DecidableEq, Repr

/-- `hasPid` says that a component has stored the identifier of a process it started, which it
keeps when the process ends. The last two fields are history variables: which processes were
alive and how often components had been deactivated when the transition began. -/
structure Daemon (Key : Type u) where
  graph : Graph Key
  jobQueue : List (ComponentTask Key) := []
  workers : List (Worker Key) := []
  events : List (Queued Key) := []
  main : MainMode Key := .idle
  stage : Stage := .initial
  alive : Key → Bool := fun _ => false
  hasPid : Key → Bool := fun _ => false
  killed : Key → Bool := fun _ => false
  aliveAtStart : Key → Bool := fun _ => false
  deactivationsAtStart : Key → Nat := fun _ => 0

def kMaxProcesses : Nat := 1024

namespace Daemon
variable {Key : Type u}

inductive Act (Key : Type u) where
  | startInitialTransition (runTarget : Key)
  | handleEvent
  | processGroupHandler
  | shutdown
  | waitOver
  | drain
  | pushed
  | pushTimeout
  | pushFailed
  | take
  | skip (w : Worker Key)
  | work (w : Worker Key)
  | launch (w : Worker Key)
  | setFlag (w : Worker Key)
  | succeed (w : Worker Key)
  | fail (w : Worker Key) (timeout : Bool)
  | exit (k : Key)
  | post (n : Notice Key)

def Act.ofMain : Act Key → Bool
  | .startInitialTransition _ | .handleEvent | .processGroupHandler | .shutdown | .waitOver
  | .drain | .pushed | .pushTimeout | .pushFailed => true
  | .take | .skip _ | .work _ | .launch _ | .setFlag _ | .succeed _ | .fail _ _ | .exit _
  | .post _ => false

/-- The jobs that were queued and whose completion has not been handled. -/
def outstanding (s : Daemon Key) : List (ComponentTask Key) :=
  s.jobQueue ++ (s.workers.map Worker.task ++ s.events.filterMap Queued.task?)

variable [DecidableEq Key]

def resume (s : Daemon Key) (result : Graph Key × Bool) (handler : Bool) : Daemon Key :=
  { s with graph := result.1, main := if result.2 then .draining handler else .idle }

def startTransition (s : Daemon Key) (runTarget : Key) (source : RunTargetActivationSource)
    (handler : Bool) : Option (Daemon Key) :=
  (s.graph.startTransition runTarget source).map fun result =>
    { s.resume result handler with
      aliveAtStart := s.alive, deactivationsAtStart := s.graph.deactivations }

/-- A target that is not configured starts nothing and is not the initial one. -/
def startInitialTransition (s : Daemon Key) (runTarget : Key) : Option (Daemon Key) :=
  if s.graph.isValidRunTarget runTarget then
    { s with graph := { s.graph with isInitialStateTransition := true } }.startTransition runTarget
      .stateManagerRequest false
  else
    some { s with
      graph := { s.graph with
        requestedState := some runTarget, transitionSource := .stateManagerRequest
        isInitialStateTransition := false } }

def startAsserted (s : Daemon Key) (runTarget : Key) (source : RunTargetActivationSource)
    (handler : Bool) : Option (Daemon Key) :=
  if s.graph.isValidRunTarget runTarget then s.startTransition runTarget source handler else none

def handleRecoveryRequest (c : Config Key) (g : Graph Key) : Graph Key :=
  if g.state = .inTransition then
    if g.requestedState ≠ some c.fallback then
      (g.setPendingState (some c.fallback) .recoveryAction).cancel
    else g
  else if g.state = .success ∧ g.requestedState = some c.fallback then g
  else g.setPendingState (some c.fallback) .recoveryAction

inductive ExecErrc where
  | runTargetDoesntExist
  | inTransitionToSameState
  | alreadyInState
  | activationInProgress
  | failed
  deriving DecidableEq, Repr

def handleSetRequestedRunTarget (g : Graph Key) (runTarget : Key) : Graph Key × Option ExecErrc :=
  if ¬ g.isValidRunTarget runTarget then (g, some .runTargetDoesntExist)
  else if g.state = .inTransition then
    if g.requestedState ≠ some runTarget then ((g.setPendingState (some runTarget)).cancel, none)
    else (g, some .inTransitionToSameState)
  else if g.state = .success ∧ g.requestedState = some runTarget then (g, some .alreadyInState)
  else (g.setPendingState (some runTarget), none)

/-- `processComponentEvents` for one event; while shutting down, supervision failures are
ignored and everything else goes to the graph. The deactivation of a component that terminated
unexpectedly waits for the end of its process. -/
def handleOne (c : Config Key) (s : Daemon Key) (event : ComponentEvent Key) :
    Option (Daemon Key) :=
  match s.stage, event with
  | .running, .supervisionFailure _ => some { s with graph := handleRecoveryRequest c s.graph }
  | .running, .setRequestedRunTarget rt =>
    some { s with graph := (handleSetRequestedRunTarget s.graph rt).1 }
  | _, .unexpectedTermination k =>
    (s.graph.handleComponentEvent (.unexpectedTermination k)).map fun r =>
      { s.resume r false with alive := Function.update s.alive k false }
  | _, e => (s.graph.handleComponentEvent e).map fun r => s.resume r false

/-- A transition that did not reach its loop or was aborted in it leaves the state undefined;
then the fallback is started. -/
def recover (c : Config Key) (s : Daemon Key) : Option (Daemon Key) :=
  if s.graph.state = .undefinedState then s.startAsserted c.fallback .recoveryAction false
  else some s

def processGroupHandler (c : Config Key) (s : Daemon Key) : Option (Daemon Key) :=
  if s.graph.state = .success ∨ s.graph.state = .undefinedState then
    let pending := s.graph.pending
    let taken := { s with graph := s.graph.setPendingState none }
    match pending.runTarget with
    | some rt =>
      if s.graph.requestedState ≠ some rt ∨ s.graph.state = .undefinedState then
        taken.startAsserted rt pending.source true
      else taken.recover c
    | none => taken.recover c
  else some s

/-- The first half of `allProcessGroupsOff`. -/
def shutdown (c : Config Key) (s : Daemon Key) : Daemon Key :=
  if s.graph.isTransitioningToOff c.off then { s with stage := .toOff }
  else { s with graph := s.graph.cancel, stage := .cancelling }

def startTransitionToOffState (c : Config Key) (s : Daemon Key) : Option (Daemon Key) :=
  let g := s.graph.setState .inTransition
  if s.graph.canSetState .inTransition then
    { s with graph := g }.startAsserted c.off .stateManagerRequest false
  else
    some { s with
      graph := g, aliveAtStart := s.alive, deactivationsAtStart := s.graph.deactivations }

def forceKillProcesses (s : Daemon Key) : Daemon Key :=
  { s with
    killed := fun k =>
      s.killed k || (s.graph.kind k == some .processInfoNode && s.hasPid k) }

/-- A wait ends because the state has changed or the time is over. After the second one, a
transition that is still under way has its processes killed. -/
def waitOver (c : Config Key) (s : Daemon Key) : Option (Daemon Key) :=
  match s.stage with
  | .cancelling => { s with stage := .toOff }.startTransitionToOffState c
  | .toOff =>
    some { (if s.graph.state = .inTransition then s.forceKillProcesses else s) with
      stage := .ended }
  | _ => none

def drain (c : Config Key) (s : Daemon Key) (handler : Bool) : Option (Daemon Key) :=
  match s.graph.queueReadyNode with
  | none => none
  | some (.finished g) =>
    let s' := { s with graph := g, main := .idle }
    if handler then s'.recover c else some s'
  | some (.continued g) => some { s with graph := g }
  | some (.queue g task) => some { s with graph := g, main := .pushing task handler }

def complete (s : Daemon Key) (w : Worker Key) (outcome : Outcome) : Daemon Key :=
  { s with
    workers := s.workers.erase w
    events := s.events ++ [.completion w.task outcome] }

def step (c : Config Key) (s : Daemon Key) : Act Key → Option (Daemon Key)
  | .startInitialTransition rt =>
    if s.stage = .initial ∧ s.main = .idle then
      { s with stage := .running }.startInitialTransition rt
    else none
  | .handleEvent =>
    match s.events with
    | [] => none
    | q :: rest =>
      if s.main = .idle ∧ s.stage ≠ .initial ∧ s.stage ≠ .ended then
        handleOne c { s with events := rest } q.event
      else none
  | .processGroupHandler =>
    if s.main = .idle ∧ s.stage = .running then s.processGroupHandler c else none
  | .shutdown => if s.main = .idle ∧ s.stage = .running then some (s.shutdown c) else none
  | .waitOver => if s.main = .idle then s.waitOver c else none
  | .drain =>
    match s.main with
    | .draining handler => s.drain c handler
    | _ => none
  | .pushed =>
    match s.main with
    | .pushing task handler =>
      if s.jobQueue.length < kMaxProcesses then
        some { s with
          jobQueue := s.jobQueue ++ [task], main := .draining handler
          graph := { s.graph with jobsInProgress := s.graph.jobsInProgress + 1 } }
      else none
    | _ => none
  | .pushTimeout =>
    match s.main with
    | .pushing _ _ => some s
    | _ => none
  | .pushFailed =>
    match s.main with
    | .pushing _ handler =>
      some { s with graph := s.graph.queueNodeFailed, main := .draining handler }
    | _ => none
  | .take =>
    match s.jobQueue with
    | [] => none
    | task :: rest => some { s with jobQueue := rest, workers := ⟨task, false⟩ :: s.workers }
  | .skip w =>
    if w ∈ s.workers ∧ w.begun = false ∧ w.task.stopToken ∈ s.graph.stopRequested then
      some (s.complete w .skipped)
    else none
  | .work w =>
    if w ∈ s.workers ∧ w.begun = false ∧ w.task.stopToken ∉ s.graph.stopRequested then
      some { s with workers := { w with begun := true } :: s.workers.erase w }
    else none
  | .launch w =>
    if w ∈ s.workers ∧ w.begun = true ∧ w.task.type = .activate then
      some { s with
        alive := Function.update s.alive w.task.component true
        hasPid := Function.update s.hasPid w.task.component true }
    else none
  | .setFlag w =>
    if w ∈ s.workers ∧ w.begun = true then
      some { s with graph := s.graph.setActive w.task.component w.task.type }
    else none
  | .succeed w =>
    if w ∈ s.workers ∧ w.begun = true ∧ s.graph.active w.task.component = w.task.type.flag ∧
        (w.task.type = .deactivate → s.alive w.task.component = false) then
      some (s.complete w .succeeded)
    else none
  | .fail w timeout =>
    if w ∈ s.workers ∧ w.begun = true ∧ w.task.type = .activate then
      some (s.complete w (.failed timeout))
    else none
  | .exit k => some { s with alive := Function.update s.alive k false }
  | .post n => some { s with events := s.events ++ [.notice n] }

/-- What the main loop makes of a notice that is no termination. -/
def heed (c : Config Key) (G : Graph Key) : Notice Key → Graph Key
  | .supervisionFailure _ => handleRecoveryRequest c G
  | .setRequestedRunTarget rt => (handleSetRequestedRunTarget G rt).1
  | .unexpectedTermination _ | .getActiveRunTarget => G

/-- A transition to a configured run target is set up; the loop over the ready nodes follows. -/
inductive Starts (s : Daemon Key) (rt : Key) (source : RunTargetActivationSource)
    (handler : Bool) : Daemon Key → Prop where
  | intro {t : Transition Key Component} (hvalid : s.graph.isValidRunTarget rt = true)
      (hcreate : s.graph.transition.createTransition s.graph.active rt = some t) :
      Starts s rt source handler { s with
        graph := { { s.graph with transitionSource := source, requestedState := some rt }.setState
            .inTransition with
          transition := t, transitions := s.graph.transitions + 1 }
        main := .draining handler, aliveAtStart := s.alive
        deactivationsAtStart := s.graph.deactivations }

def finish (G : Graph Key) : Graph Key :=
  if G.transition.isFinished then G.finalizeTransitionSuccess else G

/-- Everything that a step can do, with what holds when it is made. -/
inductive Moves (c : Config Key) (s : Daemon Key) : Act Key → Daemon Key → Prop where
  | initial {rt : Key} {s' : Daemon Key} (hstage : s.stage = .initial) (hmain : s.main = .idle)
      (h : Starts { s with
        stage := .running, graph := { s.graph with isInitialStateTransition := true } } rt
        .stateManagerRequest false s') : Moves c s (.startInitialTransition rt) s'
  | unknown {rt : Key} (hstage : s.stage = .initial) (hmain : s.main = .idle)
      (hvalid : s.graph.isValidRunTarget rt = false) :
      Moves c s (.startInitialTransition rt) { s with
        stage := .running
        graph := { s.graph with
          requestedState := some rt, transitionSource := .stateManagerRequest
          isInitialStateTransition := false } }
  | completion {t : ComponentTask Key} {o : Outcome} {rest : List (Queued Key)} {G : Graph Key}
      {goesOn : Bool} (hev : s.events = .completion t o :: rest) (hmain : s.main = .idle)
      (hinitial : s.stage ≠ .initial) (hended : s.stage ≠ .ended)
      (h : s.graph.nodeExecuted t.component o.result = some (G, goesOn)) :
      Moves c s .handleEvent { s with
        events := rest, graph := G, main := if goesOn then .draining false else .idle }
  | terminated {k : Key} {rest : List (Queued Key)} {G : Graph Key}
      (hev : s.events = .notice (.unexpectedTermination k) :: rest) (hmain : s.main = .idle)
      (hinitial : s.stage ≠ .initial) (hended : s.stage ≠ .ended)
      (hG : G = (s.graph.setState .aborting).setActive k .deactivate) :
      Moves c s .handleEvent { s with
        events := rest
        graph := if G.jobsInProgress = 0 then G.handleNonTransitionExecution else G
        main := .idle, alive := Function.update s.alive k false }
  | heeded {n : Notice Key} {rest : List (Queued Key)} (hev : s.events = .notice n :: rest)
      (hmain : s.main = .idle) (hinitial : s.stage ≠ .initial) (hended : s.stage ≠ .ended)
      (hn : ∀ k, n ≠ .unexpectedTermination k) :
      Moves c s .handleEvent { s with
        events := rest, graph := if s.stage = .running then heed c s.graph n else s.graph }
  | passed (hmain : s.main = .idle) (hstage : s.stage = .running) :
      Moves c s .processGroupHandler s
  | taken (hmain : s.main = .idle) (hstage : s.stage = .running) (hst : s.graph.state = .success)
      (hpending : ∀ rt, s.graph.pending.runTarget = some rt → s.graph.requestedState = some rt) :
      Moves c s .processGroupHandler { s with graph := s.graph.setPendingState none }
  | pending {rt : Key} {s' : Daemon Key} (hmain : s.main = .idle) (hstage : s.stage = .running)
      (hst : s.graph.state = .undefinedState ∨
        s.graph.state = .success ∧ s.graph.requestedState ≠ some rt)
      (hpending : s.graph.pending.runTarget = some rt)
      (h : Starts { s with graph := s.graph.setPendingState none } rt s.graph.pending.source true
        s') : Moves c s .processGroupHandler s'
  | fallback {s' : Daemon Key} (hmain : s.main = .idle) (hstage : s.stage = .running)
      (hst : s.graph.state = .undefinedState) (hpending : s.graph.pending.runTarget = none)
      (h : Starts { s with graph := s.graph.setPendingState none } c.fallback .recoveryAction false
        s') : Moves c s .processGroupHandler s'
  | shutdown (hmain : s.main = .idle) (hstage : s.stage = .running) :
      Moves c s .shutdown (s.shutdown c)
  | off {s' : Daemon Key} (hmain : s.main = .idle) (hstage : s.stage = .cancelling)
      (hcan : s.graph.canSetState .inTransition = true)
      (h : Starts { s with stage := .toOff, graph := s.graph.setState .inTransition } c.off
        .stateManagerRequest false s') : Moves c s .waitOver s'
  | noOff (hmain : s.main = .idle) (hstage : s.stage = .cancelling)
      (hcan : ¬ s.graph.canSetState .inTransition = true) :
      Moves c s .waitOver { s with
        stage := .toOff, graph := s.graph.setState .inTransition, aliveAtStart := s.alive
        deactivationsAtStart := s.graph.deactivations }
  | ended (hmain : s.main = .idle) (hstage : s.stage = .toOff) :
      Moves c s .waitOver { (if s.graph.state = .inTransition then s.forceKillProcesses else s) with
        stage := .ended }
  | finished {handler : Bool} (hmain : s.main = .draining handler)
      (hnext : s.graph.transition.nextNodes.toList = []) :
      Moves c s .drain { s with graph := finish s.graph, main := .idle }
  | redirected {s' : Daemon Key} {handler : Bool} (hmain : s.main = .draining handler)
      (hnext : s.graph.transition.nextNodes.toList = [])
      (hst : (finish s.graph).state = .undefinedState)
      (h : Starts { s with graph := finish s.graph, main := .idle } c.fallback .recoveryAction
        false s') : Moves c s .drain s'
  | updated {handler : Bool} {rn : ReadyNode Key} {t t' : Transition Key Component}
      (hmain : s.main = .draining handler) (hnext : s.graph.transition.nextReady = (some rn, t))
      (hkind : s.graph.kind rn.node = some .runTarget)
      (hreport : t.onNodeFinished
        (Function.update s.graph.active rn.node rn.action.taskType.flag) rn.node = some t') :
      Moves c s .drain { s with
        graph := { s.graph.setActive rn.node rn.action.taskType with transition := t' } }
  | queued {handler : Bool} {rn : ReadyNode Key} {t : Transition Key Component}
      (hmain : s.main = .draining handler) (hnext : s.graph.transition.nextReady = (some rn, t))
      (hkind : s.graph.kind rn.node = some .processInfoNode)
      (hst : s.graph.state = .inTransition) :
      Moves c s .drain { s with
        graph := { s.graph with transition := t }
        main := .pushing ⟨rn.action.taskType, rn.node, s.graph.stopSource, s.graph.transitions⟩
          handler }
  | dropped {handler : Bool} {rn : ReadyNode Key} {t : Transition Key Component}
      (hmain : s.main = .draining handler) (hnext : s.graph.transition.nextReady = (some rn, t))
      (hkind : s.graph.kind rn.node = some .processInfoNode)
      (hst : s.graph.state ≠ .inTransition) :
      Moves c s .drain { s with graph := { s.graph with transition := t } }
  | pushed {task : ComponentTask Key} {handler : Bool} (hmain : s.main = .pushing task handler) :
      Moves c s .pushed { s with
        jobQueue := s.jobQueue ++ [task], main := .draining handler
        graph := { s.graph with jobsInProgress := s.graph.jobsInProgress + 1 } }
  | pushTimeout {task : ComponentTask Key} {handler : Bool}
      (hmain : s.main = .pushing task handler) : Moves c s .pushTimeout s
  | pushFailed {task : ComponentTask Key} {handler : Bool}
      (hmain : s.main = .pushing task handler) :
      Moves c s .pushFailed { s with graph := s.graph.queueNodeFailed, main := .draining handler }
  | take {task : ComponentTask Key} {rest : List (ComponentTask Key)}
      (hq : s.jobQueue = task :: rest) :
      Moves c s .take { s with jobQueue := rest, workers := ⟨task, false⟩ :: s.workers }
  | skip {w : Worker Key} (hw : w ∈ s.workers) (hbegun : w.begun = false)
      (hstop : w.task.stopToken ∈ s.graph.stopRequested) :
      Moves c s (.skip w) (s.complete w .skipped)
  | work {w : Worker Key} (hw : w ∈ s.workers) (hbegun : w.begun = false) :
      Moves c s (.work w) { s with workers := { w with begun := true } :: s.workers.erase w }
  | launch {w : Worker Key} (hw : w ∈ s.workers) (hbegun : w.begun = true) :
      Moves c s (.launch w) { s with
        alive := Function.update s.alive w.task.component true
        hasPid := Function.update s.hasPid w.task.component true }
  | setFlag {w : Worker Key} (hw : w ∈ s.workers) (hbegun : w.begun = true) :
      Moves c s (.setFlag w) { s with graph := s.graph.setActive w.task.component w.task.type }
  | succeed {w : Worker Key} (hw : w ∈ s.workers)
      (hflag : s.graph.active w.task.component = w.task.type.flag)
      (hdead : w.task.type = .deactivate → s.alive w.task.component = false) :
      Moves c s (.succeed w) (s.complete w .succeeded)
  | fail {w : Worker Key} {timeout : Bool} (hw : w ∈ s.workers) :
      Moves c s (.fail w timeout) (s.complete w (.failed timeout))
  | exit {k : Key} : Moves c s (.exit k) { s with alive := Function.update s.alive k false }
  | post {n : Notice Key} : Moves c s (.post n) { s with events := s.events ++ [.notice n] }

section Inversion
variable {c : Config Key} {s s' : Daemon Key} {rt : Key} {source : RunTargetActivationSource}
variable {handler : Bool} {rest : List (Queued Key)}

theorem starts_of_startAsserted (h : s.startAsserted rt source handler = some s') :
    Starts s rt source handler s' := by
  obtain ⟨hvalid, h⟩ := ite_none_right_eq_some.mp h
  obtain ⟨r, hr, rfl⟩ := map_eq_some_iff.mp h
  simp only [Graph.startTransition, if_pos hvalid] at hr
  obtain ⟨t, hcreate, rfl⟩ := map_eq_some_iff.mp hr
  exact .intro hvalid hcreate

theorem Starts.valid (h : Starts s rt source handler s') : s.graph.isValidRunTarget rt = true := by
  cases h
  assumption

theorem Starts.stage (h : Starts s rt source handler s') : s'.stage = s.stage := by
  cases h
  rfl

theorem recover_cases (h : s.recover c = some s') : s.graph.state ≠ .undefinedState ∧ s' = s ∨
    s.graph.state = .undefinedState ∧ Starts s c.fallback .recoveryAction false s' := by
  unfold recover at h
  split at h
  · rename_i hst
    exact .inr ⟨hst, starts_of_startAsserted h⟩
  · rename_i hst
    cases h
    exact .inl ⟨hst, rfl⟩

theorem handleOne_completion (c : Config Key) (s : Daemon Key) (t : ComponentTask Key)
    (o : Outcome) : handleOne c s (Queued.completion t o).event =
      (s.graph.nodeExecuted t.component o.result).map fun r => s.resume r false := by
  obtain ⟨type, component, token, transition⟩ := t
  rcases o with _ | timeout | _
  · cases type <;> cases hs : s.stage <;>
      simp [handleOne, Queued.event, hs, Graph.handleComponentEvent, Outcome.result]
  · cases hs : s.stage <;> simp [handleOne, Queued.event, hs, Graph.handleComponentEvent]
  · cases hs : s.stage <;>
      simp [handleOne, Queued.event, hs, Graph.handleComponentEvent, Outcome.result]

theorem handleOne_unexpectedTermination {k : Key}
    (h : handleOne c s (.unexpectedTermination k) = some s') : ∃ G, s' = { s with
        graph := if G.jobsInProgress = 0 then G.handleNonTransitionExecution else G
        main := .idle, alive := Function.update s.alive k false } ∧
      G = (s.graph.setState .aborting).setActive k .deactivate := by
  obtain ⟨r, hr, rfl⟩ : ∃ r, s.graph.handleComponentEvent (.unexpectedTermination k) = some r ∧
      s' = { s.resume r false with alive := Function.update s.alive k false } := by
    cases hst : s.stage <;> simp only [handleOne, hst] at h <;>
      obtain ⟨r, hr, rfl⟩ := map_eq_some_iff.mp h <;> exact ⟨r, hr, rfl⟩
  obtain ⟨-, ⟨⟩⟩ := ite_none_right_eq_some.mp hr
  exact ⟨_, rfl, rfl⟩

theorem handleOne_heed {n : Notice Key} (hmain : s.main = .idle)
    (hn : ∀ k, n ≠ .unexpectedTermination k) (h : handleOne c s n.event = some s') :
    s' = { s with graph := if s.stage = .running then heed c s.graph n else s.graph } := by
  obtain ⟨G, jobQueue, workers, events, main, stage, alive, hasPid, killed, atStart, count⟩ := s
  cases hmain
  cases n with
  | unexpectedTermination k => exact absurd rfl (hn k)
  | getActiveRunTarget | supervisionFailure k | setRequestedRunTarget rt =>
    cases stage <;> cases h <;> rfl

theorem moves_of_handleOne {q : Queued Key} (hev : s.events = q :: rest) (hmain : s.main = .idle)
    (hinitial : s.stage ≠ .initial) (hended : s.stage ≠ .ended)
    (h : handleOne c { s with events := rest } q.event = some s') : Moves c s .handleEvent s' := by
  cases q with
  | completion t o =>
    rw [handleOne_completion] at h
    obtain ⟨⟨G, goesOn⟩, hr, rfl⟩ := map_eq_some_iff.mp h
    exact .completion hev hmain hinitial hended hr
  | notice n =>
    by_cases hn : ∃ k, n = .unexpectedTermination k
    · obtain ⟨k, rfl⟩ := hn
      obtain ⟨G, rfl, hG⟩ := handleOne_unexpectedTermination h
      exact .terminated hev hmain hinitial hended hG
    · have hn' : ∀ k, n ≠ .unexpectedTermination k := fun k hk => hn ⟨k, hk⟩
      obtain rfl := handleOne_heed (s := { s with events := rest }) hmain hn' h
      exact .heeded hev hmain hinitial hended hn'

theorem moves_of_processGroupHandler (hmain : s.main = .idle) (hstage : s.stage = .running)
    (h : s.processGroupHandler c = some s') : Moves c s .processGroupHandler s' := by
  simp only [processGroupHandler] at h
  split at h
  swap
  · cases h
    exact .passed hmain hstage
  rename_i hrest
  have hrecover : (∀ rt, s.graph.pending.runTarget = some rt →
        s.graph.requestedState = some rt ∧ s.graph.state ≠ .undefinedState) →
      recover c { s with graph := s.graph.setPendingState none } = some s' →
      Moves c s .processGroupHandler s' := by
    intro hsame h
    rcases recover_cases h with ⟨hst, rfl⟩ | ⟨hst, hstart⟩
    · exact .taken hmain hstage (hrest.resolve_right hst) fun rt hrt => (hsame rt hrt).1
    · refine .fallback hmain hstage hst ?_ hstart
      exact eq_none_iff_forall_ne_some.mpr fun rt hrt => (hsame rt hrt).2 hst
  split at h
  · rename_i rt hrt
    split at h
    · rename_i hcond
      refine .pending hmain hstage ?_ hrt (starts_of_startAsserted h)
      rcases hrest with hst | hst
      · exact .inr ⟨hst, hcond.resolve_right (by rw [hst]; simp)⟩
      · exact .inl hst
    · rename_i hcond
      push Not at hcond
      refine hrecover (fun rt' hrt' => ?_) h
      cases hrt.symm.trans hrt'
      exact hcond
  · rename_i hnone
    refine hrecover (fun rt hrt => ?_) h
    cases hnone.symm.trans hrt

theorem moves_of_waitOver (hmain : s.main = .idle) (h : s.waitOver c = some s') :
    Moves c s .waitOver s' := by
  unfold waitOver at h
  split at h
  · rename_i hstage
    simp only [startTransitionToOffState] at h
    split at h
    · rename_i hcan
      exact .off hmain hstage hcan (starts_of_startAsserted h)
    · rename_i hcan
      cases h
      exact .noOff hmain hstage hcan
  · rename_i hstage
    cases h
    exact .ended hmain hstage
  · cases h

theorem moves_of_drain (hmain : s.main = .draining handler) (h : s.drain c handler = some s') :
    Moves c s .drain s' := by
  cases hq : s.graph.transition.nextNodes.toList with
  | nil =>
    have hnext : s.graph.queueReadyNode = some (.finished (finish s.graph)) := by
      rw [Graph.queueReadyNode, Transition.nextReady_nil hq]
      rfl
    simp only [drain, hnext] at h
    cases handler with
    | false =>
      cases h
      exact .finished hmain hq
    | true =>
      rcases recover_cases h with ⟨-, rfl⟩ | ⟨hst, hstart⟩
      · exact .finished hmain hq
      · exact .redirected hmain hq hst hstart
  | cons k rest =>
    obtain ⟨t, hnext, -, -⟩ := Transition.nextReady_cons hq
    simp only [drain, Graph.queueReadyNode, hnext] at h
    rcases hkind : s.graph.kind k with _ | _ | _
    · simp [hkind] at h
    · simp only [hkind] at h
      by_cases hst : s.graph.state = .inTransition
      · rw [if_pos hst] at h
        cases h
        exact .queued hmain hnext hkind hst
      · rw [if_neg hst] at h
        cases h
        exact .dropped hmain hnext hkind hst
    · cases hfin : t.onNodeFinished (Function.update s.graph.active k
          s.graph.transition.currentAction.taskType.flag) k with
      | none => simp [hkind, Graph.updateRunTargetInPlace, Graph.setActive, hfin] at h
      | some t' =>
        simp only [hkind, Graph.updateRunTargetInPlace, Graph.setActive, hfin, map_some,
          Option.some.injEq] at h
        subst h
        exact .updated hmain hnext hkind hfin

end Inversion

theorem moves_of_step {c : Config Key} {s s' : Daemon Key} {a : Act Key}
    (hs : step c s a = some s') : Moves c s a s' := by
  have hite {p : Prop} [Decidable p] {x : Option (Daemon Key)}
      (h : (if p then x else none) = some s') : p ∧ x = some s' :=
    ite_none_right_eq_some.mp h
  cases a with
  | startInitialTransition rt =>
    obtain ⟨⟨hstage, hmain⟩, h⟩ := hite hs
    unfold startInitialTransition at h
    split at h
    · rename_i hvalid
      refine .initial hstage hmain (starts_of_startAsserted ?_)
      exact (if_pos (by exact hvalid)).trans h
    · rename_i hvalid
      cases h
      exact .unknown hstage hmain (by simpa using hvalid)
  | handleEvent =>
    cases hev : s.events with
    | nil => simp [step, hev] at hs
    | cons q rest =>
      simp only [step, hev] at hs
      obtain ⟨⟨hmain, hinitial, hended⟩, h⟩ := hite hs
      exact moves_of_handleOne hev hmain hinitial hended h
  | processGroupHandler =>
    exact moves_of_processGroupHandler (hite hs).1.1 (hite hs).1.2 (hite hs).2
  | shutdown =>
    obtain ⟨⟨hmain, hstage⟩, ⟨⟩⟩ := hite hs
    exact .shutdown hmain hstage
  | waitOver => exact moves_of_waitOver (hite hs).1 (hite hs).2
  | drain =>
    cases hmain : s.main with
    | draining handler =>
      simp only [step, hmain] at hs
      exact moves_of_drain hmain hs
    | _ => simp [step, hmain] at hs
  | pushed =>
    cases hmain : s.main with
    | pushing task handler =>
      simp only [step, hmain] at hs
      obtain ⟨-, ⟨⟩⟩ := hite hs
      exact .pushed hmain
    | _ => simp [step, hmain] at hs
  | pushTimeout =>
    cases hmain : s.main <;> simp only [step, hmain] at hs <;> cases hs
    exact .pushTimeout hmain
  | pushFailed =>
    cases hmain : s.main <;> simp only [step, hmain] at hs <;> cases hs
    exact .pushFailed hmain
  | take =>
    cases hq : s.jobQueue <;> simp only [step, hq] at hs <;> cases hs
    exact .take hq
  | skip w =>
    obtain ⟨⟨hw, hbegun, hstop⟩, ⟨⟩⟩ := hite hs
    exact .skip hw hbegun hstop
  | work w =>
    obtain ⟨⟨hw, hbegun, -⟩, ⟨⟩⟩ := hite hs
    exact .work hw hbegun
  | launch w =>
    obtain ⟨⟨hw, hbegun, -⟩, ⟨⟩⟩ := hite hs
    exact .launch hw hbegun
  | setFlag w =>
    obtain ⟨⟨hw, hbegun⟩, ⟨⟩⟩ := hite hs
    exact .setFlag hw hbegun
  | succeed w =>
    obtain ⟨⟨hw, -, hflag, hdead⟩, ⟨⟩⟩ := hite hs
    exact .succeed hw hflag hdead
  | fail w timeout =>
    obtain ⟨⟨hw, -, -⟩, ⟨⟩⟩ := hite hs
    exact .fail hw
  | exit k =>
    cases hs
    exact .exit
  | post n =>
    cases hs
    exact .post

end Daemon

end LaunchManager
