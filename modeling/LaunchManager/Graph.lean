import LaunchManager.TransitionSteps

/-!
# The process group graph

The class of `graph.cpp`: the four-state table, the job counter, the stop source
and the transition that is under way. The loop over the ready nodes is cut into
its iterations, because workers run while it is executed; `needsDrain` tells the
caller to enter the loop. The flags of the components are part of the graph,
which owns them. `none` stands for a failed assertion.
-/

namespace LaunchManager

set_option autoImplicit false

universe u

inductive GraphState where
  | success
  | inTransition
  | aborting
  | undefinedState
  deriving DecidableEq, Repr

/-- The table `state_results`: the state that results when `requested` is asked for in `old`. -/
def stateResults (requested old : GraphState) : GraphState :=
  match requested, old with
  | .success, .success => .success
  | .success, .inTransition => .success
  | .success, .aborting => .undefinedState
  | .success, .undefinedState => .undefinedState
  | .inTransition, .success => .inTransition
  | .inTransition, .inTransition => .inTransition
  | .inTransition, .aborting => .aborting
  | .inTransition, .undefinedState => .inTransition
  | .aborting, .success => .undefinedState
  | .aborting, .inTransition => .aborting
  | .aborting, .aborting => .aborting
  | .aborting, .undefinedState => .undefinedState
  | .undefinedState, .success => .undefinedState
  | .undefinedState, .inTransition => .aborting
  | .undefinedState, .aborting => .undefinedState
  | .undefinedState, .undefinedState => .undefinedState

inductive Component where
  | processInfoNode
  | runTarget
  deriving DecidableEq, Repr

inductive RunTargetActivationSource where
  | initialActivation
  | stateManagerRequest
  | recoveryAction
  deriving DecidableEq, Repr

inductive RequestResult where
  | success
  | failure
  | timeout
  deriving DecidableEq, Repr

inductive ComponentTaskType where
  | activate
  | deactivate
  deriving DecidableEq, Repr

def ComponentTaskType.flag : ComponentTaskType → Bool
  | .activate => true
  | .deactivate => false

def Action.taskType : Action → ComponentTaskType
  | .start => .activate
  | .stop => .deactivate

/-- A job for a worker. `transition` is a history variable: which transition queued it. -/
structure ComponentTask (Key : Type u) where
  type : ComponentTaskType
  component : Key
  stopToken : Nat
  transition : Nat
  deriving DecidableEq, Repr

inductive ComponentEvent (Key : Type u) where
  | activationSuccessful (node : Key)
  | activationFailed (node : Key) (reason : RequestResult)
  | deactivationComplete (node : Key)
  | unexpectedTermination (node : Key)
  | supervisionFailure (process : Key)
  | jobSkipped (node : Key)
  | getActiveRunTarget
  | setRequestedRunTarget (runTarget : Key)
  deriving DecidableEq, Repr

/-- The empty identifier, which stands for no request, is `none`. -/
structure PendingTransition (Key : Type u) where
  runTarget : Option Key := none
  source : RunTargetActivationSource := .stateManagerRequest

/-- The members of the class. `stopSource` numbers the stop sources in the order of their
creation and `stopRequested` lists those that were asked to stop. The last three fields are
history variables: how many transitions were set up, how often each component was deactivated,
and which activations were reported. -/
structure Graph (Key : Type u) where
  jobsInProgress : Int := 0
  transition : Transition Key Component
  state : GraphState := .success
  requestedState : Option Key := none
  isInitialStateTransition : Bool := false
  transitionSource : RunTargetActivationSource := .stateManagerRequest
  pending : PendingTransition Key := {}
  stopSource : Nat := 0
  stopRequested : List Nat := []
  active : Key → Bool := fun _ => false
  transitions : Nat := 0
  deactivations : Key → Nat := fun _ => 0
  reports : List (Option Key × RunTargetActivationSource) := []

namespace Graph
variable {Key : Type u}

/-- A new stop source is made on entering a transition, the old one is stopped on leaving. -/
def setState (g : Graph Key) (requested : GraphState) : Graph Key :=
  let target := stateResults requested g.state
  { g with
    state := target
    stopSource :=
      if g.state ≠ .inTransition ∧ target = .inTransition then g.stopSource + 1 else g.stopSource
    stopRequested :=
      if target ≠ .inTransition ∧ g.state = .inTransition then g.stopSource :: g.stopRequested
      else g.stopRequested }

def canSetState (g : Graph Key) (requested : GraphState) : Bool :=
  stateResults requested g.state == requested

def handleNonTransitionExecution (g : Graph Key) : Graph Key :=
  { g with isInitialStateTransition := false }.setState .undefinedState

def cancel (g : Graph Key) : Graph Key :=
  if 0 < (g.setState .aborting).jobsInProgress then g.setState .aborting
  else (g.setState .aborting).setState .undefinedState

def finalizeTransitionSuccess (g : Graph Key) : Graph Key :=
  let source := if g.isInitialStateTransition then .initialActivation else g.transitionSource
  { g with
    reports := (g.requestedState, source) :: g.reports
    isInitialStateTransition := false }.setState .success

def setPendingState (g : Graph Key) (runTarget : Option Key)
    (source : RunTargetActivationSource := .stateManagerRequest) : Graph Key :=
  { g with pending := ⟨runTarget, source⟩ }

variable [DecidableEq Key]

def kind (g : Graph Key) (k : Key) : Option Component := g.transition.graph.value? k

def isValidRunTarget (g : Graph Key) (k : Key) : Bool := g.kind k == some .runTarget

def isTransitioningToOff (g : Graph Key) (off : Key) : Bool :=
  g.state == .inTransition && g.requestedState == some off

def setActive (g : Graph Key) (k : Key) (type : ComponentTaskType) : Graph Key :=
  { g with
    active := Function.update g.active k type.flag
    deactivations :=
      match type with
      | .activate => g.deactivations
      | .deactivate => Function.update g.deactivations k (g.deactivations k + 1) }

/-- The part of `startTransition` before the loop; the flag is its return value. -/
def startTransition (g : Graph Key) (runTarget : Key)
    (source : RunTargetActivationSource := .stateManagerRequest) : Option (Graph Key × Bool) :=
  let requested := { g with transitionSource := source, requestedState := some runTarget }
  if g.isValidRunTarget runTarget then
    let g' := requested.setState .inTransition
    (g'.transition.createTransition g'.active runTarget).map fun t =>
      ({ g' with transition := t, transitions := g'.transitions + 1 }, true)
  else some (requested, false)

def updateRunTargetInPlace (g : Graph Key) (k : Key) (type : ComponentTaskType) :
    Option (Graph Key) :=
  ((g.setActive k type).transition.onNodeFinished (g.setActive k type).active k).map fun t =>
    { g.setActive k type with transition := t }

/-- The part of `nodeExecuted` before the loop. -/
def nodeExecuted (g : Graph Key) (node : Key) (result : RequestResult) :
    Option (Graph Key × Bool) :=
  let counted := { g with jobsInProgress := g.jobsInProgress - 1 }
  let g' := if result ≠ .success then counted.setState .aborting else counted
  if g'.state = .inTransition then
    (g'.transition.onNodeFinished g'.active node).map fun t => ({ g' with transition := t }, true)
  else if g'.jobsInProgress = 0 then some (g'.handleNonTransitionExecution, false)
  else some (g', false)

/-- The flag of the result says whether the loop over the ready nodes follows. -/
def handleComponentEvent (g : Graph Key) : ComponentEvent Key → Option (Graph Key × Bool)
  | .activationSuccessful node => g.nodeExecuted node .success
  | .deactivationComplete node => g.nodeExecuted node .success
  | .activationFailed node reason => g.nodeExecuted node reason
  | .jobSkipped node => g.nodeExecuted node .success
  | .unexpectedTermination node =>
    if node ∈ g.transition.graph.keys then
      let g' := (g.setState .aborting).setActive node .deactivate
      some (if g'.jobsInProgress = 0 then g'.handleNonTransitionExecution else g', false)
    else none
  | .supervisionFailure _ | .getActiveRunTarget | .setRequestedRunTarget _ => some (g, false)

/-- What one iteration of the loop over the ready nodes does. -/
inductive Drained (Key : Type u) where
  | finished (g : Graph Key)
  | continued (g : Graph Key)
  | queue (g : Graph Key) (task : ComponentTask Key)

/-- One iteration of `queueReadyNodes`. A run target is updated in place; a job is queued only
while the graph is in transition. After the last iteration the callers of the loop finish the
transition if there is nothing left to do. -/
def queueReadyNode (g : Graph Key) : Option (Drained Key) :=
  match g.transition.nextReady with
  | (none, t) =>
    let g' := { g with transition := t }
    some (.finished (if t.isFinished then g'.finalizeTransitionSuccess else g'))
  | (some rn, t) =>
    let g' := { g with transition := t }
    match g.kind rn.node with
    | none => none
    | some .runTarget => (g'.updateRunTargetInPlace rn.node rn.action.taskType).map .continued
    | some .processInfoNode =>
      if g.state = .inTransition then
        some (.queue g' ⟨rn.action.taskType, rn.node, g.stopSource, g.transitions⟩)
      else some (.continued g')

/-- The branch of `tryQueueNode` for a push that failed for good. -/
def queueNodeFailed (g : Graph Key) : Graph Key :=
  (g.setState .aborting).handleNonTransitionExecution

end Graph

end LaunchManager
