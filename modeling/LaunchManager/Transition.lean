import LaunchManager.Traverse

/-!
# The transition between two run targets

The class of `transition.hpp`. A transition first stops the running nodes that
the target does not need, then starts the nodes that it does. Readiness is read
from the live flags of the components, which are a parameter `active` of every
operation that reads them. `none` stands for a failed assertion or a lookup of
an absent key, both of which end the program.
-/

namespace LaunchManager

set_option autoImplicit false

universe u v

inductive Action where
  | stop
  | start
  deriving DecidableEq, Repr

structure ReadyNode (Key : Type u) where
  node : Key
  action : Action
  deriving DecidableEq, Repr

instance {Key : Type u} [DecidableEq Key] : LawfulBEq (ReadyNode Key) := inferInstance

inductive Phase where
  | stopping
  | starting
  | done
  deriving DecidableEq, Repr

structure NodeInfo where
  inTargetSubgraph : Bool := false
  enqueued : Bool := false
  deriving DecidableEq, Repr

/-- The state of the class together with the graph it refers to. `pushResults` is a history
variable: the results of all pushes to `nextNodes` since the transition was set up, also of
those the code does not look at. -/
structure Transition (Key : Type u) (T : Type v) where
  targetRoot : Key
  nextNodes : FixedSizeQueue Key
  pending : Nat
  phase : Phase
  nodeInformation : UnorderedMap Key NodeInfo
  graph : DependencyGraph Key T
  pushResults : List Bool

namespace Transition
variable {Key : Type u} {T : Type v}

def new [Inhabited Key] (graph : DependencyGraph Key T) : Transition Key T where
  targetRoot := default
  nextNodes := .new graph.capacity
  pending := 0
  phase := .done
  nodeInformation := .empty
  graph := graph
  pushResults := []

def isFinished (t : Transition Key T) : Bool := t.phase == .done

def currentAction (t : Transition Key T) : Action :=
  if t.phase = .starting then .start else .stop

def pushNext (t : Transition Key T) (k : Key) : Transition Key T :=
  { t with
    nextNodes := (t.nextNodes.push k).2
    pushResults := (t.nextNodes.push k).1 :: t.pushResults }

/-- Pop the next ready node; the action is that of the current phase. -/
def nextReady (t : Transition Key T) : Option (ReadyNode Key) × Transition Key T :=
  if t.nextNodes.empty then (none, t)
  else (t.nextNodes.tryPop.1.map fun k => ⟨k, t.currentAction⟩,
    { t with nextNodes := t.nextNodes.tryPop.2 })

def popAll : Nat → FixedSizeQueue Key → FixedSizeQueue Key
  | 0, q => q
  | n + 1, q => if q.empty then q else popAll n q.tryPop.2

def clearNextNodes (t : Transition Key T) : Transition Key T :=
  { t with nextNodes := popAll t.nextNodes.size t.nextNodes }

/-- `++pending` on a `size_t`, and the push of a node that is ready from the start. The result
of the push is not looked at. -/
def countNode (t : Transition Key T) (k : Key) (ready : Bool) : Transition Key T :=
  let counted := { t with pending := (t.pending + 1) % 2 ^ 64 }
  if ready then counted.pushNext k else counted

variable [DecidableEq Key]

def isValidNode (t : Transition Key T) (node : Key) : Bool := decide (node ∈ t.graph.keys)

def info (t : Transition Key T) (k : Key) : NodeInfo := (t.nodeInformation.find? k).getD {}

def allDepsActive (active : Key → Bool) (graph : DependencyGraph Key T) (k : Key) : Bool :=
  (graph.dependsOn k).all active

def allDependentsStopped (active : Key → Bool) (graph : DependencyGraph Key T) (k : Key) : Bool :=
  (graph.dependents k).all fun d => !active d

def isReady (active : Key → Bool) (t : Transition Key T) (s : Key) : Bool :=
  if t.phase = .starting then
    (t.info s).inTargetSubgraph && !active s && allDepsActive active t.graph s
  else !(t.info s).inTargetSubgraph && active s && allDependentsStopped active t.graph s

def markTarget (t : Transition Key T) (k : Key) : Transition Key T :=
  { t with
    nodeInformation := t.nodeInformation.upsert k {} fun i => { i with inTargetSubgraph := true } }

def activationVisitor (active : Key → Bool) (graph : DependencyGraph Key T)
    (k : Key) (t : Transition Key T) : Transition Key T × List Key :=
  let marked := t.markTarget k
  (if !active k then marked.countNode k (allDepsActive active graph k) else marked,
    graph.dependsOn k)

def setupActivation (active : Key → Bool) (t : Transition Key T) (root : Key) :
    Option (Transition Key T) :=
  (t.graph.traverse root (activationVisitor active t.graph) t).map fun r =>
    { r.2 with graph := r.1 }

def scanEntry (active : Key → Bool) (t : Transition Key T) (entry : Key × NodeInfo) :
    Transition Key T :=
  if !entry.2.inTargetSubgraph && active entry.1 then
    t.countNode entry.1 (allDependentsStopped active t.graph entry.1)
  else t

def setupDeactivation (active : Key → Bool) (t : Transition Key T) (target : Key) :
    Option (Transition Key T) :=
  (t.graph.traverse target (fun k t' => (t'.markTarget k, t.graph.dependsOn k)) t).map fun r =>
    let marked := { r.2 with graph := r.1 }
    marked.nodeInformation.entries.foldl (scanEntry active) marked

def resetEnqueued (t : Transition Key T) : Transition Key T :=
  { t with nodeInformation := t.nodeInformation.mapValues fun _ i => { i with enqueued := false } }

def advanceToStarting (active : Key → Bool) (t : Transition Key T) : Option (Transition Key T) :=
  let cleared := ({ t with phase := .starting, pending := 0 }.clearNextNodes).resetEnqueued
  (cleared.setupActivation active cleared.targetRoot).map fun t' =>
    if t'.pending = 0 then { t' with phase := .done } else t'

/-- Absent entries are default-constructed, present ones are reset. -/
def resetInformation (t : Transition Key T) : Transition Key T :=
  { t with
    nodeInformation := t.graph.keys.foldl
      (fun m k => m.upsert k {} fun _ => { inTargetSubgraph := false, enqueued := false })
      t.nodeInformation }

def setupTransition (active : Key → Bool) (t : Transition Key T) (target : Key) :
    Option (Transition Key T) :=
  let cleared := { t.resetInformation with targetRoot := target, pushResults := [] }.clearNextNodes
  ({ cleared with pending := 0, phase := .stopping }.setupDeactivation active target).bind
    fun t' => if t'.pending = 0 then t'.advanceToStarting active else some t'

/-- `TransitionBuilder::createTransition`: the one transition object is set up again. -/
def createTransition (active : Key → Bool) (t : Transition Key T) (target : Key) :
    Option (Transition Key T) :=
  if t.isValidNode target then t.setupTransition active target else none

def markEnqueued (t : Transition Key T) (s : Key) : Transition Key T :=
  { t with nodeInformation := t.nodeInformation.modify s fun i => { i with enqueued := true } }

/-- One successor of a finished node. The result of this push is asserted. -/
def enqueueSuccessor (active : Key → Bool) (t : Transition Key T) (s : Key) :
    Option (Transition Key T) :=
  if s ∈ t.nodeInformation.keys then
    if t.isReady active s && !(t.info s).enqueued then
      if (t.nextNodes.push s).1 then some ((t.markEnqueued s).pushNext s) else none
    else some t
  else none

/-- `--pending` wraps on a `size_t`. -/
def onNodeFinished (active : Key → Bool) (t : Transition Key T) (node : Key) :
    Option (Transition Key T) :=
  if t.isValidNode node then
    let counted := { t with pending := (t.pending + (2 ^ 64 - 1)) % 2 ^ 64 }
    if counted.pending = 0 then
      if counted.phase = .stopping then counted.advanceToStarting active
      else some { counted with phase := .done }
    else
      let successors :=
        if counted.phase = .starting then counted.graph.dependents node
        else counted.graph.dependsOn node
      successors.foldlM (enqueueSuccessor active) counted
  else none

/-- What every transition object satisfies between calls, whatever it was used for. -/
structure WellFormed (t : Transition Key T) : Prop where
  graph : t.graph.WellFormed
  known : ∀ k ∈ t.nodeInformation.keys, k ∈ t.graph.keys
  queue_capacity : t.nextNodes.capacity = t.graph.capacity

end Transition

end LaunchManager
