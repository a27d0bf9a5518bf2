import LaunchManager.Library.Runs
import LaunchManager.JobAccounting

/-!
# The control of the run targets

What the main thread remembers about run targets (the state of the graph, the
target it was last asked for, the slot for the next one and the reports it has
made) and everything that one step of the daemon can do to it. The observation
of a step says what an outsider sees of it: a failure, a request with its
answer, the start of a transition or its completion.
-/

namespace LaunchManager

open Option

set_option autoImplicit false

universe u v w

namespace DependencyGraph
variable {Key : Type u} {T : Type v} [DecidableEq Key]
variable {g g' : DependencyGraph Key T}

theorem traverseLoop_invariant {σ : Type w} {perNode : Key → σ → σ × List Key} {P : σ → Prop}
    (hvisit : ∀ k s, P s → P (perNode k s).1) (fuel : Nat)
    {s s' : σ} (hs : P s) (h : traverseLoop perNode fuel g s = some (g', s')) : P s' := by
  induction fuel generalizing g s with
  | zero =>
    rw [traverseLoop] at h
    split at h
    · cases h
      exact hs
    · cases h
  | succ fuel ih =>
    rw [traverseLoop] at h
    split at h
    · cases h
      exact hs
    · dsimp only at h
      split at h
      · cases h
      · obtain ⟨g₁, -, hrest⟩ := bind_eq_some_iff.mp h
        exact ih (hvisit _ _ hs) hrest

theorem traverse_invariant {σ : Type w} {perNode : Key → σ → σ × List Key} {P : σ → Prop}
    (hvisit : ∀ k s, P s → P (perNode k s).1) {start : Key}
    {s s' : σ} (hs : P s) (h : g.traverse start perNode s = some (g', s')) : P s' := by
  obtain ⟨-, h⟩ := ite_none_right_eq_some.mp h
  exact traverseLoop_invariant hvisit _ hs h

end DependencyGraph

namespace Transition
variable {Key : Type u} {T : Type v} {active : Key → Bool}
variable {t t' : Transition Key T} {target : Key}

theorem targetRoot_countNode (t : Transition Key T) (k : Key) (ready : Bool) :
    (t.countNode k ready).targetRoot = t.targetRoot := by
  unfold countNode
  split <;> rfl

variable [DecidableEq Key]

theorem targetRoot_setupActivation {root : Key} (h : t.setupActivation active root = some t') :
    t'.targetRoot = t.targetRoot := by
  obtain ⟨⟨g', t₁⟩, htraverse, rfl⟩ := map_eq_some_iff.mp h
  refine DependencyGraph.traverse_invariant (P := fun t₁ => t₁.targetRoot = t.targetRoot) ?_ rfl
    htraverse
  intro k t₂ ht₂
  simp only [activationVisitor]
  split
  · rw [targetRoot_countNode]
    exact ht₂
  · exact ht₂

theorem targetRoot_advanceToStarting (h : t.advanceToStarting active = some t') :
    t'.targetRoot = t.targetRoot := by
  obtain ⟨t₁, hsetup, rfl⟩ := map_eq_some_iff.mp h
  have hroot := targetRoot_setupActivation hsetup
  split <;> exact hroot

theorem targetRoot_setupDeactivation (h : t.setupDeactivation active target = some t') :
    t'.targetRoot = t.targetRoot := by
  obtain ⟨⟨g', t₁⟩, htraverse, rfl⟩ := map_eq_some_iff.mp h
  have hroot : t₁.targetRoot = t.targetRoot :=
    DependencyGraph.traverse_invariant (P := fun t₁ => t₁.targetRoot = t.targetRoot)
      (fun _ _ ht => ht) rfl htraverse
  refine List.foldlRecOn (motive := fun t₂ : Transition Key T => t₂.targetRoot = t.targetRoot)
    _ _ hroot ?_
  intro t₂ ht₂ entry _
  unfold scanEntry
  split
  · rw [targetRoot_countNode]
    exact ht₂
  · exact ht₂

theorem targetRoot_createTransition (h : t.createTransition active target = some t') :
    t'.targetRoot = target := by
  obtain ⟨-, h⟩ := ite_none_right_eq_some.mp h
  obtain ⟨t₁, hstop, hnext⟩ := bind_eq_some_iff.mp h
  have hroot : t₁.targetRoot = target := targetRoot_setupDeactivation hstop
  split at hnext
  · exact (targetRoot_advanceToStarting hnext).trans hroot
  · cases hnext
    exact hroot

end Transition

structure Control (Key : Type u) where
  state : GraphState
  requestedState : Option Key
  isInitialStateTransition : Bool
  transitionSource : RunTargetActivationSource
  pending : PendingTransition Key
  reports : List (Option Key × RunTargetActivationSource)
  transitions : Nat

def Graph.control {Key : Type u} (g : Graph Key) : Control Key where
  state := g.state
  requestedState := g.requestedState
  isInitialStateTransition := g.isInitialStateTransition
  transitionSource := g.transitionSource
  pending := g.pending
  reports := g.reports
  transitions := g.transitions

namespace Control
variable {Key : Type u}

def setState (C : Control Key) (requested : GraphState) : Control Key :=
  { C with state := stateResults requested C.state }

/-- The last job of a transition that was given up has ended. -/
def halt (C : Control Key) : Control Key :=
  { C with isInitialStateTransition := false }.setState .undefinedState

/-- A component has failed; `last` says that no job is left. -/
def fail (C : Control Key) (last : Bool) : Control Key :=
  if last then (C.setState .aborting).halt else C.setState .aborting

def cancel (C : Control Key) (busy : Bool) : Control Key :=
  if busy then C.setState .aborting else (C.setState .aborting).setState .undefinedState

def take (C : Control Key) : Control Key := { C with pending := {} }

def startTransition (C : Control Key) (runTarget : Key) (source : RunTargetActivationSource) :
    Control Key :=
  { C with
    transitionSource := source, requestedState := some runTarget
    transitions := C.transitions + 1 }.setState .inTransition

def finalize (C : Control Key) : Control Key :=
  { C with
    reports := (C.requestedState,
      if C.isInitialStateTransition then .initialActivation else C.transitionSource) :: C.reports
    isInitialStateTransition := false }.setState .success

/-- The graph is in the run target or on its way to it. -/
def At (C : Control Key) (runTarget : Key) : Prop :=
  (C.state = .inTransition ∨ C.state = .success) ∧ C.requestedState = some runTarget

instance [DecidableEq Key] (C : Control Key) (runTarget : Key) : Decidable (C.At runTarget) :=
  inferInstanceAs (Decidable (_ ∧ _))

/-- The run target is put into the slot, and a transition to another one is cancelled. -/
def accept (C : Control Key) (runTarget : Key) (source : RunTargetActivationSource)
    (busy : Bool) : Control Key :=
  if C.state = .inTransition then { C with pending := ⟨some runTarget, source⟩ }.cancel busy
  else { C with pending := ⟨some runTarget, source⟩ }

theorem transitions_fail (C : Control Key) (last : Bool) :
    (C.fail last).transitions = C.transitions := by
  cases last <;> rfl

theorem transitions_cancel (C : Control Key) (busy : Bool) :
    (C.cancel busy).transitions = C.transitions := by
  cases busy <;> rfl

theorem accept_eq (C : Control Key) (rt : Key) (source : RunTargetActivationSource) (busy : Bool) :
    C.accept rt source busy =
      { C with pending := ⟨some rt, source⟩, state := (C.accept rt source busy).state } := by
  unfold accept cancel
  split
  · split <;> rfl
  · rfl

theorem transitions_accept (C : Control Key) (rt : Key) (source : RunTargetActivationSource)
    (busy : Bool) : (C.accept rt source busy).transitions = C.transitions := by
  rw [accept_eq]

variable {C : Control Key}

theorem state_fail (h : C.state = .inTransition) (last : Bool) :
    (C.fail last).state = if last then .undefinedState else .aborting := by
  cases last <;> simp [fail, halt, setState, stateResults, h]

theorem state_cancel (h : C.state = .inTransition) (busy : Bool) :
    (C.cancel busy).state = if busy then .aborting else .undefinedState := by
  cases busy <;> simp [cancel, setState, stateResults, h]

theorem state_accept (rt : Key) (source : RunTargetActivationSource)
    (busy : Bool) : (C.accept rt source busy).state =
      if C.state = .inTransition then (if busy then .aborting else .undefinedState)
      else C.state := by
  unfold accept
  split
  · rename_i hst
    exact state_cancel (C := { C with pending := ⟨some rt, source⟩ }) hst busy
  · rfl

theorem pending_accept (C : Control Key) (rt : Key) (source : RunTargetActivationSource)
    (busy : Bool) : (C.accept rt source busy).pending = ⟨some rt, source⟩ := by
  rw [accept_eq]

theorem requestedState_accept (C : Control Key) (rt : Key) (source : RunTargetActivationSource)
    (busy : Bool) : (C.accept rt source busy).requestedState = C.requestedState := by
  rw [accept_eq]

theorem accept_state_ne (C : Control Key) (rt : Key) (source : RunTargetActivationSource)
    (busy : Bool) : (C.accept rt source busy).state ≠ .inTransition := by
  rw [state_accept]
  split
  · split <;> simp
  · assumption

theorem accept_not_at {rt : Key} (h : ¬ C.At rt)
    (source : RunTargetActivationSource) (busy : Bool) : ¬ (C.accept rt source busy).At rt := by
  rintro ⟨hin | hdone, hreq⟩
  · exact C.accept_state_ne rt source busy hin
  · rw [requestedState_accept] at hreq
    rw [state_accept] at hdone
    split at hdone
    · split at hdone <;> cases hdone
    · exact h ⟨.inr hdone, hreq⟩

theorem pending_fail (C : Control Key) (last : Bool) : (C.fail last).pending = C.pending := by
  cases last <;> rfl

theorem halt_not_success (C : Control Key) : C.halt.state ≠ .success := by
  cases hst : C.state <;> simp [halt, setState, stateResults, hst]

theorem fail_not_success (C : Control Key) (last : Bool) : (C.fail last).state ≠ .success := by
  cases last <;> cases hst : C.state <;> simp [fail, halt, setState, stateResults, hst]

theorem startTransition_not_success (C : Control Key) (rt : Key)
    (source : RunTargetActivationSource) : (C.startTransition rt source).state ≠ .success := by
  cases hst : C.state <;> simp [startTransition, setState, stateResults, hst]

theorem fail_state_ne (C : Control Key) (last : Bool) : (C.fail last).state ≠ .inTransition := by
  cases last with
  | false | true => exact stateResults_ne_inTransition (by simp) _

end Control

namespace Graph
variable {Key : Type u}

theorem control_cancel (G : Graph Key) :
    G.cancel.control = G.control.cancel (0 < G.jobsInProgress) := by
  by_cases hpos : 0 < G.jobsInProgress
  · rw [Graph.cancel, if_pos (by exact hpos), Control.cancel, if_pos (by simpa using hpos)]
    rfl
  · rw [Graph.cancel, if_neg (by exact hpos), Control.cancel, if_neg (by simpa using hpos)]
    rfl

theorem control_accept (G : Graph Key) (rt : Key) (source : RunTargetActivationSource) :
    (if G.state = .inTransition then (G.setPendingState (some rt) source).cancel
      else G.setPendingState (some rt) source).control =
      G.control.accept rt source (0 < G.jobsInProgress) := by
  by_cases hst : G.state = .inTransition
  · rw [if_pos hst, Control.accept, if_pos (by exact hst), control_cancel]
    rfl
  · rw [if_neg hst, Control.accept, if_neg (by exact hst)]
    rfl

theorem control_finish (G : Graph Key) : (Daemon.finish G).control =
    if G.transition.isFinished then G.control.finalize else G.control := by
  unfold Daemon.finish
  split <;> rfl

end Graph

inductive Observation (Key : Type u) where
  | silent
  | failed
  | terminated
  | supervisionFailed
  | requested (runTarget : Key) (answer : Option Daemon.ExecErrc)
  | started (runTarget : Key) (initial : Bool)
  | completed
  deriving DecidableEq, Repr

namespace Daemon
variable {Key : Type u}

def control (s : Daemon Key) : Control Key := s.graph.control

variable [DecidableEq Key]

def heard (s : Daemon Key) : Act Key → Observation Key
  | .handleEvent =>
    match s.events.head? with
    | some (.completion _ outcome) => if outcome.result = .success then .silent else .failed
    | some (.notice (.unexpectedTermination _)) => .terminated
    | some (.notice (.supervisionFailure _)) =>
      if s.stage = .running then .supervisionFailed else .silent
    | some (.notice (.setRequestedRunTarget rt)) =>
      if s.stage = .running then .requested rt (handleSetRequestedRunTarget s.graph rt).2
      else .silent
    | some (.notice .getActiveRunTarget) | none => .silent
  | .pushFailed => .failed
  | _ => .silent

/-- The observation of a step from `s` to `s'`. A transition is completed when the graph gets
from the transition to its target. -/
def observe (s : Daemon Key) (a : Act Key) (s' : Daemon Key) : Observation Key :=
  if s'.graph.transitions ≠ s.graph.transitions then
    .started s'.graph.transition.targetRoot (s.stage = .initial)
  else if s.graph.state = .inTransition ∧ s'.graph.state = .success then .completed
  else s.heard a

inductive Effect (c : Config Key) (s : Daemon Key) (a : Act Key) (s' : Daemon Key) :
    Observation Key → Prop where
  | none (h : s'.control = s.control)
      (hstage : s'.stage = s.stage ∨ s.stage = .toOff ∧ s'.stage = .ended)
      (hmain : s.main = .idle → s.graph.state ≠ .inTransition → s'.main = .idle) :
      Effect c s a s' .silent
  | halted (hst : s.graph.state ≠ .inTransition) (hjob : s.outstanding ≠ [])
      (hstage : s'.stage = s.stage) (hmain : s.main = .idle ∧ s'.main = .idle)
      (h : s'.control = s.control.halt) : Effect c s a s' .silent
  | failed (last : Bool) (hstage : s'.stage = s.stage) (hmain : s.main = .idle → s'.main = .idle)
      (h : s'.control = s.control.fail last) : Effect c s a s' .failed
  | terminated (last : Bool) (hstage : s'.stage = s.stage) (hmain : s'.main = .idle)
      (h : s'.control = s.control.fail last) : Effect c s a s' .terminated
  | recovered (hstage : s.stage = .running ∧ s'.stage = .running) (hmain : s'.main = .idle)
      (hat : s.control.At c.fallback) (h : s'.control = s.control) :
      Effect c s a s' .supervisionFailed
  | recovering (hstage : s.stage = .running ∧ s'.stage = .running)
      (hmain : s.main = .idle ∧ s'.main = .idle)
      (hat : ¬ s.control.At c.fallback)
      (h : s'.control =
        s.control.accept c.fallback .recoveryAction (0 < s.graph.jobsInProgress)) :
      Effect c s a s' .supervisionFailed
  | refused (rt : Key) (e : ExecErrc) (hstage : s.stage = .running ∧ s'.stage = .running)
      (hmain : s'.main = .idle)
      (he : e = .runTargetDoesntExist ∨ s.graph.isValidRunTarget rt = true ∧ s.control.At rt)
      (h : s'.control = s.control) : Effect c s a s' (.requested rt (some e))
  | accepted (rt : Key) (hstage : s.stage = .running ∧ s'.stage = .running)
      (hmain : s.main = .idle ∧ s'.main = .idle)
      (hvalid : s.graph.isValidRunTarget rt = true) (hat : ¬ s.control.At rt)
      (h : s'.control =
        s.control.accept rt .stateManagerRequest (0 < s.graph.jobsInProgress)) :
      Effect c s a s' (.requested rt none)
  | initial (rt : Key) (hmain : s.main = .idle)
      (hstage : s.stage = .initial ∧ s'.stage = .running)
      (hvalid : s.graph.isValidRunTarget rt = true)
      (h : s'.control =
        { s.control with isInitialStateTransition := true }.startTransition rt
          .stateManagerRequest) :
      Effect c s a s' (.started rt true)
  | unknown (rt : Key) (ha : a = .startInitialTransition rt)
      (hstage : s.stage = .initial ∧ s'.stage = .running)
      (hvalid : s.graph.isValidRunTarget rt = false)
      (h : s'.control = { s.control with
        requestedState := some rt, transitionSource := .stateManagerRequest
        isInitialStateTransition := false }) :
      Effect c s a s' .silent
  | taken (hstage : s.stage = .running ∧ s'.stage = .running) (hst : s.graph.state = .success)
      (hmain : s'.main = .idle)
      (hpending : ∀ rt, s.graph.pending.runTarget = some rt → s.graph.requestedState = some rt)
      (h : s'.control = s.control.take) : Effect c s a s' .silent
  | pending (rt : Key) (hmain : s.main = .idle)
      (hstage : s.stage = .running ∧ s'.stage = .running)
      (hst : s.graph.state = .undefinedState ∨
        s.graph.state = .success ∧ s.graph.requestedState ≠ some rt)
      (hpending : s.graph.pending.runTarget = some rt)
      (h : s'.control = s.control.take.startTransition rt s.graph.pending.source) :
      Effect c s a s' (.started rt false)
  | fallback (hmain : s.main = .idle) (hstage : s.stage = .running ∧ s'.stage = .running)
      (hst : s.graph.state = .undefinedState) (hpending : s.graph.pending.runTarget = Option.none)
      (h : s'.control = s.control.take.startTransition c.fallback .recoveryAction) :
      Effect c s a s' (.started c.fallback false)
  | redirected (C : Control Key) (hstage : s'.stage = s.stage)
      (hst : s.graph.state ≠ .inTransition) (hmain : s.main ≠ .idle)
      (hC : C = s.control ∨ s.graph.transition.isFinished = true ∧ C = s.control.finalize)
      (hundefined : C.state = .undefinedState)
      (h : s'.control = C.startTransition c.fallback .recoveryAction) :
      Effect c s a s' (.started c.fallback (s.stage = .initial))
  | completed (hst : s.graph.state = .inTransition)
      (hfin : s.graph.transition.isFinished = true) (hstage : s'.stage = s.stage)
      (hmain : s.main ≠ .idle ∧ s'.main = .idle) (h : s'.control = s.control.finalize) :
      Effect c s a s' .completed
  | reported (hst : s.graph.state ≠ .inTransition)
      (hfin : s.graph.transition.isFinished = true) (hstage : s'.stage = s.stage)
      (hmain : s.main ≠ .idle ∧ s'.main = .idle) (h : s'.control = s.control.finalize) :
      Effect c s a s' .silent
  | shutdown (ha : a = .shutdown)
      (hstage : s.stage = .running ∧ (s'.stage = .toOff ∨ s'.stage = .cancelling))
      (h : s'.control = s.control ∨ s'.control = s.control.cancel (0 < s.graph.jobsInProgress)) :
      Effect c s a s' .silent
  | off (hmain : s.main = .idle) (hstage : s.stage = .cancelling ∧ s'.stage = .toOff)
      (hcan : s.graph.canSetState .inTransition = true)
      (h : s'.control =
        (s.control.setState .inTransition).startTransition c.off .stateManagerRequest) :
      Effect c s a s' (.started c.off false)
  | noOff (hstage : s.stage = .cancelling ∧ s'.stage = .toOff)
      (h : s'.control = s.control.setState .inTransition) : Effect c s a s' .silent

section Observe
variable {s s' : Daemon Key} {a : Act Key}

theorem observe_started (h : s'.graph.transitions = s.graph.transitions + 1) :
    s.observe a s' = .started s'.graph.transition.targetRoot (s.stage = .initial) := by
  rw [observe, if_pos (by omega)]

theorem observe_heard (hcount : s'.graph.transitions = s.graph.transitions)
    (hstate : s.graph.state = .inTransition → s'.graph.state ≠ .success) :
    s.observe a s' = s.heard a := by
  rw [observe, if_neg (not_not.mpr hcount), if_neg (fun h => hstate h.1 h.2)]

theorem heard_of_observe {rt : Key} {answer : Option ExecErrc}
    (h : s.observe a s' = .requested rt answer) : s.heard a = .requested rt answer := by
  unfold observe at h
  split at h
  · cases h
  · split at h
    · cases h
    · exact h

theorem heard_ne_started (s : Daemon Key) (a : Act Key) (rt : Key) (initial : Bool) :
    s.heard a ≠ .started rt initial := by
  cases a with
  | handleEvent =>
    intro h
    simp only [heard] at h
    split at h
    · split at h <;> cases h
    · cases h
    · split at h <;> cases h
    · split at h <;> cases h
    · cases h
    · cases h
  | _ => nofun

theorem started_of_observe {rt : Key} {initial : Bool} (h : s.observe a s' = .started rt initial) :
    s'.graph.transitions ≠ s.graph.transitions ∧ s'.graph.transition.targetRoot = rt := by
  unfold observe at h
  split at h
  · rename_i hne
    cases h
    exact ⟨hne, rfl⟩
  · split at h
    · cases h
    · exact absurd h (heard_ne_started s a rt initial)

theorem observe_same (h : s'.control = s.control) : s.observe a s' = s.heard a := by
  have hcount : s'.graph.transitions = s.graph.transitions := congrArg Control.transitions h
  have hstate : s'.graph.state = s.graph.state := congrArg Control.state h
  apply observe_heard hcount
  intro hst
  rw [hstate, hst]
  simp

end Observe

section Handlers
variable {c : Config Key} {G G' : Graph Key} {rt : Key} {source : RunTargetActivationSource}

theorem handleRecoveryRequest_control (c : Config Key) (G : Graph Key) :
    (G.control.At c.fallback ∧ handleRecoveryRequest c G = G) ∨
    (¬ G.control.At c.fallback ∧ (handleRecoveryRequest c G).control =
      G.control.accept c.fallback .recoveryAction (0 < G.jobsInProgress)) := by
  by_cases hat : G.control.At c.fallback
  · refine .inl ⟨hat, ?_⟩
    obtain ⟨hst | hst, hreq⟩ := hat <;>
      simp [handleRecoveryRequest, show G.state = _ from hst, show G.requestedState = _ from hreq]
  · refine .inr ⟨hat, ?_⟩
    rw [← Graph.control_accept, handleRecoveryRequest]
    by_cases hst : G.state = .inTransition
    · rw [if_pos hst, if_pos hst, if_pos (by exact fun hreq => hat ⟨.inl hst, hreq⟩)]
    · rw [if_neg hst, if_neg hst, if_neg (by exact fun hin => hat ⟨.inr hin.1, hin.2⟩)]

theorem handleSetRequestedRunTarget_control (G : Graph Key) (rt : Key) :
    (∃ e, (handleSetRequestedRunTarget G rt).2 = some e ∧
      (e = .runTargetDoesntExist ∨ G.isValidRunTarget rt = true ∧ G.control.At rt) ∧
      (handleSetRequestedRunTarget G rt).1 = G) ∨
    ((handleSetRequestedRunTarget G rt).2 = none ∧ G.isValidRunTarget rt = true ∧
      ¬ G.control.At rt ∧ (handleSetRequestedRunTarget G rt).1.control =
        G.control.accept rt .stateManagerRequest (0 < G.jobsInProgress)) := by
  by_cases hvalid : G.isValidRunTarget rt = true
  swap
  · rw [handleSetRequestedRunTarget, if_pos hvalid]
    exact .inl ⟨_, rfl, .inl rfl, rfl⟩
  by_cases hat : G.control.At rt
  · refine .inl ?_
    rcases hat.1 with hst | hst <;> simp [handleSetRequestedRunTarget, hvalid, hat,
      show G.state = _ from hst, show G.requestedState = _ from hat.2]
  · refine .inr ?_
    rw [← Graph.control_accept, handleSetRequestedRunTarget, if_neg (not_not.mpr hvalid)]
    by_cases hst : G.state = .inTransition
    · rw [if_pos hst, if_pos hst, if_pos (by exact fun hreq => hat ⟨.inl hst, hreq⟩)]
      exact ⟨rfl, hvalid, hat, rfl⟩
    · rw [if_neg hst, if_neg hst, if_neg (by exact fun hin => hat ⟨.inr hin.1, hin.2⟩)]
      exact ⟨rfl, hvalid, hat, rfl⟩

theorem nodeExecuted_control {k : Key} {result : RequestResult} {goesOn : Bool}
    (h : G.nodeExecuted k result = some (G', goesOn)) :
    (result = .success ∧ G'.control = G.control ∧ (goesOn = true → G.state = .inTransition)) ∨
    (result = .success ∧ G.state ≠ .inTransition ∧ goesOn = false ∧
      G'.control = G.control.halt) ∨
    (result ≠ .success ∧ goesOn = false ∧ ∃ last, G'.control = G.control.fail last) := by
  unfold Graph.nodeExecuted at h
  by_cases hr : result = .success
  · simp only [if_neg (not_not.mpr hr)] at h
    by_cases hst : G.state = .inTransition
    · rw [if_pos hst] at h
      obtain ⟨t, -, hpair⟩ := map_eq_some_iff.mp h
      cases hpair
      exact .inl ⟨hr, rfl, fun _ => hst⟩
    · rw [if_neg hst] at h
      split at h <;> cases h
      · exact .inr (.inl ⟨hr, hst, rfl, rfl⟩)
      · exact .inl ⟨hr, rfl, nofun⟩
  · have hst : ¬ stateResults .aborting G.state = .inTransition :=
      stateResults_ne_inTransition (by simp) _
    simp only [if_pos hr, Graph.setState, if_neg hst] at h
    split at h <;> cases h
    · exact .inr (.inr ⟨hr, rfl, true, rfl⟩)
    · exact .inr (.inr ⟨hr, rfl, false, rfl⟩)

end Handlers

section Steps
variable {c : Config Key} {s s' : Daemon Key} {a : Act Key} {rt : Key}
variable {source : RunTargetActivationSource} {handler : Bool}

theorem Starts.control (h : Starts s rt source handler s') :
    s'.control = s.control.startTransition rt source := by
  cases h
  rfl

theorem Starts.observe {s₁ : Daemon Key} (h : Starts s₁ rt source handler s')
    (hcount : s₁.graph.transitions = s.graph.transitions) :
    s.observe a s' = .started rt (s.stage = .initial) := by
  cases h with
  | intro _ hcreate =>
    rw [observe_started (congrArg (· + 1) hcount)]
    exact congrArg (Observation.started · _) (Transition.targetRoot_createTransition hcreate)

theorem Effect.observed {o : Observation Key} (h : Effect c s a s' o) (ho : s.observe a s' = o) :
    Effect c s a s' (s.observe a s') :=
  ho ▸ h

theorem observe_fail {last : Bool} (h : s'.control = s.control.fail last) :
    s.observe a s' = s.heard a := by
  apply observe_heard
  · exact (congrArg Control.transitions h).trans (s.control.transitions_fail last)
  · intro hst
    rw [show s'.graph.state = _ from congrArg Control.state h,
      Control.state_fail (C := s.control) hst]
    cases last <;> simp

theorem observe_accept {busy : Bool} (h : s'.control = s.control.accept rt source busy) :
    s.observe a s' = s.heard a := by
  apply observe_heard
  · exact (congrArg Control.transitions h).trans (s.control.transitions_accept rt source busy)
  · intro hst
    rw [show s'.graph.state = _ from congrArg Control.state h, Control.state_accept,
      if_pos (show s.control.state = .inTransition from hst)]
    cases busy <;> simp

variable {rest : List (Queued Key)}

theorem completion_effect {t : ComponentTask Key} {o : Outcome}
    {G : Graph Key} {goesOn : Bool} (hev : s.events = .completion t o :: rest)
    (hmain : s.main = .idle) (hr : s.graph.nodeExecuted t.component o.result = some (G, goesOn))
    (hs' : s' = { s with
      events := rest, graph := G, main := if goesOn then .draining false else .idle }) :
    Effect c s .handleEvent s' (s.observe .handleEvent s') := by
  have hhead : s.events.head? = some (.completion t o) := by rw [hev]; rfl
  subst hs'
  rcases nodeExecuted_control hr with
    ⟨hok, hcontrol, hbusy⟩ | ⟨hok, hst, rfl, hcontrol⟩ | ⟨hok, rfl, last, hcontrol⟩
  · have hheard : s.heard .handleEvent = .silent := by simp [heard, hhead, hok]
    refine Effect.observed (Effect.none hcontrol (.inl rfl) fun _ hne => ?_) (Eq.trans ?_ hheard)
    · cases goesOn with
      | false => rfl
      | true => exact absurd (hbusy rfl) hne
    · exact observe_same hcontrol
  · have hheard : s.heard .handleEvent = .silent := by simp [heard, hhead, hok]
    have hjob : s.outstanding ≠ [] :=
      List.ne_nil_of_mem (mem_outstanding_of_completion (t := t) (o := o) (by simp [hev]))
    exact Effect.observed (Effect.halted hst hjob rfl ⟨hmain, rfl⟩ hcontrol)
      (Eq.trans (observe_heard (congrArg Control.transitions hcontrol) (absurd · hst)) hheard)
  · have hheard : s.heard .handleEvent = .failed := by simp [heard, hhead, hok]
    exact Effect.observed (Effect.failed last rfl (fun _ => rfl) hcontrol)
      (Eq.trans (observe_fail hcontrol) hheard)

theorem heeded_effect {n : Notice Key} (hev : s.events = .notice n :: rest) (hmain : s.main = .idle)
    (hn : ∀ k, n ≠ .unexpectedTermination k) (hs' : s' = { s with
      events := rest, graph := if s.stage = .running then heed c s.graph n else s.graph }) :
    Effect c s .handleEvent s' (s.observe .handleEvent s') := by
  have hhead : s.events.head? = some (.notice n) := by rw [hev]; rfl
  have hquiet : s' = { s with events := rest } → s.heard .handleEvent = .silent →
      Effect c s .handleEvent s' (s.observe .handleEvent s') := by
    rintro rfl hheard
    refine Effect.observed (Effect.none rfl (.inl rfl) fun hidle _ => hidle) ?_
    exact Eq.trans (observe_same rfl) hheard
  by_cases hstage : s.stage = .running
  swap
  · rw [if_neg hstage] at hs'
    refine hquiet hs' ?_
    cases n with
    | unexpectedTermination k => exact absurd rfl (hn k)
    | _ => simp [heard, hhead, hstage]
  rw [if_pos hstage] at hs'
  cases n with
  | unexpectedTermination k => exact absurd rfl (hn k)
  | getActiveRunTarget => exact hquiet hs' (by simp [heard, hhead])
  | supervisionFailure p =>
    have hheard : s.heard .handleEvent = .supervisionFailed := by simp [heard, hhead, hstage]
    subst hs'
    rcases handleRecoveryRequest_control c s.graph with ⟨hat, heq⟩ | ⟨hat, hcontrol⟩
    · have hcontrol : (handleRecoveryRequest c s.graph).control = s.control := by rw [heq]; rfl
      exact Effect.observed (Effect.recovered ⟨hstage, hstage⟩ hmain hat hcontrol)
        (Eq.trans (observe_same hcontrol) hheard)
    · exact Effect.observed (Effect.recovering ⟨hstage, hstage⟩ ⟨hmain, hmain⟩ hat hcontrol)
        (Eq.trans (observe_accept hcontrol) hheard)
  | setRequestedRunTarget rt =>
    have hheard : s.heard .handleEvent =
        .requested rt (handleSetRequestedRunTarget s.graph rt).2 := by
      simp [heard, hhead, hstage]
    subst hs'
    rcases handleSetRequestedRunTarget_control s.graph rt with
      ⟨e, he, hat, heq⟩ | ⟨hnone, hvalid, hat, hcontrol⟩
    · have hcontrol : (handleSetRequestedRunTarget s.graph rt).1.control = s.control := by
        rw [heq]
        rfl
      rw [he] at hheard
      exact Effect.observed (Effect.refused rt e ⟨hstage, hstage⟩ hmain hat hcontrol)
        (Eq.trans (observe_same hcontrol) hheard)
    · rw [hnone] at hheard
      exact Effect.observed (Effect.accepted rt ⟨hstage, hstage⟩ ⟨hmain, hmain⟩ hvalid hat hcontrol)
        (Eq.trans (observe_accept hcontrol) hheard)

theorem shutdown_effect (hstage : s.stage = .running) :
    Effect c s .shutdown (s.shutdown c) (s.observe .shutdown (s.shutdown c)) := by
  unfold shutdown
  split
  · refine Effect.observed (Effect.shutdown rfl ⟨hstage, .inl rfl⟩ (.inl rfl)) ?_
    exact observe_same (s := s) rfl
  · have hcontrol := s.graph.control_cancel
    refine Effect.observed (Effect.shutdown rfl ⟨hstage, .inr rfl⟩ (.inr hcontrol)) ?_
    refine observe_heard (s := s) ?_ fun hin => ?_
    · exact (congrArg Control.transitions hcontrol).trans (s.control.transitions_cancel _)
    · rw [show s.graph.cancel.state = _ from congrArg Control.state hcontrol,
        Control.state_cancel (C := s.graph.control) hin]
      split <;> simp

theorem finished_effect (hmain : s.main ≠ .idle)
    (hs' : s' = { s with graph := finish s.graph, main := .idle }) :
    Effect c s .drain s' (s.observe .drain s') := by
  have hcontrol : s'.control = _ := (congrArg control hs').trans s.graph.control_finish
  have hstage : s'.stage = s.stage := by rw [hs']
  have hidle : s'.main = .idle := by rw [hs']
  by_cases hfin : s.graph.transition.isFinished = true
  · rw [if_pos hfin] at hcontrol
    have hcount : s'.graph.transitions = s.graph.transitions :=
      congrArg Control.transitions hcontrol
    by_cases hst : s.graph.state = .inTransition
    · have hdone : s'.graph.state = .success := by
        refine (congrArg Control.state hcontrol).trans ?_
        simp [Control.finalize, Control.setState, stateResults,
          show s.graph.control.state = .inTransition from hst]
      refine (Effect.completed hst hfin hstage ⟨hmain, hidle⟩ hcontrol).observed ?_
      rw [observe, if_neg (not_not.mpr hcount), if_pos ⟨hst, hdone⟩]
    · refine (Effect.reported hst hfin hstage ⟨hmain, hidle⟩ hcontrol).observed ?_
      exact observe_heard hcount fun hin => absurd hin hst
  · rw [if_neg hfin] at hcontrol
    exact Effect.observed (Effect.none hcontrol (.inl hstage) fun hidle => absurd hidle hmain)
      (observe_same hcontrol)

theorem redirected_effect (hmain : s.main ≠ .idle)
    (hundef : (finish s.graph).state = .undefinedState)
    (h : Starts { s with graph := finish s.graph, main := .idle } c.fallback .recoveryAction false
      s') : Effect c s .drain s' (s.observe .drain s') := by
  have hfinish := s.graph.control_finish
  refine (Effect.redirected (s := s) _ h.stage (fun hst => state_finish hst hundef) hmain ?_ hundef
    h.control).observed (h.observe (congrArg Control.transitions hfinish |>.trans ?_))
  · change (finish s.graph).control = _ ∨ _ ∧ (finish s.graph).control = _
    rw [hfinish]
    split
    · rename_i hfin
      exact .inr ⟨hfin, rfl⟩
    · exact .inl rfl
  · split <;> rfl

theorem step_effect (h : step c s a = some s') : Effect c s a s' (s.observe a s') := by
  have hquiet : s'.control = s.control → s'.stage = s.stage →
      (s.main = .idle → s'.main = .idle) → s.heard a = .silent →
      Effect c s a s' (s.observe a s') := fun hcontrol hstage hmain hheard =>
    Effect.observed (Effect.none hcontrol (.inl hstage) fun hidle _ => hmain hidle)
      ((observe_same hcontrol).trans hheard)
  have hbusy : ∀ {main}, s.main = main → main ≠ .idle → s.main ≠ .idle := fun hmain => hmain ▸ id
  cases moves_of_step h with
  | initial hstage hmain h =>
    refine (Effect.initial _ hmain ⟨hstage, h.stage⟩ h.valid h.control).observed ?_
    rw [h.observe (s := s) rfl, decide_eq_true hstage]
  | unknown hstage _ hvalid =>
    refine Effect.observed (Effect.unknown _ rfl ⟨hstage, rfl⟩ hvalid rfl) ?_
    refine observe_heard (s := s) rfl fun hin => ?_
    rw [show (s.graph.state : GraphState) = _ from hin]
    simp
  | completion hev hmain _ _ hr => exact completion_effect hev hmain hr rfl
  | @terminated _ _ G hev _ _ _ hG =>
    have hheard : s.heard .handleEvent = .terminated := by simp [heard, hev]
    obtain ⟨last, hlast⟩ : ∃ last, (if G.jobsInProgress = 0 then
        G.handleNonTransitionExecution else G).control = s.control.fail last := by
      rw [hG]
      split
      · exact ⟨true, rfl⟩
      · exact ⟨false, rfl⟩
    exact Effect.observed (Effect.terminated last rfl rfl hlast)
      (Eq.trans (observe_fail hlast) hheard)
  | heeded hev hmain _ _ hn => exact heeded_effect hev hmain hn rfl
  | taken hmain hstage hst hpending =>
    refine Effect.observed (Effect.taken ⟨hstage, hstage⟩ hst hmain hpending rfl) ?_
    refine observe_heard (s := s) rfl fun hin => ?_
    rw [hst] at hin
    cases hin
  | pending hmain hstage hst hpending h =>
    refine (Effect.pending _ hmain ⟨hstage, h.stage.trans hstage⟩ hst hpending
      h.control).observed ?_
    rw [h.observe (s := s) rfl, decide_eq_false (by rw [hstage]; simp)]
  | fallback hmain hstage hst hpending h =>
    refine (Effect.fallback hmain ⟨hstage, h.stage.trans hstage⟩ hst hpending
      h.control).observed ?_
    rw [h.observe (s := s) rfl, decide_eq_false (by rw [hstage]; simp)]
  | shutdown _ hstage => exact shutdown_effect hstage
  | off hmain hstage hcan h =>
    refine (Effect.off hmain ⟨hstage, h.stage⟩ hcan h.control).observed ?_
    rw [h.observe (s := s) rfl, decide_eq_false (by rw [hstage]; simp)]
  | noOff _ hstage =>
    refine Effect.observed (Effect.noOff ⟨hstage, rfl⟩ rfl) ?_
    refine observe_heard (s := s) rfl fun hin => ?_
    simp [Graph.setState, hin, stateResults]
  | ended hmain hstage =>
    have hsame : (if s.graph.state = .inTransition then s.forceKillProcesses else s).control =
        s.control ∧
        (if s.graph.state = .inTransition then s.forceKillProcesses else s).main = s.main := by
      split <;> exact ⟨rfl, rfl⟩
    exact Effect.observed (Effect.none hsame.1 (.inr ⟨hstage, rfl⟩) fun hidle _ =>
      hsame.2.trans hidle) (observe_same hsame.1)
  | finished hmain => exact finished_effect (hbusy hmain (by simp)) rfl
  | redirected hmain _ hundef h => exact redirected_effect (hbusy hmain (by simp)) hundef h
  | updated hmain | queued hmain | dropped hmain | pushed hmain =>
    exact hquiet rfl rfl (fun hidle => absurd hidle (hbusy hmain (by simp))) rfl
  | pushFailed hmain =>
    have hcontrol : s.graph.queueNodeFailed.control = s.control.fail true := rfl
    refine Effect.observed (Effect.failed true rfl (fun hidle => ?_) hcontrol) ?_
    · exact absurd hidle (hbusy hmain (by simp))
    · exact observe_fail hcontrol
  | passed | pushTimeout | take | skip | work | launch | setFlag | succeed | fail | exit | post =>
    exact hquiet rfl rfl id rfl

theorem step_transitions (h : step c s a = some s') : s'.graph.transitions = s.graph.transitions ∨
      s'.graph.transitions = s.graph.transitions + 1 := by
  have hcount : ∀ C : Control Key, s'.control = C → s'.graph.transitions = C.transitions :=
    fun C hC => congrArg Control.transitions hC
  have heff := step_effect h
  generalize s.observe a s' = o at heff
  cases heff with
  | none h | halted _ _ _ _ h | recovered _ _ _ h | refused _ _ _ _ _ h | unknown _ _ _ _ h
  | taken _ _ _ _ h | completed _ _ _ _ h | reported _ _ _ _ h | noOff _ h =>
    exact .inl (hcount _ h)
  | failed last _ _ h | terminated last _ _ h =>
    exact .inl ((hcount _ h).trans (s.control.transitions_fail last))
  | recovering _ _ _ h | accepted _ _ _ _ _ h =>
    exact .inl ((hcount _ h).trans (s.control.transitions_accept _ _ _))
  | initial _ _ _ _ h | pending _ _ _ _ _ h | fallback _ _ _ _ h | off _ _ _ h =>
    exact .inr (hcount _ h)
  | redirected C _ _ _ hC _ h =>
    refine .inr ((hcount _ h).trans ?_)
    rcases hC with rfl | ⟨-, rfl⟩ <;> rfl
  | shutdown _ _ h =>
    rcases h with h | h
    · exact .inl (hcount _ h)
    · exact .inl ((hcount _ h).trans (s.control.transitions_cancel _))

theorem step_stage (h : step c s a = some s') :
    s'.stage = s.stage ∨ s.stage = .initial ∧ s'.stage = .running ∨
      s.stage = .running ∧ s'.stage = .cancelling ∨ s'.stage = .toOff ∨ s'.stage = .ended := by
  have heff := step_effect h
  generalize s.observe a s' = o at heff
  cases heff with
  | none _ hstage => exact hstage.elim Or.inl fun hend => by simp [hend.2]
  | halted _ _ hstage | failed _ hstage | terminated _ hstage | redirected _ hstage
  | completed _ _ hstage | reported _ _ hstage => exact .inl hstage
  | recovered hstage | recovering hstage | refused _ _ hstage | accepted _ hstage | taken hstage
  | pending _ _ hstage | fallback _ hstage => exact .inl (hstage.2.trans hstage.1.symm)
  | initial _ _ hstage | unknown _ _ hstage => exact .inr (.inl hstage)
  | shutdown _ hstage => rcases hstage.2 with hnext | hnext <;> simp [hstage.1, hnext]
  | off _ hstage | noOff hstage => simp [hstage.2]

/-- The graph was in the run target before, or a transition has been completed, or the initial run
target is not configured. -/
theorem success_of_step (h : step c s a = some s') (hloop : s.main ≠ .idle →
      s.graph.state ≠ .inTransition → s.graph.transition.isFinished = false)
    (hstage' : s'.stage = .running) (hst' : s'.graph.state = .success) :
    (s.stage = .running ∧ s.graph.state = .success ∨
        s.graph.state = .inTransition ∧ s.graph.transition.isFinished = true) ∧
      s'.graph.requestedState = s.graph.requestedState ∨
    s.stage = .initial ∧ ∃ rt, a = .startInitialTransition rt ∧
      s.graph.isValidRunTarget rt = false ∧ s'.graph.requestedState = some rt := by
  have hst : s'.control.state = .success := hst'
  have hrequested := fun C (heq : s'.control = C) => congrArg Control.requestedState heq
  have hstate := fun C (heq : s'.control = C) => (congrArg Control.state heq).symm.trans hst
  have heff := step_effect h
  generalize s.observe a s' = o at heff
  cases heff with
  | none heq hstage =>
    refine .inl ⟨.inl ⟨?_, hstate _ heq⟩, hrequested _ heq⟩
    rcases hstage with hstage | ⟨-, hstage⟩
    · exact hstage.symm.trans hstage'
    · cases hstage.symm.trans hstage'
  | halted _ _ _ _ heq => exact absurd (hstate _ heq) s.control.halt_not_success
  | failed last _ _ heq | terminated last _ _ heq =>
    exact absurd (hstate _ heq) (s.control.fail_not_success last)
  | recovered hstage _ _ heq | refused _ _ hstage _ _ heq | taken hstage _ _ _ heq =>
    exact .inl ⟨.inl ⟨hstage.1, hstate _ heq⟩, hrequested _ heq⟩
  | recovering hstage _ _ heq | accepted _ hstage _ _ _ heq =>
    refine .inl ⟨.inl ⟨hstage.1, ?_⟩, (hrequested _ heq).trans (Control.requestedState_accept ..)⟩
    have haccept := hstate _ heq
    rw [Control.state_accept] at haccept
    split_ifs at haccept
    exact haccept
  | initial _ _ _ _ heq | pending _ _ _ _ _ heq | fallback _ _ _ _ heq
  | redirected _ _ _ _ _ _ heq =>
    exact absurd (hstate _ heq) (Control.startTransition_not_success _ _ _)
  | unknown rt ha hstage hvalid heq => exact .inr ⟨hstage.1, rt, ha, hvalid, hrequested _ heq⟩
  | completed hin hfin _ _ heq => exact .inl ⟨.inr ⟨hin, hfin⟩, hrequested _ heq⟩
  | reported hne hfin _ hmain => cases (hloop hmain.1 hne).symm.trans hfin
  | shutdown _ hstage => rcases hstage.2 with hnext | hnext <;> cases hnext.symm.trans hstage'
  | off _ hstage | noOff hstage => cases hstage.2.symm.trans hstage'

end Steps

end Daemon

end LaunchManager
