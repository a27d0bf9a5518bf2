import LaunchManager.Recovery
import LaunchManager.RunTargetControl
import LaunchManager.Shutdown

/-!
# Errors of the job queue and of the components

A push to the job queue that fails for good leaves the graph undefined while
the loop over the ready nodes goes on. As long as no other job is in flight
then, the accounting of the daemon stays intact. A component may answer a
deactivation with a failure, which is not reported at all.
-/

namespace LaunchManager.Daemon

set_option autoImplicit false

open Transition (InPhase)

universe u
variable {Key : Type u} [DecidableEq Key]

def failsAlone (s : Daemon Key) : Act Key → Prop
  | .pushFailed => s.graph.jobsInProgress = 0
  | _ => True

instance (s : Daemon Key) (a : Act Key) : Decidable (failsAlone s a) :=
  match a with
  | .pushFailed => inferInstanceAs (Decidable (s.graph.jobsInProgress = 0))
  | .startInitialTransition _ | .handleEvent | .processGroupHandler | .shutdown | .waitOver
  | .drain | .pushed | .pushTimeout | .take | .skip _ | .work _ | .launch _ | .setFlag _
  | .succeed _ | .fail _ _ | .exit _ | .post _ => isTrue trivial

/-- The loop goes on after a failed push. The nodes it has dropped count as being in flight for
the rest of the transition. -/
structure Abandoned (g : DependencyGraph Key Component) (s : Daemon Key) (target : Key)
    (active₀ : Key → Bool) (dropped stopped started : List Key) : Prop where
  target_mem : target ∈ g.keys
  jobs : s.graph.jobsInProgress = 0
  outstanding : s.outstanding = []
  sources : ∀ i ∈ s.graph.stopRequested, i ≤ s.graph.stopSource
  main : ∃ handler, s.main = .draining handler
  state : s.graph.state = .undefinedState
  stage : s.stage ≠ .initial ∧ s.stage ≠ .cancelling
  inPhase : InPhase g target active₀ s.graph.transition s.graph.active dropped stopped started
  dropped_ne : dropped ≠ []

/-- The invariant of the daemon, or the end of a loop whose transition was given up. -/
def Sound (g : DependencyGraph Key Component) (s : Daemon Key) : Prop :=
  Inv g s ∨ ∃ target active₀ dropped stopped started,
    Abandoned g s target active₀ dropped stopped started

section Steps
variable {g : DependencyGraph Key Component} {s s' : Daemon Key} {c : Config Key} {a : Act Key}
variable {target : Key} {active₀ : Key → Bool} {dropped stopped started : List Key}

theorem Sound.inv_of_idle (h : Sound g s) (hmain : s.main = .idle) : Inv g s := by
  rcases h with h | ⟨target, active₀, dropped, stopped, started, h⟩
  · exact h
  · obtain ⟨handler, hdrain⟩ := h.main
    rw [hmain] at hdrain
    cases hdrain

theorem Inv.pushFailed (h : Inv g s) {task : ComponentTask Key} {handler : Bool}
    (hmain : s.main = .pushing task handler) (hjobs : s.graph.jobsInProgress = 0) :
    Sound g { s with graph := s.graph.queueNodeFailed, main := .draining handler } := by
  have hst : s.graph.state = .inTransition := h.busy (by rw [hmain]; simp)
  have hout : s.outstanding = [] := (jobs_eq_zero_iff h).mp hjobs
  have hhand : s.inHand = [task] := by rw [inHand, hmain, hout]; rfl
  obtain ⟨target, active₀, stopped, started, hl⟩ := h.live hst
  have hphase := hl.inPhase
  rw [hhand] at hphase
  have hhalt : Graph.Halted s.graph s.graph.queueNodeFailed :=
    ((Graph.Halted.refl s.graph).setState .aborting (by simp)).handleNonTransitionExecution
  refine .inr ⟨target, active₀, [task.component], stopped, started, hl.target_mem, hjobs, hout,
    ?_, ⟨handler, rfl⟩, ?_, h.stage_ne hst, hphase, by simp⟩
  · intro i hi
    rw [show s.graph.queueNodeFailed.stopSource = _ from hhalt.source]
    rcases hhalt.stops i hi with hold | rfl
    · exact h.sources i hold
    · exact Nat.le_refl _
  · simp [Graph.queueNodeFailed, Graph.handleNonTransitionExecution, Graph.setState, hst,
      stateResults]

theorem Abandoned.inv_idle (h : Abandoned g s target active₀ dropped stopped started)
    (hg : g.WellFormed) : Inv g { s with main := .idle } where
  object := h.inPhase.informed.wellFormed hg
  shape := h.inPhase.informed.shape
  jobs := by
    change s.graph.jobsInProgress = s.outstanding.length
    rw [h.jobs, h.outstanding]
    rfl
  tasks := by
    intro t ht
    have hmem : t ∈ s.outstanding := ht
    rw [h.outstanding] at hmem
    cases hmem
  sources := h.sources
  busy := fun hne => absurd rfl hne
  quiet := fun _ => ⟨fun _ => .inr h.state, fun _ => h.outstanding⟩
  live := fun hst => by
    rw [h.state] at hst
    cases hst
  initial := fun hi => absurd hi h.stage.1
  cancelling := fun hc => absurd hc h.stage.2

/-- No job is left: run targets are updated, processes are dropped, and the transition is not
finished. -/
theorem Abandoned.moves (h : Abandoned g s target active₀ dropped stopped started)
    (hg : g.WellFormed) (hm : Moves c s a s') : Sound g s' := by
  obtain ⟨handler, hmain⟩ := h.main
  have hbusy : ¬ s.main = .idle := by rw [hmain]; simp
  have hqueue : s.jobQueue = [] := (List.append_eq_nil_iff.mp h.outstanding).1
  have hnone : ∀ w, w ∉ s.workers := by
    intro w hw
    have hmem := mem_outstanding_of_worker hw
    rw [h.outstanding] at hmem
    cases hmem
  have hfinish : finish s.graph = s.graph := by
    have hfin := h.inPhase.not_done_of_flying h.dropped_ne
    simp [finish, Transition.isFinished, hfin]
  cases hm with
  | initial _ hidle | unknown _ hidle | completion _ hidle | terminated _ hidle | heeded _ hidle
  | passed hidle | taken hidle | pending hidle | fallback hidle | shutdown hidle | off hidle
  | noOff hidle | ended hidle => exact absurd hidle hbusy
  | finished =>
    rw [hfinish]
    exact .inl (h.inv_idle hg)
  | redirected _ _ _ hstart =>
    rw [hfinish] at hstart
    exact .inl ((h.inv_idle hg).starts hg rfl h.stage (.inr h.state) hstart)
  | updated _ hnext _ hreport =>
    obtain ⟨-, -, _, _, hnew⟩ := inPhase_updated h.inPhase hg h.target_mem hnext hreport
    exact .inr ⟨_, _, _, _, _, { h with inPhase := hnew }⟩
  | queued _ _ _ hst =>
    rw [h.state] at hst
    cases hst
  | dropped _ hnext =>
    exact .inr ⟨_, _, _, _, _, { h with
      inPhase := (h.inPhase.nextReady hnext).1, dropped_ne := by simp }⟩
  | pushed hpush | pushTimeout hpush | pushFailed hpush =>
    rw [hmain] at hpush
    cases hpush
  | take hq =>
    rw [hqueue] at hq
    cases hq
  | skip hw | work hw | launch hw | setFlag hw | succeed hw | fail hw => exact absurd hw (hnone _)
  | exit => exact .inr ⟨_, _, _, _, _, { h with }⟩
  | @post n =>
    exact .inr ⟨_, _, _, _, _, { h with
      outstanding := (outstanding_post s n).trans h.outstanding }⟩

theorem Sound.moves (h : Sound g s) (hg : g.WellFormed) (hac : g.Acyclic) (hok : failsAlone s a)
    (hm : Moves c s a s') : Sound g s' := by
  rcases h with h | ⟨target, active₀, dropped, stopped, started, h⟩
  swap
  · exact h.moves hg hm
  by_cases ha : a = .pushFailed
  · subst ha
    cases hm with
    | pushFailed hmain => exact h.pushFailed hmain hok
  · exact .inl (h.moves hg hac ha hm)

theorem Sound.step (h : Sound g s) (hg : g.WellFormed) (hac : g.Acyclic) (hok : failsAlone s a)
    (hs : Daemon.step c s a = some s') : Sound g s' :=
  h.moves hg hac hok (moves_of_step hs)

theorem run_sound [Inhabited Key] (hg : g.WellFormed) (hac : g.Acyclic)
    (hrun : Runs.Run (Daemon.step c) failsAlone (init g) s) : Sound g s :=
  hrun.invariant _ (fun hi hok hs => hi.step hg hac hok hs) (.inl (init_inv hg))

/-- A transition is started only when every job of the one before has been reported. -/
theorem Sound.outstanding_of_started (h : Sound g s) (hs : Daemon.step c s a = some s')
    (hne : s'.graph.transitions ≠ s.graph.transitions) : s.outstanding = [] := by
  have hrest : s.main = .idle → s.graph.state = .success ∨ s.graph.state = .undefinedState →
      s.outstanding = [] := fun hmain hst => ((h.inv_of_idle hmain).quiet hmain).mpr hst
  have heff := step_effect hs
  rw [observe, if_pos hne] at heff
  generalize decide (s.stage = .initial) = initial, s'.graph.transition.targetRoot = rt at heff
  cases heff with
  | initial rt hmain hstage hvalid hcontrol =>
    exact hrest hmain (.inl ((h.inv_of_idle hmain).initial hstage.1))
  | pending rt hmain hstage hst hpending hcontrol =>
    exact hrest hmain (hst.elim Or.inr fun hsucc => .inl hsucc.1)
  | fallback hmain hstage hst hpending hcontrol => exact hrest hmain (.inr hst)
  | redirected C hstage hst hmain hC hundef hcontrol =>
    rcases h with h | ⟨target, active₀, dropped, stopped, started, h⟩
    · exact absurd (h.busy hmain) hst
    · exact h.outstanding
  | off hmain hstage hcan hcontrol =>
    exact hrest hmain ((h.inv_of_idle hmain).rest_of_canSetState hstage.1 hcan)

end Steps

/-- The steps of the daemon when a component may answer a deactivation with a failure. -/
inductive ComponentAct (Key : Type u) where
  | daemon (a : Act Key)
  | deactivationFailed (w : Worker Key)

/-- `ProcessMonitor::doWork` posts nothing for a deactivation that failed. -/
def componentStep (c : Config Key) (s : Daemon Key) : ComponentAct Key → Option (Daemon Key)
  | .daemon a => step c s a
  | .deactivationFailed w =>
    if w ∈ s.workers ∧ w.begun = true ∧ w.task.type = .deactivate then
      some { s with workers := s.workers.erase w }
    else none

/-- Deactivations succeed, and a push fails for good only while no other job is in flight. -/
def reliable (s : Daemon Key) : ComponentAct Key → Prop
  | .daemon a => failsAlone s a
  | .deactivationFailed _ => False

instance (s : Daemon Key) (a : ComponentAct Key) : Decidable (reliable s a) :=
  match a with
  | .daemon a => inferInstanceAs (Decidable (failsAlone s a))
  | .deactivationFailed _ => isFalse id

/-- The graph is in transition or aborting exactly while some job has not been reported. -/
theorem busy_iff_in_flight [Inhabited Key] {g : DependencyGraph Key Component}
    (hg : g.WellFormed) (hac : g.Acyclic) {c : Config Key} {s : Daemon Key}
    (hrun : Runs.Run (componentStep c) reliable (init g) s) :
    (s.main = .idle →
      (s.graph.state = .inTransition ∨ s.graph.state = .aborting ↔ s.outstanding ≠ [])) ∧
    ∀ a s', step c s a = some s' → s'.graph.transitions ≠ s.graph.transitions →
      s.outstanding = [] := by
  have h : Sound g s := by
    refine hrun.invariant _ (fun {t u a} hi hok hs => ?_) (Or.inl (init_inv hg))
    cases a with
    | daemon a => exact hi.step hg hac hok hs
    | deactivationFailed w => exact hok.elim
  refine ⟨fun hmain => ?_, fun a s' hs hne => h.outstanding_of_started hs hne⟩
  have hinv := h.inv_of_idle hmain
  constructor
  · intro hbusy hnil
    rcases (hinv.quiet hmain).mp hnil with hst | hst <;> rw [hst] at hbusy <;> simp at hbusy
  · exact hinv.state_of_outstanding hmain

@[irreducible] def queuedSample : Daemon Nat :=
  (Runs.exec (componentStep ⟨2, 3⟩) reliable (init sampleGraph)
    [.daemon (.startInitialTransition 1), .daemon .drain, .daemon .pushed,
      .daemon .drain]).get (by decide +kernel)

theorem queuedSample_run :
    Runs.Run (componentStep ⟨2, 3⟩) reliable (init sampleGraph) queuedSample := by
  unfold queuedSample
  exact Runs.Run.of_exec (Option.some_get _).symm

theorem busy_iff_in_flight_queued :
    queuedSample.graph.state = .inTransition ∧ queuedSample.outstanding ≠ [] := by
  have hstate : queuedSample.graph.state = .inTransition := by decide +kernel
  refine ⟨hstate, ?_⟩
  exact ((busy_iff_in_flight sampleGraph_wellFormed
    (DependencyGraph.acyclic_of_rank id (by decide +kernel)) queuedSample_run).1
    (by decide +kernel)).mp (Or.inl hstate)

def untilStopping : List (Act Nat) :=
  untilFailure ++ ([.handleEvent, .processGroupHandler, .drain, .drain, .pushed, .drain, .take,
    .work ⟨⟨.deactivate, 0, 2, 2⟩, false⟩] : List (Act Nat))

/-- First a push fails while `0` is being started, then the deactivation of `0` fails. -/
theorem report_lost_or_not_awaited :
    (∃ s, Runs.Run (componentStep ⟨3, 4⟩) Runs.anyStep (init pairGraph) s ∧ s.main = .idle ∧
      s.graph.state = .undefinedState ∧ s.outstanding ≠ []) ∧
    (∃ s, Runs.Run (componentStep ⟨2, 3⟩) Runs.anyStep (init sampleGraph) s ∧ s.main = .idle ∧
      s.graph.state = .inTransition ∧ s.outstanding = []) := by
  constructor
  · exact Runs.Run.exists_of_exec _ _ _ _
      [.daemon (.startInitialTransition 2), .daemon .drain, .daemon .pushed, .daemon .drain,
        .daemon .pushFailed, .daemon .drain] (by decide +kernel)
  · exact Runs.Run.exists_of_exec _ _ _ _
      (List.append (untilStopping.map ComponentAct.daemon)
        [.deactivationFailed ⟨⟨.deactivate, 0, 2, 2⟩, true⟩]) (by decide +kernel)

end LaunchManager.Daemon
