import LaunchManager.Library.Runs
import LaunchManager.ProcessGroupManager

/-!
# The job counter and the states of the graph

The invariant of the daemon: the counter is the number of jobs whose completion
has not been handled, all of them belong to the transition that was started
last, and the graph is at rest exactly when there are none. While the graph is
in transition, the phase invariant holds with these jobs in flight.
-/

namespace LaunchManager

open List

set_option autoImplicit false

open Transition (InPhase)

universe u
variable {Key : Type u}

theorem stateResults_ne_inTransition {requested : GraphState} (h : requested ≠ .inTransition)
    (old : GraphState) : stateResults requested old ≠ .inTransition := by
  cases requested <;> cases old <;> simp_all [stateResults]

namespace Graph

/-- The graph `G'` is `G` after a change of state that starts no transition. -/
structure Halted (G G' : Graph Key) : Prop where
  transition : G'.transition = G.transition
  source : G'.stopSource = G.stopSource
  count : G'.transitions = G.transitions
  stops : ∀ i ∈ G'.stopRequested, i ∈ G.stopRequested ∨ i = G.stopSource

theorem Halted.refl (G : Graph Key) : Halted G G := ⟨rfl, rfl, rfl, fun _ => Or.inl⟩

theorem Halted.setState {G G' : Graph Key} (h : Halted G G') (requested : GraphState)
    (hr : requested ≠ .inTransition) : Halted G (G'.setState requested) := by
  have hne := stateResults_ne_inTransition hr G'.state
  refine ⟨h.transition, ?_, h.count, ?_⟩
  · rw [← h.source]
    simp [Graph.setState, hne]
  · intro i hi
    simp only [Graph.setState] at hi
    split at hi
    · rcases mem_cons.mp hi with rfl | hi
      · exact .inr h.source
      · exact h.stops i hi
    · exact h.stops i hi

theorem Halted.handleNonTransitionExecution {G G' : Graph Key} (h : Halted G G') :
    Halted G G'.handleNonTransitionExecution := by
  have hbase : Halted G { G' with isInitialStateTransition := false } :=
    { h with }
  exact hbase.setState .undefinedState (by simp)

theorem Halted.cancel {G G' : Graph Key} (h : Halted G G') : Halted G G'.cancel := by
  unfold Graph.cancel
  split
  · exact h.setState .aborting (by simp)
  · exact (h.setState .aborting (by simp)).setState .undefinedState (by simp)

variable {G : Graph Key}

theorem setState_inTransition (hne : G.state ≠ .aborting) : G.setState .inTransition = { G with
      state := .inTransition
      stopSource := if G.state = .inTransition then G.stopSource else G.stopSource + 1 } := by
  cases hst : G.state with
  | aborting => exact absurd hst hne
  | success | inTransition | undefinedState => simp [setState, stateResults, hst]

theorem aborting_of_canSetState (h : ¬ G.canSetState .inTransition = true) :
    G.state = .aborting := by
  cases hst : G.state <;> simp_all [canSetState, stateResults]

theorem jobs_cancel (G : Graph Key) : G.cancel.jobsInProgress = G.jobsInProgress := by
  unfold Graph.cancel
  split <;> rfl

theorem cancel_pending (G : Graph Key) (pending : PendingTransition Key) :
    Graph.cancel { G with pending := pending } = { G.cancel with pending := pending } := by
  by_cases hpos : 0 < (G.setState .aborting).jobsInProgress
  · rw [Graph.cancel, Graph.cancel, if_pos hpos]
    exact if_pos hpos
  · rw [Graph.cancel, Graph.cancel, if_neg hpos]
    exact if_neg hpos

theorem halted_finalizeTransitionSuccess (G : Graph Key) :
    Halted G G.finalizeTransitionSuccess := by
  have hbase : Halted G { G with
      reports := (G.requestedState,
        if G.isInitialStateTransition then .initialActivation else G.transitionSource) :: G.reports
      isInitialStateTransition := false } := ⟨rfl, rfl, rfl, fun _ => Or.inl⟩
  exact hbase.setState .success (by simp)

theorem nodeExecuted_halts [DecidableEq Key] {result : RequestResult}
    (h : G.state = .aborting ∨ G.state = .inTransition ∧ result ≠ .success) (k : Key) :
    ∃ G', G.nodeExecuted k result = some (G', false) ∧ Halted G G' ∧
      G'.jobsInProgress = G.jobsInProgress - 1 ∧
      G'.state = if G.jobsInProgress - 1 = 0 then .undefinedState else .aborting := by
  obtain ⟨G₁, hG₁, hhalt, hjobs, hstate⟩ : ∃ G₁ : Graph Key,
      (if result ≠ .success then
        Graph.setState { G with jobsInProgress := G.jobsInProgress - 1 } .aborting
      else { G with jobsInProgress := G.jobsInProgress - 1 }) = G₁ ∧ Halted G G₁ ∧
      G₁.jobsInProgress = G.jobsInProgress - 1 ∧ G₁.state = .aborting := by
    have hcount : Halted G { G with jobsInProgress := G.jobsInProgress - 1 } :=
      ⟨rfl, rfl, rfl, fun _ => Or.inl⟩
    refine ⟨_, rfl, ?_⟩
    by_cases hr : result = .success
    · rw [if_neg (not_not.mpr hr)]
      exact ⟨hcount, rfl, h.elim id fun hs => absurd hr hs.2⟩
    · rw [if_pos hr]
      refine ⟨hcount.setState .aborting (by simp), rfl, ?_⟩
      rcases h with hs | hs
      · simp [Graph.setState, hs, stateResults]
      · simp [Graph.setState, hs.1, stateResults]
  have hnot : ¬ G₁.state = .inTransition := by rw [hstate]; simp
  by_cases hzero : G.jobsInProgress - 1 = 0
  · refine ⟨G₁.handleNonTransitionExecution, ?_, hhalt.handleNonTransitionExecution, hjobs, ?_⟩
    · simp only [Graph.nodeExecuted, hG₁, if_neg hnot, hjobs, if_pos hzero]
    · simp [Graph.handleNonTransitionExecution, Graph.setState, hstate, stateResults, hzero]
  · refine ⟨G₁, ?_, hhalt, hjobs, by rw [hstate, if_neg hzero]⟩
    simp only [Graph.nodeExecuted, hG₁, if_neg hnot, hjobs, if_neg hzero]

end Graph

def MainMode.inHand : MainMode Key → List (ComponentTask Key)
  | .pushing task _ => [task]
  | .idle => []
  | .draining _ => []

namespace Daemon

theorem flag_taskType (a : Action) : a.taskType.flag = (a == .start) := by
  cases a <;> rfl

theorem told_eq (t : Transition Key Component) :
    InPhase.told t = t.currentAction.taskType.flag := by
  rw [flag_taskType, InPhase.told, Transition.currentAction]
  cases t.phase <;> rfl

theorem told_congr {t t' : Transition Key Component} (h : t'.phase = t.phase) :
    InPhase.told t' = InPhase.told t := by
  rw [InPhase.told, InPhase.told, h]

theorem state_finalizeTransitionSuccess {G : Graph Key} (h : G.state = .inTransition) :
    G.finalizeTransitionSuccess.state = .success := by
  simp [Graph.finalizeTransitionSuccess, Graph.setState, h, stateResults]

theorem state_finish {G : Graph Key} (h : G.state = .inTransition) :
    (finish G).state ≠ .undefinedState := by
  unfold finish
  split
  · rw [state_finalizeTransitionSuccess h]
    simp
  · rw [h]
    simp

def inHand (s : Daemon Key) : List (ComponentTask Key) := s.main.inHand ++ s.outstanding

section Outstanding
variable {s : Daemon Key} {t : ComponentTask Key} {o : Outcome} {rest : List (Queued Key)}

theorem mem_outstanding_of_completion (h : .completion t o ∈ s.events) : t ∈ s.outstanding :=
  mem_append_right _ (mem_append_right _ (mem_filterMap.mpr ⟨_, h, rfl⟩))

theorem mem_outstanding_of_worker {w : Worker Key} (h : w ∈ s.workers) : w.task ∈ s.outstanding :=
  mem_append_right _ (mem_append_left _ (mem_map_of_mem h))

theorem outstanding_completion (h : s.events = .completion t o :: rest) :
    s.outstanding.Perm (t :: outstanding { s with events := rest }) := by
  simp only [outstanding, h, filterMap_cons, Queued.task?]
  rw [← append_assoc, ← append_assoc]
  exact perm_middle

theorem outstanding_notice {n : Notice Key} (h : s.events = .notice n :: rest) :
    s.outstanding = outstanding { s with events := rest } := by
  simp only [outstanding, h]
  rfl

theorem outstanding_post (s : Daemon Key) (n : Notice Key) :
    outstanding { s with events := s.events ++ [.notice n] } = s.outstanding := by
  simp [outstanding, Queued.task?]

theorem outstanding_take {rest : List (ComponentTask Key)} (h : s.jobQueue = t :: rest) :
    (outstanding { s with jobQueue := rest, workers := ⟨t, false⟩ :: s.workers }).Perm
      s.outstanding := by
  simp only [outstanding, h, map_cons, cons_append]
  exact perm_middle

end Outstanding

variable [DecidableEq Key]

structure Live (g : DependencyGraph Key Component) (s : Daemon Key) (target : Key)
    (active₀ : Key → Bool) (stopped started : List Key) : Prop where
  target_mem : target ∈ g.keys
  requested : s.graph.requestedState = some target
  inPhase : InPhase g target active₀ s.graph.transition s.graph.active
    (s.inHand.map ComponentTask.component) stopped started
  told : ∀ t ∈ s.inHand, t.type.flag = InPhase.told s.graph.transition
  unstopped : s.graph.stopSource ∉ s.graph.stopRequested
  completed : ∀ t o, .completion t o ∈ s.events →
    o ≠ .skipped ∧ (o = .succeeded → s.graph.active t.component = t.type.flag)

structure Inv (g : DependencyGraph Key Component) (s : Daemon Key) : Prop where
  object : s.graph.transition.WellFormed
  shape : DependencyGraph.SameShape g s.graph.transition.graph
  jobs : s.graph.jobsInProgress = s.outstanding.length
  tasks : ∀ t ∈ s.inHand, t.stopToken = s.graph.stopSource ∧
    t.transition = s.graph.transitions ∧ g.value? t.component = some .processInfoNode
  sources : ∀ i ∈ s.graph.stopRequested, i ≤ s.graph.stopSource
  busy : s.main ≠ .idle → s.graph.state = .inTransition
  quiet : s.main = .idle →
    (s.outstanding = [] ↔ s.graph.state = .success ∨ s.graph.state = .undefinedState)
  live : s.graph.state = .inTransition →
    ∃ target active₀ stopped started, Live g s target active₀ stopped started
  initial : s.stage = .initial → s.graph.state = .success
  cancelling : s.stage = .cancelling → s.graph.state ≠ .inTransition

section Workers
variable {s : Daemon Key}

theorem outstanding_complete {w : Worker Key} (h : w ∈ s.workers) (o : Outcome) :
    (s.complete w o).outstanding.Perm s.outstanding := by
  simp only [outstanding, complete, filterMap_append, filterMap_cons, Queued.task?,
    filterMap_nil]
  apply List.Perm.append_left
  have hworkers : (s.workers.map Worker.task).Perm
      (w.task :: (s.workers.erase w).map Worker.task) := (perm_cons_erase h).map Worker.task
  refine List.Perm.trans ?_ (List.Perm.append_right _ hworkers).symm
  rw [← append_assoc]
  exact perm_append_singleton _ _

theorem outstanding_work {w : Worker Key} (h : w ∈ s.workers) :
    (outstanding { s with workers := { w with begun := true } :: s.workers.erase w }).Perm
      s.outstanding := by
  simp only [outstanding, map_cons]
  apply List.Perm.append_left
  apply List.Perm.append_right
  exact ((perm_cons_erase h).map Worker.task).symm

end Workers

section Rules
variable {g : DependencyGraph Key Component} {s s' : Daemon Key}

theorem Inv.frame (h : Inv g s) {pending : PendingTransition Key}
    (hgraph : s'.graph = { s.graph with pending := pending }) (hmain : s'.main = s.main)
    (hstage : s'.stage = s.stage ∨ s'.stage ≠ .initial ∧ s'.stage ≠ .cancelling)
    (hperm : s'.outstanding.Perm s.outstanding)
    (hevents : ∀ t o, .completion t o ∈ s'.events → .completion t o ∈ s.events ∨
      (s.graph.state = .inTransition →
        o ≠ .skipped ∧ (o = .succeeded → s.graph.active t.component = t.type.flag))) :
    Inv g s' := by
  have hhand : s'.inHand.Perm s.inHand := by
    rw [inHand, inHand, hmain]
    exact List.Perm.append_left _ hperm
  cases s'
  cases hgraph
  cases hmain
  refine ⟨h.object, h.shape, ?_, fun t ht => h.tasks t (hhand.mem_iff.mp ht), h.sources, h.busy,
    fun hi => ?_, fun hst => ?_, fun hi => ?_, fun hc => ?_⟩
  · rw [hperm.length_eq]
    exact h.jobs
  · rw [← h.quiet hi]
    exact ⟨fun hn => (hn ▸ hperm.symm).eq_nil, fun hn => (hn ▸ hperm).eq_nil⟩
  · obtain ⟨target, active₀, stopped, started, hl⟩ := h.live hst
    refine ⟨target, active₀, stopped, started, { hl with
      inPhase := hl.inPhase.perm (hhand.map _)
      told := fun t ht => hl.told t (hhand.mem_iff.mp ht), completed := fun t o ht => ?_ }⟩
    rcases hevents t o ht with hold | hnew
    · exact hl.completed t o hold
    · exact hnew hst
  · exact h.initial (hstage.elim (fun he => he ▸ hi) fun hne => absurd hi hne.1)
  · exact h.cancelling (hstage.elim (fun he => he ▸ hc) fun hne => absurd hc hne.2)

theorem Inv.of_not_inTransition (h : Inv g s) (hhalt : Graph.Halted s.graph s'.graph)
    (hjobs : s'.graph.jobsInProgress = s'.outstanding.length) (hmain : s'.main = .idle)
    (hsub : ∀ t ∈ s'.outstanding, t ∈ s.outstanding) (hstate : s'.graph.state ≠ .inTransition)
    (hquiet : s'.outstanding = [] ↔
      s'.graph.state = .success ∨ s'.graph.state = .undefinedState)
    (hstage : s'.stage ≠ .initial) : Inv g s' := by
  constructor
  · exact hhalt.transition ▸ h.object
  · exact hhalt.transition ▸ h.shape
  · exact hjobs
  · intro t ht
    rw [inHand, hmain] at ht
    rw [hhalt.source, hhalt.count]
    exact h.tasks t (mem_append_right _ (hsub t ht))
  · rw [hhalt.source]
    intro i hi
    rcases hhalt.stops i hi with hi | rfl
    · exact h.sources i hi
    · exact Nat.le_refl _
  · exact fun hne => absurd hmain hne
  · exact fun _ => hquiet
  · exact fun hst => absurd hst hstate
  · exact fun hi => absurd hi hstage
  · exact fun _ => hstate

theorem Inv.setFlag (h : Inv g s) (hg : g.WellFormed) {w : Worker Key} (hw : w ∈ s.workers) :
    Inv g { s with graph := s.graph.setActive w.task.component w.task.type } := by
  refine { h with live := fun hst => ?_ }
  obtain ⟨target, active₀, stopped, started, hl⟩ := h.live hst
  have hmem : w.task ∈ s.inHand := mem_append_right _ (mem_outstanding_of_worker hw)
  have htold := hl.told _ hmem
  refine ⟨target, active₀, stopped, started, { hl with inPhase := ?_, completed := ?_ }⟩
  · have hact := hl.inPhase.act (mem_map_of_mem hmem) hg hl.target_mem
    rw [← htold] at hact
    exact hact
  · intro t o ht
    refine ⟨(hl.completed t o ht).1, fun ho => ?_⟩
    have hflag := hl.told t (mem_append_right _ (mem_outstanding_of_completion ht))
    by_cases hk : t.component = w.task.component
    · simp only [Graph.setActive, hk, Function.update_self]
      rw [htold, hflag]
    · simp only [Graph.setActive, Function.update_of_ne hk]
      exact (hl.completed t o ht).2 ho

end Rules

section Start
variable {g : DependencyGraph Key Component} {s : Daemon Key} {rt : Key}
variable {source : RunTargetActivationSource} {handler : Bool}

theorem value?_of_kind (hshape : DependencyGraph.SameShape g s.graph.transition.graph) (k : Key) :
    s.graph.kind k = g.value? k := (hshape.value?_eq k).symm

theorem mem_keys_of_value? {k : Key} {v : Component} (h : g.value? k = some v) : k ∈ g.keys := by
  rw [DependencyGraph.value?, Option.map_eq_some_iff] at h
  obtain ⟨n, hn, -⟩ := h
  exact UnorderedMap.mem_of_find? hn

theorem createTransition_of_valid (hwf : s.graph.transition.WellFormed) (hg : g.WellFormed)
    (hshape : DependencyGraph.SameShape g s.graph.transition.graph)
    (hvalid : s.graph.isValidRunTarget rt = true) :
    ∃ t, s.graph.transition.createTransition s.graph.active rt = some t ∧ rt ∈ g.keys ∧
      InPhase g rt s.graph.active t s.graph.active [] [] [] := by
  have hmem : rt ∈ g.keys := by
    apply mem_keys_of_value? (v := Component.runTarget)
    rw [← value?_of_kind hshape]
    simpa [Graph.isValidRunTarget] using hvalid
  obtain ⟨t, hcreate, hphase⟩ := Transition.createTransition_inPhase hwf hg hshape hmem
    s.graph.active
  exact ⟨t, hcreate, hmem, hphase⟩

theorem Starts.inv {s' : Daemon Key} (h : Starts s rt source handler s') (hg : g.WellFormed)
    (hobject : s.graph.transition.WellFormed)
    (hshape : DependencyGraph.SameShape g s.graph.transition.graph)
    (hne : s.graph.state ≠ .aborting) (hjobs : s.graph.jobsInProgress = 0)
    (hout : s.outstanding = []) (hsources : ∀ i ∈ s.graph.stopRequested, i <
      if s.graph.state = .inTransition then s.graph.stopSource else s.graph.stopSource + 1)
    (hstage : s.stage ≠ .initial ∧ s.stage ≠ .cancelling) : Inv g s' := by
  have hhand : s'.inHand = [] := by
    cases h
    exact hout
  have hout' : s'.outstanding = [] := by
    cases h
    exact hout
  cases h with
  | intro hvalid hcreate =>
    obtain ⟨t, hcreate', hmem, hphase⟩ := createTransition_of_valid hobject hg hshape hvalid
    cases hcreate.symm.trans hcreate'
    rw [Graph.setState_inTransition (by exact hne)] at hhand hout' ⊢
    constructor
    · exact hphase.informed.wellFormed hg
    · exact hphase.informed.shape
    · rw [hout']
      exact hjobs
    · rw [hhand]
      simp
    · exact fun i hi => Nat.le_of_lt (hsources i hi)
    · exact fun _ => rfl
    · exact fun hi => by cases hi
    · intro _
      refine ⟨rt, s.graph.active, [], [], hmem, rfl, ?_, ?_, ?_, ?_⟩
      · rw [hhand]
        exact hphase
      · rw [hhand]
        simp
      · exact fun hi => Nat.lt_irrefl _ (hsources _ hi)
      · intro t' o ht
        have hin := mem_outstanding_of_completion ht
        rw [hout'] at hin
        cases hin
    · exact fun hi => absurd hi hstage.1
    · exact fun hc => absurd hc hstage.2

end Start

section Drain
variable {g : DependencyGraph Key Component} {s : Daemon Key} {handler : Bool}

theorem Inv.stage_ne (h : Inv g s) (hst : s.graph.state = .inTransition) :
    s.stage ≠ .initial ∧ s.stage ≠ .cancelling := by
  refine ⟨fun hi => ?_, fun hc => h.cancelling hc hst⟩
  rw [h.initial hi] at hst
  cases hst

variable {rn : ReadyNode Key} {t t' : Transition Key Component}

theorem inPhase_updated {target : Key} {active₀ active : Key → Bool}
    {t₀ : Transition Key Component} {flying stopped started : List Key}
    (h : InPhase g target active₀ t₀ active flying stopped started) (hg : g.WellFormed)
    (htarget : target ∈ g.keys) (hnext : t₀.nextReady = (some rn, t))
    (hreport : t.onNodeFinished (Function.update active rn.node rn.action.taskType.flag) rn.node =
      some t') :
    rn.node ∉ flying ∧ (flying ≠ [] → InPhase.told t' = InPhase.told t₀) ∧
      ∃ stopped started, InPhase g target active₀ t'
        (Function.update active rn.node rn.action.taskType.flag) flying stopped started := by
  obtain ⟨hphase, hact, hsame⟩ := h.nextReady hnext
  have htold : rn.action.taskType.flag = InPhase.told t := by
    rw [hact, told_congr hsame, told_eq]
  have hflag := hphase.act mem_cons_self hg htarget
  rw [← htold] at hflag
  obtain ⟨t'', hfin, hnew, hkeep⟩ := hflag.report hg htarget (List.Perm.refl _)
    (by rw [Function.update_self, htold])
  cases hreport.symm.trans hfin
  refine ⟨(h.dispatch hg htarget hnext).fresh.1, fun hne => ?_, _, _, hnew⟩
  rw [told_congr (hkeep hne), told_congr hsame]

theorem Inv.finish (h : Inv g s) (hg : g.WellFormed) (hac : g.Acyclic)
    (hmain : s.main = .draining handler) (hq : s.graph.transition.nextNodes.toList = []) :
    Inv g { s with graph := finish s.graph, main := .idle } := by
  have hst : s.graph.state = .inTransition := h.busy (by rw [hmain]; simp)
  have hhand : s.inHand = s.outstanding := by rw [inHand, hmain]; rfl
  obtain ⟨target, active₀, stopped, started, hl⟩ := h.live hst
  unfold Daemon.finish
  by_cases hfin : s.graph.transition.isFinished = true
  · rw [if_pos hfin]
    have hdone : s.graph.transition.phase = .done := by simpa [Transition.isFinished] using hfin
    have hnone : s.outstanding = [] := by
      by_contra hne
      apply hl.inPhase.not_done_of_flying _ hdone
      rw [hhand]
      exact fun hnil => hne (map_eq_nil_iff.mp hnil)
    have hsuccess := state_finalizeTransitionSuccess hst
    apply Inv.of_not_inTransition h (Graph.halted_finalizeTransitionSuccess s.graph)
    · exact h.jobs
    · rfl
    · exact fun t ht => ht
    · rw [hsuccess]
      simp
    · exact ⟨fun _ => .inl hsuccess, fun _ => hnone⟩
    · exact (h.stage_ne hst).1
  · rw [if_neg hfin]
    have hne : s.graph.transition.phase ≠ .done := by
      intro hdone
      simp [Transition.isFinished, hdone] at hfin
    have hbusy : s.outstanding ≠ [] := by
      rcases hl.inPhase.progress hg hac hne with hq' | hf
      · exact absurd hq hq'
      · intro hnil
        apply hf
        rw [hhand, hnil]
        rfl
    have hhand' : inHand { s with main := .idle } = s.inHand := by rw [hhand]; rfl
    refine { h with
      tasks := ?_, busy := fun hn => absurd rfl hn, quiet := fun _ => ?_
      live := fun _ => ⟨target, active₀, stopped, started, { hl with inPhase := ?_, told := ?_ }⟩ }
    · rw [hhand']
      exact h.tasks
    · constructor
      · exact fun hnil => absurd hnil hbusy
      · intro hs
        rw [hst] at hs
        rcases hs with hs | hs <;> cases hs
    · rw [hhand']
      exact hl.inPhase
    · rw [hhand']
      exact hl.told

theorem Inv.update (h : Inv g s) (hg : g.WellFormed) (hmain : s.main = .draining handler)
    (hnext : s.graph.transition.nextReady = (some rn, t)) (hreport : t.onNodeFinished
      (Function.update s.graph.active rn.node rn.action.taskType.flag) rn.node = some t') :
    Inv g { s with
      graph := { s.graph.setActive rn.node rn.action.taskType with transition := t' } } := by
  have hst : s.graph.state = .inTransition := h.busy (by rw [hmain]; simp)
  obtain ⟨target, active₀, stopped, started, hl⟩ := h.live hst
  obtain ⟨hfresh, hkeep, _, _, hnew⟩ :=
    inPhase_updated hl.inPhase hg hl.target_mem hnext hreport
  refine { h with
    object := hnew.informed.wellFormed hg, shape := hnew.informed.shape, quiet := ?_
    live := fun _ => ⟨_, _, _, _, { hl with inPhase := hnew, told := ?_, completed := ?_ }⟩ }
  · exact fun hi => by rw [hmain] at hi; cases hi
  · intro t₁ ht₁
    have hne : s.inHand.map ComponentTask.component ≠ [] :=
      ne_nil_of_mem (mem_map_of_mem ht₁)
    exact (hl.told t₁ ht₁).trans (hkeep hne).symm
  · intro t₁ o ht₁
    refine ⟨(hl.completed t₁ o ht₁).1, fun ho => ?_⟩
    have hk : t₁.component ≠ rn.node := by
      rintro he
      rw [← he] at hfresh
      exact hfresh
        (mem_map_of_mem (mem_append_right _ (mem_outstanding_of_completion ht₁)))
    simp only [Graph.setActive, Function.update_of_ne hk]
    exact (hl.completed t₁ o ht₁).2 ho

theorem Inv.queue (h : Inv g s) (hg : g.WellFormed) (hmain : s.main = .draining handler)
    (hnext : s.graph.transition.nextReady = (some rn, t))
    (hkind : s.graph.kind rn.node = some .processInfoNode) : Inv g { s with
      graph := { s.graph with transition := t }
      main := .pushing ⟨rn.action.taskType, rn.node, s.graph.stopSource, s.graph.transitions⟩
        handler } := by
  have hst : s.graph.state = .inTransition := h.busy (by rw [hmain]; simp)
  have hhand : inHand { s with
      graph := { s.graph with transition := t }
      main := .pushing ⟨rn.action.taskType, rn.node, s.graph.stopSource, s.graph.transitions⟩
        handler } =
      ⟨rn.action.taskType, rn.node, s.graph.stopSource, s.graph.transitions⟩ :: s.inHand := by
    rw [inHand, inHand, hmain]
    rfl
  obtain ⟨target, active₀, stopped, started, hl⟩ := h.live hst
  obtain ⟨hphase, hact, hsame⟩ := hl.inPhase.nextReady hnext
  refine { h with
    object := hphase.informed.wellFormed hg, shape := hphase.informed.shape, tasks := ?_
    busy := fun _ => hst, quiet := fun hi => (by cases hi)
    live := fun _ => ⟨target, active₀, stopped, started, { hl with inPhase := ?_, told := ?_ }⟩ }
  · intro t₁ ht₁
    rw [hhand] at ht₁
    rcases mem_cons.mp ht₁ with rfl | ht₁
    · exact ⟨rfl, rfl, (value?_of_kind h.shape _).symm.trans hkind⟩
    · exact h.tasks t₁ ht₁
  · rw [hhand]
    exact hphase
  · intro t₁ ht₁
    rw [hhand] at ht₁
    rw [told_congr hsame]
    rcases mem_cons.mp ht₁ with rfl | ht₁
    · rw [told_eq, hact]
    · exact hl.told t₁ ht₁

theorem Inv.pushed (h : Inv g s) {task : ComponentTask Key}
    (hmain : s.main = .pushing task handler) : Inv g { s with
      jobQueue := s.jobQueue ++ [task], main := .draining handler
      graph := { s.graph with jobsInProgress := s.graph.jobsInProgress + 1 } } := by
  have hst : s.graph.state = .inTransition := h.busy (by rw [hmain]; simp)
  have hhand : s.inHand = task :: s.outstanding := by rw [inHand, hmain]; rfl
  have hout : (outstanding { s with
      jobQueue := s.jobQueue ++ [task], main := .draining handler
      graph := { s.graph with jobsInProgress := s.graph.jobsInProgress + 1 } }).Perm s.inHand := by
    rw [hhand]
    simp only [outstanding, append_assoc]
    exact perm_middle
  obtain ⟨target, active₀, stopped, started, hl⟩ := h.live hst
  refine { h with
    jobs := ?_, tasks := fun t ht => h.tasks t (hout.mem_iff.mp ht)
    busy := fun _ => hst, quiet := fun hi => (by cases hi)
    live := fun _ => ⟨target, active₀, stopped, started, { hl with
      inPhase := hl.inPhase.perm (hout.map _)
      told := fun t ht => hl.told t (hout.mem_iff.mp ht) }⟩ }
  rw [hout.length_eq, hhand, length_cons]
  simp only [h.jobs]
  omega

end Drain

end Daemon

end LaunchManager
