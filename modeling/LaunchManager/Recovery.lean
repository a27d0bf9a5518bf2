import LaunchManager.ComponentEffects
import LaunchManager.RunTargetControl

/-!
# Recovery

While the graph is in a run target, exactly the components of the run target are
active. A supervision failure requests the fallback, whose transition stops what
the fallback does not need: a component that was active when the failure was
handled and that the fallback does not reach has been deactivated when the
fallback is reported the next time. One that the fallback reaches is left running.
-/

namespace LaunchManager.Daemon

set_option autoImplicit false

universe u
variable {Key : Type u} [DecidableEq Key]

section Steps
variable {g : DependencyGraph Key Component} {s s' : Daemon Key} {c : Config Key} {a : Act Key}

theorem report_of_reports_ne (h : Inv g s) (hok : pushesSettle s a) (hs : step c s a = some s')
    (hne : s'.graph.reports ≠ s.graph.reports) :
    s.graph.state = .inTransition ∧ s.graph.transition.isFinished = true ∧
      ∃ source, s'.graph.reports = (s.graph.requestedState, source) :: s.graph.reports := by
  have hm := component_moves h hok hs
  generalize hv : s'.components = v' at hm
  have hreports : s'.graph.reports = v'.reports := congrArg Components.reports hv
  cases hm with
  | report hst hfin => exact ⟨hst, hfin, _, hreports⟩
  | _ => exact absurd hreports hne

theorem active_of_reported (h : Inv g s) (hst : s.graph.state = .inTransition)
    (hfin : s.graph.transition.isFinished = true) {target : Key}
    (hreq : s.graph.requestedState = some target) {k : Key} (hk : k ∈ g.keys) :
    s.graph.active k = true ↔ g.Reaches target k := by
  obtain ⟨target', active₀, stopped, started, hl⟩ := h.live hst
  have htarget : target' = target := Option.some.inj (hl.requested.symm.trans hreq)
  subst htarget
  exact hl.inPhase.exact_of_done (by simpa [Transition.isFinished] using hfin) k hk

theorem active_of_success (h : Inv g s) (hm : Moves c s a s') (hst : s'.graph.state = .success) :
    s'.graph.active = s.graph.active := by
  cases hm with
  | initial _ _ hs | pending _ _ _ _ hs | fallback _ _ _ _ hs | off _ _ _ hs =>
    exact congrArg Components.active hs.components
  | redirected hmain _ hundef =>
    exact absurd hundef (state_finish (h.busy (by rw [hmain]; simp)))
  | completion _ _ _ _ hexec => exact (nodeExecuted_flags hexec).1
  | terminated _ _ _ _ hG =>
    subst hG
    exfalso
    split at hst <;> cases hq : s.graph.state <;>
      simp [Graph.setState, Graph.setActive, Graph.handleNonTransitionExecution, stateResults,
        hq] at hst
  | @heeded n => exact (heeded_requested c s n).flags.1
  | shutdown =>
    unfold Daemon.shutdown
    split
    · rfl
    · exact (cancel_flags s.graph).1
  | ended => split <;> rfl
  | finished =>
    unfold finish
    split <;> rfl
  | updated hmain => cases (h.busy (by rw [hmain]; simp)).symm.trans hst
  | setFlag hw =>
    have hmain : s.main = .idle := by
      by_contra hne
      cases (h.busy hne).symm.trans hst
    rw [workers_of_outstanding ((h.quiet hmain).mpr (.inl hst))] at hw
    cases hw
  | _ => rfl

/-- The components of the run target that the graph is in are active and no others, unless it is an
initial run target that is not configured. -/
structure Standing (g : DependencyGraph Key Component) (known : Prop) (s : Daemon Key) : Prop where
  fresh : s.stage = .initial → ∀ k, s.graph.active k = false
  settled : s.stage = .running → s.graph.state = .success →
    ∃ rt, s.graph.requestedState = some rt ∧
      ((∀ k ∈ g.keys, s.graph.active k = true ↔ g.Reaches rt k) ∨
        ¬ known ∧ ∀ k, s.graph.active k = false)

theorem Standing.step {known : Prop} (h : Standing g known s)
    (hinv : Inv g s ∨ s.graph.state = .undefinedState ∧ s.stage ≠ .initial ∧
      s.graph.transition.isFinished = false)
    (hinitial : s'.stage = .initial → s'.graph.state = .success)
    (hknown : known → ∀ rt, a = .startInitialTransition rt → s.graph.isValidRunTarget rt = true)
    (hs : Daemon.step c s a = some s') : Standing g known s' := by
  have hactive : Inv g s → s'.graph.state = .success → s'.graph.active = s.graph.active :=
    fun hi => active_of_success hi (moves_of_step hs)
  have hbegun : s.stage = .initial → Inv g s := fun hi => hinv.resolve_right fun hu => hu.2.1 hi
  refine ⟨fun hi k => ?_, fun hstage hst => ?_⟩
  · have hstage : s.stage = .initial := by
      rcases step_stage hs with heq | ⟨-, hlate⟩ | ⟨-, hlate⟩ | hlate | hlate
      · exact heq.symm.trans hi
      all_goals cases hlate.symm.trans hi
    rw [hactive (hbegun hstage) (hinitial hi)]
    exact h.fresh hstage k
  · have hloop : s.main ≠ .idle → s.graph.state ≠ .inTransition →
        s.graph.transition.isFinished = false := fun hmain hne =>
      (hinv.resolve_left fun hi => hne (hi.busy hmain)).2.2
    have hdefined : s.graph.state ≠ .undefinedState → Inv g s := fun hne =>
      hinv.resolve_right fun hu => hne hu.1
    rcases success_of_step hs hloop hstage hst with
      ⟨⟨hrunning, hsucc⟩ | ⟨hin, hfin⟩, hreq⟩ | ⟨hfirst, rt, ha, hrt, hreq⟩
    · rw [hactive (hdefined (by rw [hsucc]; simp)) hst, hreq]
      exact h.settled hrunning hsucc
    · have hi := hdefined (by rw [hin]; simp)
      obtain ⟨target, _, _, _, hlive⟩ := hi.live hin
      rw [hactive hi hst, hreq]
      exact ⟨target, hlive.requested, .inl fun k hk =>
        active_of_reported hi hin hfin hlive.requested hk⟩
    · refine ⟨rt, hreq, .inr ⟨fun hk => ?_, fun k => ?_⟩⟩
      · cases hrt.symm.trans (hknown hk rt ha)
      · rw [hactive (hbegun hfirst) hst]
        exact h.fresh hfirst k

theorem init_standing [Inhabited Key] (g : DependencyGraph Key Component) (known : Prop) :
    Standing g known (init g) := ⟨fun _ _ => rfl, nofun⟩

/-- The failure of an active component that the fallback does not need requests the fallback. -/
theorem fallback_requested {C : Key} {rest : List (Queued Key)} (h : Standing g False s)
    (hev : s.events = .notice (.supervisionFailure C) :: rest)
    (hs : step c s .handleEvent = some s') (hstage : s.stage = .running) (hC : C ∈ g.keys)
    (hactive : s.graph.active C = true) (hnot : ¬ g.Reaches c.fallback C) :
    s'.graph.pending.runTarget = some c.fallback ∨
      s'.graph.state = .inTransition ∧ s'.graph.requestedState = some c.fallback := by
  have hgraph : s'.graph = handleRecoveryRequest c s.graph := by
    cases moves_of_step hs with
    | completion hev' | terminated hev' => cases hev.symm.trans hev'
    | heeded hev' =>
      cases hev.symm.trans hev'
      exact if_pos hstage
  rw [hgraph]
  rcases handleRecoveryRequest_control c s.graph with ⟨⟨hst | hst, hreq⟩, heq⟩ | ⟨-, haccept⟩
  · rw [heq]
    exact .inr ⟨hst, hreq⟩
  · obtain ⟨rt, hrt, hexact | ⟨-, hnone⟩⟩ := h.settled hstage hst
    · cases hrt.symm.trans hreq
      exact absurd ((hexact C hC).mp hactive) hnot
    · cases (hnone C).symm.trans hactive
  · have hpending := congrArg Control.pending haccept
    rw [Control.pending_accept] at hpending
    exact .inl (congrArg PendingTransition.runTarget hpending)

theorem run_later (hg : g.WellFormed) (hac : g.Acyclic) (h : Inv g s)
    (hrun : Runs.Run (step c) pushesSettle s s') : Inv g s' ∧ s.components.Later s'.components := by
  induction hrun with
  | refl => exact ⟨h, .of_eq rfl rfl⟩
  | tail _ hok hs ih =>
    exact ⟨step_inv hg hac ih.1 hok hs, ih.2.trans (step_later ih.1 hok hs)⟩

end Steps

section Results
variable [Inhabited Key]

/-- `C` fails its supervision in `s₀`, and the step from `s₂` to `s₃` reports the fallback. -/
theorem deactivated_before_fallback {g : DependencyGraph Key Component} (hg : g.WellFormed)
    (hac : g.Acyclic) {c : Config Key} {s₀ s₁ s₂ s₃ : Daemon Key} {C : Key} {a : Act Key}
    {rest : List (Queued Key)} {source : RunTargetActivationSource}
    (hreach : Runs.Run (step c) pushesSettle (init g) s₀)
    (hhandled : s₀.events = .notice (.supervisionFailure C) :: rest ∧
      step c s₀ .handleEvent = some s₁)
    (hrun : Runs.Run (step c) pushesSettle s₁ s₂) (hok : pushesSettle s₂ a)
    (hstep : step c s₂ a = some s₃)
    (hreport : s₃.graph.reports = (some c.fallback, source) :: s₂.graph.reports) :
    (s₀.stage = .running → C ∈ g.keys → s₀.graph.active C = true → ¬ g.Reaches c.fallback C →
      s₁.graph.pending.runTarget = some c.fallback ∨
        s₁.graph.state = .inTransition ∧ s₁.graph.requestedState = some c.fallback) ∧
    ∀ k, g.Reaches k C → s₀.graph.active k = true → k ∈ g.keys → ¬ g.Reaches c.fallback k →
      s₀.graph.deactivations k < s₃.graph.deactivations k := by
  obtain ⟨hinv₀, hstanding⟩ : Inv g s₀ ∧ Standing g False s₀ := by
    refine hreach.invariant (fun s => Inv g s ∧ Standing g False s)
      (fun {s t a} hi hok hs => ?_) ⟨init_inv hg, init_standing g False⟩
    have hnext := step_inv hg hac hi.1 hok hs
    exact ⟨hnext, hi.2.step (.inl hi.1) hnext.initial nofun hs⟩
  refine ⟨fallback_requested hstanding hhandled.1 hhandled.2, ?_⟩
  have hfirst : Runs.Run (step c) pushesSettle s₀ s₁ := .single (fun h => by cases h) hhandled.2
  obtain ⟨hinv₂, hlater⟩ := run_later hg hac hinv₀ (hfirst.trans hrun)
  have hne : s₃.graph.reports ≠ s₂.graph.reports := by
    rw [hreport]
    exact List.cons_ne_self _ _
  obtain ⟨hst, hfin, source', hreport'⟩ := report_of_reports_ne hinv₂ hok hstep hne
  have hreq : s₂.graph.requestedState = some c.fallback := by
    rw [hreport] at hreport'
    exact (congrArg Prod.fst (List.cons.inj hreport').1).symm
  intro k _ hactive hk hnot
  have hoff : s₂.graph.active k ≠ true := fun hon =>
    hnot ((active_of_reported hinv₂ hst hfin hreq hk).mp hon)
  have hstopped : s₀.graph.deactivations k < s₂.graph.deactivations k :=
    (hlater.active k hactive).resolve_left hoff
  exact hstopped.trans_le ((step_later hinv₂ hok hstep).deactivations k)

def untilFailure : List (Act Nat) :=
  [.startInitialTransition 1, .drain, .pushed, .drain, .take, .work ⟨⟨.activate, 0, 1, 1⟩, false⟩,
    .launch ⟨⟨.activate, 0, 1, 1⟩, true⟩, .setFlag ⟨⟨.activate, 0, 1, 1⟩, true⟩,
    .succeed ⟨⟨.activate, 0, 1, 1⟩, true⟩, .handleEvent, .drain, .drain,
    .post (.supervisionFailure 0)]

@[irreducible] def failedSample : Daemon Nat :=
  (Runs.exec (step ⟨2, 3⟩) pushesSettle (init sampleGraph) untilFailure).get (by decide +kernel)

theorem failedSample_run : Runs.Run (step ⟨2, 3⟩) pushesSettle (init sampleGraph) failedSample := by
  unfold failedSample
  exact Runs.Run.of_exec (Option.some_get _).symm

@[irreducible] def handledSample : Daemon Nat :=
  (step ⟨2, 3⟩ failedSample .handleEvent).get (by decide +kernel)

theorem handledSample_eq : step ⟨2, 3⟩ failedSample .handleEvent = some handledSample := by
  unfold handledSample
  exact (Option.some_get _).symm

@[irreducible] def fallbackSample : Daemon Nat :=
  (Runs.exec (step ⟨2, 3⟩) pushesSettle handledSample
    [.processGroupHandler, .drain, .drain, .pushed, .drain, .take,
      .work ⟨⟨.deactivate, 0, 2, 2⟩, false⟩, .setFlag ⟨⟨.deactivate, 0, 2, 2⟩, true⟩, .exit 0,
      .succeed ⟨⟨.deactivate, 0, 2, 2⟩, true⟩, .handleEvent, .drain]).get (by decide +kernel)

theorem fallbackSample_run : Runs.Run (step ⟨2, 3⟩) pushesSettle handledSample fallbackSample := by
  unfold fallbackSample
  exact Runs.Run.of_exec (Option.some_get _).symm

@[irreducible] def reportedSample : Daemon Nat :=
  (step ⟨2, 3⟩ fallbackSample .drain).get (by decide +kernel)

theorem reportedSample_eq : step ⟨2, 3⟩ fallbackSample .drain = some reportedSample := by
  unfold reportedSample
  exact (Option.some_get _).symm

theorem deactivated_before_fallback_sample :
    failedSample.graph.active 0 = true ∧
      reportedSample.graph.reports =
        (some 3, .recoveryAction) :: fallbackSample.graph.reports ∧
      handledSample.graph.pending.runTarget = some 3 ∧
      failedSample.graph.deactivations 0 < reportedSample.graph.deactivations 0 := by
  have hactive : failedSample.graph.active 0 = true := by decide +kernel
  have hreport : reportedSample.graph.reports =
      (some 3, .recoveryAction) :: fallbackSample.graph.reports := by decide +kernel
  have hev : failedSample.events = [.notice (.supervisionFailure 0)] := by decide +kernel
  have hnot : ¬ sampleGraph.Reaches 3 0 := by
    intro hr
    have heq := DependencyGraph.eq_of_reaches (by decide +kernel) hr
    cases heq
  obtain ⟨hrequested, hstopped⟩ := deactivated_before_fallback (C := 0) (c := ⟨2, 3⟩)
    sampleGraph_wellFormed (DependencyGraph.acyclic_of_rank id (by decide +kernel))
    failedSample_run ⟨hev, handledSample_eq⟩ fallbackSample_run (fun h => by cases h)
    reportedSample_eq hreport
  refine ⟨hactive, hreport, ?_, hstopped 0 .refl hactive (by decide +kernel) hnot⟩
  refine (hrequested (by decide +kernel) (by decide +kernel) hactive hnot).resolve_right ?_
  decide +kernel

@[irreducible] def sharedGraph : DependencyGraph Nat Component :=
  (DependencyGraph.build 4
    [(0, .processInfoNode), (1, .runTarget), (2, .runTarget), (3, .runTarget)]
    [(1, 0), (3, 0)]).get (by decide +kernel)

@[irreducible] def sharedFailed : Daemon Nat :=
  (Runs.exec (step ⟨2, 3⟩) pushesSettle (init sharedGraph) untilFailure).get (by decide +kernel)

theorem sharedFailed_run : Runs.Run (step ⟨2, 3⟩) pushesSettle (init sharedGraph) sharedFailed := by
  unfold sharedFailed
  exact Runs.Run.of_exec (Option.some_get _).symm

@[irreducible] def sharedHandled : Daemon Nat :=
  (step ⟨2, 3⟩ sharedFailed .handleEvent).get (by decide +kernel)

theorem sharedHandled_eq : step ⟨2, 3⟩ sharedFailed .handleEvent = some sharedHandled := by
  unfold sharedHandled
  exact (Option.some_get _).symm

theorem failed_process_kept_running :
    ∃ s₀ s₁ s₂, Runs.Run (step ⟨2, 3⟩) pushesSettle (init sharedGraph) s₀ ∧
      s₀.graph.active 0 = true ∧ s₀.events = [.notice (.supervisionFailure 0)] ∧
      step ⟨2, 3⟩ s₀ .handleEvent = some s₁ ∧ Runs.Run (step ⟨2, 3⟩) pushesSettle s₁ s₂ ∧
      s₂.graph.reports = (some 3, .recoveryAction) :: s₀.graph.reports ∧
      s₂.graph.deactivations 0 = s₀.graph.deactivations 0 := by
  obtain ⟨s₂, hrun, hreport, hcount⟩ := Runs.Run.exists_of_exec (step ⟨2, 3⟩) pushesSettle
    sharedHandled (fun s => s.graph.reports =
        (some 3, .recoveryAction) :: sharedFailed.graph.reports ∧
      s.graph.deactivations 0 = sharedFailed.graph.deactivations 0)
    [.processGroupHandler, .drain, .drain, .drain] (by decide +kernel)
  exact ⟨sharedFailed, sharedHandled, s₂, sharedFailed_run, by decide +kernel, by decide +kernel,
    sharedHandled_eq, hrun, hreport, hcount⟩

end Results

end LaunchManager.Daemon
