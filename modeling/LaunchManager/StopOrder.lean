import LaunchManager.TransitionRun

/-!
# The order of real terminations

The run of a transition together with the processes behind the components.
`deactivate` of `process_info_node.cpp` clears the flag first, then asks the
process to stop and waits for its end; only then is the completion reported.
Readiness looks at the flag alone, so between the two a component counts as
stopped while its process is still alive.
-/

namespace LaunchManager.StopOrder

open Option List

set_option autoImplicit false

open Transition

universe u v
variable {Key : Type u} {T : Type v}

structure State (Key : Type u) (T : Type v) where
  base : TransitionRun.State Key T
  alive : Key → Bool

inductive Act (Key : Type u) where
  | nextReady
  | setFlag (rn : ReadyNode Key)
  | launch (rn : ReadyNode Key)
  | exit (k : Key)
  | report (rn : ReadyNode Key)

/-- The component has cleared its flag and its process has not ended yet. -/
def State.stillAlive (s : State Key T) (k : Key) : Prop :=
  ⟨k, .stop⟩ ∈ s.base.inFlight ∧ s.base.active k = false ∧ s.alive k = true

variable [DecidableEq Key]

def start (t : Transition Key T) (target : Key) (active₀ alive₀ : Key → Bool) :
    Option (State Key T) :=
  (TransitionRun.start t target active₀).map fun b => ⟨b, alive₀⟩

instance (s : State Key T) (k : Key) : Decidable (s.stillAlive k) :=
  inferInstanceAs (Decidable (⟨k, .stop⟩ ∈ s.base.inFlight ∧ s.base.active k = false ∧
    s.alive k = true))

/-- A process may end at any time. `deactivate` returns, and is reported, after the end of its
process. -/
def step (s : State Key T) : Act Key → Option (State Key T)
  | .nextReady => (TransitionRun.step s.base .nextReady).map fun b => { s with base := b }
  | .setFlag rn => (TransitionRun.step s.base (.act rn)).map fun b => { s with base := b }
  | .launch rn =>
    if rn ∈ s.base.inFlight ∧ rn.action = .start then
      some { s with alive := Function.update s.alive rn.node true }
    else none
  | .exit k => some { s with alive := Function.update s.alive k false }
  | .report rn =>
    if rn.action = .stop ∧ s.alive rn.node = true then none
    else (TransitionRun.step s.base (.report rn)).map fun b => { s with base := b }

/-- The completion of a stopped component is handled while no dependent of one of its
dependencies is between clearing its flag and the end of its process. -/
def SettledReport (g : DependencyGraph Key T) (s : State Key T) : Act Key → Prop
  | .report rn => s.base.transition.phase = .stopping →
      ∀ c ∈ g.dependsOn rn.node, ∀ d ∈ g.dependents c, ¬ s.stillAlive d
  | _ => True

instance (g : DependencyGraph Key T) (s : State Key T) (a : Act Key) :
    Decidable (SettledReport g s a) :=
  match a with
  | .report rn => inferInstanceAs (Decidable (s.base.transition.phase = .stopping →
      ∀ c ∈ g.dependsOn rn.node, ∀ d ∈ g.dependents c, ¬ s.stillAlive d))
  | .nextReady | .setFlag _ | .launch _ | .exit _ => isTrue trivial

inductive Moves (s : State Key T) : Act Key → State Key T → Prop where
  | nextReady {b : TransitionRun.State Key T}
      (h : TransitionRun.step s.base .nextReady = some b) : Moves s .nextReady { s with base := b }
  | setFlag {rn : ReadyNode Key} {b : TransitionRun.State Key T}
      (h : TransitionRun.step s.base (.act rn) = some b) :
      Moves s (.setFlag rn) { s with base := b }
  | launch {rn : ReadyNode Key} (hrn : rn ∈ s.base.inFlight) (hstart : rn.action = .start) :
      Moves s (.launch rn) { s with alive := Function.update s.alive rn.node true }
  | exit {k : Key} : Moves s (.exit k) { s with alive := Function.update s.alive k false }
  | report {rn : ReadyNode Key} {b : TransitionRun.State Key T}
      (hdead : rn.action = .stop → s.alive rn.node = false)
      (h : TransitionRun.step s.base (.report rn) = some b) :
      Moves s (.report rn) { s with base := b }

theorem moves_of_step {s s' : State Key T} {a : Act Key} (h : step s a = some s') :
    Moves s a s' := by
  cases a with
  | nextReady =>
    obtain ⟨b, hb, rfl⟩ := map_eq_some_iff.mp h
    exact .nextReady hb
  | setFlag rn =>
    obtain ⟨b, hb, rfl⟩ := map_eq_some_iff.mp h
    exact .setFlag hb
  | launch rn =>
    obtain ⟨hrn, ⟨⟩⟩ := ite_none_right_eq_some.mp h
    exact .launch hrn.1 hrn.2
  | exit k =>
    cases h
    exact .exit
  | report rn =>
    obtain ⟨hrn, h⟩ := ite_none_left_eq_some.mp h
    obtain ⟨b, hb, rfl⟩ := map_eq_some_iff.mp h
    exact .report (fun hstop => by simpa [hstop] using hrn) hb

section Projection
variable {g : DependencyGraph Key T} {target : Key} {active₀ : Key → Bool} {s s' : State Key T}

theorem step_valid (hg : g.WellFormed) (ht : target ∈ g.keys)
    (h : TransitionRun.Valid g target active₀ s.base) {a : Act Key} (hstep : step s a = some s') :
    TransitionRun.Valid g target active₀ s'.base := by
  cases moves_of_step hstep with
  | nextReady hb | setFlag hb | report _ hb => exact TransitionRun.step_valid hg ht h hb
  | launch | exit => exact h

end Projection

/-- The order invariant. Outside the stopping phase only its last part says anything. -/
structure Ordered (g : DependencyGraph Key T) (s : State Key T) : Prop where
  settled : s.base.transition.phase = .stopping → ∀ k, s.alive k = true →
    s.base.active k = false → ⟨k, .stop⟩ ∈ s.base.inFlight
  queued : s.base.transition.phase = .stopping →
    ∀ c ∈ s.base.transition.nextNodes.toList, ∀ d ∈ g.dependents c, s.alive d = false
  flying : ∀ c, ⟨c, .stop⟩ ∈ s.base.inFlight → ∀ d ∈ g.dependents c, s.alive d = false

section Invariant
variable {g : DependencyGraph Key T} {target : Key} {active₀ : Key → Bool} {s s' : State Key T}

theorem Ordered.of_alive_le (h : Ordered g s) {alive : Key → Bool}
    (hle : ∀ k, alive k = true → s.alive k = true) : Ordered g { s with alive := alive } := by
  have hfalse : ∀ k, s.alive k = false → alive k = false := by
    intro k hk
    by_contra hne
    rw [hle k (by simpa using hne)] at hk
    cases hk
  constructor
  · exact fun hp k hk hoff => h.settled hp k (hle k hk) hoff
  · exact fun hp c hc d hd => hfalse d (h.queued hp c hc d hd)
  · exact fun c hc d hd => hfalse d (h.flying c hc d hd)

theorem no_stop_in_flight (hv : TransitionRun.Valid g target active₀ s.base)
    (hp : s.base.transition.phase = .starting) (c : Key) : ⟨c, .stop⟩ ∉ s.base.inFlight := by
  intro hc
  have hact := hv.actions _ hc
  rw [currentAction, if_pos hp] at hact
  cases hact

variable {rn : ReadyNode Key} {b : TransitionRun.State Key T}

theorem phase_of_start (hv : TransitionRun.Valid g target active₀ s.base)
    (hrn : rn ∈ s.base.inFlight) (hstart : rn.action = .start) :
    s.base.transition.phase = .starting := by
  have hact := hv.actions rn hrn
  rw [hstart, currentAction] at hact
  by_contra hne
  rw [if_neg hne] at hact
  cases hact

theorem Ordered.nextReady (hv : TransitionRun.Valid g target active₀ s.base) (h : Ordered g s)
    (hb : TransitionRun.step s.base .nextReady = some b) :
    Ordered g { s with base := b } := by
  cases hq : s.base.transition.nextNodes.toList with
  | nil =>
    have hsame : b = s.base := by
      simp only [TransitionRun.step, nextReady_nil hq, Option.some.injEq] at hb
      exact hb.symm
    rw [hsame]
    exact h
  | cons k rest =>
    obtain ⟨t, hnext, ht, hrest⟩ := nextReady_cons hq
    simp only [TransitionRun.step, hnext, Option.some.injEq] at hb
    subst hb
    have hphase : t.phase = s.base.transition.phase := by rw [ht]
    constructor
    · intro hp j hj hoff
      exact mem_cons_of_mem _ (h.settled (hphase ▸ hp) j hj hoff)
    · intro hp c hc
      apply h.queued (hphase ▸ hp) c
      rw [hq]
      exact mem_cons_of_mem k (hrest ▸ hc)
    · intro c hc
      rcases mem_cons.mp hc with hck | hc
      · obtain ⟨rfl, hstop⟩ : c = k ∧ Action.stop = s.base.transition.currentAction := by
          simpa using hck
        refine h.queued ?_ c (by rw [hq]; exact mem_cons_self)
        rcases hv.inPhase.current with hs | hs | hs
        · exact hs.phase
        · simp [currentAction, hs.phase] at hstop
        · rw [hs.queue] at hq
          cases hq
      · exact h.flying c hc

theorem Ordered.setFlag (hv : TransitionRun.Valid g target active₀ s.base) (h : Ordered g s)

    (hb : TransitionRun.step s.base (.act rn) = some b) : Ordered g { s with base := b } := by
  simp only [TransitionRun.step] at hb
  split at hb
  · rename_i hrn
    cases hb
    refine ⟨fun hp k hk hoff => ?_, h.queued, h.flying⟩
    by_cases hkn : k = rn.node
    · have hact := hv.actions rn hrn
      rw [currentAction, if_neg (by rw [hp]; simp)] at hact
      rw [hkn, ← hact]
      exact hrn
    · exact h.settled hp k hk (by simpa [Function.update_of_ne hkn] using hoff)
  · cases hb

/-- The step that can break the order: a report while another dependent is still alive. -/
theorem Ordered.report (hg : g.WellFormed) (ht : target ∈ g.keys)
    (hv : TransitionRun.Valid g target active₀ s.base) (h : Ordered g s) {rn : ReadyNode Key}
    (hok : SettledReport g s (.report rn)) (hdead : rn.action = .stop → s.alive rn.node = false)
    {b : TransitionRun.State Key T} (hb : TransitionRun.step s.base (.report rn) = some b) :
    Ordered g { s with base := b } := by
  simp only [TransitionRun.step] at hb
  split at hb
  swap
  · cases hb
  rename_i hrn
  obtain ⟨t, hfin, rfl⟩ := map_eq_some_iff.mp hb
  have hfly : ∀ c, (⟨c, .stop⟩ : ReadyNode Key) ∈ s.base.inFlight.erase rn →
      ∀ d ∈ g.dependents c, s.alive d = false :=
    fun c hc => h.flying c (mem_of_mem_erase hc)
  obtain ⟨t', hfin', hv'⟩ := hv.report hg ht hrn.1 hrn.2
  rw [hfin] at hfin'
  cases hfin'
  rcases hv.inPhase.current with hs | hs | hs
  · have hact : rn.action = .stop := by
      rw [hv.actions rn hrn.1, currentAction, if_neg (by rw [hs.phase]; simp)]
    have hperm : (s.base.inFlight.map ReadyNode.node).Perm
        (rn.node :: (s.base.inFlight.erase rn).map ReadyNode.node) :=
      (perm_cons_erase hrn.1).map ReadyNode.node
    obtain ⟨t', hfin', -, -, hfrom⟩ :=
      InPhase.report_stopping hs hv.inPhase.informed hg ht hperm (by rw [hrn.2, hact]; rfl)
    rw [hfin] at hfin'
    cases hfin'
    refine ⟨fun hp k hk hoff => ?_, fun hp c hc d hd => ?_, hfly⟩
    · have hne : (⟨k, .stop⟩ : ReadyNode Key) ≠ rn := by
        rintro rfl
        rw [hdead rfl] at hk
        cases hk
      exact (mem_erase_of_ne hne).mpr (h.settled hs.phase k hk hoff)
    · rcases hfrom hp c hc with hold | hnew
      · exact h.queued hs.phase c hold d hd
      · -- The flag of `d` is down; were its process alive, its deactivation would be under way.
        by_contra halive
        have halive' : s.alive d = true := by simpa using halive
        have hoff : s.base.active d = false := (hv'.inPhase.stopping hp).wave.cleared c
          ((Wavefront.Wave.mem_touched _ c).mpr (.inl hc)) d hd
        exact hok hs.phase c hnew d hd ⟨h.settled hs.phase d halive' hoff, hoff, halive'⟩
  · have hact : rn.action = .start := by
      rw [hv.actions rn hrn.1, currentAction, if_pos hs.phase]
    have hnot : t.phase ≠ .stopping := by
      intro hp
      have hnone := (hv'.inPhase.stopping hp).none_started
      rw [TransitionRun.reportedOf_cons, if_pos hact] at hnone
      cases hnone
    exact ⟨fun hp => absurd hp hnot, fun hp => absurd hp hnot, hfly⟩
  · exact absurd hs.none_flying (by
      intro hnil
      rw [map_eq_nil_iff] at hnil
      rw [hnil] at hrn
      cases hrn.1)

theorem step_ordered (hg : g.WellFormed) (ht : target ∈ g.keys)
    (hv : TransitionRun.Valid g target active₀ s.base) (h : Ordered g s) {a : Act Key}
    (hok : SettledReport g s a) (hstep : step s a = some s') : Ordered g s' := by
  cases moves_of_step hstep with
  | nextReady hb => exact h.nextReady hv hb
  | setFlag hb => exact h.setFlag hv hb
  | launch hrn hstart =>
    have hp := phase_of_start hv hrn hstart
    have hnot : ¬ s.base.transition.phase = .stopping := by rw [hp]; simp
    exact ⟨fun hs => absurd hs hnot, fun hs => absurd hs hnot,
      fun c hc => absurd hc (no_stop_in_flight hv hp c)⟩
  | @exit k =>
    apply h.of_alive_le
    intro j hj
    by_cases hjk : j = k
    · simp [hjk] at hj
    · simpa [Function.update_of_ne hjk] using hj
  | report hdead hb => exact h.report hg ht hv hok hdead hb

theorem start_ordered {t : Transition Key T} (hwf : t.WellFormed) (ht : target ∈ t.graph.keys)
    {alive₀ : Key → Bool} (halive : ∀ k, alive₀ k = true → active₀ k = true)
    (hs : start t target active₀ alive₀ = some s) :
    TransitionRun.Valid t.graph target active₀ s.base ∧ Ordered t.graph s := by
  obtain ⟨b, hb, hv⟩ := TransitionRun.start_valid hwf ht active₀
  obtain ⟨t', hcreate, hphase⟩ := createTransition_inPhase hwf hwf.graph (.refl _) ht active₀
  have hbt : b = ⟨t', active₀, [], []⟩ := by
    rw [TransitionRun.start, hcreate] at hb
    exact (Option.some.inj hb).symm
  rw [start, hb, map_some, Option.some.injEq] at hs
  subst hs
  refine ⟨hv, ?_⟩
  subst hbt
  constructor
  · intro _ k hk hoff
    change active₀ k = false at hoff
    rw [halive k hk] at hoff
    cases hoff
  · intro hp c hc d hd
    by_contra hd'
    have hclear : active₀ d = false := (hphase.stopping hp).wave.cleared c
      ((Wavefront.Wave.mem_touched _ c).mpr (.inl hc)) d hd
    rw [halive d (by simpa using hd')] at hclear
    cases hclear
  · intro c hc
    cases hc

end Invariant

section Results
variable {t₀ : Transition Key T} {target : Key} {active₀ alive₀ : Key → Bool}
variable {s₀ s : State Key T}

/-- A component is told to stop only while the processes of all its dependents have ended. -/
theorem stop_after_dependents (h : t₀.WellFormed) (ht : target ∈ t₀.graph.keys)
    (halive : ∀ k, alive₀ k = true → active₀ k = true)
    (hs₀ : start t₀ target active₀ alive₀ = some s₀)
    (hrun : Runs.Run step (SettledReport t₀.graph) s₀ s) :
    ∀ c, ⟨c, .stop⟩ ∈ s.base.inFlight → ∀ d ∈ t₀.graph.dependents c, s.alive d = false := by
  have hinit := start_ordered h ht halive hs₀
  have hinv : TransitionRun.Valid t₀.graph target active₀ s.base ∧ Ordered t₀.graph s :=
    hrun.invariant
      (fun s => TransitionRun.Valid t₀.graph target active₀ s.base ∧ Ordered t₀.graph s)
      (fun hi hok hstep => ⟨step_valid h.graph ht hi.1 hstep,
        step_ordered h.graph ht hi.1 hi.2 hok hstep⟩) hinit
  exact hinv.2.flying

end Results

/-- Nodes `1` and `2` both need node `0`; node `3` is a target that needs nothing. -/
@[irreducible] def forkGraph : DependencyGraph Nat Unit :=
  (DependencyGraph.build 4 [(0, ()), (1, ()), (2, ()), (3, ())] [(1, 0), (2, 0)]).get
    (by decide +kernel)

theorem forkGraph_wellFormed : forkGraph.WellFormed := by
  unfold forkGraph
  exact DependencyGraph.wellFormed_build (by decide) (by decide) (some_get _).symm

@[irreducible] def forkStart : State Nat Unit :=
  (start (Transition.new forkGraph) 3 (fun k => decide (k < 3)) fun k => decide (k < 3)).get
    (by decide +kernel)

theorem forkStart_eq : start (Transition.new forkGraph) 3 (fun k => decide (k < 3))
    (fun k => decide (k < 3)) = some forkStart := by
  unfold forkStart
  exact (some_get _).symm

/-- Both dependents have cleared their flags when the completion of the first is handled. -/
theorem dependency_stopped_too_early :
    forkGraph.Acyclic ∧ ∃ s, Runs.Run step Runs.anyStep forkStart s ∧
      (⟨0, .stop⟩ : ReadyNode Nat) ∈ s.base.inFlight ∧ 2 ∈ forkGraph.dependents 0 ∧
      s.alive 2 = true := by
  refine ⟨DependencyGraph.acyclic_of_rank id (by decide +kernel), ?_⟩
  apply Runs.Run.exists_of_exec step Runs.anyStep forkStart
    (fun s => (⟨0, .stop⟩ : ReadyNode Nat) ∈ s.base.inFlight ∧
      2 ∈ forkGraph.dependents 0 ∧ s.alive 2 = true)
    [.nextReady, .nextReady, .setFlag ⟨1, .stop⟩, .setFlag ⟨2, .stop⟩, .exit 1,
      .report ⟨1, .stop⟩, .nextReady]
  decide +kernel

theorem stop_after_dependents_fork :
    ∃ s, Runs.Run step (SettledReport (Transition.new forkGraph).graph) forkStart s ∧
      (⟨0, .stop⟩ : ReadyNode Nat) ∈ s.base.inFlight ∧
      ∀ d ∈ forkGraph.dependents 0, s.alive d = false := by
  obtain ⟨s, hrun, hfly⟩ := Runs.Run.exists_of_exec
    step (SettledReport (Transition.new forkGraph).graph) forkStart
    (fun s => (⟨0, .stop⟩ : ReadyNode Nat) ∈ s.base.inFlight)
    [.nextReady, .nextReady, .setFlag ⟨1, .stop⟩, .exit 1, .report ⟨1, .stop⟩,
      .setFlag ⟨2, .stop⟩, .exit 2, .report ⟨2, .stop⟩, .nextReady] (by decide +kernel)
  refine ⟨s, hrun, hfly, ?_⟩
  exact stop_after_dependents (Transition.wellFormed_new forkGraph_wellFormed) (by decide +kernel)
    (fun _ => id) forkStart_eq hrun 0 hfly

end LaunchManager.StopOrder
