import LaunchManager.Library.Runs
import LaunchManager.TransitionSteps

/-!
# Runs of one transition

A transition object between its set-up and its end, together with the
components it drives. The three kinds of steps may interleave in any way: the
next ready node is taken, a component that was handed out sets its flag as it
was told, and the completion of such a component is reported.
-/

namespace LaunchManager.TransitionRun

open List

set_option autoImplicit false

open Transition

universe u v
variable {Key : Type u} {T : Type v}

structure State (Key : Type u) (T : Type v) where
  transition : Transition Key T
  active : Key → Bool
  inFlight : List (ReadyNode Key)
  reported : List (ReadyNode Key)

inductive Act (Key : Type u) where
  | nextReady
  | act (rn : ReadyNode Key)
  | report (rn : ReadyNode Key)

def State.dispatched (s : State Key T) : List (ReadyNode Key) := s.inFlight ++ s.reported

def State.reportedOf (s : State Key T) (action : Action) : List Key :=
  (s.reported.filter fun rn => rn.action == action).map ReadyNode.node

theorem Action.beq_start_of_ne_stop {a : Action} (h : a ≠ .stop) : (a == .start) = true := by
  cases a with
  | stop => exact absurd rfl h
  | start => rfl

section Lists
variable {s : State Key T}

theorem told_eq (t : Transition Key T) : InPhase.told t = (t.currentAction == .start) := by
  unfold InPhase.told currentAction
  cases t.phase <;> rfl

theorem mem_reportedOf {rn : ReadyNode Key} (h : rn ∈ s.reported) :
    rn.node ∈ s.reportedOf .stop ∨ rn.node ∈ s.reportedOf .start := by
  cases ha : rn.action with
  | stop => exact .inl (mem_map.mpr ⟨rn, mem_filter.mpr ⟨h, by simp [ha]⟩, rfl⟩)
  | start => exact .inr (mem_map.mpr ⟨rn, mem_filter.mpr ⟨h, by simp [ha]⟩, rfl⟩)

theorem mem_reported_of_mem_reportedOf {k : Key} {a : Action} (h : k ∈ s.reportedOf a) :
    (⟨k, a⟩ : ReadyNode Key) ∈ s.reported := by
  obtain ⟨rn, hrn, rfl⟩ := mem_map.mp h
  obtain ⟨hmem, ha⟩ := mem_filter.mp hrn
  have ha' : rn.action = a := by simpa using ha
  rw [← ha']
  exact hmem

theorem reportedOf_cons (s : State Key T) (rn : ReadyNode Key) (a : Action) (t : Transition Key T)
    (inFlight : List (ReadyNode Key)) : State.reportedOf
        { s with transition := t, inFlight := inFlight, reported := rn :: s.reported } a =
      if rn.action = a then rn.node :: s.reportedOf a else s.reportedOf a := by
  simp only [State.reportedOf, filter_cons, beq_iff_eq]
  split <;> simp

end Lists

variable [DecidableEq Key]

/-- The object may have been used before; the flags are whatever they are. -/
def start (t : Transition Key T) (target : Key) (active₀ : Key → Bool) : Option (State Key T) :=
  (t.createTransition active₀ target).map fun t' => ⟨t', active₀, [], []⟩

def step (s : State Key T) : Act Key → Option (State Key T)
  | .nextReady =>
    match s.transition.nextReady with
    | (some rn, t) => some { s with transition := t, inFlight := rn :: s.inFlight }
    | (none, t) => some { s with transition := t }
  | .act rn =>
    if rn ∈ s.inFlight then
      some { s with active := Function.update s.active rn.node (rn.action == .start) }
    else none
  | .report rn =>
    if rn ∈ s.inFlight ∧ s.active rn.node = (rn.action == .start) then
      (s.transition.onNodeFinished s.active rn.node).map fun t =>
        { s with
          transition := t, inFlight := s.inFlight.erase rn, reported := rn :: s.reported }
    else none

inductive Moves (s : State Key T) : Act Key → State Key T → Prop where
  | empty {t : Transition Key T} (h : s.transition.nextReady = (none, t)) :
      Moves s .nextReady { s with transition := t }
  | nextReady {rn : ReadyNode Key} {t : Transition Key T}
      (h : s.transition.nextReady = (some rn, t)) :
      Moves s .nextReady { s with transition := t, inFlight := rn :: s.inFlight }
  | act {rn : ReadyNode Key} (hrn : rn ∈ s.inFlight) : Moves s (.act rn)
      { s with active := Function.update s.active rn.node (rn.action == .start) }
  | report {rn : ReadyNode Key} {t : Transition Key T} (hrn : rn ∈ s.inFlight)
      (hdone : s.active rn.node = (rn.action == .start))
      (h : s.transition.onNodeFinished s.active rn.node = some t) : Moves s (.report rn) { s with
        transition := t, inFlight := s.inFlight.erase rn, reported := rn :: s.reported }

theorem moves_of_step {s s' : State Key T} {a : Act Key} (h : step s a = some s') :
    Moves s a s' := by
  cases a with
  | nextReady =>
    simp only [step] at h
    split at h <;> cases h
    · exact .nextReady (by assumption)
    · exact .empty (by assumption)
  | act rn =>
    obtain ⟨hrn, ⟨⟩⟩ := Option.ite_none_right_eq_some.mp h
    exact .act hrn
  | report rn =>
    obtain ⟨hrn, h⟩ := Option.ite_none_right_eq_some.mp h
    obtain ⟨t, ht, rfl⟩ := Option.map_eq_some_iff.mp h
    exact .report hrn.1 hrn.2 ht

/-- The invariant of a run towards `target` that was set up with the flags `active₀`. -/
structure Valid (g : DependencyGraph Key T) (target : Key) (active₀ : Key → Bool)
    (s : State Key T) : Prop where
  inPhase : InPhase g target active₀ s.transition s.active (s.inFlight.map ReadyNode.node)
    (s.reportedOf .stop) (s.reportedOf .start)
  actions : ∀ rn ∈ s.inFlight, rn.action = s.transition.currentAction
  once : (s.dispatched.map ReadyNode.node).Nodup

section Invariant
variable {g : DependencyGraph Key T} {target : Key} {active₀ : Key → Bool}
variable {s s' : State Key T}

theorem Valid.dispatch (h : Valid g target active₀ s) (hg : g.WellFormed) (ht : target ∈ g.keys)
    {rn : ReadyNode Key} {t : Transition Key T} (hn : s.transition.nextReady = (some rn, t)) :
    InPhase.Dispatch g target active₀ s.active (s.inFlight.map ReadyNode.node)
      (s.reportedOf .stop) (s.reportedOf .start) rn :=
  h.inPhase.dispatch hg ht hn

theorem Valid.fresh (h : Valid g target active₀ s) (hg : g.WellFormed) (ht : target ∈ g.keys)
    {rn : ReadyNode Key} {t : Transition Key T} (hn : s.transition.nextReady = (some rn, t)) :
    rn.node ∉ s.dispatched.map ReadyNode.node := by
  obtain ⟨hfly, hstop, hstart⟩ := (h.dispatch hg ht hn).fresh
  rw [State.dispatched, map_append, mem_append, not_or]
  refine ⟨hfly, fun hmem => ?_⟩
  obtain ⟨r, hr, hnode⟩ := mem_map.mp hmem
  rcases mem_reportedOf hr with hr | hr
  · exact hstop (hnode ▸ hr)
  · exact hstart (hnode ▸ hr)

theorem start_valid {t : Transition Key T} (h : t.WellFormed) (ht : target ∈ t.graph.keys)
    (active₀ : Key → Bool) :
    ∃ s, start t target active₀ = some s ∧ Valid t.graph target active₀ s := by
  obtain ⟨t', hcreate, hphase⟩ := createTransition_inPhase h h.graph (.refl _) ht active₀
  refine ⟨⟨t', active₀, [], []⟩, by rw [start, hcreate]; rfl, hphase, ?_, ?_⟩
  · simp
  · simp [State.dispatched]

theorem Valid.report (h : Valid g target active₀ s) (hg : g.WellFormed) (ht : target ∈ g.keys)
    {rn : ReadyNode Key} (hmem : rn ∈ s.inFlight)
    (hdone : s.active rn.node = (rn.action == .start)) :
    ∃ t, s.transition.onNodeFinished s.active rn.node = some t ∧
      Valid g target active₀ { s with
        transition := t, inFlight := s.inFlight.erase rn, reported := rn :: s.reported } := by
  have hact := h.actions rn hmem
  have hperm : (s.inFlight.map ReadyNode.node).Perm
      (rn.node :: (s.inFlight.erase rn).map ReadyNode.node) :=
    (perm_cons_erase hmem).map ReadyNode.node
  rw [hact, ← told_eq] at hdone
  obtain ⟨t, hfin, hphase, hsame⟩ := h.inPhase.report hg ht hperm hdone
  refine ⟨t, hfin, ?_, ?_, ?_⟩
  · have hstart : (rn.action = .start) ↔ InPhase.told s.transition = true := by
      rw [told_eq, hact, beq_iff_eq]
    have hstop : (rn.action = .stop) ↔ ¬ InPhase.told s.transition = true := by
      rw [← hstart]
      cases rn.action <;> simp
    rw [reportedOf_cons, reportedOf_cons]
    simp only [hstart, hstop]
    simpa only [ite_not] using hphase
  · -- Whatever is still in flight keeps the phase from ending.
    intro r hr
    have hrf : r ∈ s.inFlight := mem_of_mem_erase hr
    rw [h.actions r hrf]
    have hne : (s.inFlight.erase rn).map ReadyNode.node ≠ [] := by
      intro hnil
      rw [map_eq_nil_iff] at hnil
      rw [hnil] at hr
      cases hr
    simp only [currentAction, hsame hne]
  · have hperm' : (State.dispatched { s with
        transition := t, inFlight := s.inFlight.erase rn, reported := rn :: s.reported }).Perm
        s.dispatched :=
      perm_middle.trans (List.Perm.append_right s.reported (perm_cons_erase hmem).symm)
    exact (hperm'.map ReadyNode.node).nodup_iff.mpr h.once

theorem step_valid (hg : g.WellFormed) (ht : target ∈ g.keys) (h : Valid g target active₀ s)
    {a : Act Key} (hstep : step s a = some s') : Valid g target active₀ s' := by
  cases moves_of_step hstep with
  | empty hn =>
    cases hq : s.transition.nextNodes.toList with
    | nil =>
      cases (nextReady_nil hq).symm.trans hn
      exact h
    | cons k rest =>
      obtain ⟨t, hnext, -⟩ := nextReady_cons hq
      cases hnext.symm.trans hn
  | @nextReady rn t hn =>
    obtain ⟨hphase, hact, hsame⟩ := h.inPhase.nextReady hn
    have hcurrent : t.currentAction = s.transition.currentAction := by
      simp only [currentAction, hsame]
    refine ⟨hphase, fun r hr => ?_, nodup_cons.mpr ⟨h.fresh hg ht hn, h.once⟩⟩
    rw [hcurrent]
    rcases mem_cons.mp hr with rfl | hr
    · exact hact
    · exact h.actions r hr
  | @act rn hmem =>
    refine ⟨?_, h.actions, h.once⟩
    have hval : (rn.action == .start) = InPhase.told s.transition := by
      rw [told_eq, h.actions rn hmem]
    rw [hval]
    exact h.inPhase.act (mem_map_of_mem hmem) hg ht
  | report hmem hdone hfin =>
    obtain ⟨t', hfin', hvalid⟩ := h.report hg ht hmem hdone
    cases hfin.symm.trans hfin'
    exact hvalid

theorem run_valid (hg : g.WellFormed) (ht : target ∈ g.keys) (h : Valid g target active₀ s)
    (hrun : Runs.Run step Runs.anyStep s s') : Valid g target active₀ s' :=
  hrun.invariant _ (fun hv _ hstep => step_valid hg ht hv hstep) h

theorem Valid.mem_keys (h : Valid g target active₀ s) {k : Key}
    (hk : k ∈ s.dispatched.map ReadyNode.node) : k ∈ g.keys := by
  have hstop : ∀ {k}, k ∈ stopNodes g target active₀ → k ∈ g.keys := mem_of_mem_filter
  have hstart : ∀ {k}, k ∈ startNodes g target active₀ → k ∈ g.keys := mem_of_mem_filter
  have hcases : k ∈ s.inFlight.map ReadyNode.node ∨ k ∈ s.reportedOf .stop ∨
      k ∈ s.reportedOf .start := by
    rw [State.dispatched, map_append, mem_append] at hk
    refine hk.imp id fun hk => ?_
    obtain ⟨rn, hrn, rfl⟩ := mem_map.mp hk
    exact mem_reportedOf hrn
  rcases h.inPhase.current with hs | hs | hs
  · have hsub : ∀ {k}, k ∈ s.inFlight.map ReadyNode.node ∨ k ∈ s.reportedOf .stop →
        k ∈ stopNodes g target active₀ := fun hk =>
      hs.wave.subset _ ((Wavefront.Wave.mem_touched _ _).mpr (.inr hk))
    rcases hcases with hk | hk | hk
    · exact hstop (hsub (.inl hk))
    · exact hstop (hsub (.inr hk))
    · rw [hs.none_started] at hk
      cases hk
  · have hsub : ∀ {k}, k ∈ s.inFlight.map ReadyNode.node ∨ k ∈ s.reportedOf .start →
        k ∈ startNodes g target active₀ := fun hk =>
      hs.wave.subset _ ((Wavefront.Wave.mem_touched _ _).mpr (.inr hk))
    rcases hcases with hk | hk | hk
    · exact hstart (hsub (.inl hk))
    · exact hstop ((hs.all_stopped k).mp hk)
    · exact hstart (hsub (.inr hk))
  · rcases hcases with hk | hk | hk
    · rw [hs.none_flying] at hk
      cases hk
    · exact hstop ((hs.all_stopped k).mp hk)
    · exact hstart ((hs.all_started k).mp hk)

theorem Valid.complete (h : Valid g target active₀ s) (hg : g.WellFormed) (ht : target ∈ g.keys)
    {rn : ReadyNode Key} (hrn : rn ∈ s.inFlight) :
    ∃ s', Runs.Run step Runs.anyStep s s' ∧ Valid g target active₀ s' ∧
      s'.inFlight = s.inFlight.erase rn ∧ s'.reported = rn :: s.reported := by
  have hact : step s (.act rn) = some { s with
      active := Function.update s.active rn.node (rn.action == .start) } := by
    simp only [step, if_pos hrn]
  have hvalid := step_valid hg ht h hact
  obtain ⟨t, hfin, hvalid'⟩ := hvalid.report hg ht hrn (Function.update_self _ _ _)
  refine ⟨_, (Runs.Run.single (a := .act rn) trivial hact).tail (a := .report rn) trivial ?_,
    hvalid', rfl, rfl⟩
  simp only [step, hrn, Function.update_self, and_self, if_true, hfin, Option.map_some]

/-- Bound on what is left to do: every node can still be handed out and then reported. -/
def State.remaining (g : DependencyGraph Key T) (s : State Key T) : Nat :=
  2 * (g.keys.length - s.dispatched.length) + s.inFlight.length

/-- A transition among nodes that are on no cycle can be driven to its end from wherever it is:
the ready nodes are taken, do what they are told and are reported. -/
theorem Valid.can_finish (hg : g.WellFormed) (ht : target ∈ g.keys)
    (hstop : ∀ k ∈ stopNodes g target active₀,
      ¬ Relation.TransGen (fun a b => b ∈ g.dependsOn a) k k)
    (hstart : ∀ k ∈ startNodes g target active₀,
      ¬ Relation.TransGen (fun a b => b ∈ g.dependsOn a) k k)
    (h : Valid g target active₀ s) :
    ∃ s', Runs.Run step Runs.anyStep s s' ∧ s'.transition.isFinished = true := by
  induction hn : s.remaining g using Nat.strongRecOn generalizing s with
  | _ n ih =>
    by_cases hdone : s.transition.phase = .done
    · exact ⟨s, .refl s, by simp [isFinished, hdone]⟩
    cases hq : s.transition.nextNodes.toList with
    | cons k rest =>
      obtain ⟨t, hnext, -⟩ := nextReady_cons hq
      have hstep : step s .nextReady = some { s with
          transition := t, inFlight := ⟨k, s.transition.currentAction⟩ :: s.inFlight } := by
        simp only [step, hnext]
      have hvalid := step_valid hg ht h hstep
      have hle := (hvalid.once.subperm fun k hk => hvalid.mem_keys hk).length_le
      obtain ⟨s', hrun, hfin⟩ := ih _ (by
        subst hn
        simp only [State.remaining, State.dispatched, length_map, length_append,
          length_cons] at hle ⊢
        omega) hvalid rfl
      exact ⟨s', (Runs.Run.single trivial hstep).trans hrun, hfin⟩
    | nil =>
      have hfly := (h.inPhase.progress_of_nodes hg hstop hstart hdone).resolve_left (by simp [hq])
      obtain ⟨rn, hrn⟩ := exists_mem_of_ne_nil s.inFlight fun hnil => hfly (by simp [hnil])
      obtain ⟨s₁, hrun₁, hvalid, hflying, hreported⟩ := h.complete hg ht hrn
      have hlen := length_erase_of_mem hrn
      have hpos := length_pos_of_mem hrn
      obtain ⟨s', hrun, hfin⟩ := ih _ (by
        subst hn
        simp only [State.remaining, State.dispatched, hflying, hreported, length_append,
          length_cons]
        omega) hvalid rfl
      exact ⟨s', hrun₁.trans hrun, hfin⟩

end Invariant

section Results
variable {t₀ : Transition Key T} {target : Key} {active₀ : Key → Bool} {s₀ s : State Key T}

theorem reachable_valid (h : t₀.WellFormed) (ht : target ∈ t₀.graph.keys)
    (hs₀ : start t₀ target active₀ = some s₀) (hrun : Runs.Run step Runs.anyStep s₀ s) :
    Valid t₀.graph target active₀ s := by
  obtain ⟨s', hs', hvalid⟩ := start_valid h ht active₀
  rw [hs₀] at hs'
  cases hs'
  exact run_valid h.graph ht hvalid hrun

/-- Node `2` needs node `1`; node `0` is on its own. -/
@[irreducible] def smallGraph : DependencyGraph Nat Unit :=
  (DependencyGraph.build 3 [(0, ()), (1, ()), (2, ())] [(2, 1)]).get (by decide +kernel)

theorem smallGraph_wellFormed : smallGraph.WellFormed := by
  unfold smallGraph
  exact DependencyGraph.wellFormed_build (by decide) (by decide) (Option.some_get _).symm

@[irreducible] def smallStart : State Nat Unit :=
  (start (Transition.new smallGraph) 2 fun k => k == 0).get (by decide +kernel)

theorem smallStart_eq :
    start (Transition.new smallGraph) 2 (fun k => k == 0) = some smallStart := by
  unfold smallStart
  exact (Option.some_get _).symm

@[irreducible] def smallStopped : State Nat Unit :=
  (Runs.exec step Runs.anyStep smallStart
    [.nextReady, .act ⟨0, .stop⟩, .report ⟨0, .stop⟩]).get (by decide +kernel)

theorem smallStopped_run : Runs.Run step Runs.anyStep smallStart smallStopped := by
  unfold smallStopped
  exact Runs.Run.of_exec (Option.some_get _).symm

/-- Each node is handed out once, when what it needs is done, and all Stops are reported before a
Start. -/
theorem dispatch_protocol (h : t₀.WellFormed) (ht : target ∈ t₀.graph.keys)
    (hs₀ : start t₀ target active₀ = some s₀) (hrun : Runs.Run step Runs.anyStep s₀ s) :
    (s.dispatched.map ReadyNode.node).Nodup ∧
    ∀ rn, s.transition.nextReady.1 = some rn →
      rn.node ∉ s.dispatched.map ReadyNode.node ∧
      (rn.action = .stop → s.active rn.node = true ∧ ¬ t₀.graph.Reaches target rn.node ∧
        ∀ r ∈ s.dispatched, r.action = .stop) ∧
      (rn.action = .start → s.active rn.node = false ∧ t₀.graph.Reaches target rn.node ∧
        (∀ d ∈ t₀.graph.dependsOn rn.node, s.active d = true) ∧
        (∀ k ∈ stopNodes t₀.graph target active₀, ⟨k, .stop⟩ ∈ s.reported) ∧
        ∀ r ∈ s.dispatched, r.action = .stop → r ∈ s.reported) := by
  have hv := reachable_valid h ht hs₀ hrun
  refine ⟨hv.once, fun rn hrn => ?_⟩
  have hn : s.transition.nextReady = (some rn, s.transition.nextReady.2) := Prod.ext hrn rfl
  have hd := hv.dispatch h.graph ht hn
  have hact := (hv.inPhase.nextReady hn).2.1
  refine ⟨hv.fresh h.graph ht hn, fun hstop => ?_, fun hstart => ?_⟩
  · obtain ⟨hon, hr, hnone, -⟩ := hd.stop hstop
    refine ⟨hon, hr, fun r hrd => ?_⟩
    rcases mem_append.mp hrd with hrf | hrr
    · rw [hv.actions r hrf, ← hact, hstop]
    · by_contra hne
      have hmem : r.node ∈ s.reportedOf .start :=
        mem_map.mpr ⟨r, mem_filter.mpr ⟨hrr, Action.beq_start_of_ne_stop hne⟩, rfl⟩
      rw [hnone] at hmem
      cases hmem
  · obtain ⟨hoff, hr, hdeps, hall⟩ := hd.start hstart
    refine ⟨hoff, hr, hdeps, fun k hk => mem_reported_of_mem_reportedOf (hall k hk), ?_⟩
    intro r hrd hrstop
    rcases mem_append.mp hrd with hrf | hrr
    · rw [hv.actions r hrf, ← hact, hstart] at hrstop
      cases hrstop
    · exact hrr

theorem dispatch_protocol_start :
    smallStopped.transition.nextReady.1 = some ⟨1, .start⟩ ∧
    smallStopped.active 1 = false ∧
    (⟨0, .stop⟩ : ReadyNode Nat) ∈ smallStopped.reported ∧
    (1 : Nat) ∉ smallStopped.dispatched.map ReadyNode.node := by
  have hnext : smallStopped.transition.nextReady.1 = some ⟨1, .start⟩ := by decide +kernel
  obtain ⟨hfresh, -, hstart⟩ :=
    (dispatch_protocol (Transition.wellFormed_new smallGraph_wellFormed) (by decide +kernel)
      smallStart_eq smallStopped_run).2 ⟨1, .start⟩ hnext
  obtain ⟨hoff, -, -, hstops, -⟩ := hstart rfl
  exact ⟨hnext, hoff, hstops 0 (by decide +kernel), hfresh⟩

/-- The set-up never fails, no run gets stuck, and a finished one leaves active what the target
reaches. -/
theorem progress_and_result (h : t₀.WellFormed) (hac : t₀.graph.Acyclic)
    (ht : target ∈ t₀.graph.keys) (active₀ : Key → Bool) :
    ∃ s₀, start t₀ target active₀ = some s₀ ∧ ∀ s, Runs.Run step Runs.anyStep s₀ s →
      (s.transition.isFinished = false → s.transition.nextNodes.toList ≠ [] ∨ s.inFlight ≠ []) ∧
      s.transition.pending = (InPhase.unreported t₀.graph target active₀ s.transition.phase
        (s.reportedOf .stop) (s.reportedOf .start)).length ∧
      (∀ rn ∈ s.inFlight, 0 < s.transition.pending) ∧
      (∀ b ∈ s.transition.pushResults, b = true) ∧
      (∀ rn ∈ s.inFlight, s.active rn.node = (rn.action == .start) → step s (.report rn) ≠ none) ∧
      (s.transition.isFinished = true →
        ∀ k ∈ t₀.graph.keys, (s.active k = true ↔ t₀.graph.Reaches target k)) := by
  obtain ⟨s₀, hs₀, -⟩ := start_valid h ht active₀
  refine ⟨s₀, hs₀, fun s hrun => ?_⟩
  have hv := reachable_valid h ht hs₀ hrun
  have hphase : ∀ b, s.transition.isFinished = b → (s.transition.phase == .done) = b := fun _ => id
  refine ⟨fun hfin => ?_, hv.inPhase.pending_eq, fun rn hrn => ?_, hv.inPhase.informed.pushed,
    fun rn hrn hdone => ?_, fun hfin => ?_⟩
  · have hne : s.transition.phase ≠ .done := by simpa using hphase _ hfin
    rcases hv.inPhase.progress h.graph hac hne with hq | hf
    · exact Or.inl hq
    · exact Or.inr fun hnil => hf (by rw [hnil]; rfl)
  · apply hv.inPhase.pending_pos
    apply hv.inPhase.not_done_of_flying
    intro hnil
    rw [map_eq_nil_iff] at hnil
    rw [hnil] at hrn
    cases hrn
  · obtain ⟨t, hfin, -⟩ := hv.report h.graph ht hrn hdone
    simp [step, hrn, hdone, hfin]
  · exact hv.inPhase.exact_of_done (by simpa using hphase _ hfin)

theorem progress_and_result_small :
    ∃ s₀, start (Transition.new smallGraph) 2 (fun k => k == 0) = some s₀ ∧
      s₀.transition.isFinished = false ∧ s₀.transition.nextNodes.toList ≠ [] := by
  obtain ⟨s₀, hs₀, hall⟩ := progress_and_result (Transition.wellFormed_new smallGraph_wellFormed)
    (DependencyGraph.acyclic_of_rank id (by decide +kernel))
    (show 2 ∈ (Transition.new smallGraph).graph.keys by decide +kernel) fun k => k == 0
  refine ⟨s₀, hs₀, ?_, ?_⟩
  · rw [smallStart_eq] at hs₀
    cases hs₀
    decide +kernel
  · have hfin : s₀.transition.isFinished = false := by
      rw [smallStart_eq] at hs₀
      cases hs₀
      decide +kernel
    have hnone : s₀.inFlight = [] := by
      rw [smallStart_eq] at hs₀
      cases hs₀
      decide +kernel
    exact ((hall s₀ (.refl s₀)).1 hfin).resolve_right fun hne => hne hnone

end Results

end LaunchManager.TransitionRun
