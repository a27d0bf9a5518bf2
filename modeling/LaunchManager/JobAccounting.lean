import LaunchManager.JobInvariant

/-!
# The job counter along every run

Every step of every thread keeps the invariant of the daemon: completions,
unexpected terminations, requests and cancellations, the start of transitions
and the steps of the workers.
-/

namespace LaunchManager.Daemon

open List

set_option autoImplicit false

open Transition (InPhase)

universe u
variable {Key : Type u} [DecidableEq Key]

section Events
variable {g : DependencyGraph Key Component} {s s' : Daemon Key} {c : Config Key}
variable {rest : List (Queued Key)}
variable {o : Outcome} {t : ComponentTask Key} {G : Graph Key}

theorem outcome_of_result_success (h : o.result = .success) : o = .succeeded ∨ o = .skipped := by
  rcases o with _ | timeout | _
  · exact .inl rfl
  · cases timeout <;> cases h
  · exact .inr rfl

theorem Inv.state_of_outstanding (h : Inv g s) (hmain : s.main = .idle) (hne : s.outstanding ≠ []) :
    s.graph.state = .inTransition ∨ s.graph.state = .aborting := by
  have hq := h.quiet hmain
  cases hst : s.graph.state with
  | inTransition => exact .inl rfl
  | aborting => exact .inr rfl
  | success => exact absurd (hq.mpr (.inl hst)) hne
  | undefinedState => exact absurd (hq.mpr (.inr hst)) hne

theorem Inv.jobs_of_completion (h : Inv g s) (hev : s.events = .completion t o :: rest) :
    s.graph.jobsInProgress - 1 = (outstanding { s with events := rest }).length := by
  have hlen := (outstanding_completion hev).length_eq
  rw [length_cons] at hlen
  rw [h.jobs, hlen]
  omega

theorem Inv.completion_inTransition (h : Inv g s) (hg : g.WellFormed)
    (hev : s.events = .completion t o :: rest)
    (hmain : s.main = .idle) (hst : s.graph.state = .inTransition) (hok : o.result = .success) :
    ∃ t', s.graph.transition.onNodeFinished s.graph.active t.component = some t' ∧
      Inv g { s with
        events := rest, main := .draining false
        graph := { s.graph with
          jobsInProgress := s.graph.jobsInProgress - 1, transition := t' } } := by
  have hperm := outstanding_completion hev
  have hin : .completion t o ∈ s.events := by rw [hev]; exact mem_cons_self
  have hhand : s.inHand = s.outstanding := by rw [inHand, hmain]; rfl
  obtain ⟨target, active₀, stopped, started, hl⟩ := h.live hst
  obtain ⟨hskip, hflag⟩ := hl.completed t o hin
  have hdone : s.graph.active t.component = InPhase.told s.graph.transition := by
    rw [hflag ((outcome_of_result_success hok).resolve_right hskip)]
    exact hl.told t (mem_append_right _ (mem_outstanding_of_completion hin))
  rw [← hhand] at hperm
  obtain ⟨t', hfin, hnew, hkeep⟩ :=
    hl.inPhase.report hg hl.target_mem (hperm.map ComponentTask.component) hdone
  have hsub : ∀ t₁ ∈ outstanding { s with events := rest }, t₁ ∈ s.inHand := fun t₁ ht₁ =>
    hperm.mem_iff.mpr (mem_cons_of_mem t ht₁)
  refine ⟨t', hfin, { h with
    object := hnew.informed.wellFormed hg, shape := hnew.informed.shape
    jobs := h.jobs_of_completion hev, tasks := fun t₁ ht₁ => h.tasks t₁ (hsub t₁ ht₁)
    busy := fun _ => hst, quiet := fun hi => (by cases hi)
    live := fun _ => ⟨_, _, _, _, { hl with inPhase := hnew, told := ?_, completed := ?_ }⟩ }⟩
  · intro t₁ ht₁
    have hphase := told_congr (hkeep (ne_nil_of_mem (mem_map_of_mem ht₁)))
    change t₁.type.flag = InPhase.told t'
    rw [hphase]
    exact hl.told t₁ (hsub t₁ ht₁)
  · intro t₁ o₁ ht₁
    exact hl.completed t₁ o₁ (by rw [hev]; exact mem_cons_of_mem _ ht₁)

theorem Inv.completion_halts (h : Inv g s)
    (hev : s.events = .completion t o :: rest) (hmain : s.main = .idle)
    (hhalt : Graph.Halted s.graph G) (hjobs : G.jobsInProgress = s.graph.jobsInProgress - 1)
    (hstate : G.state = if s.graph.jobsInProgress - 1 = 0 then .undefinedState else .aborting) :
    Inv g { s with events := rest, graph := G } := by
  have hperm := outstanding_completion hev
  have hne : s.outstanding ≠ [] := fun hnil => by
    rw [hnil] at hperm
    exact absurd hperm.symm.eq_nil (by simp)
  have hcount : s.graph.jobsInProgress - 1 =
      (outstanding { s with events := rest, graph := G }).length := h.jobs_of_completion hev
  apply Inv.of_not_inTransition h hhalt
  · change G.jobsInProgress = _
    rw [hjobs, hcount]
  · exact hmain
  · exact fun t₁ ht₁ => hperm.mem_iff.mpr (mem_cons_of_mem t ht₁)
  · change G.state ≠ _
    rw [hstate]
    split <;> simp
  · change _ ↔ G.state = _ ∨ G.state = _
    rw [hstate, ← length_eq_zero_iff]
    by_cases hzero : s.graph.jobsInProgress - 1 = 0
    · rw [if_pos hzero]
      exact ⟨fun _ => .inr rfl, fun _ => by omega⟩
    · rw [if_neg hzero]
      exact ⟨fun hlen => absurd (by rw [hcount, hlen]; rfl) hzero, fun hst => by simp at hst⟩
  · intro hi
    rcases h.state_of_outstanding hmain hne with hst | hst <;> rw [h.initial hi] at hst <;>
      cases hst

theorem Inv.completion (h : Inv g s) (hg : g.WellFormed)
    (hev : s.events = .completion t o :: rest) (hmain : s.main = .idle)
    {goesOn : Bool} (hexec : s.graph.nodeExecuted t.component o.result = some (G, goesOn)) :
    Inv g { s with
      events := rest, graph := G, main := if goesOn then .draining false else .idle } := by
  have hne : s.outstanding ≠ [] := by
    refine ne_nil_of_mem (mem_outstanding_of_completion (t := t) (o := o) ?_)
    rw [hev]
    exact mem_cons_self
  by_cases hadvance : s.graph.state = .inTransition ∧ o.result = .success
  · obtain ⟨hst, hok⟩ := hadvance
    obtain ⟨t', hfin, hinv⟩ := h.completion_inTransition hg hev hmain hst hok
    have hexec' : s.graph.nodeExecuted t.component o.result = some
        ({ s.graph with
          jobsInProgress := s.graph.jobsInProgress - 1, transition := t' }, true) := by
      simp [Graph.nodeExecuted, hok, hst, hfin]
    cases hexec.symm.trans hexec'
    exact hinv
  · have hhalts : s.graph.state = .aborting ∨
        s.graph.state = .inTransition ∧ o.result ≠ .success := by
      rcases h.state_of_outstanding hmain hne with hst | hst
      · exact .inr ⟨hst, fun hok => hadvance ⟨hst, hok⟩⟩
      · exact .inl hst
    obtain ⟨G', hexec', hhalt, hjobs, hstate⟩ := Graph.nodeExecuted_halts hhalts t.component
    cases hexec.symm.trans hexec'
    have hinv := h.completion_halts hev hmain hhalt hjobs hstate
    rw [hmain] at hinv
    exact hinv

theorem jobs_eq_zero_iff (h : Inv g s) : s.graph.jobsInProgress = 0 ↔ s.outstanding = [] := by
  rw [h.jobs, Int.natCast_eq_zero, length_eq_zero_iff]

theorem cancel_state (h : Inv g s) (hmain : s.main = .idle) : s.graph.cancel.state ≠ .inTransition ∧
      (s.outstanding = [] ↔
        s.graph.cancel.state = .success ∨ s.graph.cancel.state = .undefinedState) := by
  have hquiet := h.quiet hmain
  have hjobs : (s.graph.setState .aborting).jobsInProgress = s.graph.jobsInProgress := rfl
  by_cases hnil : s.outstanding = []
  · have hpos : ¬ 0 < s.graph.jobsInProgress := by rw [h.jobs, hnil]; simp
    rw [Graph.cancel, hjobs, if_neg hpos]
    rcases hquiet.mp hnil with hst | hst <;>
      simp [Graph.setState, hst, stateResults, hnil]
  · have hpos : 0 < s.graph.jobsInProgress := by
      have := length_pos_iff.mpr hnil
      rw [h.jobs]
      omega
    rw [Graph.cancel, hjobs, if_pos hpos]
    rcases h.state_of_outstanding hmain hnil with hst | hst <;>
      simp [Graph.setState, hst, stateResults, hnil]

theorem Inv.cancel (h : Inv g s) (hmain : s.main = .idle)
    (hhalt : Graph.Halted s.graph G) (hjobs : G.jobsInProgress = s.graph.jobsInProgress)
    (hstate : G.state = s.graph.cancel.state) (hevents : s'.outstanding = s.outstanding)
    (hgraph : s'.graph = G) (hmain' : s'.main = .idle) (hstage : s'.stage ≠ .initial) :
    Inv g s' := by
  obtain ⟨hne, hquiet⟩ := cancel_state h hmain
  apply Inv.of_not_inTransition h (hgraph ▸ hhalt)
  · rw [hgraph, hjobs, hevents, h.jobs]
  · exact hmain'
  · rw [hevents]
    exact fun _ ht => ht
  · rw [hgraph, hstate]
    exact hne
  · rw [hevents, hgraph, hstate]
    exact hquiet
  · exact hstage

theorem Inv.unexpectedTermination (h : Inv g s) {k : Key} (hmain : s.main = .idle)
    (hstage : s.stage ≠ .initial)
    (hev : s.events = .notice (.unexpectedTermination k) :: rest)
    (hG : G = (s.graph.setState .aborting).setActive k .deactivate) : Inv g { s with
      events := rest
      graph := if G.jobsInProgress = 0 then G.handleNonTransitionExecution else G
      main := .idle, alive := Function.update s.alive k false } := by
  have hhalt : Graph.Halted s.graph G := by
    have hset := (Graph.Halted.refl s.graph).setState .aborting (by simp)
    rw [hG]
    exact { hset with }
  have hjobs : G.jobsInProgress = s.graph.jobsInProgress := by rw [hG]; rfl
  have hstate : G.state = (s.graph.setState .aborting).state := by rw [hG]; rfl
  have hcancel : 0 < (s.graph.setState .aborting).jobsInProgress ↔ ¬ G.jobsInProgress = 0 := by
    change 0 < s.graph.jobsInProgress ↔ _
    rw [hjobs, h.jobs]
    omega
  refine h.cancel (G := if G.jobsInProgress = 0 then G.handleNonTransitionExecution else G) hmain
    ?_ ?_ ?_ (outstanding_notice hev).symm rfl rfl hstage
  · split
    · exact hhalt.handleNonTransitionExecution
    · exact hhalt
  · split <;> exact hjobs
  · by_cases hzero : G.jobsInProgress = 0
    · rw [if_pos hzero, Graph.cancel, if_neg (not_not.mpr hzero ∘ hcancel.mp)]
      exact congrArg (stateResults .undefinedState) hstate
    · rw [if_neg hzero, Graph.cancel, if_pos (hcancel.mpr hzero)]
      exact hstate

/-- What a request or a recovery does to the graph: it stays as it is up to the pending
target, and a transition to something else is cancelled. -/
def Requested (G G' : Graph Key) : Prop :=
  ∃ pending, G' = { G with pending := pending } ∨
    G.state = .inTransition ∧ G' = Graph.cancel { G with pending := pending }

theorem handleRecoveryRequest_requested (c : Config Key) (G : Graph Key) :
    Requested G (handleRecoveryRequest c G) := by
  unfold handleRecoveryRequest
  split_ifs with hst
  · exact ⟨_, .inr ⟨hst, rfl⟩⟩
  · exact ⟨G.pending, .inl rfl⟩
  · exact ⟨G.pending, .inl rfl⟩
  · exact ⟨_, .inl rfl⟩

theorem handleSetRequestedRunTarget_requested (G : Graph Key) (rt : Key) :
    Requested G (handleSetRequestedRunTarget G rt).1 := by
  unfold handleSetRequestedRunTarget
  split_ifs with _ hst
  · exact ⟨_, .inr ⟨hst, rfl⟩⟩
  · exact ⟨G.pending, .inl rfl⟩
  · exact ⟨G.pending, .inl rfl⟩
  · exact ⟨_, .inl rfl⟩
  · exact ⟨G.pending, .inl rfl⟩

theorem heeded_requested (c : Config Key) (s : Daemon Key) (n : Notice Key) :
    Requested s.graph (if s.stage = .running then heed c s.graph n else s.graph) := by
  have hsame : Requested s.graph s.graph := ⟨s.graph.pending, .inl rfl⟩
  split
  · cases n with
    | supervisionFailure k => exact handleRecoveryRequest_requested c s.graph
    | setRequestedRunTarget rt => exact handleSetRequestedRunTarget_requested s.graph rt
    | unexpectedTermination k | getActiveRunTarget => exact hsame
  · exact hsame

theorem Inv.requested (h : Inv g s) {n : Notice Key} (hmain : s.main = .idle)
    (hstage : s.stage ≠ .initial) (hev : s.events = .notice n :: rest) : Inv g { s with
      events := rest, graph := if s.stage = .running then heed c s.graph n else s.graph } := by
  have hout := (outstanding_notice hev).symm
  obtain ⟨pending, hG | ⟨-, hG⟩⟩ := heeded_requested c s n <;> rw [hG]
  · refine h.frame rfl rfl (.inl rfl) (List.Perm.of_eq hout) fun t o ht => .inl ?_
    rw [hev]
    exact mem_cons_of_mem _ ht
  · refine h.cancel (G := Graph.cancel { s.graph with pending := pending }) hmain ?_
      (Graph.jobs_cancel _) ?_ hout rfl hmain hstage
    · exact Graph.Halted.cancel ⟨rfl, rfl, rfl, fun _ => Or.inl⟩
    · rw [Graph.cancel_pending]

end Events

section Handler
variable {g : DependencyGraph Key Component} {s s' : Daemon Key} {c : Config Key} {rt : Key}
variable {source : RunTargetActivationSource} {handler : Bool}

theorem Inv.setPending (h : Inv g s) (runTarget : Option Key) :
    Inv g { s with graph := s.graph.setPendingState runTarget } :=
  h.frame rfl rfl (.inl rfl) (List.Perm.refl _) fun _ _ => Or.inl

theorem Inv.starts (h : Inv g s) (hg : g.WellFormed) (hmain : s.main = .idle)
    (hstage : s.stage ≠ .initial ∧ s.stage ≠ .cancelling)
    (hrest : s.graph.state = .success ∨ s.graph.state = .undefinedState)
    (hs : Starts s rt source handler s') : Inv g s' := by
  have hout : s.outstanding = [] := (h.quiet hmain).mpr hrest
  refine hs.inv hg h.object h.shape ?_ ((jobs_eq_zero_iff h).mpr hout) hout (fun i hi => ?_) hstage
  · rcases hrest with hst | hst <;> rw [hst] <;> simp
  · rw [if_neg (by rcases hrest with hst | hst <;> rw [hst] <;> simp)]
    exact Nat.lt_succ_of_le (h.sources i hi)

theorem Inv.entered (h : Inv g s) (hmain : s.main = .idle) (hstage : s.stage = .initial)
    {G : Graph Key} (hhalt : Graph.Halted s.graph G)
    (hjobs : G.jobsInProgress = s.graph.jobsInProgress) (hst : G.state = s.graph.state) :
    Inv g { s with stage := .running, graph := G } := by
  have hdone : G.state = .success := hst.trans (h.initial hstage)
  have hout : s.outstanding = [] := (h.quiet hmain).mpr (.inl (h.initial hstage))
  exact Inv.of_not_inTransition h hhalt (hjobs.trans h.jobs) hmain (fun _ ht => ht)
    (by simp [hdone]) ⟨fun _ => .inl hdone, fun _ => hout⟩ (by simp)

theorem Inv.shutdown (h : Inv g s) (hmain : s.main = .idle) : Inv g (s.shutdown c) := by
  rw [Daemon.shutdown]
  split
  · exact h.frame rfl rfl (.inr (by simp)) (List.Perm.refl _) fun _ _ => Or.inl
  · exact h.cancel hmain (Graph.Halted.refl s.graph).cancel (Graph.jobs_cancel _) rfl rfl rfl hmain
      (by simp)

theorem Inv.rest_of_canSetState (h : Inv g s) (hstage : s.stage = .cancelling)
    (hcan : s.graph.canSetState .inTransition = true) :
    s.graph.state = .success ∨ s.graph.state = .undefinedState := by
  have hne := h.cancelling hstage
  cases hst : s.graph.state <;> simp_all [Graph.canSetState, stateResults]

theorem Inv.off (h : Inv g s) (hg : g.WellFormed) (hmain : s.main = .idle)
    (hstage : s.stage = .cancelling) (hcan : s.graph.canSetState .inTransition = true)
    (hs : Starts { s with stage := .toOff, graph := s.graph.setState .inTransition } rt source
      handler s') : Inv g s' := by
  have hresult : stateResults .inTransition s.graph.state = .inTransition := beq_iff_eq.mp hcan
  have hne := h.cancelling hstage
  have hout : s.outstanding = [] := (h.quiet hmain).mpr (h.rest_of_canSetState hstage hcan)
  refine hs.inv hg h.object h.shape (by simp [Graph.setState, hresult])
    ((jobs_eq_zero_iff h).mpr hout) hout (fun i hi => ?_) (by simp)
  have hle := h.sources i (by simpa [Graph.setState, hresult] using hi)
  simp [Graph.setState, hresult, hne]
  omega

theorem Inv.noOff (h : Inv g s) (hcan : ¬ s.graph.canSetState .inTransition = true) : Inv g { s with
      stage := .toOff, graph := s.graph.setState .inTransition, aliveAtStart := s.alive
      deactivationsAtStart := s.graph.deactivations } := by
  have hab := Graph.aborting_of_canSetState hcan
  have hset : s.graph.setState .inTransition = s.graph := by
    have hresult : stateResults .inTransition s.graph.state = s.graph.state := by rw [hab]; rfl
    simp [Graph.setState, hresult]
  rw [hset]
  exact h.frame rfl rfl (.inr (by simp)) (List.Perm.refl _) fun _ _ => Or.inl

theorem Inv.ended (h : Inv g s) :
    Inv g { (if s.graph.state = .inTransition then s.forceKillProcesses else s) with
      stage := .ended } := by
  have hfields : ∀ killed, Inv g { s with killed := killed, stage := .ended } := fun _ =>
    h.frame rfl rfl (.inr (by simp)) (List.Perm.refl _) fun _ _ => Or.inl
  split <;> exact hfields _

end Handler

section Steps
variable {g : DependencyGraph Key Component} {s s' : Daemon Key} {c : Config Key} {a : Act Key}

theorem Inv.complete (h : Inv g s) {w : Worker Key} {o : Outcome} (hw : w ∈ s.workers)
    (ho : s.graph.state = .inTransition → o ≠ .skipped ∧
      (o = .succeeded → s.graph.active w.task.component = w.task.type.flag))
    (alive : Key → Bool) : Inv g { s.complete w o with alive := alive } := by
  have hgraph : { s.complete w o with alive := alive }.graph =
      { s.graph with pending := s.graph.pending } := rfl
  refine h.frame hgraph rfl (.inl rfl) (outstanding_complete hw o) ?_
  intro t o' ht
  rcases mem_append.mp ht with hold | hnew
  · exact .inl hold
  · cases mem_singleton.mp hnew
    exact .inr ho

theorem Inv.not_stopped (h : Inv g s) {w : Worker Key} (hw : w ∈ s.workers)
    (hst : s.graph.state = .inTransition) : w.task.stopToken ∉ s.graph.stopRequested := by
  have hmem : w.task ∈ s.inHand := mem_append_right _ (mem_outstanding_of_worker hw)
  obtain ⟨target, active₀, stopped, started, hl⟩ := h.live hst
  rw [(h.tasks _ hmem).1]
  exact hl.unstopped

theorem Inv.moves_threads (h : Inv g s) (hg : g.WellFormed) (ha : a.ofMain = false)
    (hm : Moves c s a s') : Inv g s' := by
  have hsame : ∀ alive hasPid, Inv g { s with alive := alive, hasPid := hasPid } := fun _ _ =>
    h.frame rfl rfl (.inl rfl) (List.Perm.refl _) fun _ _ => Or.inl
  cases hm with
  | take hq => exact h.frame rfl rfl (.inl rfl) (outstanding_take hq) fun _ _ => Or.inl
  | skip hw _ hstop =>
    exact h.complete hw (fun hst => absurd hstop (h.not_stopped hw hst)) s.alive
  | work hw => exact h.frame rfl rfl (.inl rfl) (outstanding_work hw) fun _ _ => Or.inl
  | launch => exact hsame _ _
  | setFlag hw => exact h.setFlag hg hw
  | succeed hw hflag => exact h.complete hw (fun _ => ⟨by simp, fun _ => hflag⟩) s.alive
  | fail hw => exact h.complete hw (fun _ => ⟨by simp, fun ho => by cases ho⟩) _
  | exit => exact hsame _ s.hasPid
  | @post n =>
    have hperm := List.Perm.of_eq (outstanding_post s n)
    refine h.frame rfl rfl (.inl rfl) hperm fun t o ht => .inl ?_
    rcases mem_append.mp ht with hold | hnew
    · exact hold
    · cases mem_singleton.mp hnew
  | _ => cases ha

/-- A push to the job queue succeeds or times out and is tried again. -/
def pushesSettle (_ : Daemon Key) (a : Act Key) : Prop := a ≠ .pushFailed

instance (s : Daemon Key) (a : Act Key) : Decidable (pushesSettle s a) :=
  match a with
  | .pushFailed => isFalse fun h => h rfl
  | .startInitialTransition _ | .handleEvent | .processGroupHandler | .shutdown | .waitOver
  | .drain | .pushed | .pushTimeout | .take | .skip _ | .work _ | .launch _ | .setFlag _
  | .succeed _ | .fail _ _ | .exit _ | .post _ => isTrue fun h => by cases h

theorem Inv.moves (h : Inv g s) (hg : g.WellFormed) (hac : g.Acyclic) (hok : pushesSettle s a)
    (hm : Moves c s a s') : Inv g s' := by
  have hthreads := fun ha => h.moves_threads hg ha hm
  cases hm with
  | initial hstage hmain hs =>
    refine (h.entered hmain hstage ?_ ?_ ?_).starts hg hmain (by simp) ?_ hs
    exacts [⟨rfl, rfl, rfl, fun _ => Or.inl⟩, rfl, rfl, .inl (h.initial hstage)]
  | unknown hstage hmain => exact h.entered hmain hstage ⟨rfl, rfl, rfl, fun _ => Or.inl⟩ rfl rfl
  | completion hev hmain _ _ hexec => exact h.completion hg hev hmain hexec
  | terminated hev hmain hstage _ hG => exact h.unexpectedTermination hmain hstage hev hG
  | heeded hev hmain hstage => exact h.requested hmain hstage hev
  | passed | pushTimeout => exact h
  | taken => exact h.setPending none
  | pending hmain hstage hst _ hs =>
    exact (h.setPending none).starts hg hmain (by rw [hstage]; simp)
      (hst.elim Or.inr fun hsucc => .inl hsucc.1) hs
  | fallback hmain hstage hst _ hs =>
    exact (h.setPending none).starts hg hmain (by rw [hstage]; simp) (.inr hst) hs
  | shutdown hmain => exact h.shutdown hmain
  | off hmain hstage hcan hs => exact h.off hg hmain hstage hcan hs
  | noOff _ _ hcan => exact h.noOff hcan
  | ended => exact h.ended
  | finished hmain hq => exact h.finish hg hac hmain hq
  | redirected hmain _ hundef =>
    exact absurd hundef (state_finish (h.busy (by rw [hmain]; simp)))
  | updated hmain hnext _ hreport => exact h.update hg hmain hnext hreport
  | queued hmain hnext hkind => exact h.queue hg hmain hnext hkind
  | dropped hmain _ _ hne => exact absurd (h.busy (by rw [hmain]; simp)) hne
  | pushed hmain => exact h.pushed hmain
  | pushFailed => exact absurd rfl hok
  | _ => exact hthreads rfl

theorem step_inv (hg : g.WellFormed) (hac : g.Acyclic) (h : Inv g s) (hok : pushesSettle s a)
    (hs : step c s a = some s') : Inv g s' :=
  h.moves hg hac hok (moves_of_step hs)

end Steps

section Results
variable [Inhabited Key]

def init (g : DependencyGraph Key Component) : Daemon Key where
  graph := { transition := .new g }

variable {g : DependencyGraph Key Component}

theorem init_inv (hg : g.WellFormed) : Inv g (init g) where
  object := Transition.wellFormed_new hg
  shape := DependencyGraph.SameShape.refl g
  jobs := rfl
  tasks := fun _ ht => (by cases ht)
  sources := fun _ hi => (by cases hi)
  busy := fun hne => absurd rfl hne
  quiet := fun _ => ⟨fun _ => .inl rfl, fun _ => rfl⟩
  live := fun hst => (by cases hst)
  initial := fun _ => rfl
  cancelling := fun hc => (by cases hc)

theorem run_inv (hg : g.WellFormed) (hac : g.Acyclic)
    {c : Config Key} {s : Daemon Key} (hrun : Runs.Run (step c) pushesSettle (init g) s) :
    Inv g s :=
  hrun.invariant _ (fun hi hok hs => step_inv hg hac hi hok hs) (init_inv hg)

/-- The counter is the number of jobs whose completion has not been handled. -/
theorem job_accounting {g : DependencyGraph Key Component} (hg : g.WellFormed) (hac : g.Acyclic)
    {c : Config Key} {s : Daemon Key} (hrun : Runs.Run (step c) pushesSettle (init g) s) :
    s.graph.jobsInProgress = s.outstanding.length ∧
    (s.main = .idle →
      (s.graph.state = .success ∨ s.graph.state = .undefinedState →
        s.graph.jobsInProgress = 0) ∧
      (s.graph.state = .inTransition ∨ s.graph.state = .aborting →
        0 < s.graph.jobsInProgress)) ∧
    (∀ t o, .completion t o ∈ s.events → t.transition = s.graph.transitions) ∧
    (∀ t, .completion t .skipped ∈ s.events → s.graph.state ≠ .inTransition) := by
  have h := run_inv hg hac hrun
  refine ⟨h.jobs, fun hmain => ⟨fun hrest => ?_, fun hbusy => ?_⟩, fun t o ht => ?_, ?_⟩
  · exact (jobs_eq_zero_iff h).mpr ((h.quiet hmain).mpr hrest)
  · have hne : s.outstanding ≠ [] := by
      intro hnil
      rcases (h.quiet hmain).mp hnil with hst | hst <;> rw [hst] at hbusy <;> simp at hbusy
    have hpos := length_pos_iff.mpr hne
    rw [h.jobs]
    omega
  · have hmem := mem_append_right s.main.inHand (mem_outstanding_of_completion ht)
    exact (h.tasks t hmem).2.1
  · intro t ht hst
    obtain ⟨target, active₀, stopped, started, hl⟩ := h.live hst
    exact (hl.completed t _ ht).1 rfl

/-- The run target `1` needs the process `0`; `2` is Off and `3` the fallback. -/
@[irreducible] def sampleGraph : DependencyGraph Nat Component :=
  (DependencyGraph.build 4
    [(0, .processInfoNode), (1, .runTarget), (2, .runTarget), (3, .runTarget)] [(1, 0)]).get
    (by decide +kernel)

theorem sampleGraph_wellFormed : sampleGraph.WellFormed := by
  unfold sampleGraph
  exact DependencyGraph.wellFormed_build (by decide) (by decide) (Option.some_get _).symm

@[irreducible] def sampleCancelled : Daemon Nat :=
  (Runs.exec (step ⟨2, 3⟩) pushesSettle (init sampleGraph)
    [.startInitialTransition 1, .drain, .pushed, .drain, .post (.setRequestedRunTarget 2),
      .handleEvent, .take, .skip ⟨⟨.activate, 0, 1, 1⟩, false⟩]).get (by decide +kernel)

theorem sampleCancelled_run :
    Runs.Run (step ⟨2, 3⟩) pushesSettle (init sampleGraph) sampleCancelled := by
  unfold sampleCancelled
  exact Runs.Run.of_exec (Option.some_get _).symm

theorem job_accounting_cancelled :
    sampleCancelled.graph.state = .aborting ∧ 0 < sampleCancelled.graph.jobsInProgress ∧
      .completion ⟨.activate, 0, 1, 1⟩ .skipped ∈ sampleCancelled.events ∧
      sampleCancelled.graph.transitions = 1 := by
  have hstate : sampleCancelled.graph.state = .aborting := by decide +kernel
  have hevent : .completion ⟨.activate, 0, 1, 1⟩ .skipped ∈ sampleCancelled.events := by
    decide +kernel
  obtain ⟨-, hidle, hcount, -⟩ := job_accounting sampleGraph_wellFormed
    (DependencyGraph.acyclic_of_rank id (by decide +kernel)) sampleCancelled_run
  exact ⟨hstate, (hidle (by decide +kernel)).2 (Or.inr hstate), hevent, (hcount _ _ hevent).symm⟩

end Results

end LaunchManager.Daemon
