import LaunchManager.ComponentEffects

/-!
# Shutting down

When `allProcessGroupsOff` returns, a process that was alive when the transition
to Off began has been stopped by it or was sent a forced termination, provided
that no activation failed with its process alive and that nothing took the graph out
of the transition: the cancellation had settled when its wait was over, and no event
that aborts was handled on the way to Off. Without these conditions a process
survives the daemon.
-/

namespace LaunchManager

set_option autoImplicit false

open Transition (InPhase)

universe u
variable {Key : Type u}

def Queued.aborts : Queued Key → Bool
  | .completion _ outcome => outcome.result != .success
  | .notice (.unexpectedTermination _) => true
  | .notice (.supervisionFailure _) => false
  | .notice .getActiveRunTarget => false
  | .notice (.setRequestedRunTarget _) => false

namespace Daemon

/-- The cancellation settles in time, nothing aborts the transition to Off, and an activation that
fails leaves no process behind. -/
def undisturbed (s : Daemon Key) : Act Key → Prop
  | .pushFailed => False
  | .waitOver => s.stage = .cancelling → s.graph.state ≠ .aborting
  | .handleEvent => s.stage = .toOff → s.graph.state = .inTransition →
      ∀ q ∈ s.events.head?, q.aborts = false
  | .fail w _ => s.alive w.task.component = false
  | _ => True

instance (s : Daemon Key) (a : Act Key) : Decidable (undisturbed s a) :=
  match a with
  | .pushFailed => isFalse id
  | .waitOver => inferInstanceAs (Decidable (s.stage = .cancelling → s.graph.state ≠ .aborting))
  | .handleEvent => inferInstanceAs (Decidable (s.stage = .toOff → s.graph.state = .inTransition →
      ∀ q ∈ s.events.head?, q.aborts = false))
  | .fail w _ => inferInstanceAs (Decidable (s.alive w.task.component = false))
  | .startInitialTransition _ | .processGroupHandler | .shutdown | .drain | .pushed | .pushTimeout
  | .take | .skip _ | .work _ | .launch _ | .setFlag _ | .succeed _ | .exit _ | .post _ =>
    isTrue trivial

theorem undisturbed.pushesSettle {s : Daemon Key} {a : Act Key} (h : undisturbed s a) :
    pushesSettle s a := by
  rintro rfl
  exact h

/-- The transition to Off is over and every process it found is deactivated and has ended. -/
structure Gone (s : Daemon Key) : Prop where
  rest : s.graph.state ≠ .inTransition
  idle : s.outstanding = []
  stopped : ∀ k, s.aliveAtStart k = true →
    s.deactivationsAtStart k < s.graph.deactivations k ∧ s.alive k = false

variable [DecidableEq Key]

structure Closing (c : Config Key) (s : Daemon Key) : Prop where
  toOff : s.stage = .toOff → s.graph.isTransitioningToOff c.off = true ∨ Gone s
  ended : s.stage = .ended → s.main = .idle ∧
    ((∀ k, s.aliveAtStart k = true → s.killed k = true) ∨ Gone s)

structure OffInv (g : DependencyGraph Key Component) (c : Config Key) (s : Daemon Key) : Prop
    extends Closing c s where
  inv : Inv g s
  attended : s.components.Attended g
  watched : s.components.Watched g

section Frames
variable {s s' : Daemon Key} {c : Config Key} {a : Act Key}

theorem thread_frame (ha : a.ofMain = false) (hs : step c s a = some s') :
    s'.stage = s.stage ∧ s'.main = s.main ∧ s'.killed = s.killed ∧
      s'.aliveAtStart = s.aliveAtStart ∧ s'.graph.state = s.graph.state ∧
      s'.graph.requestedState = s.graph.requestedState := by
  cases moves_of_step hs with
  | take | skip | work | launch | setFlag | succeed | fail | exit | post =>
    exact ⟨rfl, rfl, rfl, rfl, rfl, rfl⟩
  | _ => cases ha

end Frames

section Rest
variable {g : DependencyGraph Key Component} {s s' : Daemon Key} {c : Config Key} {a : Act Key}

theorem Gone.thread (h : Gone s) (ha : a.ofMain = false) (hs : step c s a = some s') : Gone s' := by
  have hout := h.idle
  have hworkers := workers_of_outstanding hout
  have hno : ∀ w : Worker Key, w ∉ s.workers := fun w hw => by rw [hworkers] at hw; cases hw
  cases moves_of_step hs with
  | take hq =>
    rw [(List.append_eq_nil_iff.mp hout).1] at hq
    cases hq
  | @exit k =>
    refine ⟨h.rest, hout, fun j hj => ⟨(h.stopped j hj).1, ?_⟩⟩
    by_cases hjk : j = k
    · simp [hjk]
    · simp only [Function.update_of_ne hjk]
      exact (h.stopped j hj).2
  | post => exact ⟨h.rest, (outstanding_post s _).trans hout, h.stopped⟩
  | skip hw | work hw | launch hw | setFlag hw | succeed hw | fail hw => exact absurd hw (hno _)
  | _ => cases ha

theorem Gone.handleEvent (h : Gone s) (hstage : s.stage = .toOff)
    (hs : Moves c s .handleEvent s') : Gone s' := by
  cases hs with
  | completion hev =>
    have hperm := outstanding_completion hev
    rw [h.idle] at hperm
    exact absurd hperm.symm.eq_nil (by simp)
  | @terminated k _ G hev _ _ _ hG =>
    have hd : ∀ j, s.graph.deactivations j ≤ G.deactivations j := by
      intro j
      rw [hG]
      exact (Components.later_setActive s.components k .deactivate).deactivations j
    have hne : G.state ≠ .inTransition := by
      rw [hG]
      exact stateResults_ne_inTransition (by simp) _
    refine ⟨?_, (outstanding_notice hev).symm.trans h.idle, fun j hj => ⟨?_, ?_⟩⟩
    · change (if _ then _ else _ : Graph Key).state ≠ _
      split
      · exact stateResults_ne_inTransition (by simp) _
      · exact hne
    · change s.deactivationsAtStart j < (if _ then _ else _ : Graph Key).deactivations j
      have hlt := (h.stopped j hj).1.trans_le (hd j)
      split <;> exact hlt
    · by_cases hjk : j = k
      · simp [hjk]
      · simp only [Function.update_of_ne hjk]
        exact (h.stopped j hj).2
  | heeded hev =>
    rw [if_neg (by rw [hstage]; simp)]
    exact ⟨h.rest, (outstanding_notice hev).symm.trans h.idle, h.stopped⟩

theorem gone_of_finished (hoff : ∀ k, g.Reaches c.off k → g.value? k ≠ some .processInfoNode)
    (h : Inv g s) (hat : s.components.Attended g) (hw : s.components.Watched g)
    (hto : s.graph.isTransitioningToOff c.off = true) (hfin : s.graph.transition.isFinished = true)
    (hmain : s.main.inHand = []) :
    Gone { s with graph := s.graph.finalizeTransitionSuccess, main := .idle } := by
  simp only [Graph.isTransitioningToOff, Bool.and_eq_true, beq_iff_eq] at hto
  obtain ⟨hst, hreq⟩ := hto
  have hdone : s.graph.transition.phase = .done := by simpa [Transition.isFinished] using hfin
  obtain ⟨target, active₀, stopped, started, hl⟩ := h.live hst
  have htarget : target = c.off := Option.some.inj (hl.requested.symm.trans hreq)
  have hnone : s.outstanding = [] := by
    by_contra hne
    apply hl.inPhase.not_done_of_flying _ hdone
    rw [inHand, hmain]
    exact fun hnil => hne (List.map_eq_nil_iff.mp hnil)
  have hoffline : ∀ k, g.value? k = some .processInfoNode → s.graph.active k = false := by
    intro k hk
    by_contra hactive
    have hreach := (hl.inPhase.exact_of_done hdone k (mem_keys_of_value? hk)).mp
      (by simpa using hactive)
    rw [htarget] at hreach
    exact hoff k hreach hk
  refine ⟨?_, hnone, fun k hk => ⟨?_, ?_⟩⟩
  · change s.graph.finalizeTransitionSuccess.state ≠ _
    rw [state_finalizeTransitionSuccess hst]
    simp
  · obtain ⟨-, hkind, -, hactive | hlt⟩ := hw k hk
    · exact absurd ((hoffline k hkind).symm.trans hactive) (by simp)
    · exact hlt
  · by_contra hlive
    have hlive' : s.alive k = true := by simpa using hlive
    obtain ⟨-, hkind, hactive | ⟨w, hw', -⟩⟩ := hat k hlive'
    · exact absurd ((hoffline k hkind).symm.trans hactive) (by simp)
    · have hempty : s.components.workers = [] := workers_of_outstanding hnone
      rw [hempty] at hw'
      cases hw'

end Rest

section Steps
variable {g : DependencyGraph Key Component} {s s' : Daemon Key} {c : Config Key} {a : Act Key}
variable {handler : Bool} {off : Key}

theorem isTransitioningToOff_iff {G : Graph Key} :
    G.isTransitioningToOff off = true ↔ G.state = .inTransition ∧ G.requestedState = some off := by
  simp [Graph.isTransitioningToOff]

theorem nodeExecuted_success {G : Graph Key} {k : Key} {r : Graph Key × Bool}
    (hst : G.state = .inTransition) (h : G.nodeExecuted k .success = some r) :
    r.1.state = .inTransition ∧ r.1.requestedState = G.requestedState := by
  simp only [Graph.nodeExecuted, ne_eq, not_true, if_false, if_pos hst] at h
  obtain ⟨t, -, rfl⟩ := Option.map_eq_some_iff.mp h
  exact ⟨hst, rfl⟩

theorem handleEvent_toOff (hstage : s.stage = .toOff)
    (hto : s.graph.isTransitioningToOff off = true)
    (hq : ∀ q ∈ s.events.head?, q.aborts = false) (hs : Moves c s .handleEvent s') :
    s'.graph.isTransitioningToOff off = true := by
  obtain ⟨hst, hreq⟩ := isTransitioningToOff_iff.mp hto
  cases hs with
  | @completion t o _ G _ hev _ _ _ h =>
    have hok : o.result = .success := by
      simpa [Queued.aborts] using hq (.completion t o) (by rw [hev]; rfl)
    rw [hok] at h
    obtain ⟨hst', hreq'⟩ := nodeExecuted_success hst h
    exact isTransitioningToOff_iff.mpr ⟨hst', hreq'.trans hreq⟩
  | terminated hev =>
    have habort := hq _ (by rw [hev]; rfl)
    cases habort
  | heeded =>
    rw [if_neg (by rw [hstage]; simp)]
    exact hto

theorem Starts.toOff {rt : Key} {source : RunTargetActivationSource}
    (h : Starts s rt source handler s') (hst : s.graph.state = .inTransition) :
    s'.graph.isTransitioningToOff rt = true := by
  cases h
  exact isTransitioningToOff_iff.mpr ⟨by simp [Graph.setState, hst, stateResults], rfl⟩

theorem OffInv.killed_or_gone (h : OffInv g c s) (hstage : s.stage = .toOff)
    (hs' : s' = { (if s.graph.state = .inTransition then s.forceKillProcesses else s) with
      stage := .ended }) :
    (∀ k, s'.aliveAtStart k = true → s'.killed k = true) ∨ Gone s' := by
  subst hs'
  by_cases hst : s.graph.state = .inTransition
  · rw [if_pos hst]
    refine .inl fun k hk => ?_
    obtain ⟨hpid, hkind, -⟩ := h.watched k hk
    have hpid' : s.hasPid k = true := hpid
    have hkind' : s.graph.kind k = some .processInfoNode :=
      (value?_of_kind h.inv.shape k).trans hkind
    simp [forceKillProcesses, hpid', hkind']
  · rw [if_neg hst]
    have hgone : Gone s := (h.toOff hstage).resolve_left fun hto =>
      hst (isTransitioningToOff_iff.mp hto).1
    exact .inr ⟨hgone.rest, hgone.idle, hgone.stopped⟩

theorem closing_of_stage (h : s.stage ≠ .toOff ∧ s.stage ≠ .ended) : Closing c s :=
  ⟨fun hs => absurd hs h.1, fun hs => absurd hs h.2⟩

theorem OffInv.closing_threads (h : OffInv g c s) (ha : a.ofMain = false)
    (hs : step c s a = some s') : Closing c s' := by
  obtain ⟨hstage, hmain, hkilled, hstart, hst, hreq⟩ := thread_frame ha hs
  refine ⟨fun hto => ?_, fun hend => ?_⟩
  · refine (h.toOff (hstage ▸ hto)).imp (fun hold => ?_) fun hgone => hgone.thread ha hs
    rw [isTransitioningToOff_iff] at hold ⊢
    rw [hst, hreq]
    exact hold
  · obtain ⟨hidle, hold⟩ := h.ended (hstage ▸ hend)
    refine ⟨hmain.trans hidle, hold.imp (fun hall => ?_) fun hgone => hgone.thread ha hs⟩
    rw [hkilled, hstart]
    exact hall

theorem OffInv.busy_toOff (h : OffInv g c s) (hmain : s.main ≠ .idle) :
    s.stage ≠ .ended ∧ (s.stage = .toOff → s.graph.isTransitioningToOff c.off = true) :=
  ⟨fun hend => hmain (h.ended hend).1,
    fun hto => (h.toOff hto).resolve_right fun hgone => hgone.rest (h.inv.busy hmain)⟩

theorem OffInv.closing_handleEvent (h : OffInv g c s) (hok : undisturbed s .handleEvent)
    (hstage : s'.stage = s.stage) (hend : s.stage ≠ .ended) (hs : Moves c s .handleEvent s') :
    Closing c s' := by
  refine ⟨fun hto => ?_, fun he => absurd (hstage ▸ he) hend⟩
  rw [hstage] at hto
  rcases h.toOff hto with hold | hgone
  · exact .inl (handleEvent_toOff hto hold (hok hto (isTransitioningToOff_iff.mp hold).1) hs)
  · exact .inr (hgone.handleEvent hto hs)

theorem OffInv.closing (h : OffInv g c s)
    (hoff : ∀ k, g.Reaches c.off k → g.value? k ≠ some .processInfoNode) (hok : undisturbed s a)
    (hs : step c s a = some s') : Closing c s' := by
  have hbusy : ∀ {main}, s.main = main → main ≠ .idle → s.main ≠ .idle := fun hmain => hmain ▸ id
  have hrunning : s'.stage = .running → Closing c s' := fun hstage =>
    closing_of_stage (by rw [hstage]; simp)
  have hmoves := moves_of_step hs
  cases hmoves with
  | initial _ _ hs => exact hrunning hs.stage
  | pending _ hstage _ _ hs | fallback _ hstage _ _ hs => exact hrunning (hs.stage.trans hstage)
  | unknown => exact hrunning rfl
  | passed _ hstage | taken _ hstage => exact hrunning hstage
  | completion _ _ _ hend | terminated _ _ _ hend | heeded _ _ _ hend =>
    exact h.closing_handleEvent hok rfl hend (moves_of_step hs)
  | shutdown =>
    unfold shutdown
    split
    · rename_i hto
      exact ⟨fun _ => .inl hto, fun hend => (by cases hend)⟩
    · exact closing_of_stage (by simp)
  | off _ _ hcan hs =>
    refine ⟨fun _ => .inl (hs.toOff (beq_iff_eq.mp hcan)), fun hend => ?_⟩
    rw [hs.stage] at hend
    cases hend
  | noOff _ hstage hcan => exact absurd (Graph.aborting_of_canSetState hcan) (hok hstage)
  | ended hmain hstage =>
    refine ⟨fun hto => (by cases hto), fun _ => ⟨?_, h.killed_or_gone hstage rfl⟩⟩
    split <;> exact hmain
  | finished hmain =>
    obtain ⟨hend, hto⟩ := h.busy_toOff (hbusy hmain (by simp))
    refine ⟨fun ht => ?_, fun he => absurd he hend⟩
    unfold finish
    split
    · rename_i hfin
      exact .inr (gone_of_finished hoff h.inv h.attended h.watched (hto ht) hfin
        (by rw [hmain]; rfl))
    · exact .inl (hto ht)
  | redirected hmain _ hundef =>
    exact absurd hundef (state_finish (h.inv.busy (hbusy hmain (by simp))))
  | updated hmain | queued hmain | dropped hmain | pushed hmain =>
    obtain ⟨hend, hto⟩ := h.busy_toOff (hbusy hmain (by simp))
    exact ⟨fun ht => .inl (hto ht), fun he => absurd he hend⟩
  | pushTimeout => exact h.toClosing
  | pushFailed => exact hok.elim
  | _ => exact h.closing_threads rfl hs

theorem OffInv.step (h : OffInv g c s) (hg : g.WellFormed) (hac : g.Acyclic)
    (hoff : ∀ k, g.Reaches c.off k → g.value? k ≠ some .processInfoNode) (hok : undisturbed s a)
    (hs : Daemon.step c s a = some s') : OffInv g c s' := by
  refine ⟨h.closing hoff hok hs, step_inv hg hac h.inv hok.pushesSettle hs,
    step_attended h.inv hok.pushesSettle hs ?_ h.attended,
    step_watched h.inv hok.pushesSettle hs ?_ h.attended h.watched⟩
  · rintro w timeout rfl
    exact hok
  · rintro rfl
    exact hok

end Steps

section Results
variable [Inhabited Key]

/-- The run target `2` needs the processes `0` and `1`; `3` is Off and `4` the fallback. -/
@[irreducible] def pairGraph : DependencyGraph Nat Component :=
  (DependencyGraph.build 5 [(0, .processInfoNode), (1, .processInfoNode), (2, .runTarget),
    (3, .runTarget), (4, .runTarget)] [(2, 0), (2, 1)]).get (by decide +kernel)

theorem pairGraph_wellFormed : pairGraph.WellFormed := by
  unfold pairGraph
  exact DependencyGraph.wellFormed_build (by decide) (by decide) (Option.some_get _).symm

end Results

end Daemon

end LaunchManager
