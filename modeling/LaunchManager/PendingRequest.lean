import LaunchManager.PushErrors

/-!
# The slot for the next run target

Recovery and requests share one slot, which is read when the graph has come to
rest. After a supervision failure the next transition goes to the fallback
unless another run target is accepted first; between failures the graph settles
in the run target that was asked for last.
-/

namespace LaunchManager

set_option autoImplicit false

universe u

namespace Control
variable {Key : Type u}

/-- Nothing waits in the slot during a transition, and nothing that the graph is already at. -/
structure Orderly (C : Control Key) : Prop where
  moving : C.state = .inTransition → C.pending.runTarget = none
  away : ∀ rt, C.pending.runTarget = some rt → ¬ C.At rt

/-- What has become of the last request: it is in the slot, or the graph is in its run target or
on the way to it. -/
def Heeds (C : Control Key) (last : Option Key) : Prop :=
  ∀ rt, last = some rt → C.pending.runTarget = some rt ∨ C.pending.runTarget = none ∧ C.At rt

section Heeds
variable {C : Control Key} {last : Option Key} {rt : Key} {source : RunTargetActivationSource}

theorem not_at (hmoving : C.state ≠ .inTransition) (hdone : C.state ≠ .success) : ¬ C.At rt := by
  rintro ⟨hst | hst, -⟩
  · exact hmoving hst
  · exact hdone hst

theorem orderly_of_given_up (hmoving : C.state ≠ .inTransition) (hdone : C.state ≠ .success) :
    C.Orderly :=
  ⟨fun hst => absurd hst hmoving, fun _ _ => not_at hmoving hdone⟩

theorem orderly_of_empty (hslot : C.pending.runTarget = none) : C.Orderly := by
  refine ⟨fun _ => hslot, fun rt hrt => ?_⟩
  rw [hslot] at hrt
  cases hrt

theorem orderly_fail (C : Control Key) (last : Bool) : (C.fail last).Orderly :=
  orderly_of_given_up (C.fail_state_ne last) (C.fail_not_success last)

theorem orderly_halt (C : Control Key) : C.halt.Orderly :=
  orderly_of_given_up (stateResults_ne_inTransition (by simp) _) C.halt_not_success

theorem orderly_accept (hat : ¬ C.At rt) (source : RunTargetActivationSource) (busy : Bool) :
    (C.accept rt source busy).Orderly where
  moving := fun hin => absurd hin (C.accept_state_ne rt source busy)
  away := by
    rw [pending_accept]
    rintro rt' ⟨⟩
    exact accept_not_at hat source busy

theorem heeds_none (C : Control Key) : C.Heeds none := nofun

theorem heeds_accept (C : Control Key) (rt : Key) (source : RunTargetActivationSource)
    (busy : Bool) : (C.accept rt source busy).Heeds (some rt) := by
  rintro rt' ⟨⟩
  rw [pending_accept]
  exact .inl rfl

theorem heeds_answered (hslot : C.pending.runTarget = none) (hat : C.At rt) :
    C.Heeds (some rt) := by
  rintro rt' ⟨⟩
  exact .inr ⟨hslot, hat⟩

theorem Heeds.halt (h : C.Heeds last) (hst : C.state = .aborting) : C.halt.Heeds last := by
  intro rt hrt
  rcases h rt hrt with hslot | ⟨-, hat⟩
  · exact .inl hslot
  · exact absurd hat (not_at (by rw [hst]; simp) (by rw [hst]; simp))

theorem state_startTransition (hst : C.state ≠ .aborting) :
    (C.startTransition rt source).state = .inTransition := by
  cases hC : C.state <;> simp_all [startTransition, setState, stateResults]

theorem heeds_startTransition (hslot : C.pending.runTarget = none) (hst : C.state ≠ .aborting)
    (hlast : ∀ rt', last = some rt' → rt' = rt) : (C.startTransition rt source).Heeds last := by
  intro rt' hrt'
  rw [hlast rt' hrt']
  exact .inr ⟨hslot, .inl (state_startTransition hst), rfl⟩

theorem Heeds.take (h : C.Heeds last) (horder : C.Orderly) (hst : C.state = .success)
    (hpending : ∀ rt, C.pending.runTarget = some rt → C.requestedState = some rt) :
    C.take.Heeds last := by
  intro rt hrt
  rcases h rt hrt with hslot | ⟨-, hat⟩
  · exact absurd ⟨.inr hst, hpending rt hslot⟩ (horder.away rt hslot)
  · exact .inr ⟨rfl, hat⟩

theorem Heeds.finalize (h : C.Heeds last) (horder : C.Orderly) (hst : C.state = .inTransition) :
    C.finalize.Heeds last := by
  have hstate : C.finalize.state = .success := by
    simp [Control.finalize, setState, stateResults, hst]
  intro rt hrt
  rcases h rt hrt with hslot | ⟨hslot, hat⟩
  · rw [horder.moving hst] at hslot
    cases hslot
  · exact .inr ⟨hslot, .inr hstate, hat.2⟩

end Heeds

end Control

namespace Daemon
variable {Key : Type u} [DecidableEq Key]

section Fallback
variable {c : Config Key} {s s' : Daemon Key} {a : Act Key}

/-- A request for another run target than the fallback is accepted, or the shutdown begins. -/
def contests (c : Config Key) (s : Daemon Key) : Act Key → Bool
  | .shutdown => true
  | a =>
    match s.heard a with
    | .requested rt none => rt != c.fallback
    | _ => false

def Uncontested (c : Config Key) (s : Daemon Key) (a : Act Key) : Prop := s.contests c a = false

/-- The fallback is in the slot and nothing keeps the main loop from starting it, once the jobs
of a cancelled transition have ended. -/
structure Awaiting (c : Config Key) (s : Daemon Key) : Prop where
  stage : s.stage = .running
  main : s.main = .idle
  slot : s.graph.pending.runTarget = some c.fallback
  away : ¬ s.control.At c.fallback
  halted : s.graph.state ≠ .inTransition

theorem Uncontested.eq_fallback {rt : Key} (h : Uncontested c s a)
    (ho : s.observe a s' = .requested rt none) : rt = c.fallback := by
  have hheard := heard_of_observe ho
  cases a with
  | shutdown => cases h
  | _ =>
    rw [Uncontested, contests] at h
    · simpa [hheard] using h
    · nofun

theorem Awaiting.step (h : Awaiting c s) (hok : Uncontested c s a)
    (hs : Daemon.step c s a = some s') :
    (Awaiting c s' ∧ s'.graph.transitions = s.graph.transitions) ∨
    (s'.graph.transitions = s.graph.transitions + 1 ∧
      s'.graph.transition.targetRoot = c.fallback ∧
      s'.graph.requestedState = some c.fallback) := by
  have heff := step_effect hs
  generalize ho : s.observe a s' = o at heff
  obtain ⟨hstage, hmain, hslot, haway, hhalted⟩ := h
  -- a change of state by itself does not bring the graph into the fallback
  have hkeep : ∀ C : Control Key, s'.control = C → C.pending.runTarget = some c.fallback →
      C.state ≠ .inTransition → (C.state = .success → C.requestedState ≠ some c.fallback) →
      s'.stage = .running → s'.main = .idle → C.transitions = s.graph.transitions →
      Awaiting c s' ∧ s'.graph.transitions = s.graph.transitions := by
    rintro C rfl hslot' hst hsucc hstage' hmain' hcount
    refine ⟨⟨hstage', hmain', hslot', ?_, hst⟩, hcount⟩
    rintro ⟨hin | hdone, hreq⟩
    · exact hst hin
    · exact hsucc hdone hreq
  have hnotin : s.graph.state = .success → s.graph.requestedState ≠ some c.fallback :=
    fun hdone hreq => haway ⟨.inr hdone, hreq⟩
  have hfail : ∀ last, s'.control = s.control.fail last → s'.stage = s.stage → s'.main = .idle →
      Awaiting c s' ∧ s'.graph.transitions = s.graph.transitions := by
    intro last hcontrol hstage' hmain'
    refine hkeep _ hcontrol ?_ (Control.fail_state_ne _ last) ?_ (hstage'.trans hstage) hmain'
      (s.control.transitions_fail last)
    · rw [Control.pending_fail]
      exact hslot
    · exact fun hdone => absurd hdone (s.control.fail_not_success last)
  cases heff with
  | none hcontrol hstage' hmain' =>
    refine .inl (hkeep _ hcontrol hslot hhalted hnotin ?_ (hmain' hmain hhalted) rfl)
    rcases hstage' with heq | ⟨hoff, -⟩
    · exact heq.trans hstage
    · rw [hstage] at hoff
      cases hoff
  | halted hst hjob hstage' hmain' hcontrol =>
    refine .inl (hkeep _ hcontrol hslot ?_ ?_ (hstage'.trans hstage) hmain'.2 rfl)
    · exact stateResults_ne_inTransition (by simp) _
    · exact fun hdone => absurd hdone s.control.halt_not_success
  | failed last hstage' hmain' hcontrol => exact .inl (hfail last hcontrol hstage' (hmain' hmain))
  | terminated last hstage' hmain' hcontrol => exact .inl (hfail last hcontrol hstage' hmain')
  | recovered hstage' hmain' hat hcontrol => exact absurd hat haway
  | recovering hstage' hmain' hat hcontrol =>
    rw [Control.accept, if_neg (by exact hhalted)] at hcontrol
    exact .inl (hkeep _ hcontrol rfl hhalted hnotin hstage'.2 hmain'.2 rfl)
  | refused rt e hstage' hmain' he hcontrol =>
    exact .inl (hkeep _ hcontrol hslot hhalted hnotin hstage'.2 hmain' rfl)
  | accepted rt hstage' hmain' hvalid hat hcontrol =>
    rw [Control.accept, if_neg (by exact hhalted), hok.eq_fallback ho] at hcontrol
    exact .inl (hkeep _ hcontrol rfl hhalted hnotin hstage'.2 hmain'.2 rfl)
  | initial _ _ hstage' | unknown _ _ hstage' | off _ hstage' | noOff hstage' =>
    rw [hstage] at hstage'
    cases hstage'.1
  | taken hstage' hst hmain' hpending hcontrol =>
    exact absurd ⟨.inr hst, hpending _ hslot⟩ haway
  | pending rt hmain' hstage' hst hpending hcontrol =>
    cases hpending.symm.trans hslot
    refine .inr ⟨congrArg Control.transitions hcontrol, ?_, ?_⟩
    · exact (started_of_observe ho).2
    · exact congrArg Control.requestedState hcontrol
  | fallback hmain' hstage' hst hpending hcontrol =>
    rw [hslot] at hpending
    cases hpending
  | redirected C hstage' hst hmain' hC hundef hcontrol => exact absurd hmain hmain'
  | completed hst hfin hstage' hmain' hcontrol => exact absurd hst hhalted
  | reported hst hfin hstage' hmain' hcontrol => exact absurd hmain hmain'.1
  | shutdown ha hstage' hcontrol =>
    subst ha
    cases hok

theorem Awaiting.run {t : Daemon Key} (h : Awaiting c s)
    (hrun : Runs.Run (Daemon.step c) (Uncontested c) s t) :
    s.graph.transitions ≤ t.graph.transitions ∧
      (t.graph.transitions = s.graph.transitions → Awaiting c t) := by
  induction hrun with
  | refl => exact ⟨Nat.le_refl _, fun _ => h⟩
  | @tail t u a _ hok hs ih =>
    have hmono : t.graph.transitions ≤ u.graph.transitions := by
      rcases step_transitions hs with heq | heq <;> omega
    refine ⟨ih.1.trans hmono, fun heq => ?_⟩
    have hsame : t.graph.transitions = s.graph.transitions := by omega
    rcases (ih.2 hsame).step hok hs with ⟨hwait, -⟩ | ⟨hmore, -⟩
    · exact hwait
    · omega

/-- After a supervision failure the next transition goes to the fallback, unless another run target
is accepted or the shutdown begins before. -/
theorem fallback_started_next {s₀ s₁ s₂ s₃ : Daemon Key} {p : Key} {rest : List (Queued Key)}
    (hstage : s₀.stage = .running) (haway : ¬ s₀.control.At c.fallback)
    (hfailure : s₀.events = .notice (.supervisionFailure p) :: rest ∧
      Daemon.step c s₀ .handleEvent = some s₁)
    (hrun : Runs.Run (Daemon.step c) (Uncontested c) s₁ s₂)
    (hnone : s₂.graph.transitions = s₁.graph.transitions)
    (hok : Uncontested c s₂ a) (hstep : Daemon.step c s₂ a = some s₃)
    (hstart : s₃.graph.transitions ≠ s₂.graph.transitions) :
    s₃.graph.transition.targetRoot = c.fallback ∧
      s₃.graph.requestedState = some c.fallback := by
  have hwaiting : Awaiting c s₁ := by
    simp only [Daemon.step, hfailure.1] at hfailure
    obtain ⟨⟨hmain, -⟩, hone⟩ := Option.ite_none_right_eq_some.mp hfailure.2
    have hheed := handleOne_heed (s := { s₀ with events := rest }) (n := .supervisionFailure p)
      hmain (by rintro k ⟨⟩) hone
    have hgraph : s₁.graph = handleRecoveryRequest c s₀.graph := by
      rw [hheed]
      exact if_pos hstage
    obtain ⟨-, hcontrol⟩ := (handleRecoveryRequest_control c s₀.graph).resolve_left
      fun hat => haway hat.1
    rw [← hgraph] at hcontrol
    refine ⟨?_, ?_, ?_, ?_, ?_⟩
    · rw [hheed]
      exact hstage
    · rw [hheed]
      exact hmain
    · rw [show s₁.graph.pending = _ from congrArg Control.pending hcontrol, Control.pending_accept]
    · rw [show s₁.control = _ from hcontrol]
      exact Control.accept_not_at haway _ _
    · rw [show s₁.graph.state = _ from congrArg Control.state hcontrol]
      exact Control.accept_state_ne _ _ _ _
  rcases ((hwaiting.run hrun).2 hnone).step hok hstep with ⟨-, heq⟩ | ⟨-, htarget⟩
  · exact absurd heq hstart
  · exact htarget

@[irreducible] def recoveringSample : Daemon Nat :=
  (step ⟨2, 3⟩ handledSample .processGroupHandler).get (by decide +kernel)

theorem recoveringSample_eq :
    step ⟨2, 3⟩ handledSample .processGroupHandler = some recoveringSample := by
  unfold recoveringSample
  exact (Option.some_get _).symm

theorem fallback_started_next_sample :
    ¬ failedSample.control.At 3 ∧ recoveringSample.graph.transitions = 2 ∧
      recoveringSample.graph.transition.targetRoot = 3 := by
  have haway : ¬ failedSample.control.At 3 := by decide +kernel
  have hev : failedSample.events = [.notice (.supervisionFailure 0)] := by decide +kernel
  have hcount : handledSample.graph.transitions = 1 := by decide +kernel
  have hcount' : recoveringSample.graph.transitions = 2 := by decide +kernel
  have hne : recoveringSample.graph.transitions ≠ handledSample.graph.transitions := by
    rw [hcount, hcount']
    decide
  have hok : Uncontested ⟨2, 3⟩ handledSample .processGroupHandler := rfl
  exact ⟨haway, hcount', (fallback_started_next (c := ⟨2, 3⟩) (by decide +kernel) haway
    ⟨hev, handledSample_eq⟩ (.refl _) rfl hok recoveringSample_eq hne).1⟩

@[irreducible] def overtakenSample : Daemon Nat :=
  (Runs.exec (step ⟨2, 3⟩) Runs.anyStep handledSample
    [.post (.setRequestedRunTarget 2), .handleEvent]).get (by decide +kernel)

theorem overtakenSample_run :
    Runs.Run (step ⟨2, 3⟩) Runs.anyStep handledSample overtakenSample := by
  unfold overtakenSample
  exact Runs.Run.of_exec (Option.some_get _).symm

@[irreducible] def divertedSample : Daemon Nat :=
  (step ⟨2, 3⟩ overtakenSample .processGroupHandler).get (by decide +kernel)

theorem divertedSample_eq :
    step ⟨2, 3⟩ overtakenSample .processGroupHandler = some divertedSample := by
  unfold divertedSample
  exact (Option.some_get _).symm

theorem request_overtakes_recovery :
    ∃ s₀ s₁ s₂ s₃, Runs.Run (step ⟨2, 3⟩) pushesSettle (init sampleGraph) s₀ ∧
      s₀.stage = .running ∧ ¬ s₀.control.At 3 ∧
      s₀.events = [.notice (.supervisionFailure 0)] ∧
      step ⟨2, 3⟩ s₀ .handleEvent = some s₁ ∧ Runs.Run (step ⟨2, 3⟩) Runs.anyStep s₁ s₂ ∧
      s₂.graph.transitions = s₁.graph.transitions ∧
      step ⟨2, 3⟩ s₂ .processGroupHandler = some s₃ ∧
      s₃.graph.transitions = s₂.graph.transitions + 1 ∧
      s₃.graph.transition.targetRoot = 2 := by
  exact ⟨failedSample, handledSample, overtakenSample, divertedSample, failedSample_run,
    by decide +kernel, by decide +kernel, by decide +kernel, handledSample_eq,
    overtakenSample_run, by decide +kernel, divertedSample_eq, by decide +kernel,
    by decide +kernel⟩

end Fallback

section Requests
variable {g : DependencyGraph Key Component} {c : Config Key} {s s' : Daemon Key} {a : Act Key}
variable {last : Option Key}

/-- The run target that was asked for last since the last failure. -/
def lastRequest (s : Daemon Key) (a : Act Key) (s' : Daemon Key) (last : Option Key) :
    Option Key :=
  match s.observe a s' with
  | .requested rt answer => if answer = some .runTargetDoesntExist then last else some rt
  | .failed | .terminated | .supervisionFailed => none
  | .silent | .started _ _ | .completed => last

/-- A request names the run target that the graph is in while another one waits in the slot. -/
def contradicts (s : Daemon Key) : Act Key → Bool
  | .handleEvent =>
    match s.events.head? with
    | some (.notice (.setRequestedRunTarget rt)) =>
      s.graph.state == .success && s.graph.requestedState == some rt &&
        s.graph.pending.runTarget.isSome
    | _ => false
  | _ => false

def Consistent (p : Daemon Key × Option Key) (a : Act Key) : Prop :=
  failsAlone p.1 a ∧ p.1.contradicts a = false

instance (p : Daemon Key × Option Key) (a : Act Key) : Decidable (Consistent p a) :=
  inferInstanceAs (Decidable (_ ∧ _))

def Attentive (s : Daemon Key) : Prop := s.stage = .initial ∨ s.stage = .running

/-- The slot is empty before the initial transition and in the loop over the ready nodes. -/
structure Orderly (s : Daemon Key) : Prop where
  control : s.control.Orderly
  fresh : s.stage = .initial → s.control.pending.runTarget = none
  looping : s.main ≠ .idle → s.control.pending.runTarget = none

/-- The last request is heeded; after a failed push the loop goes on without one. -/
structure Heeded (g : DependencyGraph Key Component) (s : Daemon Key) (last : Option Key) :
    Prop where
  control : s.control.Heeds last
  fresh : s.stage = .initial → last = none
  known : ∀ rt, last = some rt → g.value? rt = some .runTarget
  looping : s.main ≠ .idle → s.control.state ≠ .inTransition → last = none

variable {rt : Key} {answer : Option ExecErrc}

theorem heard_requested (h : s.heard a = .requested rt answer) :
    a = .handleEvent ∧ s.events.head? = some (.notice (.setRequestedRunTarget rt)) := by
  cases a with
  | handleEvent =>
    refine ⟨rfl, ?_⟩
    simp only [heard] at h
    split at h
    · split at h <;> cases h
    · cases h
    · split at h <;> cases h
    · rename_i rt' hhead
      split at h
      · cases h
        exact hhead
      · cases h
    · cases h
    · cases h
  | _ => cases h

theorem slot_of_answered (h : s.control.Orderly)
    (hok : s.contradicts a = false) (ho : s.observe a s' = .requested rt answer)
    (hat : s.control.At rt) : s.control.pending.runTarget = none := by
  obtain ⟨hst | hst, hreq⟩ := hat
  · exact h.moving hst
  · obtain ⟨rfl, hhead⟩ := heard_requested (heard_of_observe ho)
    have hst' : s.graph.state = .success := hst
    have hreq' : s.graph.requestedState = some rt := hreq
    have hslot : s.graph.pending.runTarget = none := by
      simpa [contradicts, hhead, hst', hreq'] using hok
    exact hslot

theorem isValidRunTarget_iff (hshape : DependencyGraph.SameShape g s.graph.transition.graph)
    (rt : Key) : s.graph.isValidRunTarget rt = true ↔ g.value? rt = some .runTarget := by
  rw [Graph.isValidRunTarget, value?_of_kind hshape]
  exact beq_iff_eq

theorem Sound.shape (h : Sound g s) : DependencyGraph.SameShape g s.graph.transition.graph := by
  rcases h with h | ⟨target, active₀, dropped, stopped, started, h⟩
  · exact h.shape
  · exact h.inPhase.informed.shape

theorem Sound.inv_or_given_up (h : Sound g s) : Inv g s ∨ s.graph.state = .undefinedState ∧
    s.stage ≠ .initial ∧ s.graph.transition.isFinished = false := by
  rcases h with h | ⟨target, active₀, dropped, stopped, started, h⟩
  · exact .inl h
  · refine .inr ⟨h.state, h.stage.1, ?_⟩
    simpa [Transition.isFinished] using h.inPhase.not_done_of_flying h.dropped_ne

theorem Sound.inv_of_initial (h : Sound g s) (hstage : s.stage = .initial) : Inv g s :=
  h.inv_or_given_up.resolve_right fun hu => hu.2.1 hstage

theorem Sound.not_finished (h : Sound g s) (hmain : s.main ≠ .idle)
    (hst : s.graph.state ≠ .inTransition) : s.graph.transition.isFinished = false :=
  (h.inv_or_given_up.resolve_left fun hi => hst (hi.busy hmain)).2.2

theorem Orderly.step (h : s.Orderly) (hs : Daemon.step c s a = some s') (hopen : s'.Attentive) :
    s'.Orderly := by
  have heff := step_effect hs
  generalize s.observe a s' = o at heff
  obtain ⟨hcontrol, hfresh, hloop⟩ := h
  have hrunning : s'.stage = .running → s'.main = .idle → s'.control.Orderly → s'.Orderly := by
    intro hstage hmain hC
    refine ⟨hC, fun hi => ?_, fun hbusy => absurd hmain hbusy⟩
    rw [hstage] at hi
    cases hi
  have hempty : s'.control.pending.runTarget = none → s'.Orderly :=
    fun hslot => ⟨Control.orderly_of_empty hslot, fun _ => hslot, fun _ => hslot⟩
  have hlater : s'.stage ≠ .initial ∧ s'.stage ≠ .running → s'.Orderly :=
    fun hne => absurd hopen (not_or.mpr hne)
  cases heff with
  | none heq hstage hmain =>
    rw [← heq] at hcontrol hfresh hloop
    refine ⟨hcontrol, fun hi => ?_, fun hbusy => ?_⟩
    · rcases hstage with hstage | ⟨-, hstage⟩
      · exact hfresh (hstage ▸ hi)
      · rw [hi] at hstage
        cases hstage
    · by_cases hidle : s.main = .idle
      · by_cases hst : s.graph.state = .inTransition
        · exact hcontrol.moving ((congrArg Control.state heq).trans hst)
        · exact absurd (hmain hidle hst) hbusy
      · exact hloop hidle
  | halted hst hjob hstage hmain heq =>
    refine ⟨heq ▸ s.control.orderly_halt, fun hi => ?_, fun hbusy => absurd hmain.2 hbusy⟩
    rw [heq]
    exact hfresh (hstage ▸ hi)
  | failed last hstage hmain heq =>
    have hpending := s.control.pending_fail last
    rw [← heq] at hpending
    refine ⟨heq ▸ s.control.orderly_fail last, fun hi => ?_, fun hbusy => ?_⟩
    · rw [hpending]
      exact hfresh (hstage ▸ hi)
    · rw [hpending]
      exact hloop fun hidle => hbusy (hmain hidle)
  | terminated last hstage hmain heq =>
    refine ⟨heq ▸ s.control.orderly_fail last, fun hi => ?_, fun hbusy => absurd hmain hbusy⟩
    rw [heq, Control.pending_fail]
    exact hfresh (hstage ▸ hi)
  | recovered hstage hmain _ heq | refused _ _ hstage hmain _ heq =>
    exact hrunning hstage.2 hmain (heq ▸ hcontrol)
  | recovering hstage hmain hat heq | accepted _ hstage hmain _ hat heq =>
    exact hrunning hstage.2 hmain.2 (heq ▸ Control.orderly_accept hat _ _)
  | initial _ _ hstage _ heq | unknown _ _ hstage _ heq => exact hempty (heq ▸ hfresh hstage.1)
  | taken _ _ _ _ heq | pending _ _ _ _ _ heq | fallback _ _ _ _ heq => exact hempty (heq ▸ rfl)
  | redirected C hstage hst hmain hC hundef heq =>
    refine hempty (heq ▸ ?_)
    rcases hC with rfl | ⟨-, rfl⟩ <;> exact hloop hmain
  | completed hst hfin hstage hmain heq => exact hempty (heq ▸ hcontrol.moving hst)
  | reported hst hfin hstage hmain heq => exact hempty (heq ▸ hloop hmain.1)
  | shutdown ha hstage heq => exact hlater (by rcases hstage.2 with h | h <;> rw [h] <;> simp)
  | off _ hstage | noOff hstage => exact hlater (by rw [hstage.2]; simp)

theorem Heeded.step (h : Heeded g s last) (hsound : Sound g s) (horder : s.Orderly)
    (hok : s.contradicts a = false) (hs : Daemon.step c s a = some s') (hopen : s'.Attentive) :
    Heeded g s' (lastRequest s a s' last) := by
  have heff := step_effect hs
  unfold lastRequest
  generalize ho : s.observe a s' = o at heff
  obtain ⟨hcontrol, hfresh, hknown, hloop⟩ := h
  have hvalid := isValidRunTarget_iff hsound.shape
  have hforgotten : Heeded g s' none := ⟨Control.heeds_none _, fun _ => rfl, nofun, fun _ _ => rfl⟩
  have hidle : ∀ last', s'.stage = .running → s'.main = .idle → s'.control.Heeds last' →
      (∀ rt, last' = some rt → g.value? rt = some .runTarget) → Heeded g s' last' := by
    intro last' hstage hmain hC hknown'
    refine ⟨hC, fun hi => ?_, hknown', fun hbusy => absurd hmain hbusy⟩
    rw [hstage] at hi
    cases hi
  cases heff with
  | none heq hstage hmain =>
    refine ⟨heq ▸ hcontrol, fun hi => ?_, hknown, fun hbusy hne => ?_⟩
    · rcases hstage with hstage | ⟨-, hstage⟩
      · exact hfresh (hstage ▸ hi)
      · rw [hi] at hstage
        cases hstage
    · rw [heq] at hne
      exact hloop (fun hidle => hbusy (hmain hidle hne)) hne
  | halted hst hjob hstage hmain heq =>
    have habort := ((hsound.inv_of_idle hmain.1).state_of_outstanding hmain.1 hjob).resolve_left hst
    exact ⟨heq ▸ hcontrol.halt habort, fun hi => hfresh (hstage ▸ hi), hknown,
      fun hbusy => absurd hmain.2 hbusy⟩
  | failed | terminated | recovered | recovering => exact hforgotten
  | refused rt e hstage hmain he heq =>
    by_cases hnone : e = .runTargetDoesntExist
    · subst hnone
      exact hidle last hstage.2 hmain (heq ▸ hcontrol) hknown
    · obtain ⟨hrt, hat⟩ := he.resolve_left hnone
      have hslot := slot_of_answered horder.control hok ho hat
      simp only [Option.some.injEq, if_neg hnone]
      refine hidle _ hstage.2 hmain (heq ▸ Control.heeds_answered hslot hat) ?_
      rintro rt' ⟨⟩
      exact (hvalid rt).mp hrt
  | accepted rt hstage hmain hrt hat heq =>
    refine hidle _ hstage.2 hmain.2 (heq ▸ s.control.heeds_accept rt _ _) ?_
    rintro rt' ⟨⟩
    exact (hvalid rt).mp hrt
  | initial _ _ hstage | unknown _ _ hstage =>
    obtain rfl := hfresh hstage.1
    exact hforgotten
  | taken hstage hst hmain hpending heq =>
    exact hidle last hstage.2 hmain (heq ▸ hcontrol.take horder.control hst hpending) hknown
  | pending rt hmain hstage hst hpending heq =>
    have hlast : ∀ rt', last = some rt' → rt' = rt := by
      intro rt' hrt'
      rcases hcontrol rt' hrt' with hslot | ⟨hslot, -⟩
      · exact Option.some.inj (hslot.symm.trans hpending)
      · exact absurd (hslot.symm.trans hpending) nofun
    have hne : s.control.take.state ≠ .aborting := by
      change s.graph.state ≠ .aborting
      rcases hst with hst | ⟨hst, -⟩ <;> rw [hst] <;> simp
    refine ⟨heq ▸ Control.heeds_startTransition rfl hne hlast, fun hi => ?_, hknown,
      fun _ hout => ?_⟩
    · rw [hstage.2] at hi
      cases hi
    · rw [heq] at hout
      exact absurd (Control.state_startTransition hne) hout
  | fallback hmain hstage hst hpending heq =>
    obtain rfl : last = none := by
      cases hl : last with
      | none => rfl
      | some rt =>
        rcases hcontrol rt hl with hslot | ⟨-, hat⟩
        · exact absurd (hslot.symm.trans hpending) nofun
        · exact absurd hat (Control.not_at (by simp [show s.control.state = _ from hst])
            (by simp [show s.control.state = _ from hst]))
    exact hforgotten
  | redirected C hstage hst hmain hC hundef heq =>
    obtain rfl := hloop hmain hst
    exact hforgotten
  | completed hst hfin hstage hmain heq =>
    exact ⟨heq ▸ hcontrol.finalize horder.control hst, fun hi => hfresh (hstage ▸ hi), hknown,
      fun hbusy => absurd hmain.2 hbusy⟩
  | reported hst hfin hstage hmain heq =>
    rw [hsound.not_finished hmain.1 hst] at hfin
    cases hfin
  | shutdown _ hstage | off _ hstage | noOff hstage =>
    rcases hopen with hstage' | hstage' <;> rw [hstage'] at hstage <;> simp at hstage

theorem attentive_of_step (hs : Daemon.step c s a = some s') (h : s'.Attentive) : s.Attentive := by
  rcases step_stage hs with heq | ⟨hi, -⟩ | ⟨-, hlate⟩ | hlate | hlate
  · rwa [Attentive, ← heq]
  · exact .inl hi
  all_goals rcases h with h | h <;> rw [h] at hlate <;> cases hlate

theorem run_orderly [Inhabited Key] {ok : Daemon Key → Act Key → Prop}
    (hrun : Runs.Run (Daemon.step c) ok (init g) s) : s.Attentive → s.Orderly := by
  refine hrun.invariant (fun s => s.Attentive → s.Orderly) (fun {t u a} hi _ hs hopen => ?_)
    fun _ => ?_
  · exact (hi (attentive_of_step hs hopen)).step hs hopen
  · exact ⟨Control.orderly_of_empty rfl, fun _ => rfl, fun _ => rfl⟩

theorem run_heeded [Inhabited Key] (hg : g.WellFormed) (hac : g.Acyclic)
    (hrun : Runs.Run (Runs.recorded (Daemon.step c) lastRequest) Consistent (init g, none)
      (s, last)) : s.Attentive → Heeded g s last := by
  have hall : Sound g s ∧ (s.Attentive → s.Orderly) ∧ (s.Attentive → Heeded g s last) := by
    refine hrun.invariant (fun p => Sound g p.1 ∧ (p.1.Attentive → p.1.Orderly) ∧
      (p.1.Attentive → Heeded g p.1 p.2)) (fun {p q a} hi hok hs => ?_)
      ⟨?_, fun _ => ?_, fun _ => ?_⟩
    · obtain ⟨hsound, horder, hheeded⟩ := hi
      obtain ⟨hstep, hnote⟩ := Runs.Run.of_recorded hs
      refine ⟨hsound.step hg hac hok.1 hstep, fun hopen => ?_, fun hopen => ?_⟩
      · exact (horder (attentive_of_step hstep hopen)).step hstep hopen
      · have hbefore := attentive_of_step hstep hopen
        rw [hnote]
        exact (hheeded hbefore).step hsound (horder hbefore) hok.2 hstep hopen
    · exact .inl (init_inv hg)
    · exact ⟨Control.orderly_of_empty rfl, fun _ => rfl, fun _ => rfl⟩
    · exact ⟨Control.heeds_none _, fun _ => rfl, nofun, fun _ _ => rfl⟩
  exact hall.2.2

theorem Inv.start_waiting (h : Inv g s) (hg : g.WellFormed) (hstage : s.stage = .running)
    (hmain : s.main = .idle) (hrest : s.outstanding = [])
    (hslot : s.graph.pending.runTarget = some rt) (haway : ¬ s.control.At rt)
    (hrt : g.value? rt = some .runTarget) (c : Config Key) :
    ∃ s', Daemon.step c s .processGroupHandler = some s' ∧
      s'.graph.state = .inTransition ∧ s'.graph.requestedState = some rt ∧
      s'.graph.transitions = s.graph.transitions + 1 := by
  have hst := (h.quiet hmain).mp hrest
  have hvalid := (isValidRunTarget_iff h.shape rt).mpr hrt
  have hne : s.graph.state ≠ .aborting := by rcases hst with hst | hst <;> rw [hst] <;> simp
  have hcond : s.graph.requestedState ≠ some rt ∨ s.graph.state = .undefinedState := by
    rcases hst with hst | hst
    · exact .inl fun hreq => haway ⟨.inr hst, hreq⟩
    · exact .inr hst
  obtain ⟨t, hcreate, -⟩ := createTransition_of_valid h.object hg h.shape hvalid
  rw [Daemon.step, if_pos ⟨hmain, hstage⟩, Daemon.processGroupHandler, if_pos hst]
  simp only [hslot, if_pos hcond, startAsserted, Daemon.startTransition, Graph.startTransition]
  rw [if_pos (by exact hvalid), if_pos (by exact hvalid),
    Graph.setState_inTransition (by exact hne)]
  exact ⟨_, congrArg (Option.map _) (congrArg (Option.map _) hcreate), rfl, rfl, rfl⟩

/-- As long as nothing fails, the last request waits in the slot or is heeded. -/
theorem last_request_wins [Inhabited Key] (hg : g.WellFormed) (hac : g.Acyclic) {rt : Key}
    (hrun : Runs.Run (Runs.recorded (Daemon.step c) lastRequest) Consistent (init g, none)
      (s, some rt)) (hstage : s.stage = .running) (hmain : s.main = .idle) :
    (s.graph.pending.runTarget = some rt ∨
      s.graph.pending.runTarget = none ∧ s.graph.requestedState = some rt ∧
        (s.graph.state = .inTransition ∨ s.graph.state = .success)) ∧
    (s.outstanding = [] →
      s.graph.state = .success ∧ s.graph.requestedState = some rt ∧
        s.graph.pending.runTarget = none ∨
      ∃ s', Daemon.step c s .processGroupHandler = some s' ∧ s'.graph.state = .inTransition ∧
        s'.graph.requestedState = some rt ∧ s'.graph.transitions = s.graph.transitions + 1) := by
  have hforget : Runs.Run (Daemon.step c) failsAlone (init g) s :=
    hrun.forget (fun _ _ hok => hok.1)
  have hinv := (run_sound hg hac hforget).inv_of_idle hmain
  have horder := run_orderly hforget (Or.inr hstage)
  have h := run_heeded hg hac hrun (Or.inr hstage)
  rcases h.control rt rfl with hslot | ⟨hslot, hst, hreq⟩
  · refine ⟨Or.inl hslot, fun hrest => Or.inr ?_⟩
    exact hinv.start_waiting hg hstage hmain hrest hslot (horder.control.away rt hslot)
      (h.known rt rfl) c
  · refine ⟨Or.inr ⟨hslot, hreq, hst⟩, fun hrest => Or.inl ⟨?_, hreq, hslot⟩⟩
    rcases hst with hst | hst
    · have hbad := (hinv.quiet hmain).mp hrest
      rw [show s.graph.state = .inTransition from hst] at hbad
      simp at hbad
    · exact hst

def untilAccepted : List (Act Nat) :=
  untilFailure.dropLast ++ ([.post (.setRequestedRunTarget 2), .handleEvent] : List (Act Nat))

@[irreducible] def acceptedSample : Daemon Nat × Option Nat :=
  (Runs.exec (Runs.recorded (step ⟨2, 3⟩) lastRequest) Consistent (init sampleGraph, none)
    untilAccepted).get (by decide +kernel)

theorem acceptedSample_run :
    Runs.Run (Runs.recorded (step ⟨2, 3⟩) lastRequest) Consistent (init sampleGraph, none)
      acceptedSample := by
  unfold acceptedSample
  exact Runs.Run.of_exec (Option.some_get _).symm

theorem last_request_wins_waiting :
    acceptedSample.2 = some 2 ∧ acceptedSample.1.graph.requestedState = some 1 ∧
      ∃ s', step ⟨2, 3⟩ acceptedSample.1 .processGroupHandler = some s' ∧
        s'.graph.state = .inTransition ∧ s'.graph.requestedState = some 2 := by
  have hlast : acceptedSample.2 = some 2 := by decide +kernel
  have hin : acceptedSample.1.graph.requestedState = some 1 := by decide +kernel
  have hrun := acceptedSample_run
  rw [← Prod.mk.eta (p := acceptedSample), hlast] at hrun
  refine ⟨hlast, hin, ?_⟩
  rcases (last_request_wins sampleGraph_wellFormed
    (DependencyGraph.acyclic_of_rank id (by decide +kernel)) hrun (by decide +kernel)
    (by decide +kernel)).2 (by decide +kernel) with ⟨-, hreq, -⟩ | ⟨s', hs, hst, hreq, -⟩
  · rw [hin] at hreq
    cases hreq
  · exact ⟨s', hs, hst, hreq⟩

/-- A request for the run target that the graph is in does not take back the one before it. -/
theorem overruled_request :
    ∃ p : Daemon Nat × Option Nat,
      Runs.Run (Runs.recorded (step ⟨2, 3⟩) lastRequest) (fun p a => pushesSettle p.1 a)
        (init sampleGraph, none) p ∧
      p.2 = some 1 ∧ p.1.stage = .running ∧ p.1.main = .idle ∧ p.1.events = [] ∧
      p.1.outstanding = [] ∧ p.1.graph.pending.runTarget = none ∧ p.1.graph.state = .success ∧
      p.1.graph.requestedState = some 2 :=
  Runs.Run.exists_of_exec _ _ _ _
    (List.append untilAccepted [.post (.setRequestedRunTarget 1), .handleEvent,
      .processGroupHandler, .drain, .drain, .pushed, .drain, .take,
      .work ⟨⟨.deactivate, 0, 2, 2⟩, false⟩, .setFlag ⟨⟨.deactivate, 0, 2, 2⟩, true⟩, .exit 0,
      .succeed ⟨⟨.deactivate, 0, 2, 2⟩, true⟩, .handleEvent, .drain, .drain]) (by decide +kernel)

end Requests

end Daemon

end LaunchManager
