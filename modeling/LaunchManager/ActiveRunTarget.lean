import LaunchManager.PendingRequest

/-!
# The active run target

What clients learn about the active run target, by the answer to their question
and by the activation callback, compared with the trace of the daemon: the
observations of its steps and the calls of the callback in each of them.
-/

namespace LaunchManager

set_option autoImplicit false

universe u

/-- What was observed of a step, and the calls of the activation callback in it. -/
structure Entry (Key : Type u) where
  seen : Observation Key
  calls : List (Option Key × RunTargetActivationSource)
  deriving DecidableEq, Repr

def Observation.passing {Key : Type u} : Observation Key → Bool
  | .started _ _ | .completed | .terminated => false
  | .silent | .failed | .supervisionFailed | .requested _ _ => true

namespace Daemon
variable {Key : Type u}

def handleGetActiveRunTarget (g : Graph Key) : Except ExecErrc (Option Key) :=
  match g.state with
  | .success => .ok g.requestedState
  | .aborting | .inTransition | .undefinedState => .error .activationInProgress

def Underway (rt : Key) (trace : List (Entry Key)) : Prop :=
  ∃ during start earlier initial, trace = during ++ start :: earlier ∧
    start.seen = .started rt initial ∧ ∀ e ∈ during, e.seen.passing = true

/-- The transition that was started last was completed, and no component has terminated since. -/
def Activated (rt : Key) (trace : List (Entry Key)) : Prop :=
  ∃ later source earlier, trace = later ++ ⟨.completed, [(some rt, source)]⟩ :: earlier ∧
    Underway rt earlier ∧ ∀ e ∈ later, e.seen.passing = true

variable {trace : List (Entry Key)}

theorem Underway.cons {rt : Key} (h : Underway rt trace)
    {e : Entry Key} (he : e.seen.passing = true) : Underway rt (e :: trace) := by
  obtain ⟨during, start, earlier, initial, rfl, hstart, hpassing⟩ := h
  exact ⟨e :: during, start, earlier, initial, rfl, hstart, List.forall_mem_cons.mpr ⟨he, hpassing⟩⟩

theorem Activated.cons {rt : Key} (h : Activated rt trace)
    {e : Entry Key} (he : e.seen.passing = true) : Activated rt (e :: trace) := by
  obtain ⟨later, source, earlier, rfl, hway, hpassing⟩ := h
  exact ⟨e :: later, source, earlier, rfl, hway, List.forall_mem_cons.mpr ⟨he, hpassing⟩⟩

theorem underway_started (rt : Key) (initial : Bool)
    (calls : List (Option Key × RunTargetActivationSource)) (trace : List (Entry Key)) :
    Underway rt (⟨.started rt initial, calls⟩ :: trace) :=
  ⟨[], _, trace, initial, rfl, rfl, nofun⟩

section Answer
variable {s s' : Daemon Key}

structure Truthful (s : Daemon Key) (trace : List (Entry Key)) : Prop where
  moving : s.control.state = .inTransition →
    ∃ rt, s.control.requestedState = some rt ∧ Underway rt trace
  settled : s.stage = .running → s.control.state = .success →
    ∃ rt, s.control.requestedState = some rt ∧ Activated rt trace
  looping : s.main ≠ .idle → s.control.state ≠ .success

theorem truthful_of_given_up (hmoving : s.control.state ≠ .inTransition)
    (hdone : s.control.state ≠ .success) : Truthful s trace :=
  ⟨fun hst => absurd hst hmoving, fun _ hst => absurd hst hdone, fun _ => hdone⟩

variable {source : RunTargetActivationSource}

theorem truthful_of_started {C : Control Key} {rt : Key}
    (heq : s.control = C.startTransition rt source) (initial : Bool)
    (calls : List (Option Key × RunTargetActivationSource)) :
    Truthful s (⟨.started rt initial, calls⟩ :: trace) := by
  have hdone : s.control.state ≠ .success := heq ▸ C.startTransition_not_success rt source
  refine ⟨fun _ => ⟨rt, ?_, underway_started rt initial calls trace⟩, fun _ hst => absurd hst hdone,
    fun _ => hdone⟩
  rw [heq]
  rfl

theorem Truthful.cons (h : Truthful s trace) {e : Entry Key} (he : e.seen.passing = true)
    (hstate : s'.control.state = s.control.state)
    (hreq : s'.control.requestedState = s.control.requestedState)
    (hstage : s'.stage = .running → s.stage = .running)
    (hmain : s'.main ≠ .idle → s'.control.state ≠ .success) : Truthful s' (e :: trace) := by
  refine ⟨fun hst => ?_, fun hrunning hst => ?_, hmain⟩
  · obtain ⟨rt, hrt, hway⟩ := h.moving (hstate ▸ hst)
    exact ⟨rt, hreq.trans hrt, hway.cons he⟩
  · obtain ⟨rt, hrt, hactive⟩ := h.settled (hstage hrunning) (hstate ▸ hst)
    exact ⟨rt, hreq.trans hrt, hactive.cons he⟩

theorem Truthful.accept (h : Truthful s trace) {e : Entry Key} (he : e.seen.passing = true)
    {rt : Key} {busy : Bool} (hstage : s.stage = .running)
    (hmain : s'.main = .idle) (heq : s'.control = s.control.accept rt source busy) :
    Truthful s' (e :: trace) := by
  by_cases hst : s.control.state = .inTransition
  · have hstate := Control.state_accept (C := s.control) rt source busy
    rw [if_pos hst, ← heq] at hstate
    apply truthful_of_given_up <;> rw [hstate] <;> cases busy <;> simp
  · have hstate := Control.state_accept (C := s.control) rt source busy
    rw [if_neg hst, ← heq] at hstate
    have hreq := s.control.requestedState_accept rt source busy
    rw [← heq] at hreq
    exact h.cons he hstate hreq (fun _ => hstage) fun hbusy => absurd hmain hbusy

theorem Truthful.complete (h : Truthful s trace) (hst : s.control.state = .inTransition)
    (hmain : s'.main = .idle) (heq : s'.control = s.control.finalize) :
    Truthful s' (⟨.completed, s'.graph.reports.take
      (s'.graph.reports.length - s.graph.reports.length)⟩ :: trace) := by
  have hstate : s'.control.state = .success := by
    rw [heq]
    simp [Control.finalize, Control.setState, stateResults, hst]
  obtain ⟨rt, hrt, hway⟩ := h.moving hst
  obtain ⟨source, hsource⟩ : ∃ source, s'.graph.reports = (some rt, source) :: s.graph.reports := by
    have hreports : s'.graph.reports = (s.control.requestedState, _) :: s.graph.reports :=
      congrArg Control.reports heq
    rw [hrt] at hreports
    exact ⟨_, hreports⟩
  have hcalls : s'.graph.reports.take (s'.graph.reports.length - s.graph.reports.length) =
      [(some rt, source)] := by
    simp [hsource]
  rw [hcalls]
  refine ⟨fun hin => ?_, fun _ _ => ⟨rt, ?_, [], source, trace, rfl, hway, fun e he => ?_⟩,
    fun hbusy => absurd hmain hbusy⟩
  · rw [hstate] at hin
    cases hin
  · rw [heq]
    exact hrt
  · cases he

variable [DecidableEq Key]

def note (s : Daemon Key) (a : Act Key) (s' : Daemon Key) (trace : List (Entry Key)) :
    List (Entry Key) :=
  ⟨s.observe a s',
    s'.graph.reports.take (s'.graph.reports.length - s.graph.reports.length)⟩ :: trace

def initialKnown (p : Daemon Key × List (Entry Key)) : Act Key → Prop
  | .startInitialTransition rt => p.1.graph.isValidRunTarget rt = true
  | _ => True

instance (p : Daemon Key × List (Entry Key)) (a : Act Key) : Decidable (initialKnown p a) :=
  match a with
  | .startInitialTransition rt => inferInstanceAs (Decidable (p.1.graph.isValidRunTarget rt = true))
  | .pushFailed | .handleEvent | .processGroupHandler | .shutdown | .waitOver
  | .drain | .pushed | .pushTimeout | .take | .skip _ | .work _ | .launch _ | .setFlag _
  | .succeed _ | .fail _ _ | .exit _ | .post _ => isTrue trivial

variable {c : Config Key} {a : Act Key}

theorem Truthful.step (h : Truthful s trace) (hok : initialKnown (s, trace) a)
    (hs : Daemon.step c s a = some s') (hopen : s'.Attentive) :
    Truthful s' (note s a s' trace) := by
  have heff := step_effect hs
  unfold note
  generalize ho : s.observe a s' = o at heff
  have hidle : s'.main = .idle → s'.main ≠ .idle → s'.control.state ≠ .success :=
    fun hmain hbusy => absurd hmain hbusy
  have hlater : s'.stage ≠ .initial ∧ s'.stage ≠ .running → ∀ trace', Truthful s' trace' :=
    fun hne => absurd hopen (not_or.mpr hne)
  cases heff with
  | none heq hstage hmain =>
    refine h.cons rfl (by rw [heq]) (by rw [heq]) (fun hrunning => ?_) fun hbusy => ?_
    · rcases hstage with hstage | ⟨-, hstage⟩
      · exact hstage ▸ hrunning
      · rw [hrunning] at hstage
        cases hstage
    · rw [heq]
      by_cases hst : s.graph.state = .inTransition
      · rw [show s.control.state = .inTransition from hst]
        simp
      · exact h.looping fun hmain' => hbusy (hmain hmain' hst)
  | halted hst hjob hstage hmain heq =>
    apply truthful_of_given_up <;> rw [heq]
    · exact stateResults_ne_inTransition (by simp) _
    · exact s.control.halt_not_success
  | failed last _ _ heq | terminated last _ _ heq =>
    apply truthful_of_given_up <;> rw [heq]
    · exact s.control.fail_state_ne last
    · exact s.control.fail_not_success last
  | recovered hstage hmain _ heq | refused _ _ hstage hmain _ heq =>
    exact h.cons rfl (by rw [heq]) (by rw [heq]) (fun _ => hstage.1) (hidle hmain)
  | recovering hstage hmain _ heq | accepted _ hstage hmain _ _ heq =>
    exact h.accept rfl hstage.1 hmain.2 heq
  | initial _ _ _ _ heq | pending _ _ _ _ _ heq | fallback _ _ _ _ heq
  | redirected _ _ _ _ _ _ heq => exact truthful_of_started heq _ _
  | unknown rt ha hstage hrt heq =>
    subst ha
    have hknown : s.graph.isValidRunTarget rt = true := hok
    rw [hrt] at hknown
    cases hknown
  | taken hstage hst hmain hpending heq =>
    exact h.cons rfl (by rw [heq]; rfl) (by rw [heq]; rfl) (fun _ => hstage.1) (hidle hmain)
  | completed hst hfin hstage hmain heq => exact h.complete hst hmain.2 heq
  | reported hst hfin hstage hmain heq =>
    have hdone := h.looping hmain.1
    have hst' : s.control.state ≠ .inTransition := hst
    apply truthful_of_given_up <;> rw [heq] <;> cases hC : s.control.state <;>
      simp_all [Control.finalize, Control.setState, stateResults]
  | shutdown ha hstage heq => exact hlater (by rcases hstage.2 with h | h <;> rw [h] <;> simp) _
  | off _ hstage | noOff hstage => exact hlater (by rw [hstage.2]; simp) _

variable [Inhabited Key] {g : DependencyGraph Key Component}

theorem run_truthful (hrun : Runs.Run (Runs.recorded (Daemon.step c) note)
      (fun p a => initialKnown p a ∧ failsAlone p.1 a) (init g, []) (s, trace)) :
    s.Attentive → Truthful s trace := by
  refine hrun.invariant (fun p => p.1.Attentive → Truthful p.1 p.2)
    (fun {p q a} hi hok hs hopen => ?_) fun _ => ?_
  · obtain ⟨hstep, hnote⟩ := Runs.Run.of_recorded hs
    rw [hnote]
    exact (hi (attentive_of_step hstep hopen)).step hok.1 hstep hopen
  · exact ⟨nofun, nofun, fun hbusy => absurd rfl hbusy⟩

theorem run_standing (hg : g.WellFormed) (hac : g.Acyclic)
    (hrun : Runs.Run (Runs.recorded (Daemon.step c) note)
      (fun p a => initialKnown p a ∧ failsAlone p.1 a) (init g, []) (s, trace)) :
    Standing g True s := by
  suffices h : Sound g s ∧ Standing g True s from h.2
  refine hrun.invariant (fun p => Sound g p.1 ∧ Standing g True p.1)
    (fun {p q a} hi hok hs => ?_) ⟨.inl (init_inv hg), init_standing g True⟩
  obtain ⟨hstep, -⟩ := Runs.Run.of_recorded hs
  have hsound := hi.1.step hg hac hok.2 hstep
  refine ⟨hsound, hi.2.step hi.1.inv_or_given_up (fun hi => ?_) (fun _ rt ha => ?_) hstep⟩
  · exact (hsound.inv_of_initial hi).initial hi
  · subst ha
    exact hok.1

/-- A run target that a client is told has been activated last, and its components are active. -/
theorem active_run_target_activated (hg : g.WellFormed) (hac : g.Acyclic)
    (hrun : Runs.Run (Runs.recorded (Daemon.step c) note)
      (fun p a => initialKnown p a ∧ failsAlone p.1 a) (init g, []) (s, trace))
    (hstage : s.stage = .running) {X : Option Key}
    (hanswer : handleGetActiveRunTarget s.graph = .ok X) :
    ∃ rt, X = some rt ∧ Activated rt trace ∧
      ∀ k ∈ g.keys, s.graph.active k = true ↔ g.Reaches rt k := by
  unfold handleGetActiveRunTarget at hanswer
  split at hanswer
  · rename_i hst
    cases hanswer
    obtain ⟨rt, hrt, hactivated⟩ := (run_truthful hrun (Or.inr hstage)).settled hstage hst
    obtain ⟨rt', hrt', hexact | ⟨hunknown, -⟩⟩ := (run_standing hg hac hrun).settled hstage hst
    · cases hrt.symm.trans hrt'
      exact ⟨rt, hrt, hactivated, hexact⟩
    · exact absurd trivial hunknown
  all_goals cases hanswer

@[irreducible] def activeSample : Daemon Nat × List (Entry Nat) :=
  (Runs.exec (Runs.recorded (step ⟨2, 3⟩) note)
    (fun p a => initialKnown p a ∧ failsAlone p.1 a) (init sampleGraph, [])
    untilFailure.dropLast).get (by decide +kernel)

theorem activeSample_run :
    Runs.Run (Runs.recorded (step ⟨2, 3⟩) note)
      (fun p a => initialKnown p a ∧ failsAlone p.1 a) (init sampleGraph, []) activeSample := by
  unfold activeSample
  exact Runs.Run.of_exec (Option.some_get _).symm

theorem active_run_target_activated_sample :
    handleGetActiveRunTarget activeSample.1.graph = .ok (some 1) ∧ Activated 1 activeSample.2 ∧
      ∀ k ∈ sampleGraph.keys, activeSample.1.graph.active k = true ↔ sampleGraph.Reaches 1 k := by
  have hanswer : handleGetActiveRunTarget activeSample.1.graph = .ok (some 1) := by
    decide +kernel
  obtain ⟨rt, hrt, hactive⟩ := active_run_target_activated sampleGraph_wellFormed
    (DependencyGraph.acyclic_of_rank id (by decide +kernel)) activeSample_run (by decide +kernel)
    hanswer
  cases hrt
  exact ⟨hanswer, hactive⟩

/-- The identifier `7` is not configured. -/
theorem unknown_target_announced :
    ∃ p : Daemon Nat × List (Entry Nat),
      Runs.Run (Runs.recorded (step ⟨2, 3⟩) note) Runs.anyStep (init sampleGraph, []) p ∧
      p.1.stage = .running ∧ p.1.main = .idle ∧
      handleGetActiveRunTarget p.1.graph = .ok (some 7) ∧ p.2 = [⟨.silent, []⟩] ∧
      p.1.graph.isValidRunTarget 7 = false :=
  Runs.Run.exists_of_exec _ _ _ _
    [.startInitialTransition 7] (by decide +kernel)

end Answer

section Callback
variable [DecidableEq Key] {g : DependencyGraph Key Component} {c : Config Key}
variable {s s' : Daemon Key} {a : Act Key} {C : Control Key}

/-- The last request or failure that asks for the run target, or the failure before it. -/
def cause (c : Config Key) (rt : Key) : List (Entry Key) → RunTargetActivationSource
  | [] => .recoveryAction
  | e :: trace =>
    match e.seen with
    | .started _ _ => .recoveryAction
    | .requested rt' none => if rt' = rt then .stateManagerRequest else cause c rt trace
    | .supervisionFailed => if c.fallback = rt then .recoveryAction else cause c rt trace
    | .silent | .failed | .terminated | .completed | .requested _ (some _) => cause c rt trace

def current (c : Config Key) : List (Entry Key) → Option (Key × RunTargetActivationSource)
  | [] => none
  | e :: trace =>
    match e.seen with
    | .started rt true => some (rt, .initialActivation)
    | .started rt false => some (rt, cause c rt trace)
    | .silent | .failed | .terminated | .completed | .supervisionFailed | .requested _ _ =>
      current c trace

def activations (c : Config Key) :
    List (Entry Key) → List (Option Key × RunTargetActivationSource)
  | [] => []
  | e :: trace =>
    match e.seen, current c trace with
    | .completed, some (rt, source) => (some rt, source) :: activations c trace
    | _, _ => activations c trace

structure Accounts (c : Config Key) (C : Control Key) (trace : List (Entry Key)) : Prop where
  calls : C.reports = activations c trace
  moving : C.state = .inTransition → ∃ rt, C.requestedState = some rt ∧
    current c trace = some (rt, if C.isInitialStateTransition then .initialActivation
      else C.transitionSource)
  initially : C.isInitialStateTransition = true → C.state = .inTransition ∨ C.state = .aborting
  waiting : ∀ rt, C.pending.runTarget = some rt → cause c rt trace = C.pending.source
  resting : C.pending.runTarget = none → cause c c.fallback trace = .recoveryAction

theorem activations_cons {e : Entry Key} (he : e.seen ≠ .completed) :
    activations c (e :: trace) = activations c trace := by
  rw [activations]
  split
  · rename_i heq _
    exact absurd heq he
  · rfl

theorem Accounts.cons (h : Accounts c C trace) {e : Entry Key} (hcompleted : e.seen ≠ .completed)
    (hcurrent : current c (e :: trace) = current c trace)
    (hcause : ∀ rt, cause c rt (e :: trace) = cause c rt trace) : Accounts c C (e :: trace) where
  calls := h.calls.trans (activations_cons hcompleted).symm
  moving := by
    rw [hcurrent]
    exact h.moving
  initially := h.initially
  waiting := fun rt hrt => (hcause rt).trans (h.waiting rt hrt)
  resting := fun hslot => (hcause c.fallback).trans (h.resting hslot)

theorem Accounts.halt (h : Accounts c C trace) : Accounts c C.halt trace where
  calls := h.calls
  moving := fun hst => absurd hst (stateResults_ne_inTransition (by simp) _)
  initially := nofun
  waiting := h.waiting
  resting := h.resting

theorem Accounts.fail (h : Accounts c C trace) (last : Bool) : Accounts c (C.fail last) trace where
  calls := by cases last <;> exact h.calls
  moving := fun hst => absurd hst (C.fail_state_ne last)
  initially := by
    cases last with
    | true => nofun
    | false =>
      intro hinitial
      rcases h.initially hinitial with hst | hst <;>
        simp [Control.fail, Control.setState, stateResults, hst]
  waiting := by
    rw [C.pending_fail last]
    exact h.waiting
  resting := by
    rw [C.pending_fail last]
    exact h.resting

theorem Accounts.accept (h : Accounts c C trace) {e : Entry Key} {rt : Key}
    {source : RunTargetActivationSource} {busy : Bool} (hcompleted : e.seen ≠ .completed)
    (hcause : cause c rt (e :: trace) = source) (hbusy : C.state = .inTransition → busy = true) :
    Accounts c (C.accept rt source busy) (e :: trace) where
  calls := by
    rw [activations_cons hcompleted, C.accept_eq]
    exact h.calls
  moving := fun hst => absurd hst (C.accept_state_ne rt source busy)
  initially := by
    rw [Control.state_accept, C.accept_eq]
    intro hinitial
    rcases h.initially hinitial with hst | hst
    · simp [hst, hbusy hst]
    · simp [hst]
  waiting := by
    rw [C.pending_accept]
    rintro rt' ⟨⟩
    exact hcause
  resting := by
    rw [C.pending_accept]
    nofun

theorem Accounts.take (h : Accounts c C trace) (hslot : C.pending.runTarget = none) :
    Accounts c C.take trace where
  calls := h.calls
  moving := h.moving
  initially := h.initially
  waiting := fun _ hrt => nomatch hrt
  resting := fun _ => h.resting hslot

variable {source : RunTargetActivationSource}

theorem accounts_start {rt : Key} {initial : Bool}
    {calls : List (Option Key × RunTargetActivationSource)}
    (hcalls : C.reports = activations c trace) (hslot : C.pending.runTarget = none)
    (hst : C.state ≠ .aborting) (hcurrent : current c (⟨.started rt initial, calls⟩ :: trace) =
      some (rt, if C.isInitialStateTransition then .initialActivation else source)) :
    Accounts c (C.startTransition rt source) (⟨.started rt initial, calls⟩ :: trace) where
  calls := by
    rw [activations_cons (by simp)]
    exact hcalls
  moving := fun _ => ⟨rt, rfl, hcurrent⟩
  initially := fun _ => .inl (Control.state_startTransition hst)
  waiting := by
    intro rt' hrt'
    have hnone : some rt' = none := hrt'.symm.trans hslot
    cases hnone
  resting := fun _ => rfl

theorem accounts_restart {rt : Key} (calls : List (Option Key × RunTargetActivationSource))
    (hcalls : C.reports = activations c trace) (hslot : C.pending.runTarget = none)
    (hst : C.state ≠ .aborting) (hinitial : C.isInitialStateTransition = false)
    (hcause : cause c rt trace = source) :
    Accounts c (C.startTransition rt source) (⟨.started rt false, calls⟩ :: trace) :=
  accounts_start hcalls hslot hst (by simp [current, hcause, hinitial])

theorem Accounts.finalize (h : Accounts c C trace) (hst : C.state = .inTransition)
    (calls : List (Option Key × RunTargetActivationSource)) :
    Accounts c C.finalize (⟨.completed, calls⟩ :: trace) where
  calls := by
    obtain ⟨rt, hrt, hcurrent⟩ := h.moving hst
    simp only [activations, hcurrent, ← h.calls, ← hrt]
    rfl
  moving := fun hin => absurd hin (by simp [Control.finalize, Control.setState, stateResults, hst])
  initially := nofun
  waiting := h.waiting
  resting := h.resting

theorem Accounts.step (h : Accounts c s.control trace) (hsound : Sound g s) (horder : s.Orderly)
    (hs : Daemon.step c s a = some s') (hopen : s'.Attentive) :
    Accounts c s'.control (note s a s' trace) := by
  have heff := step_effect hs
  unfold note
  generalize s'.graph.reports.take (s'.graph.reports.length - s.graph.reports.length) = calls
  generalize s.observe a s' = o at heff
  have hbusy : s.main = .idle → s.control.state = .inTransition →
      decide (0 < s.graph.jobsInProgress) = true := by
    intro hmain hst
    have hinv := hsound.inv_of_idle hmain
    rw [hinv.jobs, decide_eq_true_eq]
    have hout : s.outstanding ≠ [] := by
      intro hnil
      have hrest := (hinv.quiet hmain).mp hnil
      rw [show s.graph.state = .inTransition from hst] at hrest
      simp at hrest
    exact Int.natCast_pos.mpr (List.length_pos_iff.mpr hout)
  -- transitions are started by a graph that is not on its way
  have hnoninitial : s.control.state ≠ .inTransition → s.control.state ≠ .aborting →
      s.control.isInitialStateTransition = false := by
    intro hmoving haborting
    by_contra hinitial
    rcases h.initially (by simpa using hinitial) with hst | hst
    · exact hmoving hst
    · exact haborting hst
  cases heff with
  | none heq | refused _ _ _ _ _ heq => exact heq ▸ h.cons nofun rfl fun _ => rfl
  | halted hst hjob hstage hmain heq => exact heq ▸ h.halt.cons nofun rfl fun _ => rfl
  | failed last _ _ heq | terminated last _ _ heq =>
    exact heq ▸ (h.fail last).cons nofun rfl fun _ => rfl
  | recovered hstage hmain hat heq =>
    rw [heq]
    refine ⟨h.calls.trans (activations_cons (by simp)).symm, h.moving, h.initially, ?_, ?_⟩
    · intro rt hrt
      have hne : c.fallback ≠ rt := by
        rintro rfl
        exact horder.control.away _ hrt hat
      rw [cause]
      simp only [if_neg hne]
      exact h.waiting rt hrt
    · intro _
      simp [cause]
  | recovering _ hmain _ heq | accepted _ _ hmain _ _ heq =>
    exact heq ▸ h.accept nofun (by simp [cause]) (hbusy hmain.1)
  | initial rt hmain hstage hrt heq =>
    have hst : s.control.state = .success := (hsound.inv_of_idle hmain).initial hstage.1
    rw [heq]
    exact accounts_start h.calls (horder.fresh hstage.1) (by simp [hst]) rfl
  | unknown rt ha hstage hrt heq =>
    have hst : s.control.state = .success := (hsound.inv_of_initial hstage.1).initial hstage.1
    have hslot := horder.fresh hstage.1
    have hbooks : Accounts c s'.control trace := by
      rw [heq]
      refine ⟨h.calls, fun hin => ?_, fun hi => (by cases hi), fun rt' hrt' => ?_, h.resting⟩
      · exact absurd (hst.symm.trans hin) nofun
      · exact absurd (hslot.symm.trans hrt') nofun
    exact hbooks.cons nofun rfl fun _ => rfl
  | taken hstage hst hmain hpending heq =>
    have hslot : s.control.pending.runTarget = none := by
      cases hp : s.control.pending.runTarget with
      | none => rfl
      | some rt => exact absurd ⟨.inr hst, hpending rt hp⟩ (horder.control.away rt hp)
    rw [heq]
    exact (h.take hslot).cons nofun rfl fun _ => rfl
  | pending rt hmain hstage hst hpending heq =>
    have hrest : s.control.state ≠ .inTransition ∧ s.control.state ≠ .aborting := by
      change s.graph.state ≠ _ ∧ s.graph.state ≠ _
      rcases hst with hst | ⟨hst, -⟩ <;> rw [hst] <;> simp
    rw [heq]
    exact accounts_restart calls (C := s.control.take) h.calls rfl hrest.2
      (hnoninitial hrest.1 hrest.2) (h.waiting rt hpending)
  | fallback hmain hstage hst hpending heq =>
    have hrest : s.control.state = .undefinedState := hst
    rw [heq]
    exact accounts_restart calls (C := s.control.take) h.calls rfl (by simp [Control.take, hrest])
      (hnoninitial (by simp [hrest]) (by simp [hrest])) (h.resting hpending)
  | redirected C hstage hst hmain hC hundef heq =>
    obtain rfl : C = s.control := hC.resolve_right fun hfin => by
      rw [hsound.not_finished hmain hst] at hfin
      cases hfin.1
    have hlate : s.stage ≠ .initial := fun hi => hst ((hsound.inv_of_initial hi).busy hmain)
    rw [heq, decide_eq_false hlate]
    exact accounts_restart calls h.calls (horder.looping hmain) (by simp [hundef])
      (hnoninitial (by simp [hundef]) (by simp [hundef])) (h.resting (horder.looping hmain))
  | completed hst hfin hstage hmain heq => exact heq ▸ h.finalize hst calls
  | reported hst hfin hstage hmain heq =>
    rw [hsound.not_finished hmain.1 hst] at hfin
    cases hfin
  | shutdown _ hstage | off _ hstage | noOff hstage =>
    rcases hopen with hstage' | hstage' <;> rw [hstage'] at hstage <;> simp at hstage

theorem Sound.idle_of_cancelling (h : Sound g s) (hstage : s.stage = .cancelling) :
    s.main = .idle := by
  by_contra hmain
  rcases h with h | ⟨target, active₀, dropped, stopped, started, h⟩
  · exact h.cancelling hstage (h.busy hmain)
  · exact h.stage.2 hstage

theorem reports_cancelling (hsound : Sound g s) (hcalls : s.graph.reports = activations c trace)
    (hs : Daemon.step c s a = some s') (hstage' : s'.stage = .cancelling) :
    s'.graph.reports = activations c (note s a s' trace) := by
  have heff := step_effect hs
  unfold note
  generalize s'.graph.reports.take (s'.graph.reports.length - s.graph.reports.length) = calls
  generalize s.observe a s' = o at heff
  have hsame : ∀ C, s'.control = C → C.reports = s.control.reports → o ≠ .completed →
      s'.graph.reports = activations c (⟨o, calls⟩ :: trace) := by
    intro C heq hreports hcompleted
    rw [activations_cons hcompleted, ← hcalls]
    exact (congrArg Control.reports heq).trans hreports
  cases heff with
  | none heq | halted _ _ _ _ heq => exact hsame _ heq rfl nofun
  | failed last _ _ heq | terminated last _ _ heq =>
    exact hsame _ heq (by cases last <;> rfl) nofun
  | redirected _ hstage _ hmain =>
    exact absurd (hsound.idle_of_cancelling (hstage.symm.trans hstage')) hmain
  | completed _ _ hstage hmain | reported _ _ hstage hmain =>
    exact absurd (hsound.idle_of_cancelling (hstage.symm.trans hstage')) hmain.1
  | shutdown ha hstage heq =>
    rcases heq with heq | heq
    · exact hsame _ heq rfl nofun
    · exact hsame _ heq (by unfold Control.cancel; split <;> rfl) nofun
  | recovered hstage | recovering hstage | refused _ _ hstage | accepted _ hstage
  | initial _ _ hstage | unknown _ _ hstage | taken hstage | pending _ _ hstage
  | fallback _ hstage | off _ hstage | noOff hstage =>
    rw [hstage'] at hstage
    cases hstage.2

/-- Until the transition to Off the callback is called once for each completed transition. -/
theorem callback_calls [Inhabited Key] (hg : g.WellFormed) (hac : g.Acyclic)
    (hrun : Runs.Run (Runs.recorded (Daemon.step c) note) (fun p a => failsAlone p.1 a)
      (init g, []) (s, trace)) (hstage : s.stage ≠ .toOff ∧ s.stage ≠ .ended) :
    s.graph.reports = activations c trace := by
  have hbooks : Sound g s ∧ (s.Attentive → s.Orderly) ∧
      (s.Attentive → Accounts c s.control trace) ∧
      (s.stage = .cancelling → s.graph.reports = activations c trace) := by
    refine hrun.invariant (fun p => Sound g p.1 ∧ (p.1.Attentive → p.1.Orderly) ∧
      (p.1.Attentive → Accounts c p.1.control p.2) ∧
      (p.1.stage = .cancelling → p.1.graph.reports = activations c p.2))
      (fun {p q a} hi hok hs => ?_)
      ⟨Or.inl (init_inv hg), fun _ => ?_, fun _ => ?_, fun hi => (by cases hi)⟩
    · obtain ⟨hsound, horder, hbooks, hcancelling⟩ := hi
      obtain ⟨hstep, hnote⟩ := Runs.Run.of_recorded hs
      refine ⟨hsound.step hg hac hok hstep, fun hopen => ?_, fun hopen => ?_, fun hstage => ?_⟩
      · exact (horder (attentive_of_step hstep hopen)).step hstep hopen
      · have hbefore := attentive_of_step hstep hopen
        rw [hnote]
        exact (hbooks hbefore).step hsound (horder hbefore) hstep hopen
      · rw [hnote]
        refine reports_cancelling hsound ?_ hstep hstage
        rcases step_stage hstep with heq | ⟨-, hlate⟩ | ⟨hopen, -⟩ | hlate | hlate
        · exact hcancelling (heq.symm.trans hstage)
        · exact absurd (hlate.symm.trans hstage) nofun
        · exact (hbooks (Or.inr hopen)).calls
        · exact absurd (hlate.symm.trans hstage) nofun
        · exact absurd (hlate.symm.trans hstage) nofun
    · exact ⟨Control.orderly_of_empty rfl, fun _ => rfl, fun _ => rfl⟩
    · exact ⟨rfl, nofun, nofun, fun _ hrt => (nomatch hrt), fun _ => rfl⟩
  obtain ⟨-, -, hopen, hcancelling⟩ := hbooks
  cases hst : s.stage with
  | initial => exact (hopen (Or.inl hst)).calls
  | running => exact (hopen (Or.inr hst)).calls
  | cancelling => exact hcancelling hst
  | toOff => exact absurd hst hstage.1
  | ended => exact absurd hst hstage.2

/-- The run target `1` was activated and failed, and the fallback `3` was activated. -/
@[irreducible] def recoveredSample : Daemon Nat × List (Entry Nat) :=
  (Runs.exec (Runs.recorded (step ⟨2, 3⟩) note) (fun p a => failsAlone p.1 a)
    (init sampleGraph, [])
    (untilStopping ++ ([.setFlag ⟨⟨.deactivate, 0, 2, 2⟩, true⟩, .exit 0,
      .succeed ⟨⟨.deactivate, 0, 2, 2⟩, true⟩, .handleEvent, .drain, .drain] :
        List (Act Nat)))).get
    (by decide +kernel)

theorem recoveredSample_run :
    Runs.Run (Runs.recorded (step ⟨2, 3⟩) note) (fun p a => failsAlone p.1 a)
      (init sampleGraph, []) recoveredSample := by
  unfold recoveredSample
  exact Runs.Run.of_exec (Option.some_get _).symm

theorem callback_calls_recovered :
    recoveredSample.1.graph.reports =
        [(some 3, .recoveryAction), (some 1, .initialActivation)] ∧
      recoveredSample.1.graph.reports = activations ⟨2, 3⟩ recoveredSample.2 :=
  ⟨by decide +kernel, callback_calls sampleGraph_wellFormed
    (DependencyGraph.acyclic_of_rank id (by decide +kernel)) recoveredSample_run
    (by decide +kernel)⟩

/-- The run target `3` needs `0`, `1` and `2`. The fallback `7` needs `5` and the run target `6`,
which both need `4`. -/
@[irreducible] def layeredGraph : DependencyGraph Nat Component :=
  (DependencyGraph.build 9
    [(0, .processInfoNode), (1, .processInfoNode), (2, .processInfoNode), (3, .runTarget),
      (4, .processInfoNode), (5, .processInfoNode), (6, .runTarget), (7, .runTarget),
      (8, .runTarget)]
    [(3, 0), (3, 1), (3, 2), (6, 4), (5, 4), (7, 5), (7, 6)]).get (by decide +kernel)

/-- The reports of `0` and `1` count for the transition to the fallback, whose push of `5` fails. -/
theorem aborted_transition_reported :
    ∃ p : Daemon Nat × List (Entry Nat),
      Runs.Run (Runs.recorded (step ⟨8, 7⟩) note) Runs.anyStep (init layeredGraph, []) p ∧
      p.1.stage = .running ∧ p.1.graph.state = .undefinedState ∧
      p.1.graph.reports = [(some 7, .recoveryAction)] ∧ ∀ e ∈ p.2, e.seen ≠ .completed :=
  Runs.Run.exists_of_exec _ _ _ _
    [.startInitialTransition 3, .drain, .pushed, .drain, .pushed, .drain, .pushFailed, .drain,
      .processGroupHandler, .drain, .pushed, .drain, .take, .take, .take,
      .skip ⟨⟨.activate, 0, 1, 1⟩, false⟩, .skip ⟨⟨.activate, 1, 1, 1⟩, false⟩, .handleEvent,
      .drain, .handleEvent, .drain, .work ⟨⟨.activate, 4, 2, 2⟩, false⟩,
      .setFlag ⟨⟨.activate, 4, 2, 2⟩, true⟩, .succeed ⟨⟨.activate, 4, 2, 2⟩, true⟩, .handleEvent,
      .drain, .drain, .pushFailed, .drain] (by decide +kernel)

end Callback

end Daemon

end LaunchManager
