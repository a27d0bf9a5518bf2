import LaunchManager.ProcessInfoNode.Attempts

/-!
# What holds when an activation has returned

`activate` starts the process anew after an ordinary failure. It waits for the end of
one process before it starts the next, and its result agrees with the flag that says
whether the component is active, if the waiter is not reset while a termination is being
handled, and if a component that waits for the end of its process does not stop it while
that end is being handled.
-/

namespace LaunchManager.ProcessInfoNode

set_option autoImplicit false

/-- A call of `kill` succeeds as long as the process is alive. -/
def Job.KillSucceeds (ok : Bool) (n : Node) : Job → Prop
  | .activate _ pc => pc.signals = true → ok = false → n.last.exited.isSome = true
  | .deactivate _ => True

instance (ok : Bool) (n : Node) : ∀ j : Job, Decidable (j.KillSucceeds ok n)
  | .activate _ pc => inferInstanceAs (Decidable (pc.signals = true → _))
  | .deactivate _ => isTrue trivial

def Job.resets : Job → Bool
  | .activate _ .resetWaiter => true
  | _ => false

namespace System

/-- No `deactivate` runs beside the activation, and signals reach a process that is alive. -/
def Undisturbed (s : System) (a : Act) : Prop :=
  a.WithoutMain ∧ a ≠ .begin .deactivate ∧
    ∀ ok, a = .worker ok → ∀ j ∈ s.worker, j.KillSucceeds ok s.node

instance (s : System) (a : Act) : Decidable (s.Undisturbed a) :=
  inferInstanceAs (Decidable (_ ∧ _ ∧ _))

/-- The waiter is not reset while a termination is being handled, and a component that waits for
the end of its process does not begin to stop it while that end is being handled. -/
def Controlled (c : ComponentConfig) (s : System) (a : Act) : Prop :=
  s.Undisturbed a ∧
  (∀ ok, a = .worker ok → ∀ j ∈ s.worker, j.resets = true → s.os = none) ∧
  ∀ h ∈ s.os, c.Awaits h.status →
    (a = .os → h.pc = .exchange → s.node.processState = .terminating →
      s.node.terminationRequested = true) ∧
    (s.access c a = .enter .terminating → h.pc ≠ .casStarting)

instance (c : ComponentConfig) (s : System) (a : Act) : Decidable (s.Controlled c a) :=
  inferInstanceAs (Decidable (_ ∧ _ ∧ _))

structure ActivationInv (c : ComponentConfig) (s : System) : Prop where
  tracked : s.Tracked
  activating : ∀ pc, s.worker ≠ some (.deactivate pc)
  reaped : s.Reaped
  statuses : s.StatusKnown
  past : s.node.Past
  ended : ¬ s.node.processState.Live → s.node.Gone
  notRunning : c.readyCondition = .terminated → s.node.processState ≠ .running
  silent : ∀ h, s.os = some h → h.pc.Silent c h.status s.node.processState
  rated : ∀ h, s.os = some h → h.pc.rated = true → c.terminationResult h.status = .failure →
    s.node.terminationResult ≠ some .ignore
  requests : s.node.terminationRequested = true →
    ∃ attempt pc, s.worker = some (.activate attempt pc) ∧ pc.requesting = true
  relies : ∀ attempt pc, s.worker = some (.activate attempt pc) → pc.Relies c s.node s.os
  rest : s.worker = none → s.node.reachedReady = false → s.node.Gone

variable {c : ComponentConfig} {s s' : System} {a : Act} {ok : Bool}

theorem gone_of_step (hs : s.step c a = some s') (ha : ∀ pid, a ≠ .launched pid)
    (h : s.node.Gone) : s'.node.Gone := by
  rw [Custody.Gone, step_custody hs]
  exact h.apply fun pid hacc => ha pid (eq_launched hs hacc)

namespace ActivationInv

theorem job_eq (hi : s.ActivationInv c) {j : Job} (hw : s.worker = some j) :
    ∃ attempt pc, j = .activate attempt pc := by
  cases j with
  | deactivate pc => exact absurd hw (hi.activating pc)
  | activate attempt pc => exact ⟨attempt, pc, rfl⟩

theorem past_of_step (hi : s.ActivationInv c) (hs : s.step c a = some s') : s'.node.Past := by
  by_cases ha : ∃ pid, a = .launched pid
  · obtain ⟨pid, rfl⟩ := ha
    have hgone : s.node.Gone := by
      cases moves_of_step hs with
      | launched _ attempt hw => exact (hi.relies _ _ hw).phase.1
    have hstarted : s'.node.started = s.node.started + 1 := by
      rw [step_custody hs]
      rfl
    intro p hpos hlt
    have hle : p ≤ s.node.started := by omega
    exact exited_of_step hs hle (hgone p hpos hle)
  · rw [Custody.Past, step_custody hs]
    exact hi.past.apply fun pid hacc => ha ⟨pid, eq_launched hs hacc⟩

theorem gone_of_handler (hi : s.ActivationInv c) {h : Handler} (hos : s.os = some h)
    (hprocess : h.process = s.node.started) : s.node.Gone := by
  refine hi.past.gone ?_
  rw [Custody.last, ← hprocess]
  rw [hi.statuses h hos]
  rfl

theorem ended_of_step (hi : s.ActivationInv c) (hok : s.Controlled c a)
    (hs : s.step c a = some s') (hlive : ¬ s'.node.processState.Live) : s'.node.Gone := by
  by_cases ha : ∃ pid, a = .launched pid
  · obtain ⟨pid, rfl⟩ := ha
    exfalso
    cases moves_of_step hs with
    | launched _ attempt hw =>
      refine hlive (.inl ?_)
      exact (hi.tracked.alone _ hw _ rfl).2
  · refine gone_of_step hs (fun pid h => ha ⟨pid, h⟩) ?_
    rcases processState_cases hs with hstate | ⟨new, hstate, -, hp⟩ <;> rw [hstate] at hlive
    · exact hi.ended hlive
    · cases hp with
      | activateIdle hw | failed hw => exact (hi.relies _ _ hw).phase
      | inlineTerminated hw => exact (hi.relies _ _ hw).phase.2.1
      | osTerminated hos hpre => exact hi.gone_of_handler hos (hi.tracked.pre _ hos hpre).1
      | deactivateIdle hw => exact absurd hw (hi.activating _)
      | mainIdle => exact hok.1.1.elim
      | _ => exact absurd (by decide) hlive

theorem silent_of_step (hi : s.ActivationInv c) (hok : s.Controlled c a)
    (hs : s.step c a = some s') (h' : Handler) (hos' : s'.os = some h') :
    h'.pc.Silent c h'.status s'.node.processState := by
  rcases handler_cases hs hos' with
    ⟨hos, ha⟩ | ⟨process, status, rfl, rfl, -⟩ | ⟨h, pc', rfl, hos, rfl, hnext⟩
  · have hsilent := hi.silent h' hos
    rcases processState_cases hs with hstate | ⟨new, -, hnew, hp⟩
    · rw [hstate]
      exact hsilent
    · rcases h' with ⟨process, status, pc⟩
      cases pc with
      | casStarting =>
        intro hawaits
        exfalso
        have hopen : s.Open := .inr ⟨_, hos, rfl⟩
        have halone : ∀ j P, s.worker = some j → j.alone = some P → False :=
          fun j P hw hj => (hi.tracked.alone j hw P hj).1 hopen
        have hstop : new = .terminating → False := by
          rintro rfl
          exact (hok.2.2 _ hos hawaits).2 hnew rfl
        cases hp with
        | running hw hmay =>
          rw [(hi.relies _ _ hw).knows.2 hawaits.1] at hmay
          exact absurd hmay (by decide)
        | activateTerminating | fatalTerminating => exact hstop rfl
        | starting hw | failed hw | inlineTerminated hw => exact halone _ _ hw rfl
        | activateIdle hw hp =>
          obtain ⟨P, hP⟩ := SetState.claims_of_ne hp
          exact halone _ P hw hP
        | osTerminated => exact ha rfl
        | deactivateIdle hw | deactivateTerminating hw => exact hi.activating _ hw
        | mainIdle | mainTerminating => exact hok.1.1
      | _ => exact hsilent
  · trivial
  · refine hnext.silent (hi.silent h hos) (fun hawaits hpc hrequest => ?_) (hi.rated h hos)
    have hlive := hi.tracked.live (.inr ⟨h, hos, by rw [hpc]; rfl⟩)
    rcases hlive with hstate | hstate | hstate
    · exact hstate
    · exact absurd hstate (hi.notRunning hawaits.1)
    · have := (hok.2.2 h hos hawaits).1 rfl hpc hstate
      exact Bool.noConfusion (hrequest.symm.trans this)

theorem rated_of_step (hi : s.ActivationInv c) (hok : s.Controlled c a)
    (hs : s.step c a = some s') (h' : Handler) (hos' : s'.os = some h')
    (hrated' : h'.pc.rated = true) (hfailure : c.terminationResult h'.status = .failure) :
    s'.node.terminationResult ≠ some .ignore := by
  rcases handler_cases hs hos' with
    ⟨hos, ha⟩ | ⟨process, status, rfl, rfl, -⟩ | ⟨h, pc', rfl, hos, rfl, hnext⟩
  · have hrated := hi.rated h' hos hrated' hfailure
    cases moves_of_step hs with
    | worker ok j hw =>
      obtain ⟨attempt, pc, rfl⟩ := hi.job_eq hw
      rcases (pc.moves c ok s.node attempt).terminationResult with heq | heq | ⟨status, rfl⟩
      · exact heq ▸ hrated
      · exact fun h => by cases heq.symm.trans h
      · cases (hi.relies _ _ hw).phase.2.2.symm.trans hos
    | os => exact absurd rfl ha
    | takeEvent | main | forceKill => exact hok.1.1.elim
    | _ => exact hrated
  · cases hrated'
  · exact hnext.rated hrated' hfailure fun hpc => hi.rated h hos hpc hfailure

theorem finds (hi : s.ActivationInv c) (hok : s.Controlled c (.worker ok)) {attempt : Nat}
    {pc : Activate} (hw : s.worker = some (.activate attempt pc)) : pc.Finds ok s.node s.os where
  ended := hi.ended
  past := hi.past
  early h := hi.reaped _ (Bool.or_eq_true_iff.mpr (.inr h))
  alone Q hQ := (hi.tracked.alone _ hw Q hQ).2
  reset h := hok.2.1 ok rfl _ hw (by rw [h]; rfl)
  kill := hok.1.2.2 ok rfl _ hw
  requests h := by
    obtain ⟨attempt', pc', hw', hpc⟩ := hi.requests h
    cases hw.symm.trans hw'
    exact hpc

theorem requests_of_step (hi : s.ActivationInv c) (hok : s.Controlled c a)
    (hs : s.step c a = some s') (h : s'.node.terminationRequested = true) :
    ∃ attempt pc, s'.worker = some (.activate attempt pc) ∧ pc.requesting = true := by
  cases moves_of_step hs with
  | begin type hw =>
    obtain ⟨attempt, pc, hw', -⟩ := hi.requests h
    cases hw.symm.trans hw'
  | worker ok j hw =>
    obtain ⟨attempt, pc, rfl⟩ := hi.job_eq hw
    have hrequests : s.node.terminationRequested = true → pc.requesting = true := by
      intro hr
      obtain ⟨attempt', pc', hw', hpc'⟩ := hi.requests hr
      cases hw.symm.trans hw'
      exact hpc'
    obtain ⟨attempt', pc', hm, hw'⟩ | ⟨_, hm, -⟩ := activate_of_worker hw hs
    · obtain ⟨_, _, ⟨⟩, hpc'⟩ := hm.requesting hrequests h
      exact ⟨attempt', pc', hw', hpc'⟩
    · obtain ⟨_, _, ⟨⟩, _⟩ := hm.requesting hrequests h
  | launched pid attempt hw =>
    obtain ⟨attempt', pc, hw', hpc⟩ := hi.requests h
    cases hw.symm.trans hw'
    cases hpc
  | os h₁ hos =>
    refine hi.requests ?_
    exact (h₁.pc.moves c h₁.process h₁.status s.node).terminationRequested h
  | main => exact hok.1.1.elim
  | _ => exact hi.requests h

theorem relies_of_os (hi : s.ActivationInv c) {h : Handler} (hos : s.os = some h)
    (hs : s.step c .os = some s') {attempt : Nat} {pc : Activate}
    (hw : s.worker = some (.activate attempt pc)) : pc.Relies c s'.node s'.os := by
  have hrelies := hi.relies _ _ hw
  have hsilent := hi.silent h hos
  have hos' : s'.os =
      (h.pc.step c h.process h.status s.node).2.point.map ({ h with pc := · }) := by
    rw [step, hos] at hs
    cases hs
    rfl
  have hphase := hrelies.phase
  rw [hos] at hphase
  have hrequest : pc.phase = .waiting → s.node.terminationRequested = false := by
    intro hwaiting
    refine Bool.eq_false_iff.mpr fun hset => ?_
    obtain ⟨attempt', pc', hw', hpc⟩ := hi.requests hset
    cases hw.symm.trans hw'
    exact Activate.not_requesting_of_waiting hwaiting hpc
  have hlive : h.pc.pre = true → s.node.processState.Live :=
    fun hpre => hi.tracked.live (.inr ⟨h, hos, hpre⟩)
  have hholds := hphase.handle (c := c) hsilent hrequest hlive
    (fun hgone => node_of_os hos hs ▸ gone_of_step hs (fun _ => by rintro ⟨⟩) hgone)
    (hi.gone_of_handler hos)
  obtain ⟨hready, hreturned⟩ := (h.pc.moves c h.process h.status s.node).flags hsilent.ne
  rw [node_of_os hos hs, hos']
  refine ⟨hholds, ?_, fun hpc => hready.trans (hrelies.fresh.1 hpc),
    fun hpc => hreturned.trans (hrelies.fresh.2 hpc)⟩
  rw [← node_of_os hos hs]
  rcases processState_cases hs with hstate | ⟨new, hstate, -, hp⟩ <;> rw [hstate]
  · exact hrelies.knows
  · cases hp
    exact hrelies.knows.terminated (Phase.Holds.not_alone hphase)

theorem relies_of_step (hi : s.ActivationInv c) (hok : s.Controlled c a)
    (hs : s.step c a = some s') (attempt' : Nat) (pc' : Activate)
    (hw' : s'.worker = some (.activate attempt' pc')) : pc'.Relies c s'.node s'.os := by
  cases moves_of_step hs with
  | begin type hw =>
    cases type with
    | deactivate => exact absurd rfl hok.1.2.1
    | activate =>
      cases hw'
      exact ⟨hi.rest hw, trivial, nofun, nofun⟩
  | worker ok j hw =>
    obtain ⟨attempt, pc, rfl⟩ := hi.job_eq hw
    obtain ⟨_, _, hm, hworker⟩ | ⟨r, -, hworker, -⟩ := activate_of_worker hw hs
    · cases hworker.symm.trans hw'
      exact (hi.relies _ _ hw).next (hi.finds hok hw) hm
    · cases hworker.symm.trans hw'
  | launched pid attempt hw hpid =>
    cases hw'
    obtain ⟨⟨-, hterminated, hos⟩, -, hfresh⟩ := hi.relies _ _ hw
    exact ⟨⟨hpid, hterminated, hos⟩, trivial, hfresh⟩
  | exit process status | reapEarly process room =>
    exact (hi.relies _ _ hw').congr rfl rfl rfl rfl rfl rfl
      fun h => gone_of_step hs (fun _ => nofun) h
  | reap process status hos hle hin hreaped =>
    obtain rfl := hi.tracked.inserted process hin hreaped
    have hrelies : pc'.Relies c
        (s.node.update (s.node.modify s.node.started ({ · with reaped := true }))) s.os :=
      (hi.relies _ _ hw').congr rfl rfl rfl rfl rfl rfl
        fun h => gone_of_step hs (fun _ => nofun) h
    have hphase := hrelies.phase
    rw [hos] at hphase
    refine ⟨hphase.reap status fun hpc => ?_, hrelies.knows, hrelies.fresh⟩
    obtain ⟨Q, hQ⟩ := Activate.alone_of_phase hpc
    exact (hi.tracked.alone _ hw' Q hQ).1 (.inl ⟨hin, hreaped⟩)
  | os h hos => exact hi.relies_of_os hos hs hw'
  | takeEvent | main | forceKill => exact hok.1.1.elim

theorem rest_of_step (hi : s.ActivationInv c) (hok : s.Controlled c a)
    (hs : s.step c a = some s') (hw' : s'.worker = none) (hready : s'.node.reachedReady = false) :
    s'.node.Gone := by
  cases moves_of_step hs with
  | begin | launched => cases hw'
  | worker ok j hw =>
    obtain ⟨attempt, pc, rfl⟩ := hi.job_eq hw
    obtain ⟨_, _, -, hworker⟩ | ⟨r, hm, -⟩ := activate_of_worker hw hs
    · cases hworker.symm.trans hw'
    · rcases hm.result (hi.relies _ _ hw) with ⟨-, h⟩ | ⟨-, -, h⟩
      · exact Bool.noConfusion (h.symm.trans hready)
      · exact h
  | os h hos =>
    refine gone_of_step hs (fun _ => nofun) (hi.rest hw' ?_)
    exact ((h.pc.moves ..).flags (hi.silent h hos).ne).1.symm.trans hready
  | takeEvent | main | forceKill => exact hok.1.1.elim
  | _ => exact gone_of_step hs (fun _ => nofun) (hi.rest hw' hready)

theorem notRunning_of_step (hi : s.ActivationInv c) (hs : s.step c a = some s')
    (hcond : c.readyCondition = .terminated) : s'.node.processState ≠ .running := by
  rcases processState_cases hs with hstate | ⟨new, hstate, -, hp⟩ <;> rw [hstate]
  · exact hi.notRunning hcond
  · cases hp with
    | running hw hmay =>
      rw [(hi.relies _ _ hw).knows.2 hcond] at hmay
      exact absurd hmay (by decide)
    | _ => exact nofun

theorem step (hi : s.ActivationInv c) (hok : s.Controlled c a) (hs : s.step c a = some s') :
    s'.ActivationInv c where
  tracked := hi.tracked.step (.of_withoutMain hok.1.1) hs
  activating pc hw' := by
    rcases deactivate_cases hs hw' with ⟨hw, -⟩ | ⟨hnone, rfl⟩ | ⟨ok, pc, -, hw, -⟩
    · exact hi.activating _ hw
    · cases moves_of_step hs with
      | begin type =>
        cases type with
        | activate => cases hw'
        | deactivate => exact hok.1.2.1 rfl
      | worker ok j hw => cases hw.symm.trans hnone
      | launched => cases hw'
      | _ => cases hnone.symm.trans hw'
    · exact hi.activating _ hw
  reaped := hi.reaped.step hs
  statuses := hi.tracked.statusKnown_of_step hi.statuses hs
  past := hi.past_of_step hs
  ended := hi.ended_of_step hok hs
  notRunning := hi.notRunning_of_step hs
  silent := hi.silent_of_step hok hs
  rated := hi.rated_of_step hok hs
  requests := hi.requests_of_step hok hs
  relies := hi.relies_of_step hok hs
  rest := hi.rest_of_step hok hs

end ActivationInv

structure AtRest (s : System) : Prop where
  worker : s.worker = none
  os : s.os = none
  state : ¬ s.node.processState.Live
  gone : s.node.Gone
  reaped : s.Reaped
  inserted : ∀ p, (s.node.processes p).inserted = true → (s.node.processes p).reaped = true
  requested : s.node.terminationRequested = false

theorem atRest_init : AtRest {} where
  worker := rfl
  os := rfl
  state := by decide
  gone p hpos hle := absurd hle (Nat.not_le.mpr hpos)
  reaped := nofun
  inserted := nofun
  requested := rfl

theorem AtRest.activationInv (h : s.AtRest) : s.ActivationInv c where
  tracked :=
    { started := fun _ hos => by cases h.os.symm.trans hos
      inserted := fun p hin hreaped => Bool.noConfusion ((h.inserted p hin).symm.trans hreaped)
      pre := fun _ hos => by cases h.os.symm.trans hos
      live := by
        rintro (⟨hin, hreaped⟩ | ⟨_, hos, -⟩)
        · exact Bool.noConfusion ((h.inserted _ hin).symm.trans hreaped)
        · cases h.os.symm.trans hos
      alone := fun _ hw => by cases h.worker.symm.trans hw }
  activating _ hw := by cases h.worker.symm.trans hw
  reaped := h.reaped
  statuses _ hos := by cases h.os.symm.trans hos
  past := h.gone.past
  ended _ := h.gone
  notRunning _ hstate := h.state (hstate ▸ by decide)
  silent _ hos := by cases h.os.symm.trans hos
  rated _ hos := by cases h.os.symm.trans hos
  requests hset := Bool.noConfusion (h.requested.symm.trans hset)
  relies _ _ hw := by cases h.worker.symm.trans hw
  rest _ _ := h.gone

def InCourse (c : ComponentConfig) (s : System) (a : Act) : Prop :=
  s.Controlled c a ∧ a ≠ .begin .activate

instance (c : ComponentConfig) (s : System) (a : Act) : Decidable (s.InCourse c a) :=
  inferInstanceAs (Decidable (_ ∧ _))

/-- How far an activation has come that found `base` processes started. -/
structure Course (c : ComponentConfig) (base : Nat) (s : System) : Prop where
  attempts : ∀ attempt pc, s.worker = some (.activate attempt pc) →
    attempt ≤ c.activationRetryAttempts ∧ s.node.started ≤ base + attempt + 1 ∧
      (pc.beforeLaunch = true → s.node.started ≤ base + attempt)
  launches : s.node.started ≤ base + c.activationRetryAttempts + 1
  returned : s.worker = none →
    ∃ r, s.returned = some (.activate, r) ∧ (r = .success ↔ s.node.active = true)

theorem Course.step {base : Nat} (hi : s.ActivationInv c) (h : Course c base s)
    (hok : s.InCourse c a) (hs : s.step c a = some s') : Course c base s' := by
  cases moves_of_step hs with
  | begin type =>
    cases type with
    | activate => exact absurd rfl hok.2
    | deactivate => exact absurd rfl hok.1.1.2.1
  | worker ok j hw =>
    obtain ⟨attempt, pc, rfl⟩ := hi.job_eq hw
    obtain ⟨hle, hstarted, hbefore⟩ := h.attempts _ _ hw
    have hsame := started_of_step hs fun _ => nofun
    obtain ⟨attempt', pc', hm, hw'⟩ | ⟨r, hm, hw', hreturned⟩ := activate_of_worker hw hs
    · refine ⟨fun attempt'' pc'' hw'' => ?_, hsame ▸ h.launches, fun hnone => ?_⟩
      · cases hw'.symm.trans hw''
        rw [hsame]
        rcases hm.attempt_cases with ⟨rfl, hpc⟩ | ⟨rfl, hlt⟩
        · exact ⟨hle, hstarted, fun hp => hbefore (hpc hp)⟩
        · exact ⟨hlt, by omega, fun _ => hstarted⟩
      · cases hw'.symm.trans hnone
    · refine ⟨fun _ _ hw'' => ?_, hsame ▸ h.launches, fun _ => ⟨r, hreturned, ?_⟩⟩
      · cases hw'.symm.trans hw''
      rcases hm.result (hi.relies _ _ hw) with ⟨rfl, hr⟩ | ⟨hr, hready, -⟩
      · exact iff_of_true rfl hr
      · exact iff_of_false hr (Bool.eq_false_iff.mp hready)
  | launched pid attempt hw =>
    obtain ⟨hle, -, hbefore⟩ := h.attempts _ _ hw
    have hstarted := hbefore rfl
    refine ⟨fun attempt' pc' hw' => ?_, ?_, nofun⟩
    · cases hw'
      exact ⟨hle, Nat.succ_le_succ hstarted, nofun⟩
    · refine Nat.succ_le_succ (hstarted.trans ?_)
      omega
  | os h₁ hos =>
    have hsame := started_of_step hs fun _ => nofun
    refine ⟨fun attempt pc hw' => hsame ▸ h.attempts attempt pc hw', hsame ▸ h.launches,
      fun hw' => ?_⟩
    obtain ⟨r, hr, hiff⟩ := h.returned hw'
    refine ⟨r, hr, hiff.trans (iff_of_eq (congrArg (· = true) ?_))⟩
    exact ((h₁.pc.moves ..).flags (hi.silent h₁ hos).ne).1.symm
  | takeEvent | main | forceKill => exact hok.1.1.1.elim
  | _ => exact ⟨h.attempts, h.launches, h.returned⟩

theorem controlled_begin (c : ComponentConfig) (s : System) : s.Controlled c (.begin .activate) :=
  ⟨⟨trivial, nofun, nofun⟩, nofun, fun _ _ _ => ⟨nofun, nofun⟩⟩

theorem course_of_begin (hs : s.step c (.begin .activate) = some s') :
    Course c s.node.started s' := by
  cases moves_of_step hs with
  | begin =>
    refine ⟨fun attempt pc hw => ?_, ?_, nofun⟩
    · cases hw
      exact ⟨Nat.zero_le _, Nat.le_succ _, fun _ => Nat.le_refl _⟩
    · exact Nat.le_add_right_of_le (Nat.le_add_right ..)

/-- A controlled activation starts one process more than the retries at most, one at a time, and
succeeds if and only if the component is active. -/
theorem activate_in_order (c : ComponentConfig) {s₀ s s₁ t : System} (hrest : s₀.AtRest)
    (hbefore : Runs.Run (step c) (Controlled c) s₀ s)
    (hbegin : s.step c (.begin .activate) = some s₁)
    (hrun : Runs.Run (step c) (InCourse c) s₁ t) :
    t.node.started ≤ s.node.started + (c.activationRetryAttempts + 1) ∧
      (∀ p q, t.node.Alive p → t.node.Alive q → p = q) ∧
      (t.worker = none → ∃ r, t.returned = some (.activate, r) ∧
        (r = .success ↔ t.node.active = true) ∧ (r ≠ .success → ∀ p, ¬ t.node.Alive p)) := by
  have hs : s.ActivationInv c :=
    hbefore.invariant (ActivationInv c) (fun hi hok h => hi.step hok h) hrest.activationInv
  have hs₁ : s₁.ActivationInv c := hs.step (controlled_begin c s) hbegin
  obtain ⟨hi, hcourse⟩ := hrun.invariant
    (fun s' => s'.ActivationInv c ∧ Course c s.node.started s')
    (fun h hok hstep => ⟨h.1.step hok.1 hstep, h.2.step h.1 hok hstep⟩)
    ⟨hs₁, course_of_begin hbegin⟩
  refine ⟨hcourse.launches, fun p q hp hq => (hi.past.last_of_alive hp).trans
    (hi.past.last_of_alive hq).symm, fun hw => ?_⟩
  obtain ⟨r, hr, hiff⟩ := hcourse.returned hw
  refine ⟨r, hr, hiff, fun hne p hp => ?_⟩
  have hready : t.node.reachedReady = false := Bool.eq_false_iff.mpr fun h => hne (hiff.mpr h)
  exact (hi.rest hw hready).not_alive p hp

theorem activate_in_order_retried :
    ∃ s₁ t, System.step ⟨false, false, .running, 1⟩ {} (.begin .activate) = some s₁ ∧
      Runs.Run (step ⟨false, false, .running, 1⟩) (InCourse ⟨false, false, .running, 1⟩) s₁ t ∧
      t.node.started = 2 ∧ t.node.Alive 2 ∧
      (t.node.started ≤ 0 + (1 + 1) ∧
        (∀ p q, t.node.Alive p → t.node.Alive q → p = q) ∧
        (t.worker = none → ∃ r, t.returned = some (.activate, r) ∧
          (r = .success ↔ t.node.active = true) ∧ (r ≠ .success → ∀ p, ¬ t.node.Alive p))) := by
  obtain ⟨t, hrun, hstarted, halive⟩ := Runs.Run.exists_of_exec (step ⟨false, false, .running, 1⟩)
    (InCourse ⟨false, false, .running, 1⟩) { worker := some (.start .activate) }
    (fun t => t.node.started = 2 ∧ t.node.Alive 2)
    (List.flatten [List.replicate 10 (.worker true),
      [.launched 7, .worker true, .exit 1 1, .reap 1], List.replicate 5 .os,
      List.replicate 10 (.worker true), [.launched 8], List.replicate 6 (.worker true)])
    (by decide +kernel)
  exact ⟨_, t, rfl, hrun, hstarted, halive,
    activate_in_order ⟨false, false, .running, 1⟩ atRest_init (.refl _) rfl hrun⟩

/-- First, the process ends with success just when the time is up: the handler makes the component
active, while the activation fails. Second, the worker takes the end of a process for that of the
next one, and returns a failure with that one running. -/
theorem activate_races_with_handler :
    (∃ s, Runs.Run (step ⟨true, false, .terminated, 0⟩) Undisturbed {} s ∧ s.worker = none ∧
      s.returned = some (.activate, .failure) ∧ s.node.active = true) ∧
    ∃ s, Runs.Run (step ⟨false, false, .terminated, 1⟩) Undisturbed {} s ∧ s.worker = none ∧
      s.returned = some (.activate, .failure) ∧ s.node.Alive 2 := by
  constructor
  · exact Runs.Run.exists_of_exec _ _ _ _
      (List.flatten [[.begin .activate], List.replicate 10 (.worker true), [.launched 7],
        List.replicate 6 (.worker true), [.exit 1 0, .reap 1, .worker false, .worker true],
        List.replicate 8 .os, [.worker true, .os, .os]])
      (by decide +kernel)
  · exact Runs.Run.exists_of_exec _ _ _ _
      (List.flatten [[.begin .activate], List.replicate 10 (.worker true),
        [.launched 7, .worker true, .worker true, .exit 1 0, .reap 1], List.replicate 4 .os,
        List.replicate 9 (.worker true), [.launched 8, .worker true, .os],
        List.replicate 4 (.worker true)])
      (by decide +kernel)

end System

end LaunchManager.ProcessInfoNode
