import LaunchManager.Component

/-!
# The termination of a component's process

A process terminates once, at any time after its start. If no action fails while the process runs,
its termination is delivered to a component that is starting, ready or terminating. If moreover
only a component whose process has not terminated is deactivated, a component that is terminating
has the termination still to come. Both conditions are needed: a failed action leaves a component
in its fault state with a process that runs, and the stop action succeeds for a process that is
gone.
-/

namespace LaunchManager.Component

set_option autoImplicit false

open Runs

namespace Threads

def Allowed (s : Threads) : Act → Prop
  | .activate _ => s.members.state = .terminated
  | .deactivate _ _ => s.members.state.running?.isSome = true
  | .wait _ _ | .resume _ _ | .requestStop _ | .tryHandleTermination _ _ _ _ => True

instance (s : Threads) : ∀ a, Decidable (s.Allowed a)
  | .activate _ => inferInstanceAs (Decidable (_ = _))
  | .deactivate _ _ => inferInstanceAs (Decidable (_ = _))
  | .wait _ _ | .resume _ _ | .requestStop _ | .tryHandleTermination _ _ _ _ => isTrue trivial

def Settled (s : Threads) : Prop := ∀ p ∈ s.started, p ∈ s.delivered

instance (s : Threads) : Decidable s.Settled := inferInstanceAs (Decidable (∀ p ∈ s.started, _))

def Succeeds (s : Threads) : Act → Prop
  | .resume call activated =>
    call ∈ s.members.stopRequested ∨ s.members.activateSupervision activated = true ∨ s.Settled
  | .deactivate deactivated stop =>
    s.members.deactivateSupervision deactivated = true ∧ stop = some .success ∨ s.Settled
  | .activate _ | .wait _ _ | .requestStop _ | .tryHandleTermination _ _ _ _ => True

instance (s : Threads) : ∀ a, Decidable (s.Succeeds a)
  | .resume _ _ => inferInstanceAs (Decidable (_ ∨ _ ∨ _))
  | .deactivate _ _ => inferInstanceAs (Decidable (_ ∧ _ ∨ _))
  | .activate _ | .wait _ _ | .requestStop _ | .tryHandleTermination _ _ _ _ => isTrue trivial

section Outstanding
variable {s : Threads} {p q : Nat}

theorem Settled.not_outstanding (h : s.Settled) : ¬ s.Outstanding p := fun hp => hp.2 (h p hp.1)

variable {members : Members}

theorem outstanding_start {handle : Handle} {calls : List Activation}
    (h : ({ s with members, calls, started := handle.process?.toList ++ s.started } :
      Threads).Outstanding p) : handle.process? = some p ∨ s.Outstanding p := by
  obtain ⟨hstarted, hdelivered⟩ := h
  rcases List.mem_append.mp hstarted with hnew | hold
  · exact .inl (Option.mem_toList.mp hnew)
  · exact .inr ⟨hold, hdelivered⟩

theorem outstanding_deliver
    (h : ({ s with members, delivered := p :: s.delivered } : Threads).Outstanding q) :
    q ≠ p ∧ s.Outstanding q := by
  obtain ⟨hstarted, hdelivered⟩ := h
  refine ⟨?_, hstarted, fun hq => hdelivered (List.mem_cons_of_mem p hq)⟩
  rintro rfl
  exact hdelivered List.mem_cons_self

end Outstanding

/-! ## The process of the state -/

def Current (s : Threads) : Prop := ∀ p, s.Outstanding p →
  s.members.state.process? = some p ∨ ∃ handle, s.members.state = .fault handle

section Current
variable {s s' : Threads} {p : Nat}

theorem Current.init (m : Members) : ({ members := m } : Threads).Current :=
  fun _ hp => absurd hp.1 List.not_mem_nil

theorem Settled.current (h : s.Settled) : s.Current := fun _ hp => absurd hp h.not_outstanding

theorem Current.process (h : s.Current) (hp : s.Outstanding p)
    (hstate : ¬ ∃ handle, s.members.state = .fault handle) : s.members.state.process? = some p :=
  (h p hp).resolve_right hstate

theorem Current.running (h : s.Current) (hp : s.Outstanding p) {handle : Handle}
    (hstate : s.members.state.running? = some handle) : handle.process? = some p := by
  rw [← State.process?_of_running hstate]
  refine h.process hp ?_
  rintro ⟨handle', hfault⟩
  rw [hfault] at hstate
  cases hstate

theorem Current.settled (h : s.Current) (hstate : s.members.state = .terminated) : s.Settled := by
  intro p hp
  by_contra hnot
  have hp' := h.process ⟨hp, hnot⟩ (by simp [hstate])
  rw [hstate] at hp'
  cases hp'

theorem Current.deliver (h : s.Current) (hp : s.Outstanding p)
    (hstate : ¬ ∃ handle, s.members.state = .fault handle) (members : Members) :
    ({ s with members, delivered := p :: s.delivered } : Threads).Settled := by
  intro q hq
  by_contra hnot
  obtain ⟨hne, hq⟩ := outstanding_deliver ⟨hq, hnot⟩
  exact hne (Option.some.inj ((h.process hq hstate).symm.trans (h.process hp hstate)))

theorem not_fault_of_running {state : State} {handle : Handle}
    (h : state.running? = some handle) : ¬ ∃ handle, state = .fault handle := by
  rintro ⟨handle', rfl⟩
  cases h

theorem Current.step (h : s.Current) {a : Act} (hs : s.step a = some s') : s'.Current := by
  cases (step_cases hs).2 with
  | aborts | waited | stopped | requestStop => exact h
  | notStarted | notSupervised | notStopped | failed => exact fun p _ => .inr ⟨_, rfl⟩
  | started hhandle hstate =>
    intro p hp
    rcases outstanding_start hp with hnew | hold
    · exact .inl hnew
    · exact absurd hold (h.settled hstate).not_outstanding
  | ready _ _ hstate => exact fun p hp => .inl (h.running hp (by rw [hstate]; rfl))
  | deactivated hstate => exact fun p hp => .inl (h.running hp hstate)
  | terminated hp hstate | ignored hp hstate | ignoredReady hp hstate =>
    exact (h.deliver hp (by simp [hstate]) _).current

end Current

/-! ## The state assertion -/

/-- The state acts on the termination of every process that runs. -/
def Tracked (s : Threads) : Prop := ∀ p, s.Outstanding p → s.members.state.process? = some p

section Tracked
variable {s s' : Threads} {p : Nat}

theorem Tracked.current (h : s.Tracked) : s.Current := fun p hp => .inl (h p hp)

theorem Tracked.settled (h : s.Tracked) (hstate : s.members.state.process? = none) : s.Settled := by
  intro p hp
  by_contra hnot
  cases (h p ⟨hp, hnot⟩).symm.trans hstate

theorem Current.tracked (h : s.Current)
    (hfault : ∀ handle, s.members.state = .fault handle → s.Settled) : s.Tracked :=
  fun p hp => (h p hp).resolve_right fun ⟨handle, hstate⟩ =>
    (hfault handle hstate).not_outstanding hp

theorem Tracked.step (h : s.Tracked) {a : Act} (hok : s.Succeeds a) (hs : s.step a = some s') :
    s'.Tracked := by
  refine (h.current.step hs).tracked fun handle hfault => ?_
  cases (step_cases hs).2 with
  | aborts | waited | stopped | requestStop => exact h.settled (congrArg State.process? hfault)
  | notStarted hstate => exact h.settled (by rw [hstate]; rfl)
  | started | ready | deactivated | terminated | ignored | ignoredReady => cases hfault
  | failed hp hstate => exact h.current.deliver hp (not_fault_of_running hstate) _
  | notSupervised hstop hstate hactivated =>
    rcases hok with hok | hok | hsettled
    · exact absurd hok hstop
    · cases hactivated.symm.trans hok
    · exact hsettled
  | notStopped hstate hfailed =>
    rcases hok with ⟨hsup, hstop⟩ | hsettled
    · rcases hfailed with hfailed | hfailed
      · cases hfailed.symm.trans hsup
      · exact absurd hstop hfailed
    · exact hsettled

theorem Tracked.not_abort (h : s.Tracked) {a : Act} (hs : s.step a = some s') :
    s'.aborted ≠ some .termination := by
  obtain ⟨haborted, hstep⟩ := step_cases hs
  cases hstep with
  | aborts he =>
    intro heq
    obtain ⟨p, hp, hstate⟩ := he (Option.some.inj heq)
    cases (h p hp).symm.trans hstate
  | _ => simp [haborted]

theorem tryHandleTermination_ok {m : Members} (h : m.state.process? = some p) (status : Int)
    (deactivated accepted : Bool) :
    ∃ result, m.tryHandleTermination status deactivated accepted = .ok result := by
  unfold Members.tryHandleTermination
  cases hstate : m.state with
  | terminating => exact ⟨_, rfl⟩
  | starting | ready =>
    simp only
    split
    · exact ⟨_, rfl⟩
    · split
      · exact ⟨_, rfl⟩
      · exact ⟨_, rfl⟩
  | terminated | fault =>
    rw [hstate] at h
    cases h

end Tracked

/-- If no action fails while the process runs, its termination meets a state that allows it. -/
theorem termination_meets_running_state {m : Members} {s : Threads}
    (hrun : Run step Succeeds { members := m } s) :
    s.aborted ≠ some .termination ∧
      ∀ p, s.Outstanding p → ∀ status deactivated accepted, ∃ result,
        s.members.tryHandleTermination status deactivated accepted = .ok result := by
  have hinit : ({ members := m } : Threads).Tracked ∧
      ({ members := m } : Threads).aborted ≠ some .termination :=
    ⟨fun p hp => absurd hp.1 List.not_mem_nil, by rintro ⟨⟩⟩
  obtain ⟨htracked, haborted⟩ := hrun.invariant
    (fun s => s.Tracked ∧ s.aborted ≠ some .termination)
    (fun h hok hs => ⟨h.1.step hok hs, h.1.not_abort hs⟩) hinit
  exact ⟨haborted, fun p hp => tryHandleTermination_ok (htracked p hp)⟩

def sampleMembers : Members where
  applicationType := .reporting
  isSelfTerminating := false
  supervisionHandle := false

def supervisedMembers : Members where
  applicationType := .reportingAndSupervised
  isSelfTerminating := false
  supervisionHandle := true

theorem termination_meets_running_state_twice :
    ∃ s : Threads, s.calls = [.returned .failure, .returned .success] ∧ s.delivered = [1, 0] ∧
      s.aborted ≠ some .termination := by
  obtain ⟨s, hrun, hcalls, hdelivered⟩ := Run.exists_of_exec step Succeeds
    { members := supervisedMembers }
    (fun s => s.calls = [.returned .failure, .returned .success] ∧ s.delivered = [1, 0])
    [.activate (some (.process 7)), .deactivate true (some .success),
      .tryHandleTermination 0 15 true false, .wait 0 false, .activate (some (.process 8)),
      .wait 1 true, .resume 1 true, .tryHandleTermination 1 1 true false]
    (by decide +kernel)
  exact ⟨s, hcalls, hdelivered, (termination_meets_running_state hrun).1⟩

/-- After a failed stop action or call of the supervision the termination aborts the program. -/
theorem termination_in_fault_state_aborts :
    (∃ s, Run step Allowed { members := sampleMembers } s ∧ s.aborted = some .termination) ∧
      (∃ s, Run step Allowed { members := supervisedMembers } s ∧
        s.calls = [.returned .success] ∧ s.aborted = some .termination) ∧
      ∃ s, Run step Allowed { members := supervisedMembers } s ∧
        s.calls = [.returned .failure] ∧ s.aborted = some .termination := by
  refine ⟨Run.exists_of_exec step Allowed _ _
    [.activate (some (.process 7)), .wait 0 true, .resume 0 true, .deactivate true none,
      .tryHandleTermination 0 0 true false] (by decide +kernel), ?_, ?_⟩
  · exact Run.exists_of_exec _ _ _ _
      [.activate (some (.process 7)), .wait 0 true, .resume 0 true,
        .deactivate false (some .success), .tryHandleTermination 0 0 true false]
      (by decide +kernel)
  · exact Run.exists_of_exec _ _ _ _
      [.activate (some (.process 7)), .wait 0 true, .resume 0 false,
        .tryHandleTermination 0 0 true false] (by decide +kernel)

/-! ## The end of a deactivation -/

def ProcessActions (s : Threads) : Act → Prop
  | .activate start => start ≠ some .empty
  | .deactivate _ stop => ∀ handle ∈ s.members.state.running?,
    ∃ result ∈ [OsalReturn.success, .fail, .timeout], stop = processStop result handle
  | .wait _ _ | .resume _ _ | .requestStop _ | .tryHandleTermination _ _ _ _ => True

instance (s : Threads) : ∀ a, Decidable (s.ProcessActions a)
  | .activate _ => inferInstanceAs (Decidable (_ ≠ _))
  | .deactivate _ _ => inferInstanceAs (Decidable (∀ handle ∈ s.members.state.running?, _))
  | .wait _ _ | .resume _ _ | .requestStop _ | .tryHandleTermination _ _ _ _ => isTrue trivial

/-- A component is deactivated only while the termination of its process is to come. -/
def StopsProcess (s : Threads) : Act → Prop
  | .deactivate _ _ => ¬ s.Settled
  | .activate _ | .wait _ _ | .resume _ _ | .requestStop _ | .tryHandleTermination _ _ _ _ => True

instance (s : Threads) : ∀ a, Decidable (s.StopsProcess a)
  | .deactivate _ _ => inferInstanceAs (Decidable (¬ _))
  | .activate _ | .wait _ _ | .resume _ _ | .requestStop _ | .tryHandleTermination _ _ _ _ =>
    isTrue trivial

def NoActivation (_ : Threads) : Act → Prop
  | .activate _ => False
  | .wait _ _ | .resume _ _ | .requestStop _ | .deactivate _ _ | .tryHandleTermination _ _ _ _ =>
    True

def CanActivate (s : Threads) : Prop :=
  s.members.state = .terminated ∧
    ∀ start, ∃ s', s.step (.activate start) = some s' ∧ s'.aborted = none

/-- The component waits for the termination of a process that has not been delivered. -/
def AwaitsTermination (s : Threads) : Prop :=
  ∃ handle p, s.members.state = .terminating handle ∧ handle.process? = some p ∧ s.Outstanding p

def Awaited (s : Threads) : Prop :=
  ∀ handle, s.members.state = .terminating handle → s.AwaitsTermination

section Awaited
variable {s s' : Threads} {p : Nat}

theorem Awaited.step (h : s.Awaited) (hcurrent : s.Current) {a : Act} (hok : s.StopsProcess a)
    (hs : s.step a = some s') : s'.Awaited := by
  cases (step_cases hs).2 with
  | aborts | waited | stopped | requestStop => exact h
  | deactivated hstate =>
    intro handle hhandle
    cases hhandle
    obtain ⟨p, hp⟩ := not_forall.mp hok
    have hout : s.Outstanding p := Classical.not_imp.mp hp
    exact ⟨_, p, rfl, hcurrent.running hout hstate, hout⟩
  | notStarted | started | ready | notSupervised | notStopped | terminated | ignored
  | ignoredReady | failed => exact fun handle hhandle => by cases hhandle

theorem canActivate_of_terminated (haborted : s.aborted = none)
    (hstate : s.members.state = .terminated) : s.CanActivate := by
  refine ⟨hstate, fun start => ?_⟩
  rw [Threads.step, if_pos haborted]
  simp only [perform, Members.activate, if_neg (not_not.mpr hstate)]
  cases isSupervised s.members.applicationType && !s.members.supervisionHandle with
  | true => exact ⟨_, rfl, haborted⟩
  | false =>
    cases start with
    | none | some resource => exact ⟨_, rfl, haborted⟩

theorem step_terminating (haborted : s.aborted = none) {handle : Handle}
    (hstate : s.members.state = .terminating handle) (hp : s.Outstanding p) (status : Int)
    (deactivated accepted : Bool) :
    ∃ s', s.step (.tryHandleTermination p status deactivated accepted) = some s' ∧
      s'.CanActivate := by
  have hstep : s.step (.tryHandleTermination p status deactivated accepted) = some
      { s with
        members := { s.members with state := .terminated }
        delivered := p :: s.delivered } := by
    rw [Threads.step, if_pos haborted]
    simp only [perform, Members.tryHandleTermination, if_pos hp, hstate]
  exact ⟨_, hstep, canActivate_of_terminated haborted rfl⟩

def Deactivated (s : Threads) : Prop :=
  s.aborted = none → s.members.state = .terminated ∨ s.AwaitsTermination

theorem Deactivated.step (h : s.Deactivated) {a : Act} (hok : s.NoActivation a)
    (hs : s.step a = some s') : s'.Deactivated := by
  obtain ⟨haborted, hstep⟩ := step_cases hs
  intro haborted'
  have hnow := h haborted
  have hkept : s'.members.state = s.members.state → s'.started = s.started →
      s'.delivered = s.delivered → s'.members.state = .terminated ∨ s'.AwaitsTermination := by
    intro hstate hstarted hdelivered
    unfold AwaitsTermination Outstanding
    rw [hstate, hstarted, hdelivered]
    exact hnow
  have hidle : s.members.state.running? = none := by
    rcases hnow with hstate | ⟨handle, p, hstate, -⟩
    all_goals
      rw [hstate]
      rfl
  cases hstep with
  | notStarted | started => exact hok.elim
  | aborts => cases haborted'
  | waited | stopped | requestStop => exact hkept rfl rfl rfl
  | terminated => exact .inl rfl
  | ready _ _ hstate | notSupervised _ hstate | ignored _ hstate | ignoredReady _ hstate =>
    rw [hstate] at hidle
    cases hidle
  | notStopped hstate | deactivated hstate | failed _ hstate => cases hidle.symm.trans hstate

end Awaited

theorem deactivate_success {m m' : Members} {deactivated : Bool} {stop : Option RequestResult}
    (h : m.deactivate deactivated stop = .ok (m', .success)) :
    ∃ handle, m'.state = .terminating handle := by
  unfold Members.deactivate at h
  cases hstate : m.state with
  | starting handle | ready handle =>
    simp only [hstate] at h
    split at h
    · cases h
    · split at h
      · cases h
      · cases h
        exact ⟨handle, rfl⟩
  | terminated | terminating | fault =>
    rw [hstate] at h
    cases h

/-- A terminating component has the termination to come, and a deactivation ends with it. -/
theorem terminating_has_termination_to_come {m : Members} (hm : m.state = .terminated)
    {s : Threads} (hrun : Run step StopsProcess { members := m } s) :
    (∀ handle, s.members.state = .terminating handle →
      ∃ p, handle.process? = some p ∧ s.Outstanding p) ∧
    ∀ deactivated stop s' t,
      s.StopsProcess (.deactivate deactivated stop) →
      s.step (.deactivate deactivated stop) = some s' →
      s.members.deactivate deactivated stop = .ok (s'.members, .success) →
      Run step NoActivation s' t → t.aborted = none →
      t.CanActivate ∨ ∃ p, t.Outstanding p ∧ ∀ status deactivated accepted,
        ∃ u, t.step (.tryHandleTermination p status deactivated accepted) = some u ∧
          u.CanActivate := by
  have hinit : ({ members := m } : Threads).Awaited := fun handle hhandle => by
    cases hm.symm.trans hhandle
  obtain ⟨hcurrent, hs⟩ := hrun.invariant (fun s => s.Current ∧ s.Awaited)
    (fun h hok hs => ⟨h.1.step hs, h.2.step h.1 hok hs⟩) ⟨.init m, hinit⟩
  refine ⟨fun handle hhandle => ?_, ?_⟩
  · obtain ⟨handle', p, hstate, hp, hout⟩ := hs handle hhandle
    cases hhandle.symm.trans hstate
    exact ⟨p, hp, hout⟩
  · intro deactivated stop s' t hstops hstep hresult hrest haborted
    have hs' : s'.Awaited := hs.step hcurrent hstops hstep
    obtain ⟨handle, hhandle⟩ := deactivate_success hresult
    have hdone : s'.Deactivated := fun _ => .inr (hs' handle hhandle)
    have ht : t.Deactivated := hrest.invariant Deactivated (fun h hok hs => h.step hok hs) hdone
    rcases ht haborted with hstate | ⟨handle, p, hstate, -, hp⟩
    · exact .inl (canActivate_of_terminated haborted hstate)
    · exact .inr ⟨p, hp, step_terminating haborted hstate hp⟩

theorem terminating_has_termination_to_come_ready :
    ∃ s : Threads, s.calls = [.returned .success] ∧ (∃ p, s.Outstanding p) ∧
      s.members.state = .terminating (.process 7 0) := by
  obtain ⟨s, hrun, hcalls, hstate⟩ := Run.exists_of_exec step StopsProcess
    { members := sampleMembers }
    (fun s => s.calls = [.returned .success] ∧ s.members.state = .terminating (.process 7 0))
    [.activate (some (.process 7)), .wait 0 true, .resume 0 true, .deactivate true (some .success)]
    (by decide +kernel)
  obtain ⟨p, -, hp⟩ := (terminating_has_termination_to_come rfl hrun).1 _ hstate
  exact ⟨s, hcalls, ⟨p, hp⟩, hstate⟩

theorem terminating_settled_step {s s' : Threads} {a : Act} {handle : Handle}
    (hstate : s.members.state = .terminating handle) (hsettled : s.Settled)
    (hs : s.step a = some s') : s'.members.state = .terminating handle ∧ s'.Settled := by
  cases (step_cases hs).2 with
  | aborts | waited | stopped | requestStop => exact ⟨hstate, hsettled⟩
  | notStarted hother | started _ hother | ready _ _ hother | notSupervised _ hother =>
    cases hstate.symm.trans hother
  | notStopped hother | deactivated hother =>
    rw [hstate] at hother
    cases hother
  | terminated hp | ignored hp | ignoredReady hp | failed hp =>
    exact absurd hp hsettled.not_outstanding

/-- The component of a process that has exited as it should is deactivated. -/
theorem self_terminated_component_never_terminated :
    ∃ s : Threads,
      Run step (fun s a => s.Allowed a ∧ s.ProcessActions a)
        { members := { sampleMembers with isSelfTerminating := true } } s ∧
      s.aborted = none ∧ s.members.state = .terminating (.process (-1) 0) ∧ s.delivered = [0] ∧
      ∀ t, Run step anyStep s t → t.members.state = .terminating (.process (-1) 0) := by
  obtain ⟨s, hrun, haborted, hstate, hstarted, hdelivered⟩ := Run.exists_of_exec step
    (fun s a => s.Allowed a ∧ s.ProcessActions a)
    { members := { sampleMembers with isSelfTerminating := true } }
    (fun s => s.aborted = none ∧ s.members.state = .terminating (.process (-1) 0) ∧
      s.started = [0] ∧ s.delivered = [0])
    [.activate (some (.process 7)), .wait 0 true, .resume 0 true,
      .tryHandleTermination 0 0 true false, .deactivate true (some .success)]
    (by decide +kernel)
  have hsettled : s.Settled := by
    rw [Settled, hstarted, hdelivered]
    exact fun p hp => hp
  refine ⟨s, hrun, haborted, hstate, hdelivered, fun t ht => ?_⟩
  obtain ⟨hfinal, -⟩ := ht.invariant
    (fun t => t.members.state = .terminating (.process (-1) 0) ∧ t.Settled)
    (fun h _ hs => terminating_settled_step h.1 h.2 hs) ⟨hstate, hsettled⟩
  exact hfinal

end Threads

end LaunchManager.Component
