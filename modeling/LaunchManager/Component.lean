import LaunchManager.Configuration.CyclicDependencies
import LaunchManager.ProcessInfoNode
import LaunchManager.RunningHandshake

/-!
# A component made of actions

The class of `component.cpp`, which leaves to its actions how a resource is started, stopped and
found to be ready. Each function runs under the mutex of the state, only `activate` releases it
while it waits for the ready condition, so `activate` is two steps and the wait between them. What
an action returns is an argument of the step. An assertion that fails ends the program.
-/

namespace LaunchManager.Component

set_option autoImplicit false

open ProcessInfoNode (TerminationResult)

/-- The semaphores of a process have the number of the call of `activate` that started it. -/
inductive Handle where
  | empty
  | process (pid : Int) (sync : Nat)
  deriving DecidableEq, Repr

def invalidate : Handle → Handle
  | .empty => .empty
  | .process _ sync => .process (-1) sync

def Handle.process? : Handle → Option Nat
  | .empty => none
  | .process _ sync => some sync

@[simp] theorem process?_invalidate (handle : Handle) :
    (invalidate handle).process? = handle.process? := by
  cases handle <;> rfl

/-- A stop source has the number of the call of `activate` that created it. -/
inductive State where
  | terminated
  | starting (handle : Handle) (stopActivation : Nat)
  | ready (handle : Handle)
  | terminating (handle : Handle)
  | fault (handle : Handle)
  deriving DecidableEq, Repr

def State.process? : State → Option Nat
  | .starting handle _ | .ready handle | .terminating handle => handle.process?
  | .terminated | .fault _ => none

def State.running? : State → Option Handle
  | .starting handle _ | .ready handle => some handle
  | .terminated | .terminating _ | .fault _ => none

theorem State.process?_of_running {state : State} {handle : Handle}
    (h : state.running? = some handle) : state.process? = handle.process? := by
  cases state <;> cases h <;> rfl

/-- The assertions, by their function; `ready` is the unreachable end of `activate`. -/
inductive Assertion where
  | activate
  | ready
  | deactivate
  | termination
  deriving DecidableEq, Repr

def isSupervised : ApplicationType → Bool
  | .native | .reporting => false
  | .reportingAndSupervised | .stateManager => true

/-- The members. `supervisionHandle` says whether the supervision was constructed, and
`stopRequested` which stop sources were asked to stop. -/
structure Members where
  applicationType : ApplicationType
  isSelfTerminating : Bool
  supervisionHandle : Bool
  state : State := .terminated
  stopRequested : List Nat := []
  deriving DecidableEq, Repr

/-- Where a call of `activate` is, after its first section. -/
inductive Activation where
  | waiting (handle : Handle)
  | waited
  | returned (result : RequestResult)
  deriving DecidableEq, Repr

namespace Members

def requestStop (m : Members) (source : Nat) : Members :=
  { m with stopRequested := source :: m.stopRequested }

def active (m : Members) : Bool :=
  match m.state with
  | .ready _ => true
  | .terminated | .starting _ _ | .terminating _ | .fault _ => false

def activateSupervision (m : Members) (ok : Bool) : Bool := !m.supervisionHandle || ok

def deactivateSupervision (m : Members) (ok : Bool) : Bool := !m.supervisionHandle || ok

/-- `activate` until it releases the mutex. -/
def activate (m : Members) (stopActivation : Nat) (start : Option Handle) :
    Except Assertion (Members × Activation) :=
  if m.state ≠ .terminated then .error .activate
  else if isSupervised m.applicationType && !m.supervisionHandle then
    .ok ({ m with state := .fault .empty }, .returned .failure)
  else
    match start with
    | none => .ok ({ m with state := .fault .empty }, .returned .failure)
    | some handle => .ok ({ m with state := .starting handle stopActivation }, .waiting handle)

/-- `activate` from the moment when it has the mutex again. -/
def resume (m : Members) (stopActivation : Nat) (activated : Bool) :
    Except Assertion (Members × RequestResult) :=
  if stopActivation ∈ m.stopRequested then .ok (m, .failure)
  else
    match m.state with
    | .starting handle _ =>
      if m.activateSupervision activated then .ok ({ m with state := .ready handle }, .success)
      else .ok ({ m with state := .fault handle }, .failure)
    | .terminated | .ready _ | .terminating _ | .fault _ => .error .ready

/-- `stop` is the value of the stop action, if it is not an error. -/
def deactivate (m : Members) (deactivated : Bool) (stop : Option RequestResult) :
    Except Assertion (Members × RequestResult) :=
  match m.state with
  | .starting handle stopActivation =>
    if !m.deactivateSupervision deactivated then .ok ({ m with state := .fault handle }, .failure)
    else
      let m := m.requestStop stopActivation
      if stop ≠ some .success then .ok ({ m with state := .fault handle }, .failure)
      else .ok ({ m with state := .terminating handle }, .success)
  | .ready handle =>
    if !m.deactivateSupervision deactivated then .ok ({ m with state := .fault handle }, .failure)
    else if stop ≠ some .success then .ok ({ m with state := .fault handle }, .failure)
    else .ok ({ m with state := .terminating handle }, .success)
  | .terminated | .terminating _ | .fault _ => .error .deactivate

/-- `accepted` is the answer of the ready condition. -/
def tryHandleTermination (m : Members) (status : Int) (deactivated accepted : Bool) :
    Except Assertion (Members × TerminationResult) :=
  match m.state with
  | .terminating _ => .ok ({ m with state := .terminated }, .ignore)
  | .starting handle stopActivation =>
    let m := { m with state := .starting (invalidate handle) stopActivation }
    if accepted then .ok (m, .ignore)
    else if m.isSelfTerminating ∧ status = 0 then .ok (m, .ignore)
    else .ok ({ m.requestStop stopActivation with state := .fault .empty }, .failure)
  | .ready handle =>
    let m := { m with state := .ready (invalidate handle) }
    if !m.deactivateSupervision deactivated then
      .ok ({ m with state := .fault (invalidate handle) }, .failure)
    else if m.isSelfTerminating ∧ status = 0 then .ok (m, .ignore)
    else .ok ({ m with state := .fault .empty }, .failure)
  | .terminated | .fault _ => .error .termination

end Members

/-- `ProcessStopAction::stop`, which asserts that the handle is that of a process; `result` is that
of `requestTermination`. -/
def processStop (result : OsalReturn) : Handle → Option RequestResult
  | .process pid _ =>
    if pid = -1 then some .success
    else if result = .success then some .success
    else none
  | .empty => none

inductive Resource where
  | empty
  | process (pid : Int)
  deriving DecidableEq, Repr

def Resource.handle (sync : Nat) : Resource → Handle
  | .empty => .empty
  | .process pid => .process pid sync

/-- The component, the calls of `activate` in the order in which they began, the processes that
were started and those whose termination was delivered. -/
structure Threads where
  members : Members
  calls : List Activation := []
  started : List Nat := []
  delivered : List Nat := []
  aborted : Option Assertion := none
  deriving DecidableEq, Repr

inductive Act where
  | activate (start : Option Resource)
  | wait (call : Nat) (ok : Bool)
  | resume (call : Nat) (activated : Bool)
  | requestStop (call : Nat)
  | deactivate (deactivated : Bool) (stop : Option RequestResult)
  | tryHandleTermination (process : Nat) (status : Int) (deactivated accepted : Bool)
  deriving DecidableEq, Repr

namespace Threads

def Outstanding (s : Threads) (p : Nat) : Prop := p ∈ s.started ∧ p ∉ s.delivered

instance (s : Threads) (p : Nat) : Decidable (s.Outstanding p) :=
  inferInstanceAs (Decidable (_ ∧ _))

def Pending (s : Threads) (call : Nat) : Prop :=
  s.calls[call]? = some .waited ∨ ∃ handle, s.calls[call]? = some (.waiting handle)

def abort (s : Threads) (e : Assertion) : Threads := { s with aborted := some e }

def perform (s : Threads) : Act → Option Threads
  | .activate start =>
    match s.members.activate s.calls.length (start.map (Resource.handle s.calls.length)) with
    | .error e => some (s.abort e)
    | .ok (members, .waiting handle) => some
      { s with
        members, calls := s.calls ++ [.waiting handle]
        started := handle.process?.toList ++ s.started }
    | .ok (members, call) => some { s with members, calls := s.calls ++ [call] }
  | .wait call ok =>
    match s.calls[call]? with
    | some (.waiting _) =>
      some { s with calls := s.calls.set call (if ok then .waited else .returned .failure) }
    | some .waited | some (.returned _) | none => none
  | .resume call activated =>
    match s.calls[call]? with
    | some .waited =>
      match s.members.resume call activated with
      | .error e => some (s.abort e)
      | .ok (members, result) =>
        some { s with members, calls := s.calls.set call (.returned result) }
    | some (.waiting _) | some (.returned _) | none => none
  | .requestStop call =>
    match s.calls[call]? with
    | some (.waiting _) | some .waited => some { s with members := s.members.requestStop call }
    | some (.returned _) | none => none
  | .deactivate deactivated stop =>
    match s.members.deactivate deactivated stop with
    | .error e => some (s.abort e)
    | .ok (members, _) => some { s with members }
  | .tryHandleTermination p status deactivated accepted =>
    if s.Outstanding p then
      match s.members.tryHandleTermination status deactivated accepted with
      | .error e => some (s.abort e)
      | .ok (members, _) => some { s with members, delivered := p :: s.delivered }
    else none

def step (s : Threads) (a : Act) : Option Threads :=
  if s.aborted = none then s.perform a else none

inductive Step (s : Threads) : Act → Threads → Prop
  | aborts {a : Act} {e : Assertion}
    (he : e = .termination → ∃ p, s.Outstanding p ∧ s.members.state.process? = none) :
    Step s a (s.abort e)
  | notStarted {start : Option Resource} (hstate : s.members.state = .terminated) :
    Step s (.activate start) { s with
      members := { s.members with state := .fault .empty }
      calls := s.calls ++ [.returned .failure] }
  | started {resource : Resource} {handle : Handle}
    (hhandle : handle = resource.handle s.calls.length) (hstate : s.members.state = .terminated) :
    Step s (.activate (some resource)) { s with
      members := { s.members with state := .starting handle s.calls.length }
      calls := s.calls ++ [.waiting handle]
      started := handle.process?.toList ++ s.started }
  | waited {call : Nat} {ok : Bool} {handle : Handle}
    (hcall : s.calls[call]? = some (.waiting handle)) :
    Step s (.wait call ok)
      { s with calls := s.calls.set call (if ok then .waited else .returned .failure) }
  | stopped {call : Nat} {activated : Bool} (hcall : s.calls[call]? = some .waited) :
    Step s (.resume call activated) { s with calls := s.calls.set call (.returned .failure) }
  | ready {call : Nat} {activated : Bool} {handle : Handle} {source : Nat}
    (hcall : s.calls[call]? = some .waited) (hstop : call ∉ s.members.stopRequested)
    (hstate : s.members.state = .starting handle source) :
    Step s (.resume call activated) { s with
      members := { s.members with state := .ready handle }
      calls := s.calls.set call (.returned .success) }
  | notSupervised {call : Nat} {activated : Bool} {handle : Handle} {source : Nat}
    (hstop : call ∉ s.members.stopRequested) (hstate : s.members.state = .starting handle source)
    (hactivated : s.members.activateSupervision activated = false) :
    Step s (.resume call activated) { s with
      members := { s.members with state := .fault handle }
      calls := s.calls.set call (.returned .failure) }
  | requestStop {call : Nat} :
    Step s (.requestStop call) { s with members := s.members.requestStop call }
  | notStopped {deactivated : Bool} {stop : Option RequestResult} {handle : Handle}
    {requested : List Nat} (hstate : s.members.state.running? = some handle)
    (hfailed : s.members.deactivateSupervision deactivated = false ∨ stop ≠ some .success) :
    Step s (.deactivate deactivated stop)
      { s with members := { s.members with state := .fault handle, stopRequested := requested } }
  | deactivated {deactivated : Bool} {handle : Handle} {requested : List Nat}
    (hstate : s.members.state.running? = some handle)
    (hsource : ∀ source, s.members.state = .starting handle source → source ∈ requested)
    (hrequested : s.members.stopRequested ⊆ requested) :
    Step s (.deactivate deactivated (some .success)) { s with
      members := { s.members with state := .terminating handle, stopRequested := requested } }
  | terminated {p : Nat} {status : Int} {deactivated accepted : Bool} {handle : Handle}
    (hp : s.Outstanding p) (hstate : s.members.state = .terminating handle) :
    Step s (.tryHandleTermination p status deactivated accepted) { s with
      members := { s.members with state := .terminated }, delivered := p :: s.delivered }
  | ignored {p : Nat} {status : Int} {deactivated accepted : Bool} {handle : Handle} {source : Nat}
    (hp : s.Outstanding p) (hstate : s.members.state = .starting handle source) :
    Step s (.tryHandleTermination p status deactivated accepted) { s with
      members := { s.members with state := .starting (invalidate handle) source }
      delivered := p :: s.delivered }
  | ignoredReady {p : Nat} {status : Int} {deactivated accepted : Bool} {handle : Handle}
    (hp : s.Outstanding p) (hstate : s.members.state = .ready handle) :
    Step s (.tryHandleTermination p status deactivated accepted) { s with
      members := { s.members with state := .ready (invalidate handle) }
      delivered := p :: s.delivered }
  | failed {p : Nat} {status : Int} {deactivated accepted : Bool} {handle handle' : Handle}
    {requested : List Nat} (hp : s.Outstanding p) (hstate : s.members.state.running? = some handle)
    (haccepted : accepted = true → s.members.state = .ready handle) :
    Step s (.tryHandleTermination p status deactivated accepted) { s with
      members := { s.members with state := .fault handle', stopRequested := requested }
      delivered := p :: s.delivered }

section Step
variable {s s' : Threads}

theorem step_activate {start : Option Resource} (h : s.perform (.activate start) = some s') :
    Step s (.activate start) s' := by
  simp only [perform, Members.activate] at h
  by_cases hstate : s.members.state = .terminated
  · rw [if_neg (not_not.mpr hstate)] at h
    cases hsup : isSupervised s.members.applicationType && !s.members.supervisionHandle with
    | true =>
      rw [hsup] at h
      cases h
      exact .notStarted hstate
    | false =>
      rw [hsup] at h
      cases start with
      | none =>
        cases h
        exact .notStarted hstate
      | some resource =>
        cases h
        exact .started rfl hstate
  · rw [if_pos hstate] at h
    cases h
    exact .aborts (by rintro ⟨⟩)

variable {call : Nat}

theorem step_wait {ok : Bool} (h : s.perform (.wait call ok) = some s') :
    Step s (.wait call ok) s' := by
  simp only [perform] at h
  split at h
  case h_1 handle hcall =>
    cases h
    exact .waited hcall
  all_goals cases h

theorem step_resume {activated : Bool}
    (h : s.perform (.resume call activated) = some s') : Step s (.resume call activated) s' := by
  simp only [perform] at h
  split at h
  case h_1 hcall =>
    unfold Members.resume at h
    by_cases hstop : call ∈ s.members.stopRequested
    · rw [if_pos hstop] at h
      cases h
      exact .stopped hcall
    · rw [if_neg hstop] at h
      cases hstate : s.members.state with
      | starting handle source =>
        rw [hstate] at h
        cases hactivated : s.members.activateSupervision activated with
        | true =>
          rw [hactivated] at h
          cases h
          exact .ready hcall hstop hstate
        | false =>
          rw [hactivated] at h
          cases h
          exact .notSupervised hstop hstate hactivated
      | terminated | ready | terminating | fault =>
        rw [hstate] at h
        cases h
        exact .aborts (by rintro ⟨⟩)
  all_goals cases h

theorem step_requestStop (h : s.perform (.requestStop call) = some s') :
    Step s (.requestStop call) s' := by
  simp only [perform] at h
  split at h
  case h_1 | h_2 =>
    cases h
    exact .requestStop
  all_goals cases h

theorem step_deactivate {deactivated : Bool} {stop : Option RequestResult}
    (h : s.perform (.deactivate deactivated stop) = some s') :
    Step s (.deactivate deactivated stop) s' := by
  simp only [perform, Members.deactivate] at h
  cases hstate : s.members.state with
  | starting handle source =>
    have hrunning : s.members.state.running? = some handle := by rw [hstate]; rfl
    cases hsup : s.members.deactivateSupervision deactivated with
    | false =>
      rw [hstate, hsup] at h
      cases h
      exact .notStopped hrunning (.inl hsup)
    | true =>
      by_cases hstop : stop = some .success
      · rw [hstate, hsup, hstop] at h
        cases h
        subst hstop
        refine .deactivated hrunning (fun source' hsource => ?_) (List.subset_cons_self ..)
        cases hstate.symm.trans hsource
        exact List.mem_cons_self
      · rw [hstate, hsup] at h
        simp only [Bool.not_true, Bool.false_eq_true, if_false, if_pos hstop] at h
        cases h
        exact .notStopped hrunning (.inr hstop)
  | ready handle =>
    have hrunning : s.members.state.running? = some handle := by rw [hstate]; rfl
    cases hsup : s.members.deactivateSupervision deactivated with
    | false =>
      rw [hstate, hsup] at h
      cases h
      exact .notStopped hrunning (.inl hsup)
    | true =>
      by_cases hstop : stop = some .success
      · rw [hstate, hsup, hstop] at h
        cases h
        subst hstop
        exact .deactivated hrunning (by rw [hstate]; rintro _ ⟨⟩) (List.Subset.refl _)
      · rw [hstate, hsup] at h
        simp only [Bool.not_true, Bool.false_eq_true, if_false, if_pos hstop] at h
        cases h
        exact .notStopped hrunning (.inr hstop)
  | terminated | terminating | fault =>
    rw [hstate] at h
    cases h
    exact .aborts (by rintro ⟨⟩)

theorem step_tryHandleTermination {p : Nat} {status : Int} {deactivated accepted : Bool}
    (h : s.perform (.tryHandleTermination p status deactivated accepted) = some s') :
    Step s (.tryHandleTermination p status deactivated accepted) s' := by
  obtain ⟨hp, h⟩ := Option.ite_none_right_eq_some.mp h
  simp only [Members.tryHandleTermination] at h
  cases hstate : s.members.state with
  | terminating handle =>
    rw [hstate] at h
    cases h
    exact .terminated hp hstate
  | starting handle source =>
    cases accepted with
    | true =>
      rw [hstate] at h
      cases h
      exact .ignored hp hstate
    | false =>
      simp only [hstate, Bool.false_eq_true, if_false] at h
      by_cases hself : s.members.isSelfTerminating = true ∧ status = 0
      · rw [if_pos hself] at h
        cases h
        exact .ignored hp hstate
      · rw [if_neg hself] at h
        cases h
        exact .failed hp (by rw [hstate]; rfl) (by rintro ⟨⟩)
  | ready handle =>
    rw [hstate] at h
    dsimp only at h
    split at h
    case h_1 e heq =>
      split at heq
      · cases heq
      · split at heq <;> cases heq
    case h_2 members result heq =>
      cases h
      split at heq
      · cases heq
        exact .failed hp (by rw [hstate]; rfl) fun _ => hstate
      · split at heq
        · cases heq
          exact .ignoredReady hp hstate
        · cases heq
          exact .failed hp (by rw [hstate]; rfl) fun _ => hstate
  | terminated | fault =>
    rw [hstate] at h
    cases h
    exact .aborts fun _ => ⟨p, hp, by rw [hstate]; rfl⟩

theorem step_cases {a : Act} (h : s.step a = some s') : s.aborted = none ∧ Step s a s' := by
  obtain ⟨haborted, h⟩ := Option.ite_none_right_eq_some.mp h
  refine ⟨haborted, ?_⟩
  cases a with
  | activate start => exact step_activate h
  | wait call ok => exact step_wait h
  | resume call activated => exact step_resume h
  | requestStop call => exact step_requestStop h
  | deactivate deactivated stop => exact step_deactivate h
  | tryHandleTermination p status deactivated accepted => exact step_tryHandleTermination h

end Step

end Threads

end LaunchManager.Component
