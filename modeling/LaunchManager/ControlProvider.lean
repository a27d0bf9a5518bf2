import LaunchManager.ActiveRunTarget
import LaunchManager.ClientRequests

/-!
# The control provider

The handlers of the control service call the process group manager and turn what it
returns into a response. A call returns at once when the event queue refuses its event,
and otherwise when the main loop completes its slot.
-/

namespace LaunchManager

set_option autoImplicit false

universe u

variable {Key : Type u}

inductive Returned (Key : Type u) where
  | activeRunTarget (result : Except Daemon.ExecErrc (Option Key))
  | requestedRunTarget (error : Option Daemon.ExecErrc)
  deriving DecidableEq

/-- `ActivateRunTargetResponse` and `GetActiveRunTargetResponse` with their status. -/
inductive ControlResponse (Key : Type u) where
  | accepted
  | rejected (error : Daemon.ExecErrc)
  | available (runTarget : Option Key)
  | notAvailable
  deriving DecidableEq, Repr

namespace ControlProvider

/-- `none` is the failed assertion on the errors that a query can have. -/
def handleGetActiveRunTarget : Except Daemon.ExecErrc (Option Key) → Option (ControlResponse Key)
  | .error e => if e = .activationInProgress then some .notAvailable else none
  | .ok runTarget => some (.available runTarget)

def handleActivateRunTarget : Option Daemon.ExecErrc → ControlResponse Key
  | some e => .rejected e
  | none => .accepted

def respond : Returned Key → Option (ControlResponse Key)
  | .activeRunTarget result => handleGetActiveRunTarget result
  | .requestedRunTarget error => some (handleActivateRunTarget error)

end ControlProvider

namespace ClientRequest

def refused : ClientRequest Key → Returned Key
  | .getActiveRunTarget => .activeRunTarget (.error .failed)
  | .setRequestedRunTarget _ => .requestedRunTarget (some .failed)

end ClientRequest

namespace Service

def Communicable (r : Returned Key) : Prop :=
  (∀ e, r = .activeRunTarget (.error e) → e = .activationInProgress) ∧
    (ControlProvider.respond r).isSome = true

theorem communicable_requestedRunTarget (error : Option Daemon.ExecErrc) :
    Communicable (.requestedRunTarget error : Returned Key) :=
  ⟨nofun, rfl⟩

theorem communicable_handleGetActiveRunTarget (g : Graph Key) :
    Communicable (.activeRunTarget (Daemon.handleGetActiveRunTarget g)) := by
  unfold Daemon.handleGetActiveRunTarget
  cases g.state with
  | success => exact ⟨nofun, rfl⟩
  | aborting | inTransition | undefinedState =>
    refine ⟨?_, rfl⟩
    intro e he
    injection he with herr
    injection herr with herr
    exact herr.symm

variable [DecidableEq Key]

def complete (g : Graph Key) : Queued Key → Option (Returned Key)
  | .notice .getActiveRunTarget => some (.activeRunTarget (Daemon.handleGetActiveRunTarget g))
  | .notice (.setRequestedRunTarget rt) =>
    some (.requestedRunTarget (Daemon.handleSetRequestedRunTarget g rt).2)
  | .completion _ _ | .notice (.unexpectedTermination _) | .notice (.supervisionFailure _) => none

def returns (s : Service Key) : Act Key → Option (Returned Key)
  | .request r =>
    if s.stopped = true ∨ s.capacity ≤ s.daemon.events.length then some r.refused else none
  | .daemon .handleEvent =>
    if s.daemon.stage = .running then s.daemon.events.head?.bind (complete s.daemon.graph) else none
  | .daemon _ | .deinit => none

def record (s : Service Key) (a : Act Key) (_ : Service Key) (returned : List (Returned Key)) :
    List (Returned Key) :=
  (s.returns a).toList ++ returned

/-- The event of a client that asks for the active run target finds room in an open queue. -/
def QueryFits (s : Service Key) : Act Key → Prop
  | .request .getActiveRunTarget => s.stopped = false ∧ s.daemon.events.length < s.capacity
  | .request (.setRequestedRunTarget _) | .daemon _ | .deinit => True

instance (s : Service Key) (a : Act Key) : Decidable (s.QueryFits a) :=
  match a with
  | .request .getActiveRunTarget => inferInstanceAs (Decidable (_ ∧ _))
  | .request (.setRequestedRunTarget _) | .daemon _ | .deinit => isTrue trivial

theorem communicable_complete {g : Graph Key} {q : Queued Key} {r : Returned Key}
    (h : complete g q = some r) : Communicable r := by
  cases q with
  | completion task report => cases h
  | notice n =>
    cases n with
    | getActiveRunTarget =>
      cases h
      exact communicable_handleGetActiveRunTarget g
    | setRequestedRunTarget rt =>
      cases h
      exact communicable_requestedRunTarget _
    | unexpectedTermination k | supervisionFailure k => cases h

theorem communicable_returns {s : Service Key} {a : Act Key} {r : Returned Key}
    (hok : s.QueryFits a) (h : s.returns a = some r) : Communicable r := by
  cases a with
  | request request =>
    obtain ⟨hfull, ⟨⟩⟩ := Option.ite_none_right_eq_some.mp h
    cases request with
    | getActiveRunTarget =>
      obtain ⟨hopen, hroom⟩ := hok
      rcases hfull with hstop | hfull
      · rw [hopen] at hstop
        cases hstop
      · omega
    | setRequestedRunTarget rt => exact communicable_requestedRunTarget _
  | daemon a =>
    cases a with
    | handleEvent =>
      obtain ⟨-, h⟩ := Option.ite_none_right_eq_some.mp h
      obtain ⟨q, -, hq⟩ := Option.bind_eq_some_iff.mp h
      exact communicable_complete hq
    | _ => cases h
  | deinit => cases h

theorem query_errors_communicable [Inhabited Key] {g : DependencyGraph Key Component}
    {c : Config Key} {s : Service Key} {returned : List (Returned Key)}
    (hrun : Runs.Run (Runs.recorded (Service.step c) record) (fun p => QueryFits p.1)
      (start g, []) (s, returned)) :
    ∀ r ∈ returned, (∀ e, r = .activeRunTarget (.error e) → e = .activationInProgress) ∧
      (ControlProvider.respond r).isSome = true := by
  have hall : ∀ r ∈ (s, returned).2, Communicable r := by
    refine hrun.invariant (fun p => ∀ r ∈ p.2, Communicable r) ?_ ?_
    · intro p p' a hall hok hs r hr
      obtain ⟨-, hnote⟩ := Runs.Run.of_recorded hs
      rw [hnote] at hr
      rcases List.mem_append.mp hr with hnew | hold
      · exact communicable_returns hok (Option.mem_toList.mp hnew)
      · exact hall r hold
    · intro r hr
      cases hr
  exact hall

def queries : List (Act Nat) :=
  [.daemon (.startInitialTransition 1), .daemon .drain, .daemon .pushed, .daemon .drain,
    .request .getActiveRunTarget, .daemon .handleEvent, .daemon .take,
    .daemon (.work ⟨⟨.activate, 0, 1, 1⟩, false⟩), .daemon (.launch ⟨⟨.activate, 0, 1, 1⟩, true⟩),
    .daemon (.setFlag ⟨⟨.activate, 0, 1, 1⟩, true⟩),
    .daemon (.succeed ⟨⟨.activate, 0, 1, 1⟩, true⟩), .daemon .handleEvent, .daemon .drain,
    .daemon .drain, .request .getActiveRunTarget, .request (.setRequestedRunTarget 1),
    .request (.setRequestedRunTarget 1), .request (.setRequestedRunTarget 1), .daemon .handleEvent]

theorem query_errors_communicable_answered :
    ∃ p : Service Nat × List (Returned Nat),
      p.2 = [.activeRunTarget (.ok (some 1)), .requestedRunTarget (some .failed),
        .activeRunTarget (.error .activationInProgress)] ∧
      ∀ r ∈ p.2, (∀ e, r = .activeRunTarget (.error e) → e = .activationInProgress) ∧
        (ControlProvider.respond r).isSome = true := by
  obtain ⟨p, hrun, hp⟩ := Runs.Run.exists_of_exec (Runs.recorded (Service.step ⟨2, 3⟩) record)
    (fun p => QueryFits p.1) (start Daemon.sampleGraph, [])
    (fun p => p.2 = [.activeRunTarget (.ok (some 1)), .requestedRunTarget (some .failed),
      .activeRunTarget (.error .activationInProgress)]) queries (by decide +kernel)
  exact ⟨p, hp, query_errors_communicable hrun⟩

/-- A query finds the queue full or closed, an error that the handler takes for impossible. -/
theorem query_fails_assertion :
    ControlProvider.respond (.activeRunTarget (.error .failed) : Returned Nat) = none ∧
    (∃ p, Runs.Run (Runs.recorded (Service.step ⟨2, 3⟩) record) (fun _ _ => True)
      (start Daemon.sampleGraph, []) p ∧ p.1.stopped = false ∧ p.1.daemon.stage = .running ∧
      p.2 = [.activeRunTarget (.error .failed)]) ∧
    (∃ p, Runs.Run (Runs.recorded (Service.step ⟨2, 3⟩) record) (fun _ _ => True)
      (start Daemon.sampleGraph, []) p ∧ p.1.stopped = true ∧ p.1.daemon.events = [] ∧
      p.2 = [.activeRunTarget (.error .failed)]) := by
  refine ⟨rfl, ?_, ?_⟩
  · exact Runs.Run.exists_of_exec _ _ _ _
      ([.daemon (.startInitialTransition 1), .request .getActiveRunTarget,
        .request .getActiveRunTarget, .request .getActiveRunTarget, .request .getActiveRunTarget])
      (by decide +kernel)
  · exact Runs.Run.exists_of_exec _ _ _ _
      (List.flatten [[.daemon (.startInitialTransition 2), .daemon .drain, .daemon .drain,
        .daemon .shutdown], shutDown, [.request .getActiveRunTarget]]) (by decide +kernel)

end Service

end LaunchManager
