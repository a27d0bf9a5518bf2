import LaunchManager.ProcessInfoNode.Activation
import LaunchManager.ProcessInfoNode.Readiness

/-!
# Stopping an activation

The stop token of an activation ends the waits for a file and for the end of the process early, and
nothing else: the loop over the attempts does not look at it. If the stop comes when the process of
the attempt in progress has been launched, and that attempt does not fail with another one left,
no process is launched after the stop.
-/

namespace LaunchManager.ProcessInfoNode

set_option autoImplicit false

/-- The attempt ends here with an ordinary failure: a reporting process has ended before it was
registered, the process has ended during the wait, or it has been stopped because it did not get
ready. -/
def Activate.fails (c : ComponentConfig) (n : Node) : Activate → Bool
  | .inline _ (.terminated _) => c.isReporting
  | .getState | .terminate (.setTerminating _) => decide (n.processState = .terminated)
  | .terminate .release => true
  | _ => false

/-- An attempt fails with another one left. -/
def Job.retries (c : ComponentConfig) (n : Node) : Job → Bool
  | .activate attempt pc => decide (attempt < c.activationRetryAttempts) && pc.fails c n
  | .deactivate _ => false

def Job.launched : Job → Bool
  | .activate _ pc => !pc.beforeLaunch
  | .deactivate _ => false

def Job.waitsForFile : Job → Bool
  | .activate _ .waitFile => true
  | _ => false

/-- An activation with its stop token: the number of processes launched when the token was stopped,
and whether it was stopped when the wait for the file in progress began. -/
structure Stoppable where
  system : System
  readiness : Readiness := {}
  stopped : Option Nat := none
  fileStopped : Bool := false

inductive StopAct where
  | system (a : Act)
  | requestStop
  deriving DecidableEq

namespace Stoppable

def waitsForFile (s : System) : Bool := s.worker.any Job.waitsForFile

/-- `waitForFile` looks at the token before it looks for the file. -/
def Reacts (w : Stoppable) : Act → Prop
  | .worker ok => waitsForFile w.system = true → w.fileStopped = true → ok = false
  | _ => True

instance (w : Stoppable) : ∀ a : Act, Decidable (w.Reacts a)
  | .worker ok => inferInstanceAs (Decidable (_ → _ → ok = false))
  | .begin _ | .launched _ | .exit _ _ | .reap _ | .reapEarly _ _ | .os | .takeEvent | .main _
  | .forceKill => isTrue trivial

def follow (w : Stoppable) (a : Act) (s' : System) : Stoppable :=
  { w with
    system := s'
    readiness := Readiness.note w.system a s' w.readiness
    fileStopped :=
      if waitsForFile s' && !waitsForFile w.system then w.stopped.isSome else w.fileStopped }

def step (c : ComponentConfig) (w : Stoppable) : StopAct → Option Stoppable
  | .system a => if w.Reacts a then (w.system.step c a).map (w.follow a) else none
  | .requestStop =>
    if w.stopped = none ∧ w.system.worker ≠ none then
      some { w with stopped := some w.system.node.started }
    else none

/-- No other call runs beside the activation, and signals reach a process that is alive. -/
def Undisturbed (w : Stoppable) : StopAct → Prop
  | .system a => w.system.Undisturbed a ∧ a ≠ .begin .activate
  | .requestStop => True

instance (w : Stoppable) : ∀ a : StopAct, Decidable (w.Undisturbed a)
  | .system a => inferInstanceAs (Decidable (w.system.Undisturbed a ∧ _))
  | .requestStop => isTrue trivial

/-- The stop comes when the process of the attempt in progress has been launched, and afterwards no
attempt fails with another one left. -/
def Heeded (c : ComponentConfig) (w : Stoppable) : StopAct → Prop
  | .system a => w.system.InCourse c a ∧ w.system.Registered c a ∧
    (w.stopped ≠ none →
      ∀ ok, a = .worker ok → ∀ j ∈ w.system.worker, j.retries c w.system.node = false)
  | .requestStop => w.readiness.launched = true ∧ ∀ j ∈ w.system.worker, j.launched = true

instance (c : ComponentConfig) (w : Stoppable) : ∀ a : StopAct, Decidable (w.Heeded c a)
  | .system a => inferInstanceAs (Decidable (w.system.InCourse c a ∧ _ ∧ _))
  | .requestStop => inferInstanceAs (Decidable (_ ∧ _))

end Stoppable

theorem Activate.Relies.fails_of_retry {c : ComponentConfig} {ok : Bool} {n n' : Node}
    {os : Option Handler} {attempt attempt' : Nat} {pc pc' : Activate} (h : pc.Relies c n os)
    (hm : pc.Moves c ok n attempt n' (.next (attempt', pc'))) (hne : attempt' ≠ attempt) :
    pc.fails c n = true := by
  cases hm with
  | inlineRetry _ _ hreporting => exact hreporting
  | getStateRetry hstate => exact decide_eq_true hstate
  | terminateRetry ht =>
    rcases TerminateProcess.done_cases ht with rfl | ⟨p, rfl, hp, -⟩
    · rfl
    · exact decide_eq_true (SetState.terminated_of_failed h.phase.2.1 h.knows (.inr rfl) hp)
  | _ => exact absurd rfl hne

namespace Stoppable

structure Inv (c : ComponentConfig) (base : Nat) (w : Stoppable) : Prop where
  activation : w.system.ActivationInv c
  course : w.system.Course c base
  readiness : w.system.ReadinessInv c w.readiness
  stopped : ∀ k, w.stopped = some k → w.system.node.started = k ∧ w.readiness.launched = true ∧
    ∀ attempt pc, w.system.worker = some (.activate attempt pc) → pc.beforeLaunch = false

section Step
variable {c : ComponentConfig} {base : Nat} {w w' : Stoppable} {a : Act} {s' : System}

theorem Inv.beforeLaunch_of_step (hi : w.Inv c base) (hok : w.Heeded c (.system a))
    (hs : w.system.step c a = some s') {k : Nat} (hstop : w.stopped = some k) (attempt' : Nat)
    (pc' : Activate) (hw' : s'.worker = some (.activate attempt' pc')) :
    pc'.beforeLaunch = false := by
  obtain ⟨-, -, hlate⟩ := hi.stopped k hstop
  cases System.moves_of_step hs with
  | begin type =>
    cases type with
    | activate => exact absurd rfl hok.1.2
    | deactivate => cases hw'
  | worker ok j hw =>
    cases j with
    | deactivate pc => exact absurd hw (hi.activation.activating pc)
    | activate attempt pc =>
      obtain ⟨_, _, hm, hworker⟩ | ⟨_, -, hworker, -⟩ := System.activate_of_worker hw hs
      · cases hworker.symm.trans hw'
        have hpc := hlate _ _ hw
        rcases hm.attempt_cases with ⟨-, hbefore⟩ | ⟨rfl, hlt⟩
        · refine Bool.eq_false_iff.mpr fun h => ?_
          exact Bool.noConfusion (hpc.symm.trans (hbefore h))
        · have hfails := (hi.activation.relies _ _ hw).fails_of_retry hm (by omega)
          have hretries := hok.2.2 (by rw [hstop]; exact nofun) ok rfl _ hw
          rw [Job.retries, hfails, decide_eq_true hlt] at hretries
          cases hretries
      · cases hworker.symm.trans hw'
  | launched pid attempt hw => cases hlate _ _ hw
  | takeEvent | main | forceKill => exact hok.2.1.1.elim
  | _ => exact hlate _ _ hw'

theorem Inv.of_system (hi : w.Inv c base) (hok : w.Heeded c (.system a))
    (hs : w.system.step c a = some s') : (w.follow a s').Inv c base where
  activation := hi.activation.step hok.1.1 hs
  course := hi.course.step hi.activation hok.1 hs
  readiness := hi.readiness.step hok.2.1 hs
  stopped k hstop := by
    obtain ⟨hstarted, hlaunched, hlate⟩ := hi.stopped k hstop
    refine ⟨?_, ?_, hi.beforeLaunch_of_step hok hs hstop⟩
    · refine (System.started_of_step hs ?_).trans hstarted
      rintro pid rfl
      cases System.moves_of_step hs with
      | launched _ attempt hw => cases hlate _ _ hw
    · cases a with
      | begin type =>
        cases type with
        | activate => exact absurd rfl hok.1.2
        | deactivate => exact absurd rfl hok.1.1.1.2.1
      | launched => rfl
      | worker ok =>
        show (w.system.worker.elim w.readiness (Job.noted ok w.readiness)).launched = true
        cases w.system.worker with
        | none => exact hlaunched
        | some j =>
          cases j with
          | deactivate => exact hlaunched
          | activate attempt pc => cases pc <;> exact hlaunched
      | _ => exact hlaunched

theorem Inv.step (hi : w.Inv c base) {a : StopAct} (hok : w.Heeded c a)
    (hs : w.step c a = some w') : w'.Inv c base := by
  cases a with
  | system a =>
    obtain ⟨-, hmap⟩ := Option.ite_none_right_eq_some.mp hs
    obtain ⟨s', hstep, rfl⟩ := Option.map_eq_some_iff.mp hmap
    exact hi.of_system hok hstep
  | requestStop =>
    obtain ⟨-, ⟨⟩⟩ := Option.ite_none_right_eq_some.mp hs
    refine ⟨hi.activation, hi.course, hi.readiness, ?_⟩
    rintro k ⟨⟩
    refine ⟨rfl, hok.1, fun attempt pc hw => ?_⟩
    exact (Bool.not_eq_true' _).mp (hok.2 _ hw)

theorem inv_of_begin {s s₁ : System} (hi : s.ActivationInv c)
    (hs : s.step c (.begin .activate) = some s₁) : Inv c s.node.started { system := s₁ } := by
  have hi₁ := hi.step (System.controlled_begin c s) hs
  refine ⟨hi₁, System.course_of_begin hs, ?_, nofun⟩
  cases System.moves_of_step hs with
  | begin =>
    refine ⟨hi₁.tracked, hi₁.reaped, hi₁.statuses, ?_, ?_, nofun⟩
    · rintro _ _ ⟨⟩
      trivial
    · rintro _ _ ⟨⟩
      rfl

end Step

/-- After the stop no process is launched, and the activation succeeds only if its process has met
its ready condition. -/
theorem stopped_activation_ends (c : ComponentConfig) {s₀ s s₁ : System} {t : Stoppable}
    (hrest : s₀.AtRest) (hbefore : Runs.Run (System.step c) (System.Controlled c) s₀ s)
    (hbegin : s.step c (.begin .activate) = some s₁)
    (hrun : Runs.Run (step c) (Heeded c) { system := s₁ } t) {k : Nat}
    (hstop : t.stopped = some k) :
    t.system.node.started = k ∧
      (t.system.worker = none → ∃ r, t.system.returned = some (.activate, r) ∧
        (r = .success → t.readiness.Met c t.system.node) ∧
        (r ≠ .success → ∀ p, ¬ t.system.node.Alive p)) := by
  have hs : s.ActivationInv c := hbefore.invariant (System.ActivationInv c)
    (fun hi hok h => hi.step hok h) hrest.activationInv
  have hi := hrun.invariant (Inv c s.node.started) (fun hi hok h => hi.step hok h)
    (inv_of_begin hs hbegin)
  obtain ⟨hstarted, hlaunched, -⟩ := hi.stopped k hstop
  refine ⟨hstarted, fun hw => ?_⟩
  obtain ⟨r, hr, hiff⟩ := hi.course.returned hw
  refine ⟨r, hr, ?_, fun hne p => ?_⟩
  · rintro rfl
    exact hi.readiness.returned hw hr hlaunched
  · have hready : t.system.node.reachedReady = false :=
      Bool.eq_false_iff.mpr fun h => hne (hiff.mpr h)
    exact (hi.activation.rest hw hready).not_alive p

def sampleBegin : Stoppable := { system := { worker := some (.start .activate) } }

theorem stopped_activation_ends_sigterm :
    ∃ t, Runs.Run (step ⟨true, false, .terminated, 0⟩) (Heeded ⟨true, false, .terminated, 0⟩)
        sampleBegin t ∧ t.stopped = some 1 ∧ t.system.worker = none ∧
      (t.system.node.started = 1 ∧
        (t.system.worker = none → ∃ r, t.system.returned = some (.activate, r) ∧
          (r = .success → t.readiness.Met ⟨true, false, .terminated, 0⟩ t.system.node) ∧
          (r ≠ .success → ∀ p, ¬ t.system.node.Alive p))) := by
  obtain ⟨t, hrun, hstop, hw⟩ := Runs.Run.exists_of_exec (step ⟨true, false, .terminated, 0⟩)
    (Heeded ⟨true, false, .terminated, 0⟩) sampleBegin
    (fun t => t.stopped = some 1 ∧ t.system.worker = none)
    (List.flatten [List.replicate 10 (.system (.worker true)),
      [.system (.launched 7), .system (.worker true), .requestStop],
      List.replicate 6 (.system (.worker true)), [.system (.exit 1 15), .system (.reap 1)],
      List.replicate 6 (.system .os), List.replicate 3 (.system (.worker true))])
    (by decide +kernel)
  exact ⟨t, hrun, hstop, hw, stopped_activation_ends ⟨true, false, .terminated, 0⟩
    System.atRest_init (.refl _) rfl hrun hstop⟩

/-- The stop comes before the launch, or the attempt fails with another one left. -/
theorem launched_after_stop :
    (∃ t, Runs.Run (step ⟨true, false, .terminated, 1⟩) Undisturbed sampleBegin t ∧
      t.stopped = some 0 ∧ t.system.node.started = 1) ∧
    ∃ t, Runs.Run (step ⟨true, false, .terminated, 1⟩) Undisturbed sampleBegin t ∧
      t.stopped = some 1 ∧ t.system.node.started = 2 ∧ t.system.worker = none ∧
      t.system.returned = some (.activate, .success) := by
  constructor
  · exact Runs.Run.exists_of_exec _ _ _ _
      (List.flatten [[.requestStop], List.replicate 10 (.system (.worker true)),
        [.system (.launched 7)]])
      (by decide +kernel)
  · exact Runs.Run.exists_of_exec _ _ _ _
      (List.flatten [List.replicate 10 (.system (.worker true)),
        [.system (.launched 7), .system (.worker true), .requestStop],
        List.replicate 6 (.system (.worker true)), [.system (.exit 1 15), .system (.reap 1)],
        List.replicate 6 (.system .os), List.replicate 10 (.system (.worker true)),
        [.system (.launched 8), .system (.worker true), .system (.exit 2 0), .system (.reap 2)],
        List.replicate 5 (.system .os), List.replicate 6 (.system (.worker true))])
      (by decide +kernel)

end Stoppable

end LaunchManager.ProcessInfoNode
