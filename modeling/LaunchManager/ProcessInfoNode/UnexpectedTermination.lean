import LaunchManager.ProcessInfoNode.Tracking

/-!
# Which terminations are reported as unexpected

`tryHandleTermination` decides by the request flag and then by the state, and the
worker writes them in the opposite order. If the two do not meet in between, a
termination is reported only of a process that was running and was not being
stopped.
-/

namespace LaunchManager.ProcessInfoNode

set_option autoImplicit false

/-- The points from which a failure may be reported although no request was seen. -/
def TryHandleTermination.mayFail : TryHandleTermination → Bool
  | .casStarting => true
  | .normal _ => true
  | .branch => true
  | .terminated .failure => true
  | _ => false

/-- The points after it was seen that the process is not starting. -/
def TryHandleTermination.decided : TryHandleTermination → Bool
  | .normal _ => true
  | .branch => true
  | .terminated .failure => true
  | _ => false

namespace TryHandleTermination
variable {c : ComponentConfig} {n n' : Node} {process : Nat} {status : Int}
  {h h' : TryHandleTermination}

theorem mayFail_of_decided (hdecided : h.decided = true) : h.mayFail = true := by
  cases h with
  | terminated result => cases result <;> first | rfl | cases hdecided
  | normal | branch => rfl
  | _ => cases hdecided

theorem Moves.exchange (hm : h.Moves c process status n n' (.next .casStarting)) :
    h = .exchange ∧ n.terminationRequested = false := by
  cases hm with
  | noRequest hrequested => exact ⟨rfl, hrequested⟩

theorem Moves.decided (hm : h.Moves c process status n n' (.next h'))
    (hdecided : h'.decided = true) :
    h.decided = true ∨ h = .casStarting ∧ n.processState ≠ .starting := by
  cases hm with
  | notStarting hstarting => exact .inr ⟨rfl, hstarting⟩
  | normal | normalEnd | unexpected => exact .inl rfl
  | _ => cases hdecided

end TryHandleTermination

namespace System
variable {c : ComponentConfig} {s s' : System} {a : Act} {q : Nat}

theorem stopInitiated_of_step (hs : s.step c a = some s') (hq : q ≤ s.node.started)
    (hstop : s.access c a = .enter .terminating → q ≠ s.node.started) :
    (s'.node.processes q).stopInitiated = (s.node.processes q).stopInitiated := by
  by_cases ha : ∃ pid, a = .launched pid
  · obtain ⟨pid, rfl⟩ := ha
    rw [processes_of_launched hs hq]
  · rw [step_custody hs]
    by_cases hacc : s.access c a = .enter .terminating
    · rw [hacc]
      exact congrArg Process.stopInitiated (s.node.enter_of_ne _ (hstop hacc))
    · refine s.node.apply_read Process.stopInitiated
        (fun pid h => ha ⟨pid, eq_launched hs h⟩) (fun p => ?_) q
      generalize s.access c a = acc at hacc
      cases acc with
      | enter new => cases new <;> first | exact Bool.or_false _ | exact absurd rfl hacc
      | _ => rfl

theorem reachedRunning_of_step (hs : s.step c a = some s') (hq : q ≤ s.node.started)
    (h : (s.node.processes q).reachedRunning = true) :
    (s'.node.processes q).reachedRunning = true := by
  by_cases ha : ∃ pid, a = .launched pid
  · obtain ⟨pid, rfl⟩ := ha
    rw [processes_of_launched hs hq]
    exact h
  · rw [step_custody hs]
    refine Custody.apply_keeps Process.reachedRunning
      (fun pid h => ha ⟨pid, eq_launched hs h⟩) (fun p hp => ?_) h
    generalize s.access c a = acc
    cases acc with
    | enter new => exact Bool.or_eq_true_iff.mpr (.inl hp)
    | _ => exact hp

/-- The request is not looked for between the entry into the terminating state and the request,
nor is that state entered by a stop that comes after the look. -/
def Orderly (c : ComponentConfig) (s : System) (a : Act) : Prop :=
  a.WithoutMain ∧
  (a = .os → ∀ h ∈ s.os, h.pc = .exchange →
    s.node.processState = .terminating → s.node.terminationRequested = true) ∧
  (s.access c a = .enter .terminating →
    ∀ h ∈ s.os, h.process = s.node.started → h.pc.mayFail = false)

instance (c : ComponentConfig) (s : System) (a : Act) : Decidable (s.Orderly c a) :=
  inferInstanceAs (Decidable (_ ∧ _ ∧ _))

structure VerdictInv (s : System) : Prop where
  tracked : s.Tracked
  verdicts : ∀ v ∈ s.node.verdicts, v.reachedRunning = true ∧ v.stopInitiated = false
  stop : s.Open → s.node.last.stopInitiated = true → s.node.processState = .terminating
  running : s.node.processState = .running → s.node.last.reachedRunning = true
  casStarting : ∀ h, s.os = some h → h.pc = .casStarting → s.node.processState ≠ .terminating
  decided : ∀ h, s.os = some h → h.pc.decided = true →
    (s.node.processes h.process).reachedRunning = true ∧
      (s.node.processes h.process).stopInitiated = false
  insert : ∀ attempt, s.worker = some (.activate attempt .insert) →
    s.node.last.stopInitiated = false

theorem VerdictInv.verdicts_of_step (hi : s.VerdictInv) (hs : s.step c a = some s') :
    ∀ v ∈ s'.node.verdicts, v.reachedRunning = true ∧ v.stopInitiated = false := by
  rw [step_custody hs]
  by_cases hhandle : ∃ process, s.access c a = .handle process .failure
  · obtain ⟨process, hacc⟩ := hhandle
    have hp := performs hs
    rw [hacc] at hp ⊢
    have hverdict : (s.node.processes process).reachedRunning = true ∧
        (s.node.processes process).stopInitiated = false := by
      cases hp with
      | inlineHandle hw => exact (hi.tracked.alone _ hw _ rfl).2.elim
      | osHandle hos => exact hi.decided _ hos rfl
    intro v hv
    rcases List.mem_cons.mp hv with rfl | hv
    · exact hverdict
    · exact hi.verdicts v hv
  · rw [s.node.apply_verdicts fun process hacc => hhandle ⟨process, hacc⟩]
    exact hi.verdicts

theorem VerdictInv.stop_of_step (hi : s.VerdictInv) (hok : s.Orderly c a)
    (hs : s.step c a = some s') (hopen' : s'.Open) (hstop : s'.node.last.stopInitiated = true) :
    s'.node.processState = .terminating := by
  have htracked' := hi.tracked.step (.of_withoutMain hok.1) hs
  have ha : ∀ pid, a ≠ .launched pid := by
    rintro pid rfl
    rw [last_of_launched hs] at hstop
    cases hstop
  by_cases hacc : s.access c a = .enter .terminating
  · exact processState_of_enter hs hacc
  · rw [Custody.last, started_of_step hs ha,
      stopInitiated_of_step hs le_rfl fun h => absurd h hacc] at hstop
    rcases hi.tracked.open_of_step hs hopen' with hopen | hinsert
    · have hstate := hi.stop hopen hstop
      rcases processState_cases hs with hsame | ⟨new, hsame, hnew, hp⟩
      · exact hsame.trans hstate
      · have hlive : new.Live := hsame ▸ htracked'.live hopen'
        cases hp with
        | running hw hmay => exact absurd (hstate ▸ hmay) (by decide)
        | starting hw => exact absurd hopen (hi.tracked.alone _ hw _ rfl).1
        | activateTerminating | fatalTerminating | deactivateTerminating | mainTerminating =>
          exact absurd hnew hacc
        | _ => exact absurd hlive (by decide)
    · have hp := performs hs
      rw [hinsert] at hp
      cases hp with
      | insert hw => exact Bool.noConfusion ((hi.insert _ hw).symm.trans hstop)

theorem VerdictInv.running_of_step (hi : s.VerdictInv) (hs : s.step c a = some s')
    (hstate : s'.node.processState = .running) : s'.node.last.reachedRunning = true := by
  rcases processState_cases hs with hsame | ⟨new, hsame, hnew, -⟩ <;> rw [hsame] at hstate
  · have ha : ∀ pid, a ≠ .launched pid := by
      rintro pid rfl
      cases moves_of_step hs with
      | launched _ attempt hw =>
        cases hstate.symm.trans (hi.tracked.alone _ hw _ rfl).2
    rw [Custody.last, started_of_step hs ha]
    exact reachedRunning_of_step hs le_rfl (hi.running hstate)
  · subst hstate
    rw [step_custody hs, hnew, Custody.apply, Custody.enter_last]
    exact Bool.or_true _

theorem VerdictInv.casStarting_of_step (hi : s.VerdictInv) (hok : s.Orderly c a)
    (hs : s.step c a = some s') (h' : Handler) (hos' : s'.os = some h')
    (hpc : h'.pc = .casStarting) : s'.node.processState ≠ .terminating := by
  rcases handler_cases hs hos' with ⟨hos, -⟩ | ⟨_, _, -, rfl, -⟩ | ⟨h, pc', rfl, hos, rfl, hnext⟩
  · intro hstate
    rcases processState_cases hs with hsame | ⟨new, hsame, hnew, -⟩
    · exact hi.casStarting h' hos hpc (hsame.symm.trans hstate)
    · obtain rfl := hsame.symm.trans hstate
      have hprocess := (hi.tracked.pre h' hos (hpc ▸ rfl)).1
      have hfail := hok.2.2 hnew h' hos hprocess
      rw [hpc] at hfail
      cases hfail
  · cases hpc
  · obtain rfl : pc' = .casStarting := hpc
    obtain ⟨hexchange, hrequested⟩ := hnext.exchange
    rw [(hnext.pre rfl).2]
    intro hstate
    cases hrequested.symm.trans (hok.2.1 rfl h hos hexchange hstate)

theorem VerdictInv.decided_of_step (hi : s.VerdictInv) (hok : s.Orderly c a)
    (hs : s.step c a = some s') (h' : Handler) (hos' : s'.os = some h')
    (hdecided : h'.pc.decided = true) : (s'.node.processes h'.process).reachedRunning = true ∧
      (s'.node.processes h'.process).stopInitiated = false := by
  have hkeep : ∀ h, s.os = some h → h.pc.mayFail = true →
      (s.node.processes h.process).reachedRunning = true ∧
        (s.node.processes h.process).stopInitiated = false →
      (s'.node.processes h.process).reachedRunning = true ∧
        (s'.node.processes h.process).stopInitiated = false := by
    rintro h hos hfail ⟨hrunning, hstop⟩
    have hle := hi.tracked.started h hos
    refine ⟨reachedRunning_of_step hs hle hrunning, ?_⟩
    rw [stopInitiated_of_step hs hle fun hacc hp => ?_]
    · exact hstop
    · exact Bool.noConfusion (hfail.symm.trans (hok.2.2 hacc h hos hp))
  rcases handler_cases hs hos' with ⟨hos, -⟩ | ⟨_, _, -, rfl, -⟩ | ⟨h, pc', rfl, hos, rfl, hnext⟩
  · exact hkeep h' hos (TryHandleTermination.mayFail_of_decided hdecided)
      (hi.decided h' hos hdecided)
  · cases hdecided
  · rcases hnext.decided hdecided with hbefore | ⟨hcas, hstarting⟩
    · exact hkeep h hos (TryHandleTermination.mayFail_of_decided hbefore) (hi.decided h hos hbefore)
    · -- the process is not starting and is not being stopped, so it is running
      have hpre : h.pc.pre = true := hcas ▸ rfl
      have hopen : s.Open := .inr ⟨h, hos, hpre⟩
      have hrunning : s.node.processState = .running := by
        rcases hi.tracked.live hopen with hstate | hstate | hstate
        · exact absurd hstate hstarting
        · exact hstate
        · exact absurd hstate (hi.casStarting h hos hcas)
      have hstop : s.node.last.stopInitiated = false := by
        refine Bool.eq_false_iff.mpr fun hstop => ?_
        cases hrunning.symm.trans (hi.stop hopen hstop)
      refine hkeep h hos (hcas ▸ rfl) ?_
      rw [(hi.tracked.pre h hos hpre).1]
      exact ⟨hi.running hrunning, hstop⟩

theorem VerdictInv.insert_of_step (hi : s.VerdictInv) (hok : s.Orderly c a)
    (hs : s.step c a = some s') (attempt : Nat)
    (hw' : s'.worker = some (.activate attempt .insert)) : s'.node.last.stopInitiated = false := by
  rcases activate_cases hs hw' with
    ⟨hw, ha⟩ | ⟨-, ⟨⟩⟩ | ⟨pid, rfl, -, -⟩ | ⟨ok, _, pc, rfl, hw, hnext⟩
  · have hlaunch : ∀ pid, a ≠ .launched pid := by
      rintro pid rfl
      cases moves_of_step hs with
      | launched _ _ hlaunch => cases hlaunch.symm.trans hw
    rw [Custody.last, started_of_step hs hlaunch, stopInitiated_of_step hs le_rfl fun hacc => ?_]
    · exact hi.insert attempt hw
    · have hp := performs hs
      rw [hacc] at hp
      cases hp with
      | mainTerminating => exact hok.1.elim
      | _ => exact absurd rfl (ha _)
  · rw [last_of_launched hs]
  · generalize s'.node = n' at hnext
    cases hnext

theorem VerdictInv.step (hi : s.VerdictInv) (hok : s.Orderly c a) (hs : s.step c a = some s') :
    s'.VerdictInv where
  tracked := hi.tracked.step (.of_withoutMain hok.1) hs
  verdicts := hi.verdicts_of_step hs
  stop := hi.stop_of_step hok hs
  running := hi.running_of_step hs
  casStarting := hi.casStarting_of_step hok hs
  decided := hi.decided_of_step hok hs
  insert := hi.insert_of_step hok hs

theorem verdictInv_init : VerdictInv {} where
  tracked := tracked_init
  verdicts := nofun
  stop h := absurd (tracked_init.live h) (by decide)
  running := nofun
  casStarting := nofun
  decided := nofun
  insert := nofun

/-- Only the end of a process that was running, and was not asked to stop, is reported as
unexpected. -/
theorem unexpected_of_running (c : ComponentConfig) {s : System}
    (hrun : Runs.Run (step c) (Orderly c) {} s) :
    ∀ v ∈ s.node.verdicts, v.reachedRunning = true ∧ v.stopInitiated = false :=
  (hrun.invariant VerdictInv (fun hi hok hs => hi.step hok hs) verdictInv_init).verdicts

theorem unexpected_of_running_crash :
    ∃ s, Runs.Run (step sampleConfig) (Orderly sampleConfig) {} s ∧ s.node.verdicts.length = 1 ∧
      ∀ v ∈ s.node.verdicts, v.reachedRunning = true ∧ v.stopInitiated = false := by
  obtain ⟨s, hrun, hlength⟩ := Runs.Run.exists_of_exec (step sampleConfig) (Orderly sampleConfig) {}
    (fun s => s.node.verdicts.length = 1)
    (List.flatten [sampleStart, [.exit 1 1, .reap 1], List.replicate 8 .os]) (by decide +kernel)
  exact ⟨s, hrun, hlength, unexpected_of_running sampleConfig hrun⟩

/-- The process crashes when the worker has entered the terminating state but has not made its
request. -/
theorem start_failure_reported :
    ∃ s, Runs.Run (step ⟨false, true, .running, 0⟩) (fun _ a => a.WithoutMain) {} s ∧
      ∃ v ∈ s.node.verdicts, v.reachedRunning = false ∧ v.stopInitiated = true :=
  Runs.Run.exists_of_exec _ _ _ _
    (List.flatten [[.begin .activate], List.replicate 10 (.worker true),
      [.launched 7, .worker true, .worker false], List.replicate 3 (.worker true),
      [.exit 1 1, .reap 1], List.replicate 8 .os])
    (by decide +kernel)

end System

end LaunchManager.ProcessInfoNode
