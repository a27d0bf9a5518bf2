import LaunchManager.ProcessInfoNode.Deactivation

/-!
# A component after a crash

The main thread deactivates a component whose process ended unexpectedly and so
clears `reached_ready_`. A worker that is reporting the activation stores the flag
without looking at the state again. If the main thread clears the flag only when no
such report is under way, the component is not active after a crash. The next
activation starts its process if the component has not been left in a state in which
a process may be alive; that happens when an idle component is taken for a running
one, or when the end of a process or of a start is not noted.
-/

namespace LaunchManager.ProcessInfoNode

set_option autoImplicit false

/-- The points from which the activation may still be reported without the start of another
process. -/
def Activate.mayReport : Activate → Bool
  | .insert => true
  | .inline _ _ => true
  | .waitRunning => true
  | .waitTerminated => true
  | .waitFile => true
  | .loadStatus => true
  | .setRunning _ => true
  | .readResult => true
  | .testAndSet => true
  | .storeReady => true
  | _ => false

def Job.mayReport : Job → Bool
  | .activate _ pc => pc.mayReport
  | .deactivate _ => false

/-- The change to the failed state, which gives up a start. -/
def Job.failing : Job → Option (SetState .failed)
  | .activate _ (.setFailed p) => some p
  | _ => none

section Report
variable {c : ComponentConfig} {n n' : Node} {ok : Bool} {attempt attempt' : Nat}
  {pc pc' : Activate}

theorem Activate.Moves.mayReport (hm : pc.Moves c ok n attempt n' (.next (attempt', pc')))
    (hpc : pc.mayReport = false) (hready : n.reachedReady = false) : pc'.mayReport = false := by
  cases hm with
  | ready h => cases h.symm.trans hready
  | _ => first | rfl | cases hpc

theorem Activate.step_reachedReady (hpc : pc.mayReport = false) :
    (pc.step c attempt ok n).1.reachedReady = n.reachedReady := by
  cases pc with
  | setIdle p | setStarting p | setFailed p => exact p.step_reachedReady
  | terminate t | terminateFatal t => exact t.step_reachedReady
  | insert | inline | waitRunning | waitTerminated | waitFile | loadStatus | setRunning | readResult
  | testAndSet | storeReady => cases hpc
  | _ => rfl

theorem Deactivate.step_unready (pc : Deactivate) (hready : n.reachedReady = false) :
    (pc.step ok n).1.reachedReady = false := by
  cases pc with
  | clear => exact hready
  | unready => rfl
  | terminate t => exact t.step_reachedReady.trans hready
  | setIdle p => exact p.step_reachedReady.trans hready

theorem Job.step_unready {j : Job} (hj : j.mayReport = false) (hready : n.reachedReady = false) :
    (j.step c ok n).1.reachedReady = false := by
  cases j with
  | activate attempt pc => exact (Activate.step_reachedReady hj).trans hready
  | deactivate pc => exact pc.step_unready hready

end Report

namespace System

/-- The end of the process that was started last has been reported as unexpected. -/
def Crashed (s : System) : Prop := ∃ v ∈ s.node.verdicts, v.process = s.node.started

instance (s : System) : Decidable s.Crashed := inferInstanceAs (Decidable (∃ v ∈ _, _))

def Finished (s : System) : Prop :=
  s.worker = none ∧ s.os = none ∧ s.main = none ∧ s.node.unexpected = 0

instance (s : System) : Decidable s.Finished := inferInstanceAs (Decidable (_ ∧ _ ∧ _ ∧ _))

/-- The main thread has still to clear `reached_ready_`. -/
def Awaited (s : System) : Prop :=
  0 < s.node.unexpected ∨ s.main = some .clear ∨ s.main = some .unready

instance (s : System) : Decidable s.Awaited := inferInstanceAs (Decidable (_ ∨ _ ∨ _))

/-- After a crash the main thread clears `reached_ready_` only when the worker cannot report the
activation any more, and once it is cleared the thread that reaps processes does not report for an
earlier process. -/
def Uncrossed (s : System) : Act → Prop
  | .main _ => s.Crashed → s.main = some .unready → ∀ j ∈ s.worker, j.mayReport = false
  | .os => s.Crashed → ¬ s.Awaited → ∀ h ∈ s.os, h.pc ≠ .storeReady
  | _ => True

instance (s : System) : ∀ a : Act, Decidable (s.Uncrossed a)
  | .main _ => inferInstanceAs (Decidable (_ → _ → _))
  | .os => inferInstanceAs (Decidable (_ → _ → _))
  | .begin _ | .worker _ | .launched _ | .exit _ _ | .reap _ | .reapEarly _ _ | .takeEvent
  | .forceKill => isTrue trivial

/-- Moreover no idle component becomes running or terminating, and the ends of processes and of
starts are noted in the state that was read. -/
structure Untangled (c : ComponentConfig) (s : System) (a : Act) : Prop where
  uncrossed : s.Uncrossed a
  idle : s.access c a = .enter .running ∨ s.access c a = .enter .terminating →
    s.node.processState ≠ .idle
  handler : ∀ h ∈ s.handling a, ¬ h.Misses s.node.toCustody
  failed : ∀ ok, a = .worker ok → ∀ p ∈ s.worker.bind Job.failing, ¬ p.Misses s.node.toCustody

instance (c : ComponentConfig) (s : System) (a : Act) : Decidable (s.Untangled c a) :=
  decidable_of_iff (_ ∧ _ ∧ _ ∧ _) ⟨fun ⟨h₁, h₂, h₃, h₄⟩ => ⟨h₁, h₂, h₃, h₄⟩,
    fun ⟨h₁, h₂, h₃, h₄⟩ => ⟨h₁, h₂, h₃, h₄⟩⟩

/-- `reached_ready_` is cleared and stays so until another process is started. -/
structure Cleared (s : System) : Prop where
  unready : s.node.reachedReady = false
  worker : ∀ j, s.worker = some j → j.mayReport = false

structure CrashInv (s : System) : Prop where
  handler : ∀ h, s.os = some h → h.process ≤ s.node.started
  verdicts : ∀ v ∈ s.node.verdicts, v.process ≤ s.node.started
  crashed : s.Crashed → s.Awaited ∨ s.Cleared
  live : s.node.processState.Live →
    s.Activating Activate.announces ∨ ¬ s.Crashed ∧ ¬ s.Noted

variable {c : ComponentConfig} {s s' : System} {a : Act}

theorem Awaited.step (h : s.Awaited) (hs : s.step c a = some s') :
    s'.Awaited ∨ (∃ ok, a = .main ok) ∧ s.main = some .unready := by
  by_cases htake : a = .takeEvent
  · subst htake
    cases moves_of_step hs
    exact .inl (.inr (.inl rfl))
  rcases h with hpos | hmain
  · refine .inl (.inl (hpos.trans_le ?_))
    rw [step_custody hs]
    refine s.node.unexpected_le_apply fun hacc => htake ?_
    have hp := performs hs
    rw [hacc] at hp
    cases hp
    rfl
  · cases moves_of_step hs with
    | main ok pc hpc =>
      rcases hmain with hclear | hunready
      · cases hpc.symm.trans hclear
        exact .inl (.inr (.inr rfl))
      · exact .inr ⟨⟨ok, rfl⟩, hunready⟩
    | takeEvent => exact absurd rfl htake
    | _ => exact .inl (.inr hmain)

theorem Cleared.step (h : s.Cleared) (hos : a = .os → ∀ h ∈ s.os, h.pc ≠ .storeReady)
    (ha : ∀ pid, a ≠ .launched pid) (hs : s.step c a = some s') : s'.Cleared where
  unready := by
    cases moves_of_step hs with
    | worker ok j hw => exact Job.step_unready (h.worker j hw) h.unready
    | os handler hhandler =>
      exact ((TryHandleTermination.moves ..).reachedReady (hos rfl handler hhandler)).trans
        h.unready
    | main ok pc => exact pc.step_unready h.unready
    | _ => exact h.unready
  worker j' hw' := by
    cases j' with
    | activate attempt' pc' =>
      rcases activate_cases hs hw' with
        ⟨hw, -⟩ | ⟨-, rfl⟩ | ⟨pid, rfl, -⟩ | ⟨ok, attempt, pc, -, hw, hnext⟩
      · exact h.worker _ hw
      · rfl
      · exact absurd rfl (ha pid)
      · exact hnext.mayReport (h.worker _ hw) h.unready
    | deactivate pc' => rfl

theorem CrashInv.verdicts_of_step (hi : s.CrashInv) (hs : s.step c a = some s') :
    ∀ v ∈ s'.node.verdicts, v.process ≤ s'.node.started := by
  have hle : s.node.started ≤ s'.node.started := step_custody hs ▸ s.node.started_le_apply _
  intro v hv
  refine le_trans ?_ hle
  rw [step_custody hs] at hv
  by_cases hhandle : ∃ process, s.access c a = .handle process .failure
  · obtain ⟨process, hacc⟩ := hhandle
    have hp := performs hs
    rw [hacc] at hp hv
    rcases List.mem_cons.mp hv with rfl | hv
    · cases hp with
      | inlineHandle => exact le_rfl
      | osHandle hos => exact hi.handler _ hos
    · exact hi.verdicts v hv
  · rw [s.node.apply_verdicts fun process hacc => hhandle ⟨process, hacc⟩] at hv
    exact hi.verdicts v hv

theorem CrashInv.crashed_cases (hi : s.CrashInv) (hs : s.step c a = some s') (h : s'.Crashed) :
    (∀ pid, a ≠ .launched pid) ∧
      ((∃ process, s.access c a = .handle process .failure) ∧ s.Noted ∨ s.Crashed) := by
  obtain ⟨v, hv, hprocess⟩ := h
  rw [step_custody hs] at hv
  by_cases hhandle : ∃ process, s.access c a = .handle process .failure
  · -- a termination is reported by this step
    obtain ⟨process, hacc⟩ := hhandle
    have hp := performs hs
    rw [hacc] at hp hv
    have ha : ∀ pid, a ≠ .launched pid := by
      rintro pid rfl
      cases hp
    rw [started_of_step hs ha] at hprocess
    refine ⟨ha, ?_⟩
    rcases List.mem_cons.mp hv with rfl | hv
    · refine .inl ⟨⟨process, hacc⟩, ?_⟩
      cases hp with
      | inlineHandle hw => exact .inr ⟨_, _, _, hw, rfl⟩
      | osHandle hos => exact .inl ⟨_, hos, hprocess, rfl⟩
    · exact .inr ⟨v, hv, hprocess⟩
  · rw [s.node.apply_verdicts fun process hacc => hhandle ⟨process, hacc⟩] at hv
    have ha : ∀ pid, a ≠ .launched pid := by
      rintro pid rfl
      have hle := hi.verdicts v hv
      rw [hprocess, step_custody hs] at hle
      exact absurd hle (Nat.not_succ_le_self _)
    exact ⟨ha, .inr ⟨v, hv, hprocess.trans (started_of_step hs ha)⟩⟩

theorem CrashInv.crashed_of_step (hi : s.CrashInv) (hok : s.Uncrossed a)
    (hs : s.step c a = some s') (hcrashed' : s'.Crashed) : s'.Awaited ∨ s'.Cleared := by
  obtain ⟨ha, ⟨⟨process, hacc⟩, -⟩ | hcrashed⟩ := hi.crashed_cases hs hcrashed'
  · refine .inl (.inl ?_)
    rw [step_custody hs, hacc]
    exact Nat.succ_pos _
  · by_cases hawaited : s.Awaited
    · rcases hawaited.step hs with hawaited' | ⟨⟨ok, rfl⟩, hunready⟩
      · exact .inl hawaited'
      · have hreport := hok hcrashed hunready
        cases moves_of_step hs with
        | main _ pc hpc =>
          cases hpc.symm.trans hunready
          exact .inr ⟨rfl, hreport⟩
    · have hcleared := (hi.crashed hcrashed).resolve_left hawaited
      refine .inr (hcleared.step (fun hos => ?_) ha hs)
      subst hos
      exact hok hcrashed hawaited

/-- Only a process whose end has not been noted, or a start, keeps the component alive. -/
theorem CrashInv.live_of_step (hi : s.CrashInv) (hok : s.Untangled c a) (hs : s.step c a = some s')
    (hlive' : s'.node.processState.Live) :
    s'.Activating Activate.announces ∨ ¬ s'.Crashed ∧ ¬ s'.Noted := by
  have hunnoted : ((∀ pid, a ≠ .launched pid) → ¬ s.Crashed ∧ ¬ s.Noted) →
      ¬ s'.Crashed ∧ ¬ s'.Noted := by
    refine fun h => ⟨fun hcrashed => ?_, fun hnoted => ?_⟩
    · obtain ⟨ha, ⟨-, hnoted⟩ | hbefore⟩ := hi.crashed_cases hs hcrashed
      · exact (h ha).2 hnoted
      · exact (h ha).1 hbefore
    · rcases noted_of_step hi.handler hok.handler hs hnoted with ⟨ha, hbefore⟩ | hended
      · exact (h ha).2 hbefore
      · exact hended.not_live hlive'
  rcases System.live_of_step hok.idle hs hlive' with hlive | ⟨attempt, hw'⟩
  swap
  · exact .inl ⟨attempt, _, hw', rfl⟩
  rcases hi.live hlive with ⟨attempt, pc, hw, hpc⟩ | h
  · cases moves_of_step hs with
    | begin _ hnone => cases hnone.symm.trans hw
    | worker ok j hj =>
      refine .inl (announces_of_worker hw hpc ?_ hs hlive hlive')
      rintro p rfl
      exact hok.failed ok rfl p (by rw [hw]; rfl)
    | launched pid => exact .inr (hunnoted fun ha => absurd rfl (ha pid))
    | _ => exact .inl ⟨attempt, pc, hw, hpc⟩
  · exact .inr (hunnoted fun _ => h)

theorem CrashInv.step (hi : s.CrashInv) (hok : s.Untangled c a) (hs : s.step c a = some s') :
    s'.CrashInv where
  handler := started_of_handler hi.handler hs
  verdicts := hi.verdicts_of_step hs
  crashed := hi.crashed_of_step hok.uncrossed hs
  live := hi.live_of_step hok hs

end System

end LaunchManager.ProcessInfoNode
