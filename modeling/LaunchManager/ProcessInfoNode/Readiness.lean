import LaunchManager.ProcessInfoNode.Attempts

/-!
# What a successful activation has waited for

`startProcess` reports success from three places. A record beside the system keeps which waits of
the attempt in progress have succeeded. If no process without a report and with a file
condition ends before it is registered, an activation that has launched a process and has
succeeded has seen its ready condition met.
-/

namespace LaunchManager.ProcessInfoNode

set_option autoImplicit false

/-- Whether the activation has launched a process, and which waits for the process launched last
have succeeded. -/
structure Readiness where
  launched : Bool := false
  running : Bool := false
  file : Bool := false
  deriving DecidableEq

def Job.noted (ok : Bool) (r : Readiness) : Job → Readiness
  | .activate _ .waitRunning => { r with running := ok }
  | .activate _ .waitFile => { r with file := ok }
  | _ => r

namespace Readiness

def note (s : System) (a : Act) (_ : System) (r : Readiness) : Readiness :=
  match a with
  | .begin _ => {}
  | .launched _ => { launched := true }
  | .worker ok => s.worker.elim r (Job.noted ok r)
  | .exit _ _ | .reap _ | .reapEarly _ _ | .os | .takeEvent | .main _ | .forceKill => r

def Waited (c : ComponentConfig) (r : Readiness) : Prop :=
  (c.isReporting = true → c.readyCondition ≠ .file → r.running = true) ∧
    (c.readyCondition = .file → r.file = true)

def Met (c : ComponentConfig) (n : Node) (r : Readiness) : Prop :=
  r.Waited c ∧ (c.readyCondition = .terminated →
    ∃ status, n.last.exited = some status ∧ c.terminationResult status = .ignore)

end Readiness

/-- A rating is that of the end of the process started last. -/
def Node.Rated (c : ComponentConfig) (n : Node) : Prop :=
  ∀ result, n.terminationResult = some result →
    ∃ status, n.last.exited = some status ∧ c.terminationResult status = result

/-- Whose rating `termination_result_` holds. -/
def Activate.Rates (c : ComponentConfig) (n : Node) : Activate → Prop
  | .resetWaiter | .setStarting _ | .launch => n.terminationResult = none
  | .inline status _ => n.last.exited = some status ∧ n.Rated c
  | .insert | .waitRunning | .waitTerminated | .waitFile | .loadStatus | .setRunning _
  | .readResult => n.Rated c
  | _ => True

/-- Which waits have succeeded when the worker comes to a point. -/
def Activate.Passed (c : ComponentConfig) (n : Node) (r : Readiness) : Activate → Prop
  | .clear | .checkReady => r.launched = false
  | .inline _ _ => c.isReporting = false → c.readyCondition ≠ .file
  | .waitRunning => c.readyCondition ≠ .file
  | .waitTerminated => c.readyCondition ≠ .file ∧ (c.isReporting = true → r.running = true)
  | .waitFile => c.readyCondition = .file
  | .loadStatus | .setRunning _ | .readResult => r.Waited c
  | .testAndSet | .storeReady => r.launched = true → r.Met c n
  | .reportError error => error ≠ .success
  | _ => True

/-- The process has ended before it is registered, and nothing was or will be waited for. -/
def Job.skipsFile (c : ComponentConfig) (n : Node) : Job → Bool
  | .activate _ .insert =>
    n.last.early && !c.isReporting && decide (c.readyCondition = .file)
  | _ => false

section Worker
variable {c : ComponentConfig} {ok : Bool} {n n' : Node} {attempt attempt' : Nat}
  {pc pc' : Activate}

theorem Node.Rated.congr (h : n.Rated c) (hresult : n'.terminationResult = n.terminationResult)
    (hexited : n'.last.exited = n.last.exited) : n'.Rated c := by
  intro result hr
  rw [hexited]
  exact h result (hresult ▸ hr)

theorem Activate.Moves.rates (hm : pc.Moves c ok n attempt n' (.next (attempt', pc')))
    (hrates : pc.Rates c n) (hexited : n'.last.exited = n.last.exited)
    (hearly : n.last.early = true → n.last.exited.isSome = true) : pc'.Rates c n' := by
  cases hm with
  | resetResult => rfl
  | resetWaiter | setStarting | starting | waitRunningTerminated | waitRunningStatus
  | waitTerminatedStatus | waitFileStatus | loadStatusRunning | setRunning | notRunning =>
    exact hrates
  | early hsome =>
    obtain ⟨status, hstatus⟩ := Option.isSome_iff_exists.mp (hearly hsome)
    refine ⟨?_, hrates.congr rfl hexited⟩
    rw [hexited, hstatus]
    rfl
  | insertedRunning | insertedTerminated | insertedFile | insertedStatus =>
    exact hrates.congr rfl hexited
  | @inline status h _ _ hm =>
    refine ⟨hexited.trans hrates.1, ?_⟩
    by_cases hpc : h = .storeResult
    · subst hpc
      cases hm
      rintro result ⟨⟩
      exact ⟨status, hexited.trans hrates.1, rfl⟩
    · exact hrates.2.congr (hm.terminationResult hpc) hexited
  | inlineRunning => exact hrates.2.congr rfl hexited
  | _ => trivial

theorem Activate.Moves.passed {r : Readiness}
    (hm : pc.Moves c ok n attempt n' (.next (attempt', pc'))) (hrates : pc.Rates c n)
    (hpassed : pc.Passed c n r) (hskips : (Job.activate attempt pc).skipsFile c n = false) :
    pc'.Passed c n' ((Job.activate attempt pc).noted ok r) := by
  cases hm with
  | clear | inline | loadStatusRunning | setRunning | notRunning | unreported => exact hpassed
  | ready => exact fun h => Bool.noConfusion (hpassed.symm.trans h)
  | early hearly =>
    intro hnative hfile
    simp [Job.skipsFile, hearly, hnative, hfile] at hskips
  | insertedRunning _ _ hcond | insertedFile _ _ hcond => exact hcond
  | insertedTerminated _ _ hcond hreporting =>
    exact ⟨hcond ▸ by decide, fun h => Bool.noConfusion (hreporting.symm.trans h)⟩
  | insertedStatus _ _ hcond hreporting =>
    exact ⟨fun h => Bool.noConfusion (hreporting.symm.trans h),
      fun h => by cases hcond.symm.trans h⟩
  | inlineRunning _ _ hreporting =>
    exact ⟨fun h => Bool.noConfusion (hreporting.symm.trans h),
      fun h => absurd h (hpassed hreporting)⟩
  | waitRunningTerminated hok => exact ⟨hpassed, fun _ => hok⟩
  | waitRunningStatus hok => exact ⟨fun _ _ => hok, fun h => absurd h hpassed⟩
  | waitTerminatedStatus => exact ⟨fun h _ => hpassed.2 h, fun h => absurd h hpassed.1⟩
  | waitFileStatus hok => exact ⟨fun _ h => absurd hpassed h, fun _ => hok⟩
  | running _ hcond => exact fun _ => ⟨hpassed, fun h => absurd h hcond⟩
  | normalEnd hresult => exact fun _ => ⟨hpassed, fun _ => hrates _ hresult⟩
  | notIdle | inlineError | getStateError | terminateError | failed | abnormalEnd => rintro ⟨⟩
  | _ => trivial

theorem Activate.Moves.eq_storeReady {r : Readiness}
    (hm : pc.Moves c ok n attempt n' (.done .success)) (hpassed : pc.Passed c n r) :
    pc = .storeReady := by
  cases hm with
  | storeReady => rfl
  | reportError error h =>
    split_ifs at h
    exact absurd h.symm hpassed

end Worker

namespace System

/-- The main thread is not at work, and no file condition is skipped. -/
def Registered (c : ComponentConfig) (s : System) (a : Act) : Prop :=
  a.WithoutMain ∧ ∀ ok, a = .worker ok → ∀ j ∈ s.worker, j.skipsFile c s.node = false

instance (c : ComponentConfig) (s : System) (a : Act) : Decidable (s.Registered c a) :=
  inferInstanceAs (Decidable (_ ∧ _))

structure ReadinessInv (c : ComponentConfig) (s : System) (r : Readiness) : Prop where
  tracked : s.Tracked
  reaped : s.Reaped
  statuses : s.StatusKnown
  rates : ∀ attempt pc, s.worker = some (.activate attempt pc) → pc.Rates c s.node
  passed : ∀ attempt pc, s.worker = some (.activate attempt pc) → pc.Passed c s.node r
  returned : s.worker = none → s.returned = some (.activate, .success) → r.launched = true →
    r.Met c s.node

variable {c : ComponentConfig} {s s' : System} {a : Act} {ok : Bool} {r : Readiness}

theorem exited_of_worker (hs : s.step c (.worker ok) = some s') :
    s'.node.last.exited = s.node.last.exited := by
  have hp := performs hs
  rw [step_custody hs]
  generalize s.access c (.worker ok) = acc at hp
  cases hp <;> exact s.node.apply_read_last Process.exited (fun _ => nofun) fun _ => rfl

theorem lastStatus_of_step (hs : s.step c a = some s') (ha : ∀ pid, a ≠ .launched pid)
    {status : Int} (h : s.node.last.exited = some status) : s'.node.last.exited = some status := by
  rw [Custody.last, started_of_step hs ha]
  exact status_of_step hs (Nat.le_refl _) h

theorem met_of_step (hs : s.step c a = some s') (ha : ∀ pid, a ≠ .launched pid)
    (h : r.Met c s.node) : r.Met c s'.node := by
  refine ⟨h.1, fun hcond => ?_⟩
  obtain ⟨status, hstatus, hresult⟩ := h.2 hcond
  exact ⟨status, lastStatus_of_step hs ha hstatus, hresult⟩

namespace ReadinessInv

theorem rates_of_other (hi : s.ReadinessInv c r) (hok : a.WithoutMain)
    (hs : s.step c a = some s') (ha : ∀ ok, a ≠ .worker ok) (hl : ∀ pid, a ≠ .launched pid)
    {attempt : Nat} {pc : Activate} (hw : s.worker = some (.activate attempt pc)) :
    pc.Rates c s'.node := by
  have hrates := hi.rates _ _ hw
  have hresult : s'.node.terminationResult = s.node.terminationResult ∨
      ∃ h, s.os = some h ∧ h.pc = .storeResult ∧
        s'.node.terminationResult = some (c.terminationResult h.status) := by
    cases moves_of_step hs with
    | worker => exact absurd rfl (ha _)
    | launched => exact absurd rfl (hl _)
    | os h hos =>
      by_cases hpc : h.pc = .storeResult
      · refine .inr ⟨h, hos, hpc, ?_⟩
        rw [osStep, hpc]
        rfl
      · exact .inl ((h.pc.moves ..).terminationResult hpc)
    | takeEvent | main | forceKill => exact hok.elim
    | _ => exact .inl rfl
  have hnone : (∃ P, pc.alone = some P) → s.node.terminationResult = none →
      s'.node.terminationResult = none := by
    rintro ⟨P, hP⟩ hnone
    rcases hresult with heq | ⟨h, hos, hpc, -⟩
    · exact heq.trans hnone
    · exact absurd (.inr ⟨h, hos, by rw [hpc]; rfl⟩) (hi.tracked.alone _ hw P hP).1
  have hrated : s.node.Rated c → s'.node.Rated c := by
    intro hrated result hsome
    rcases hresult with heq | ⟨h, hos, hpc, heq⟩
    · obtain ⟨status, hstatus, hr⟩ := hrated result (heq ▸ hsome)
      exact ⟨status, lastStatus_of_step hs hl hstatus, hr⟩
    · cases heq.symm.trans hsome
      refine ⟨h.status, lastStatus_of_step hs hl ?_, rfl⟩
      rw [Custody.last, ← (hi.tracked.pre h hos (by rw [hpc]; rfl)).1]
      exact hi.statuses h hos
  cases pc with
  | resetWaiter | setStarting | launch => exact hnone ⟨_, rfl⟩ hrates
  | inline status h => exact ⟨lastStatus_of_step hs hl hrates.1, hrated hrates.2⟩
  | insert | waitRunning | waitTerminated | waitFile | loadStatus | setRunning | readResult =>
    exact hrated hrates
  | _ => trivial

theorem rates_of_step (hi : s.ReadinessInv c r) (hok : s.Registered c a)
    (hs : s.step c a = some s') (attempt' : Nat) (pc' : Activate)
    (hw' : s'.worker = some (.activate attempt' pc')) : pc'.Rates c s'.node := by
  rcases activate_cases hs hw' with
    ⟨hw, ha⟩ | ⟨-, rfl⟩ | ⟨pid, rfl, hw, rfl⟩ | ⟨ok, attempt, pc, rfl, hw, hm⟩
  · refine hi.rates_of_other hok.1 hs ha ?_ hw
    rintro pid rfl
    cases moves_of_step hs with
    | launched _ _ hlaunch =>
      cases hlaunch.symm.trans hw
      cases hw'
  · trivial
  · intro result hsome
    cases moves_of_step hs with
    | launched => cases (hi.rates _ _ hw).symm.trans hsome
  · exact hm.rates (hi.rates _ _ hw) (exited_of_worker hs)
      fun h => hi.reaped _ (Bool.or_eq_true_iff.mpr (.inr h))

theorem passed_of_step (hi : s.ReadinessInv c r) (hok : s.Registered c a)
    (hs : s.step c a = some s') (attempt' : Nat) (pc' : Activate)
    (hw' : s'.worker = some (.activate attempt' pc')) :
    pc'.Passed c s'.node (Readiness.note s a s' r) := by
  have hother : ∀ {r' : Readiness}, r' = r → (∀ pid, a ≠ .launched pid) →
      s.worker = some (.activate attempt' pc') → pc'.Passed c s'.node r' := by
    rintro r' rfl hl hw
    have hpassed := hi.passed _ _ hw
    cases pc' with
    | testAndSet | storeReady => exact fun h => met_of_step hs hl (hpassed h)
    | _ => exact hpassed
  cases moves_of_step hs with
  | begin type =>
    cases type <;> cases hw'
    rfl
  | worker ok j hw =>
    rcases activate_cases hs hw' with
      ⟨-, h⟩ | ⟨h, -⟩ | ⟨_, ⟨⟩, _⟩ | ⟨_, attempt, pc, ⟨⟩, hw, hm⟩
    · exact absurd rfl (h ok)
    · cases hw.symm.trans h
    · rw [Readiness.note, hw]
      exact hm.passed (hi.rates _ _ hw) (hi.passed _ _ hw) (hok.2 ok rfl _ hw)
  | launched pid attempt hw =>
    cases hw'
    trivial
  | takeEvent | main | forceKill => exact hok.1.elim
  | _ => exact hother rfl (fun _ => nofun) hw'

theorem returned_of_step (hi : s.ReadinessInv c r) (hok : s.Registered c a)
    (hs : s.step c a = some s') (hw' : s'.worker = none)
    (hret : s'.returned = some (.activate, .success))
    (hlaunched : (Readiness.note s a s' r).launched = true) :
    (Readiness.note s a s' r).Met c s'.node := by
  cases moves_of_step hs with
  | begin | launched => cases hw'
  | worker ok j hw =>
    cases j with
    | deactivate pc =>
      obtain ⟨_, -, hworker⟩ | ⟨_, -, -, hreturned⟩ := deactivate_of_worker hw hs
      · cases hworker.symm.trans hw'
      · cases hreturned.symm.trans hret
    | activate attempt pc =>
      obtain ⟨_, _, -, hworker⟩ | ⟨_, hm, -, hreturned⟩ := activate_of_worker hw hs
      · cases hworker.symm.trans hw'
      · cases hreturned.symm.trans hret
        obtain rfl := hm.eq_storeReady (hi.passed _ _ hw)
        rw [Readiness.note, hw] at hlaunched ⊢
        exact met_of_step hs (fun _ => by rintro ⟨⟩) (hi.passed _ _ hw hlaunched)
  | takeEvent | main | forceKill => exact hok.1.elim
  | _ => exact met_of_step hs (fun _ => by rintro ⟨⟩) (hi.returned hw' hret hlaunched)

theorem step (hi : s.ReadinessInv c r) (hok : s.Registered c a) (hs : s.step c a = some s') :
    s'.ReadinessInv c (Readiness.note s a s' r) where
  tracked := hi.tracked.step (.of_withoutMain hok.1) hs
  reaped := hi.reaped.step hs
  statuses := hi.tracked.statusKnown_of_step hi.statuses hs
  rates := hi.rates_of_step hok hs
  passed := hi.passed_of_step hok hs
  returned := hi.returned_of_step hok hs

end ReadinessInv

theorem readinessInv_init (c : ComponentConfig) : ReadinessInv c {} {} where
  tracked := tracked_init
  reaped := nofun
  statuses := nofun
  rates := nofun
  passed := nofun
  returned := nofun

end System

end LaunchManager.ProcessInfoNode
