import LaunchManager.ProcessInfoNode.Tracking

/-!
# What holds when a component has been deactivated

`deactivate` ignores whether its last change of state succeeds and does not wait
when a signal cannot be sent. The termination of the process has been handled when
it returns, and the component can be started again, if it does not find the
component idle or terminating, if its signals can be sent as long as the
termination has not been handled, and if neither it nor a start overtakes the thread
that handles the termination. A worker and the main thread may deactivate the
component, but not while the other one is at work on it.
-/

namespace LaunchManager.ProcessInfoNode

set_option autoImplicit false

/-- What the worker relies on at the points of `activate`. -/
def Activate.Holds (n : Node) (os : Option Handler) : Activate → Prop
  | .setIdle .load => True
  | .setIdle _ => os = none ∧ n.last.handled = true
  | .resetPid => os = none ∧ n.last.handled = true
  | .resetStatus => os = none ∧ n.last.handled = true
  | .resetResult => os = none ∧ n.last.handled = true
  | .resetWaiter => os = none ∧ n.last.handled = true
  | .setStarting _ => os = none ∧ n.last.handled = true ∧ n.isTerminated = false
  | .launch => os = none ∧ n.last.handled = true ∧ n.isTerminated = false
  | .insert =>
    os = none ∧ n.last.handled = false ∧ n.isTerminated = false ∧ n.last.inserted = false ∧
      (n.last.reaped = true → n.last.early = true)
  | .inline _ h =>
    os = none ∧ n.last.handled = false ∧ n.isTerminated = false ∧ n.last.inserted = false ∧
      (h.pre = false → n.processState.Ended)
  | .waitRunning => n.processState ≠ .idle
  | .waitTerminated => n.processState ≠ .idle
  | .waitFile => n.processState ≠ .idle
  | .loadStatus => n.processState ≠ .idle
  | .getState => n.processState ≠ .idle
  | .terminate _ => n.processState ≠ .idle
  | .terminateFatal _ => False
  | .setFailed .load => os = none ∧ n.last.handled = true ∧ n.processState = .starting
  | .setFailed (.cas old _) => os = none ∧ n.last.handled = true ∧ n.processState = old
  | .setRunning _ => n.processState ≠ .idle
  | .readResult => n.processState ≠ .idle
  | _ => True

def Deactivate.Holds (n : Node) (os : Option Handler) : Deactivate → Prop
  | .clear => True
  | .unready => True
  | .terminate (.setTerminating .load) => n.reachedReady = false
  | .terminate (.setTerminating (.cas old _)) =>
    n.reachedReady = false ∧ old ≠ .idle ∧ (n.processState = old ∨ n.processState = .terminated)
  | .terminate .release => n.reachedReady = false ∧ n.processState = .terminated
  | .terminate _ =>
    n.reachedReady = false ∧ (n.processState = .terminating ∨ n.processState = .terminated)
  | .setIdle .load => n.reachedReady = false ∧ n.processState.Ended
  | .setIdle (.cas _ _) => False
  | .setIdle (.store _) => n.reachedReady = false ∧ os = none ∧ n.last.handled = true

def Job.Holds (n : Node) (os : Option Handler) : Job → Prop
  | .activate _ pc => pc.Holds n os
  | .deactivate pc => pc.Holds n os

/-- What the environment of the worker grants to a step. -/
def Job.smooth (ok : Bool) (n : Node) (os : Option Handler) : Job → Bool
  | .activate _ (.setIdle .load) => os.isNone
  | .activate _ .insert => ok || n.last.early
  | .deactivate (.terminate (.setTerminating .load)) =>
    n.processState != .idle && n.processState != .terminating
  | .deactivate (.terminate .sigterm) => ok && n.pid != 0 || n.isTerminated
  | .deactivate (.terminate .sigkill) => ok && n.pid != 0 || n.isTerminated
  | .deactivate (.setIdle .load) => os.isNone
  | _ => true

/-- The worker brings a process it has started into the process map. -/
def Activate.places : Activate → Bool
  | .insert => true
  | .inline _ _ => true
  | _ => false

/-- The worker has announced a start but no process has been started. -/
def Activate.announces : Activate → Bool
  | .launch => true
  | .setFailed _ => true
  | _ => false

section Holds
variable {c : ComponentConfig} {ok : Bool} {n n' : Node} {os : Option Handler}
variable {new : ProcessState} {j : Job}

theorem SetState.step_ne_idle (p : SetState new) (hnew : new ≠ .idle)
    (h : n.processState ≠ .idle) : (p.step n).1.processState ≠ .idle := by
  rw [p.step_node]
  obtain hacc | ⟨hacc, -⟩ := p.access_cases n.toCustody <;> rw [hacc]
  · exact h
  · exact hnew

theorem TerminateProcess.step_ne_idle (t : TerminateProcess) (h : n.processState ≠ .idle) :
    (t.step ok n).1.processState ≠ .idle := by
  cases t with
  | setTerminating p => exact p.step_ne_idle (by decide) h
  | sigterm | sigkill =>
    rw [TerminateProcess.step, Node.update, Custody.kill]
    split_ifs <;> exact h
  | _ => exact h

theorem Custody.apply_kept (k : Custody) {a : Access} (ha : ∀ pid, a ≠ .launch pid)
    (hhandled : ∀ p, (a.note p).handled = p.handled) (hin : ∀ p, (a.note p).inserted = p.inserted) :
    (k.apply a).last.handled = k.last.handled ∧ (k.apply a).last.inserted = k.last.inserted :=
  ⟨k.apply_read_last Process.handled ha hhandled, k.apply_read_last Process.inserted ha hin⟩

theorem Custody.enter_kept (k : Custody) (new : ProcessState) :
    (k.enter new).last.handled = k.last.handled ∧ (k.enter new).last.inserted = k.last.inserted :=
  k.apply_kept (a := .enter new) (fun _ => by rintro ⟨⟩) (fun _ => rfl) fun _ => rfl

theorem SetState.access_kept (p : SetState new) (k : Custody) :
    (k.apply (p.access k)).last.handled = k.last.handled ∧
      (k.apply (p.access k)).last.inserted = k.last.inserted := by
  obtain hacc | ⟨hacc, -⟩ := p.access_cases k <;> rw [hacc]
  · exact ⟨rfl, rfl⟩
  · exact k.enter_kept new

section Handler
variable {process : Nat} {status : Int} {h h' : TryHandleTermination}

theorem TryHandleTermination.Moves.kept (hm : h.Moves c process status n n' (.next h')) :
    n'.last.handled = n.last.handled ∧ n'.last.inserted = n.last.inserted := by
  cases hm with
  | storeResult =>
    exact n.apply_kept (a := .rate process (c.terminationResult status)) (fun _ => by rintro ⟨⟩)
      (fun _ => rfl) fun _ => rfl
  | @requestedEnd p | @normalEnd p => exact p.access_kept n.toCustody
  | starting => exact n.enter_kept .terminated
  | _ => exact ⟨rfl, rfl⟩

theorem TryHandleTermination.Moves.processState
    {r : Progress TryHandleTermination TerminationResult} (hm : h.Moves c process status n n' r) :
    n'.processState = n.processState ∨ n'.processState = .terminated := by
  cases hm with
  | @requestedEnd p | @normalEnd p =>
    obtain hacc | ⟨hacc, -⟩ := p.access_cases n.toCustody <;> rw [hacc]
    · exact .inl rfl
    · exact .inr rfl
  | starting => exact .inr rfl
  | terminated result => cases result <;> exact .inl rfl
  | _ => exact .inl rfl

theorem TryHandleTermination.Moves.ended (hm : h.Moves c process status n n' (.next h'))
    (hended : h.pre = false → n.processState.Ended) (hmiss : ¬ h.Misses n.toCustody)
    (hpre : h'.pre = false) : n'.processState.Ended := by
  cases hbefore : h.pre with
  | true => exact hm.ended_of_noted hbefore hmiss hpre
  | false =>
    rcases hm.processState with hstate | hstate <;> rw [hstate]
    · exact hended hbefore
    · exact .inl rfl

end Handler

theorem Activate.Moves.holds {attempt attempt' : Nat} {pc pc' : Activate}
    (hm : pc.Moves c ok n attempt n' (.next (attempt', pc'))) (hpc : pc.Holds n os)
    (hsmooth : (Job.activate attempt pc).smooth ok n os = true)
    (halone : ∀ Q, pc.alone = some Q → Q n.processState)
    (hrest : pc.places = false → os = none → ¬ n.processState.Live → n.last.handled = true)
    (hmiss : ∀ status h, pc = .inline status h → ¬ h.Misses n.toCustody) : pc'.Holds n' os := by
  cases hm with
  | @setIdle p p' hp =>
    obtain ⟨rfl, hcases⟩ := SetState.next_cases hp
    have hos : os = none := Option.isNone_iff_eq_none.mp hsmooth
    rcases hcases with ⟨hmay, rfl⟩ | ⟨_, rfl, -⟩ <;>
      exact ⟨hos, hrest rfl hos (SetState.claims_of_next hp rfl).1⟩
  | @idle p hp =>
    cases p with
    | load => exact absurd rfl (SetState.access_of_done hp).1
    | cas | store => exact ⟨hpc.1, (n.enter_kept .idle).1.trans hpc.2⟩
  | resetPid | resetStatus | resetResult | setStarting | waitRunningTerminated
  | waitRunningStatus | waitRunningState | waitTerminatedStatus | waitTerminatedState
  | waitFileStatus | waitFileState | loadStatusRunning | loadStatusState | getStateTerminate
  | setRunning | notRunning => exact hpc
  | resetWaiter => exact ⟨hpc.1, hpc.2, rfl⟩
  | @starting p => exact ⟨hpc.1, (p.access_kept _).1.trans hpc.2.1, hpc.2.2⟩
  | notLaunched => exact ⟨hpc.1, hpc.2.1, halone _ rfl⟩
  | early hearly =>
    obtain ⟨hos, hhandled, hterminated, hin, -⟩ := hpc
    have hlast : (n.modify n.started ({ · with early := false })).last =
        { n.last with early := false } := n.modify_self _ _
    exact ⟨hos, (congrArg Process.handled hlast).trans hhandled, hterminated,
      (congrArg Process.inserted hlast).trans hin, by rintro ⟨⟩⟩
  | insertedRunning | insertedTerminated | insertedFile | insertedStatus =>
    have hstate : n.processState = .starting := halone _ rfl
    exact fun hidle => by cases hstate.symm.trans hidle
  | notInserted hearly hok =>
    rw [Job.smooth, hearly, hok] at hsmooth
    cases hsmooth
  | @inline status h h' _ hm =>
    obtain ⟨hos, hhandled, hterminated, hin, -⟩ := hpc
    refine ⟨hos, hm.kept.1.trans hhandled, hm.isTerminated.trans hterminated, hm.kept.2.trans hin,
      hm.ended_of_noted ?_ (hmiss status h rfl)⟩
    have hinline : h.inlineState n.processState := halone _ rfl
    cases h with
    | terminated => cases hm
    | branch | testAndSet | storeReady => exact hinline.elim
    | _ => rfl
  | inlineRunning status result =>
    have hstate : (n.handle n.started result).processState = n.processState := by
      cases result <;> rfl
    exact fun hidle => (hpc.2.2.2.2 rfl).not_idle (hstate.symm.trans hidle)
  | @terminate t t' ht => exact t.step_ne_idle hpc
  | terminateFatal | fatal => exact hpc.elim
  | @setFailed p p' hp =>
    obtain ⟨rfl, ⟨hmay, rfl⟩ | ⟨hidle, -⟩⟩ := SetState.next_cases hp
    · exact ⟨hpc.1, hpc.2.1, rfl⟩
    · cases hidle
  | _ => trivial

theorem TerminateProcess.holds_of_next {t t' : TerminateProcess}
    (hnext : (t.step ok n).2 = .next t') (ht : (Deactivate.terminate t).Holds n os)
    (hsmooth : (Job.deactivate (.terminate t)).smooth ok n os = true)
    (hwaiter : n.isTerminated = true → ¬ n.processState.Live) :
    (Deactivate.terminate t').Holds (t.step ok n).1 os := by
  have hended : n.isTerminated = true →
      n.processState = .terminating ∨ n.processState = .terminated → n.processState = .terminated :=
    fun h hstate => hstate.resolve_left fun heq => hwaiter h (.inr (.inr heq))
  have hkill : (ok && n.pid != 0 || n.isTerminated) = true → ¬ (ok = true ∧ n.pid ≠ 0) →
      n.isTerminated = true := by
    simp only [Bool.or_eq_true, Bool.and_eq_true, bne_iff_ne]
    exact fun h hsent => h.resolve_left hsent
  have hkept : (n.update n.kill).processState = n.processState :=
    n.apply_processState (a := .kill) fun _ => by rintro ⟨⟩
  cases t with
  | setTerminating p =>
    obtain ⟨p', hp, rfl⟩ | ⟨changed, hp, hdone⟩ := Progress.call_eq_next hnext
    · rw [TerminateProcess.step, SetState.node_of_next hp]
      obtain ⟨rfl, ⟨hmay, rfl⟩ | ⟨⟨⟩, -⟩⟩ := SetState.next_cases hp
      have hne : n.processState ≠ .idle := by
        simp only [Job.smooth, Bool.and_eq_true, bne_iff_ne] at hsmooth
        exact hsmooth.1
      exact ⟨ht, hne, .inl rfl⟩
    · cases changed with
      | false => cases hdone
      | true =>
        cases hdone
        rw [TerminateProcess.step, SetState.node_of_done hp]
        cases p with
        | load => exact absurd rfl (SetState.access_of_done hp).1
        | store h => cases h
        | cas old hmay => exact ⟨ht.1, .inl rfl⟩
  | request => cases hnext; exact ht
  | sigterm | sigkill =>
    simp only [TerminateProcess.step] at hnext
    split_ifs at hnext with hsent <;> cases hnext
    · exact ⟨ht.1, hkept ▸ ht.2⟩
    · exact ⟨ht.1, hkept.trans (hended (hkill hsmooth hsent) ht.2)⟩
  | waitTerm | waitKill =>
    simp only [TerminateProcess.step] at hnext
    split_ifs at hnext with hterminated <;> cases hnext
    · exact ⟨ht.1, hended hterminated ht.2⟩
    · exact ht
  | release => cases hnext

theorem TerminateProcess.holds_of_done {t : TerminateProcess} (hdone : (t.step ok n).2 = .done ())
    (ht : (Deactivate.terminate t).Holds n os)
    (hsmooth : (Job.deactivate (.terminate t)).smooth ok n os = true) :
    (Deactivate.setIdle .load).Holds (t.step ok n).1 os := by
  rcases TerminateProcess.done_cases hdone with rfl | ⟨p, rfl, hp, hnode⟩
  · exact ⟨ht.1, .inl ht.2⟩
  · rw [hnode]
    rw [SetState.step.eq_def] at hp
    cases p with
    | load =>
      refine ⟨ht, ?_⟩
      simp only [Job.smooth, Bool.and_eq_true, bne_iff_ne] at hsmooth
      split_ifs at hp with hmay
      revert hmay hsmooth
      cases n.processState <;> simp [ProcessState.Ended, ProcessState.MayBecome, ProcessState.toNat]
    | cas old hmay =>
      simp only at hp
      split_ifs at hp with hold
      · cases hp
      · exact ⟨ht.1, .inl (ht.2.2.resolve_left hold)⟩
    | store h => cases h

theorem Deactivate.holds_of_next {pc pc' : Deactivate} (hnext : (pc.step ok n).2 = .next pc')
    (hpc : pc.Holds n os) (hsmooth : (Job.deactivate pc).smooth ok n os = true)
    (hrest : os = none → ¬ n.processState.Live → n.last.handled = true)
    (hwaiter : n.isTerminated = true → ¬ n.processState.Live) : pc'.Holds (pc.step ok n).1 os := by
  cases pc with
  | clear => cases hnext; trivial
  | unready => cases hnext; exact rfl
  | terminate t =>
    obtain ⟨t', ht, rfl⟩ | ⟨⟨⟩, ht, ⟨⟩⟩ := Progress.call_eq_next hnext
    · exact TerminateProcess.holds_of_next ht hpc hsmooth hwaiter
    · exact TerminateProcess.holds_of_done ht hpc hsmooth
  | setIdle p =>
    obtain ⟨p', hp, rfl⟩ | ⟨_, _, ⟨⟩⟩ := Progress.call_eq_next hnext
    obtain ⟨rfl, ⟨hmay, rfl⟩ | ⟨_, rfl, -⟩⟩ := SetState.next_cases hp
    · exact absurd (hmay.eq_idle (.inl rfl)) hpc.2.not_idle
    · rw [Deactivate.step, SetState.node_of_next hp]
      have hos : os = none := Option.isNone_iff_eq_none.mp hsmooth
      exact ⟨hpc.1, hos, hrest hos hpc.2.not_live⟩

theorem Deactivate.holds_of_done {pc : Deactivate} {result : RequestResult}
    (hdone : (pc.step ok n).2 = .done result) (hpc : pc.Holds n os) :
    (pc.step ok n).1.processState = .idle ∧ (pc.step ok n).1.last.handled = true ∧ os = none ∧
      (pc.step ok n).1.reachedReady = false := by
  cases pc with
  | clear | unready => cases hdone
  | terminate t =>
    simp only [Deactivate.step] at hdone
    cases ht : (t.step ok n).2 <;> rw [ht] at hdone <;> cases hdone
  | setIdle p =>
    cases p with
    | load =>
      simp only [Deactivate.step, SetState.step] at hdone
      split_ifs at hdone with hmay hended
      · cases hdone
      · cases hdone
      · exact absurd ⟨trivial, hpc.2⟩ hended
    | cas => exact hpc.elim
    | store => exact ⟨rfl, (n.enter_kept .idle).1.trans hpc.2.2, hpc.2.1, hpc.1⟩

theorem TerminateProcess.step_isTerminated (t : TerminateProcess) :
    (t.step ok n).1.isTerminated = n.isTerminated := by
  obtain ⟨k, requested, h⟩ := t.step_node
  rw [h]

theorem Deactivate.step_isTerminated (pc : Deactivate) :
    (pc.step ok n).1.isTerminated = n.isTerminated := by
  cases pc with
  | terminate t => exact t.step_isTerminated
  | setIdle p =>
    rw [Deactivate.step, p.step_node]
    rfl
  | _ => rfl

theorem Activate.Moves.isTerminated {attempt : Nat} {pc : Activate}
    {r : Progress (Nat × Activate) RequestResult} (hm : pc.Moves c ok n attempt n' r)
    (hset : n'.isTerminated = true) :
    n.isTerminated = true ∨ ∃ status result, pc = .inline status (.terminated result) := by
  cases hm with
  | resetWaiter => cases hset
  | inline hm => exact .inl (hm.isTerminated.symm.trans hset)
  | inlineRetry status result | inlineError status result | inlineRunning status result =>
    exact .inr ⟨status, result, rfl⟩
  | terminate | terminateRetry | terminateError | terminateFatal | fatal =>
    exact .inl ((TerminateProcess.step_isTerminated _).symm.trans hset)
  | _ => exact .inl hset

theorem Job.Holds.os_eq_none {P : ProcessState → Prop} (h : j.Holds n os)
    (hj : j.alone = some P) : os = none := by
  cases j with
  | activate attempt pc =>
    cases pc with
    | setIdle p =>
      cases p with
      | load => cases hj
      | cas | store => exact h.1
    | setFailed p =>
      cases p with
      | load | cas => exact h.1
      | store hidle => cases hidle
    | resetPid | resetStatus | resetResult | resetWaiter | setStarting | launch | insert | inline =>
      exact h.1
    | terminateFatal => exact h.elim
    | _ => cases hj
  | deactivate pc =>
    cases pc with
    | setIdle p =>
      cases p with
      | load => cases hj
      | cas => exact h.elim
      | store => exact h.2.1
    | _ => cases hj

theorem Job.Holds.of_not_alone {os' : Option Handler} (h : j.Holds n os) (hj : j.alone = none)
    (hstate : n'.processState = n.processState ∨ n'.processState = .terminated)
    (hready : ∀ pc, j = .deactivate pc → n'.reachedReady = n.reachedReady) : j.Holds n' os' := by
  have hne : n.processState ≠ .idle → n'.processState ≠ .idle := by
    intro hidle
    rcases hstate with heq | heq <;> rw [heq]
    · exact hidle
    · decide
  cases j with
  | activate attempt pc =>
    cases pc with
    | setIdle p => cases p <;> trivial
    | waitRunning | waitTerminated | waitFile | loadStatus | getState | terminate | setRunning
    | readResult => exact hne h
    | clear | checkReady | testAndSet | storeReady | reportError => trivial
    | _ => cases hj
  | deactivate pc =>
    replace hready := hready pc rfl
    cases pc with
    | clear | unready => trivial
    | terminate t =>
      cases t with
      | setTerminating p =>
        cases p with
        | load => exact hready.trans h
        | cas old hmay =>
          refine ⟨hready.trans h.1, h.2.1, ?_⟩
          rcases hstate with heq | heq
          · exact heq ▸ h.2.2
          · exact .inr heq
        | store hidle => cases hidle
      | release => exact ⟨hready.trans h.1, hstate.elim (·.trans h.2) id⟩
      | _ =>
        refine ⟨hready.trans h.1, ?_⟩
        rcases hstate with heq | heq
        · exact heq ▸ h.2
        · exact .inr heq
    | setIdle p =>
      cases p with
      | load =>
        refine ⟨hready.trans h.1, ?_⟩
        rcases hstate with heq | heq
        · exact heq ▸ h.2
        · exact .inl heq
      | cas | store => cases hj

theorem Job.Holds.congr (h : j.Holds n os)
    (hstate : n'.processState = n.processState) (hready : n'.reachedReady = n.reachedReady)
    (hterminated : n'.isTerminated = n.isTerminated) (hhandled : n'.last.handled = n.last.handled)
    (hin : n'.last.inserted = n.last.inserted)
    (hearly : (n.last.reaped = true → n.last.early = true) →
      n'.last.reaped = true → n'.last.early = true) : j.Holds n' os := by
  cases hj : j.alone with
  | none => exact h.of_not_alone hj (.inl hstate) fun _ _ => hready
  | some P =>
    cases j with
    | activate attempt pc =>
      cases pc with
      | setIdle p =>
        cases p with
        | load => trivial
        | cas | store => exact ⟨h.1, hhandled.trans h.2⟩
      | resetPid | resetStatus | resetResult | resetWaiter => exact ⟨h.1, hhandled.trans h.2⟩
      | setStarting | launch => exact ⟨h.1, hhandled.trans h.2.1, hterminated.trans h.2.2⟩
      | insert =>
        obtain ⟨hos, h₁, h₂, h₃, h₄⟩ := h
        exact ⟨hos, hhandled.trans h₁, hterminated.trans h₂, hin.trans h₃, hearly h₄⟩
      | inline =>
        obtain ⟨hos, h₁, h₂, h₃, h₄⟩ := h
        exact ⟨hos, hhandled.trans h₁, hterminated.trans h₂, hin.trans h₃, fun hp =>
          hstate ▸ h₄ hp⟩
      | setFailed p =>
        cases p with
        | load | cas => exact ⟨h.1, hhandled.trans h.2.1, hstate.trans h.2.2⟩
        | store hidle => cases hidle
      | terminateFatal => exact h.elim
      | _ => cases hj
    | deactivate pc =>
      cases pc with
      | setIdle p =>
        cases p with
        | load => cases hj
        | cas => exact h.elim
        | store => exact ⟨hready.trans h.1, h.2.1, hhandled.trans h.2.2⟩
      | _ => cases hj

end Holds

def Job.isDeactivate : Job → Bool
  | .deactivate _ => true
  | .activate _ _ => false

/-- The flag `reached_ready_` has still to be cleared. -/
def Deactivate.waits : Deactivate → Bool
  | .clear => true
  | .unready => true
  | _ => false

namespace System

/-- The main thread is not past the flags of a deactivation. -/
abbrev mainWaits (s : System) : Bool := s.main.all Deactivate.waits

theorem mainWaits_iff {s : System} :
    s.mainWaits = true ↔ ∀ pc, s.main = some pc → pc.waits ≠ false := by
  rw [mainWaits]
  cases s.main <;> simp

/-- The process map has room, readiness is not reported into a deactivation, the threads meet what
they need, and the worker has no job while the main thread goes on with a deactivation. -/
def granted (s : System) : Act → Bool
  | .begin _ => s.mainWaits
  | .reapEarly _ room => room
  | .worker ok => s.worker.all fun j => j.smooth ok s.node s.os
  | .os => !(s.os.any (fun h => h.pc == .storeReady) &&
      (s.worker.any Job.isDeactivate || !s.mainWaits))
  | .main ok => s.main.all fun pc =>
      pc == .clear || s.worker.isNone && (Job.deactivate pc).smooth ok s.node s.os
  | _ => true

def Smooth (s : System) (a : Act) : Prop :=
  s.granted a = true ∧ ∀ h ∈ s.handling a, ¬ h.Misses s.node.toCustody

instance (s : System) (a : Act) : Decidable (s.Smooth a) :=
  inferInstanceAs (Decidable (_ ∧ _))

abbrev Activating (s : System) (p : Activate → Bool) : Prop :=
  ∃ attempt pc, s.worker = some (.activate attempt pc) ∧ p pc = true

/-- The termination of the process is still to be handled, and will be. -/
abbrev Pending (s : System) : Prop :=
  s.node.last.inserted = true ∧ s.node.last.reaped = false ∨ s.os ≠ none ∨
    s.Activating Activate.places

/-- The termination of the process is being handled. -/
abbrev Handles (s : System) (h : Handler) : Prop :=
  h.process = s.node.started ∧ s.node.last.handled = false ∧ s.node.last.reaped = true ∧
    (h.pc.pre = false → s.node.processState.Ended)

structure DeactivationInv (s : System) : Prop where
  tracked : s.Tracked
  pending : s.node.last.handled = false → s.Pending
  os : ∀ h, s.os = some h → s.Handles h
  inserted : s.node.last.inserted = true → s.node.last.reaped = false →
    s.node.last.handled = false
  waiter : s.node.isTerminated = true → s.node.last.handled = true
  live : s.node.last.handled = true → s.node.processState.Live → s.Activating Activate.announces
  holds : ∀ j, s.worker = some j → j.Holds s.node s.os

variable {c : ComponentConfig} {s s' : System} {a : Act} {ok : Bool}

/-- No process is lost: if none can end and none is being started, the last one has been handled. -/
theorem DeactivationInv.handled_of_rest (hi : s.DeactivationInv) (hos : s.os = none)
    (hlive : ¬ s.node.processState.Live)
    (hw : ∀ attempt pc, s.worker = some (.activate attempt pc) → pc.places = false) :
    s.node.last.handled = true := by
  refine Bool.eq_true_of_not_eq_false fun hfalse => ?_
  rcases hi.pending hfalse with hopen | hsome | ⟨attempt, pc, hpc, hplaces⟩
  · exact hlive (hi.tracked.live (.inl hopen))
  · exact hsome hos
  · exact Bool.noConfusion (hplaces.symm.trans (hw attempt pc hpc))

variable {process pid attempt : Nat} {n : Node} {pc : Deactivate}

theorem DeactivationInv.of_modify (hi : s.DeactivationInv) {f : Process → Process}
    (htracked : Tracked { s with node := s.node.update (s.node.modify process f) })
    (hhandled : ∀ p, (f p).handled = p.handled) (hin : ∀ p, (f p).inserted = p.inserted)
    (hreaped : ∀ p, p.reaped = true → (f p).reaped = true)
    (hopen : (s.node.processes process).inserted = true →
      (f (s.node.processes process)).reaped = (s.node.processes process).reaped)
    (hearly : ∀ p, (p.reaped = true → p.early = true) → (f p).reaped = true → (f p).early = true) :
    DeactivationInv { s with node := s.node.update (s.node.modify process f) } := by
  have hlast := s.node.modify_last process f
  have hhandled' : (s.node.modify process f).last.handled = s.node.last.handled :=
    s.node.modify_read process f Process.handled hhandled _
  have hin' : (s.node.modify process f).last.inserted = s.node.last.inserted :=
    s.node.modify_read process f Process.inserted hin _
  have hreaped' : s.node.last.inserted = true →
      (s.node.modify process f).last.reaped = s.node.last.reaped := by
    intro h
    rw [hlast]
    split_ifs with hp
    · subst hp
      exact hopen h
    · rfl
  refine ⟨htracked, fun h => ?_, fun h hos => ?_, fun h₁ h₂ => ?_, fun h => ?_, fun h₁ h₂ => ?_,
    fun j hw => ?_⟩
  · rcases hi.pending (hhandled'.symm.trans h) with ⟨h₁, h₂⟩ | hrest
    · exact .inl ⟨hin'.trans h₁, (hreaped' h₁).trans h₂⟩
    · exact .inr hrest
  · obtain ⟨h₁, h₂, h₃, h₄⟩ := hi.os h hos
    refine ⟨h₁, hhandled'.trans h₂, ?_, h₄⟩
    change (s.node.modify process f).last.reaped = true
    rw [hlast]
    split_ifs
    · exact hreaped _ h₃
    · exact h₃
  · replace h₁ := hin'.symm.trans h₁
    exact hhandled'.trans (hi.inserted h₁ ((hreaped' h₁).symm.trans h₂))
  · exact hhandled'.trans (hi.waiter h)
  · exact hi.live (hhandled'.symm.trans h₁) h₂
  · refine (hi.holds j hw).congr rfl rfl rfl hhandled' hin' fun h => ?_
    change (s.node.modify process f).last.reaped = true →
      (s.node.modify process f).last.early = true
    rw [hlast]
    split_ifs
    · exact hearly _ h
    · exact h

theorem DeactivationInv.of_reap (hi : s.DeactivationInv) {status : Int}
    (hin : (s.node.processes process).inserted = true)
    (hreaped : (s.node.processes process).reaped = false) (htracked : Tracked { s with
      node := s.node.update (s.node.modify process ({ · with reaped := true }))
      os := some ⟨process, status, .storeStatus⟩ }) :
    DeactivationInv { s with
      node := s.node.update (s.node.modify process ({ · with reaped := true }))
      os := some ⟨process, status, .storeStatus⟩ } := by
  obtain rfl := hi.tracked.inserted process hin hreaped
  have hopen : s.Open := .inl ⟨hin, hreaped⟩
  have hlast : (s.node.modify s.node.started ({ · with reaped := true })).last =
      { s.node.last with reaped := true } := s.node.modify_self _ _
  have hhandled := hi.inserted hin hreaped
  have hhandled' := (congrArg Process.handled hlast).trans hhandled
  refine ⟨htracked, fun _ => .inr (.inl nofun), fun h hos => ?_, fun _ h => ?_, fun h => ?_,
    fun h => ?_, fun j hw => ?_⟩
  · cases hos
    exact ⟨rfl, hhandled', congrArg Process.reaped hlast, nofun⟩
  · exact Bool.noConfusion (h.symm.trans (congrArg Process.reaped hlast))
  · exact Bool.noConfusion (hhandled.symm.trans (hi.waiter h))
  · exact Bool.noConfusion (hhandled'.symm.trans h)
  · have hj : j.alone = none :=
      Option.eq_none_iff_forall_not_mem.mpr fun P hP => (hi.tracked.alone j hw P hP).1 hopen
    exact (hi.holds j hw).of_not_alone hj (.inl rfl) fun _ _ => rfl

theorem DeactivationInv.of_os (hi : s.DeactivationInv) (hok : s.Smooth .os) {h : Handler}
    (hos : s.os = some h) (hs : s.step c .os = some s') : s'.DeactivationInv := by
  have htracked := hi.tracked.step (.of_withoutMain (a := .os) trivial) hs
  obtain ⟨hprocess, hhandled, hreaped, hended⟩ := hi.os h hos
  have hmiss : ¬ h.pc.Misses s.node.toCustody := hok.2 h.pc (by rw [handling, hos]; rfl)
  have hholds : ∀ j, s.worker = some j → j.Holds s'.node s'.os := by
    intro j hw
    have hj : j.alone = none := Option.eq_none_iff_forall_not_mem.mpr fun P hP => by
      cases hos.symm.trans ((hi.holds j hw).os_eq_none hP)
    have hm := h.pc.moves c h.process h.status s.node
    rw [← node_of_os hos hs] at hm
    refine (hi.holds j hw).of_not_alone hj hm.processState ?_
    rintro pc rfl
    refine hm.reachedReady fun hready => ?_
    have hgranted := hok.1
    rw [granted, hos, hw, Option.any_some, hready] at hgranted
    cases hgranted
  have hreaped' : s'.node.last.reaped = true := by
    rw [Custody.last, started_of_step hs fun _ => by rintro ⟨⟩, step_custody hs]
    refine Custody.apply_keeps Process.reaped (fun pid hacc => ?_) (fun p hp => ?_) hreaped
    · cases eq_launched hs hacc
    · generalize s.access c .os = acc
      cases acc <;> first | rfl | exact hp
  have hstarted := started_of_step hs fun _ => by rintro ⟨⟩
  have hcustody := step_custody hs
  have hmoves := moves_of_os hos hs
  rw [step, hos] at hs
  cases hs
  rcases hmoves with ⟨pc', hm, hos'⟩ | ⟨result, hm, hos'⟩
  · have hhandled' := hm.kept.1.trans hhandled
    refine ⟨htracked, fun _ => .inr (.inl (hos' ▸ by rintro ⟨⟩)), fun h' hh' => ?_, fun _ h₂ => ?_,
      fun h₁ => ?_, fun h₁ => ?_, hholds⟩
    · obtain rfl := Option.some.inj (hos'.symm.trans hh')
      exact ⟨hprocess.trans hstarted.symm, hhandled', hreaped', hm.ended hended hmiss⟩
    · exact Bool.noConfusion (h₂.symm.trans hreaped')
    · exact Bool.noConfusion (hhandled.symm.trans (hi.waiter (hm.isTerminated.symm.trans h₁)))
    · exact Bool.noConfusion (hhandled'.symm.trans h₁)
  · have hpc := hm.eq_terminated
    have hnode : (s.osStep c h).node.toCustody = s.node.handle s.node.started result := by
      rw [hcustody, access, hos, Option.elim_some, hpc, hprocess]
      rfl
    have hhandled' : (s.osStep c h).node.last.handled = true := by
      rw [hnode, Custody.handle_last, if_pos rfl]
    have hstate : (s.osStep c h).node.processState = s.node.processState := by
      rw [hnode]
      cases result <;> rfl
    refine ⟨htracked, fun h₁ => ?_, fun h' hh' => ?_, fun _ h₂ => ?_, fun _ => hhandled',
      fun _ h₂ => ?_, hholds⟩
    · exact Bool.noConfusion (hhandled'.symm.trans h₁)
    · cases hos'.symm.trans hh'
    · exact Bool.noConfusion (h₂.symm.trans hreaped')
    · exact absurd (hstate ▸ h₂) (hended (hpc ▸ rfl)).not_live

theorem DeactivationInv.of_job (hi : s.DeactivationInv) {j : Job} (hw : s.worker = none)
    (hn : n.toCustody = s.node.toCustody) (hterminated : n.isTerminated = s.node.isTerminated)
    (halone : j.alone = none) (hholds : j.Holds n s.os) :
    DeactivationInv { s with node := n, worker := some j } := by
  obtain ⟨k, _, _, _, _, _, _⟩ := n
  obtain rfl : k = s.node.toCustody := hn
  refine ⟨⟨hi.tracked.started, hi.tracked.inserted, hi.tracked.pre, hi.tracked.live, ?_⟩,
    fun h => ?_, hi.os, hi.inserted, fun h => hi.waiter (hterminated.symm.trans h),
    fun h₁ h₂ => ?_, ?_⟩
  · rintro _ ⟨⟩ P hP
    cases halone.symm.trans hP
  · rcases hi.pending h with hopen | hos | ⟨_, _, hpc, _⟩
    · exact .inl hopen
    · exact .inr (.inl hos)
    · cases hw.symm.trans hpc
  · obtain ⟨_, _, hpc, _⟩ := hi.live h₁ h₂
    cases hw.symm.trans hpc
  · rintro _ ⟨⟩
    exact hholds

theorem DeactivationInv.of_launched (hi : s.DeactivationInv)
    (hw : s.worker = some (.activate attempt .launch)) (htracked : Tracked { s with
      node := s.node.update (s.node.launch pid), worker := some (.activate attempt .insert) }) :
    DeactivationInv { s with
      node := s.node.update (s.node.launch pid), worker := some (.activate attempt .insert) } := by
  have hlast : (s.node.launch pid).last = { pid := pid } := Function.update_self ..
  have hhandled := congrArg Process.handled hlast
  have hin := congrArg Process.inserted hlast
  obtain ⟨hos, -, hterminated⟩ := hi.holds _ hw
  refine ⟨htracked, fun _ => .inr (.inr ⟨attempt, _, rfl, rfl⟩), fun h hh => ?_, fun h => ?_,
    fun h => ?_, fun h => ?_, fun j hj => ?_⟩
  · cases hos.symm.trans hh
  · exact Bool.noConfusion (hin.symm.trans h)
  · exact Bool.noConfusion (hterminated.symm.trans h)
  · exact Bool.noConfusion (hhandled.symm.trans h)
  · cases hj
    refine ⟨hos, hhandled, hterminated, hin, fun h => ?_⟩
    exact Bool.noConfusion ((congrArg Process.reaped hlast).symm.trans h)

theorem reaped_of_worker (hs : s.step c (.worker ok) = some s') :
    s'.node.last.reaped = s.node.last.reaped := by
  rw [step_custody hs]
  have hp := performs hs
  generalize s.access c (.worker ok) = acc at hp
  cases hp <;> exact s.node.apply_read_last Process.reaped (fun _ => nofun) fun _ => rfl

theorem handled_of_worker (hs : s.step c (.worker ok) = some s') :
    s'.node.last.handled = s.node.last.handled ∨
      s'.node.last.handled = true ∧ ∃ attempt status result,
        s.worker = some (.activate attempt (.inline status (.terminated result))) := by
  rw [step_custody hs]
  have hp := performs hs
  generalize s.access c (.worker ok) = acc at hp
  cases hp with
  | @inlineHandle _ attempt status result hw =>
    refine .inr ⟨?_, attempt, status, result, hw⟩
    rw [Custody.apply, Custody.handle_last, if_pos rfl]
  | _ => exact .inl (s.node.apply_read_last Process.handled (fun _ => by rintro ⟨⟩) fun _ => rfl)

theorem inserted_of_worker (hs : s.step c (.worker ok) = some s') :
    s'.node.last.inserted = s.node.last.inserted ∨
      s'.node.last.inserted = true ∧ ∃ attempt, s.worker = some (.activate attempt .insert) := by
  rw [step_custody hs]
  have hp := performs hs
  generalize s.access c (.worker ok) = acc at hp
  cases hp with
  | @insert _ attempt hw =>
    refine .inr ⟨?_, attempt, hw⟩
    rw [Custody.apply, Custody.modify_last, if_pos rfl]
  | _ => exact .inl (s.node.apply_read_last Process.inserted (fun _ => by rintro ⟨⟩) fun _ => rfl)

theorem DeactivationInv.os_of_worker_step (hi : s.DeactivationInv)
    (hs : s.step c (.worker ok) = some s') (h : Handler) (hos' : s'.os = some h) :
    s'.Handles h := by
  rw [os_of_worker hs] at hos'
  obtain ⟨hprocess, hhandled, hreaped, hended⟩ := hi.os h hos'
  have halone : ∀ j P, s.worker = some j → j.alone = some P → False := fun j P hw hP => by
    cases hos'.symm.trans ((hi.holds j hw).os_eq_none hP)
  refine ⟨hprocess.trans (started_of_step hs fun _ => nofun).symm, ?_,
    (reaped_of_worker hs).trans hreaped, fun hpre => ?_⟩
  · rcases handled_of_worker hs with h | ⟨-, _, _, _, hw⟩
    · exact h.trans hhandled
    · exact (halone _ _ hw rfl).elim
  · rcases processState_cases hs with hstate | ⟨new, -, -, hp⟩
    · rw [hstate]
      exact hended hpre
    · cases hp with
      | running _ hmay | activateTerminating _ hmay | fatalTerminating _ hmay
      | deactivateTerminating _ hmay =>
        exact absurd hmay ((hended hpre).not_mayBecome (by decide))
      | starting hw | failed hw | inlineTerminated hw => exact (halone _ _ hw rfl).elim
      | activateIdle hw hp | deactivateIdle hw hp =>
        obtain ⟨P, hP⟩ := SetState.claims_of_ne hp
        exact (halone _ P hw hP).elim

theorem DeactivationInv.inserted_of_worker_step (hi : s.DeactivationInv)
    (hs : s.step c (.worker ok) = some s') (hin : s'.node.last.inserted = true)
    (hreaped : s'.node.last.reaped = false) : s'.node.last.handled = false := by
  rw [reaped_of_worker hs] at hreaped
  rcases handled_of_worker hs with hkept | ⟨-, _, _, _, hw⟩
  · rw [hkept]
    rcases inserted_of_worker hs with h | ⟨-, attempt, hw⟩
    · exact hi.inserted (h.symm.trans hin) hreaped
    · exact (hi.holds _ hw).2.1
  · rcases inserted_of_worker hs with h | ⟨-, _, hw'⟩
    · exact Bool.noConfusion ((hi.holds _ hw).2.2.2.1.symm.trans (h.symm.trans hin))
    · cases hw.symm.trans hw'

theorem DeactivationInv.waiter_of_activate (hi : s.DeactivationInv) {pc : Activate}
    (hw : s.worker = some (.activate attempt pc)) (hs : s.step c (.worker ok) = some s')
    (hset : s'.node.isTerminated = true) : s'.node.last.handled = true := by
  rcases handled_of_worker hs with hkept | ⟨h, -⟩
  · rw [node_of_worker hw hs] at hset
    rcases (pc.moves c ok s.node attempt).isTerminated hset with h | ⟨status, result, rfl⟩
    · exact hkept.trans (hi.waiter h)
    · have hacc := step_custody hs
      rw [access, hw] at hacc
      rw [hacc]
      exact (s.node.handle_last s.node.started result ▸ by rw [if_pos rfl])
  · exact h

/-- A start that was announced is made or given up, and then the component has failed. -/
theorem announces_of_worker {pc : Activate}
    (hw : s.worker = some (.activate attempt pc)) (hpc : pc.announces = true)
    (hread : ∀ p, pc = .setFailed p → ¬ p.Misses s.node.toCustody)
    (hs : s.step c (.worker ok) = some s') (hlive : s.node.processState.Live)
    (hlive' : s'.node.processState.Live) : s'.Activating Activate.announces := by
  obtain ⟨attempt', pc', hm, hworker⟩ | ⟨_, hm, -⟩ := activate_of_worker hw hs
  · refine ⟨attempt', pc', hworker, ?_⟩
    generalize s'.node = n' at hm
    cases hm with
    | notLaunched | setFailed => rfl
    | @failed p _ hp =>
      exfalso
      cases p with
      | load =>
        rw [SetState.step, dif_pos (by revert hlive; cases s.node.processState <;> decide)] at hp
        cases hp
      | cas old hmay =>
        have hacc : s.access c (.worker ok) = .enter .failed := by
          rw [access, hw]
          exact if_pos (not_not.mp (hread _ rfl))
        exact absurd (processState_of_enter hs hacc ▸ hlive') (by decide)
      | store h => cases h
    | _ => cases hpc
  · generalize s'.node = n' at hm
    cases hm <;> cases hpc

theorem DeactivationInv.not_idle_of_worker (hi : s.DeactivationInv)
    (hs : s.step c (.worker ok) = some s') (hnew : s.access c (.worker ok) = .enter .running ∨
      s.access c (.worker ok) = .enter .terminating) : s.node.processState ≠ .idle := by
  have hp := performs hs
  rcases hnew with hnew | hnew <;> rw [hnew] at hp
  · cases hp with
    | running hw => exact hi.holds _ hw
  · cases hp with
    | activateTerminating hw => exact hi.holds _ hw
    | fatalTerminating hw => exact (hi.holds _ hw).elim
    | @deactivateTerminating _ t hw hmay =>
      rw [access, hw] at hnew
      cases t with
      | setTerminating p =>
        cases p with
        | load => cases hnew
        | cas old hmay =>
          replace hnew : (if s.node.processState = old then Access.enter .terminating else .flag) =
            .enter .terminating := hnew
          split_ifs at hnew with hold
          exact hold ▸ (hi.holds _ hw).2.1
        | store h => cases h
      | _ => cases hnew

theorem DeactivationInv.live_of_worker (hi : s.DeactivationInv)
    (hs : s.step c (.worker ok) = some s') (hhandled : s'.node.last.handled = true)
    (hlive : s'.node.processState.Live) : s'.Activating Activate.announces := by
  rcases live_of_step (hi.not_idle_of_worker hs) hs hlive with hbefore | ⟨attempt, hworker⟩
  · have hkept : s.node.last.handled = true := by
      rcases handled_of_worker hs with h | ⟨-, _, _, _, hw⟩
      · exact h.symm.trans hhandled
      · exact absurd hbefore ((hi.holds _ hw).2.2.2.2 rfl).not_live
    obtain ⟨attempt, pc, hw, hpc⟩ := hi.live hkept hbefore
    refine announces_of_worker hw hpc ?_ hs hbefore hlive
    rintro (_ | ⟨old, hmay⟩ | h) rfl hmiss
    · exact hmiss
    · exact hmiss (hi.holds _ hw).2.2
    · cases h
  · exact ⟨attempt, _, hworker, rfl⟩

theorem DeactivationInv.pending_of_activate (hi : s.DeactivationInv) {attempt' : Nat}
    {pc pc' : Activate} (hw : s.worker = some (.activate attempt pc))
    (hsmooth : (Job.activate attempt pc).smooth ok s.node s.os = true)
    (hs : s.step c (.worker ok) = some s') (hw' : s'.worker = some (.activate attempt' pc'))
    (hm : pc.Moves c ok s.node attempt s'.node (.next (attempt', pc')))
    (hhandled : s'.node.last.handled = false) (hplaces : pc.places = true) : s'.Pending := by
  have hinserted : s.node.last.early = false → ok = true → pc = .insert →
      s'.node.last.inserted = true ∧ s'.node.last.reaped = false := by
    rintro hearly rfl rfl
    constructor
    · have hacc : s.access c (.worker true) = .insert := by
        rw [access, hw, Option.elim_some, Job.access, Activate.access, hearly]
        rfl
      rw [step_custody hs, hacc, Custody.apply, Custody.modify_last, if_pos rfl]
    · rw [reaped_of_worker hs]
      refine Bool.eq_false_iff.mpr fun hreaped => ?_
      exact Bool.noConfusion (hearly.symm.trans ((hi.holds _ hw).2.2.2.2 hreaped))
  generalize hnode : s'.node = n' at hm
  cases hm with
  | early | inline => exact .inr (.inr ⟨_, _, hw', rfl⟩)
  | insertedRunning h hok | insertedTerminated h hok | insertedFile h hok | insertedStatus h hok =>
    exact .inl (hnode ▸ hinserted h hok rfl)
  | notInserted h hok =>
    rw [Job.smooth, h, hok] at hsmooth
    cases hsmooth
  | inlineRetry | inlineError | inlineRunning =>
    rw [step_custody hs, access, hw, Option.elim_some, Job.access, Activate.access,
      TryHandleTermination.access, Custody.apply, Custody.handle_last, if_pos rfl] at hhandled
    cases hhandled
  | _ => cases hplaces

theorem Smooth.of_worker (hok : s.Smooth (.worker ok)) {j : Job} (hw : s.worker = some j) :
    j.smooth ok s.node s.os = true := by
  have h := hok.1
  rw [granted, hw] at h
  exact h

theorem DeactivationInv.pending_of_worker (hi : s.DeactivationInv)
    (hs : s.step c (.worker ok) = some s') (hfalse : s'.node.last.handled = false)
    (hplaces : ∀ attempt pc, s.worker = some (.activate attempt pc) → pc.places = true →
      s'.Pending) : s'.Pending := by
  have hkept : s.node.last.handled = false := by
    rcases handled_of_worker hs with h | ⟨h, -⟩
    · exact h.symm.trans hfalse
    · exact Bool.noConfusion (hfalse.symm.trans h)
  rcases hi.pending hkept with ⟨hin, hreaped⟩ | hos | ⟨attempt, pc, hw, hpc⟩
  · refine .inl ⟨?_, (reaped_of_worker hs).trans hreaped⟩
    exact (inserted_of_worker hs).elim (·.trans hin) And.left
  · exact .inr (.inl (os_of_worker hs ▸ hos))
  · exact hplaces attempt pc hw hpc

theorem DeactivationInv.of_activate (hi : s.DeactivationInv) (hok : s.Smooth (.worker ok))
    {pc : Activate} (hw : s.worker = some (.activate attempt pc))
    (hs : s.step c (.worker ok) = some s') : s'.DeactivationInv := by
  have hsmooth := hok.of_worker hw
  have hmoves := activate_of_worker hw hs
  refine ⟨hi.tracked.step (.of_withoutMain (a := .worker ok) trivial) hs, fun hfalse => ?_,
    hi.os_of_worker_step hs, hi.inserted_of_worker_step hs, hi.waiter_of_activate hw hs,
    hi.live_of_worker hs, fun j hw' => ?_⟩
  · refine hi.pending_of_worker hs hfalse fun _ _ hpc hplaces => ?_
    cases hw.symm.trans hpc
    obtain ⟨_, _, hm, hworker⟩ | ⟨_, hm, -⟩ := hmoves
    · exact hi.pending_of_activate hw hsmooth hs hworker hm hfalse hplaces
    · generalize s'.node = n' at hm
      cases hm <;> cases hplaces
  · rw [os_of_worker hs]
    obtain ⟨_, _, hm, hworker⟩ | ⟨_, -, hworker, -⟩ := hmoves
    · obtain rfl := Option.some.inj (hworker.symm.trans hw')
      refine hm.holds (hi.holds _ hw) hsmooth (fun Q hQ => (hi.tracked.alone _ hw Q hQ).2)
        (fun hpc hos hlive => ?_) ?_
      · refine hi.handled_of_rest hos hlive fun _ _ hpc' => ?_
        cases hw.symm.trans hpc'
        exact hpc
      · rintro status h rfl
        exact hok.2 h (by rw [handling, hw]; rfl)
    · cases hworker.symm.trans hw'

theorem DeactivationInv.of_deactivate (hi : s.DeactivationInv) (hok : s.Smooth (.worker ok))
    (hw : s.worker = some (.deactivate pc))
    (hs : s.step c (.worker ok) = some s') : s'.DeactivationInv := by
  have hmoves := deactivate_of_worker hw hs
  have hterminated : s'.node.isTerminated = s.node.isTerminated := by
    rw [node_of_worker hw hs]
    exact pc.step_isTerminated
  have hended : s.node.isTerminated = true → ¬ s.node.processState.Live := fun h hlive => by
    obtain ⟨_, _, hpc, -⟩ := hi.live (hi.waiter h) hlive
    cases hw.symm.trans hpc
  have hrest : s.os = none → ¬ s.node.processState.Live → s.node.last.handled = true :=
    fun hos hlive => hi.handled_of_rest hos hlive fun _ _ hpc => by cases hw.symm.trans hpc
  refine ⟨hi.tracked.step (.of_withoutMain (a := .worker ok) trivial) hs, fun hfalse => ?_,
    hi.os_of_worker_step hs, hi.inserted_of_worker_step hs, fun hset => ?_,
    hi.live_of_worker hs, fun j hw' => ?_⟩
  · exact hi.pending_of_worker hs hfalse fun _ _ hpc => by cases hw.symm.trans hpc
  · rcases handled_of_worker hs with h | ⟨h, -⟩
    · exact h.trans (hi.waiter (hterminated.symm.trans hset))
    · exact h
  · rw [node_of_worker hw hs, os_of_worker hs]
    obtain ⟨_, hnext, hworker⟩ | ⟨_, -, hworker, -⟩ := hmoves
    · obtain rfl := Option.some.inj (hworker.symm.trans hw')
      exact Deactivate.holds_of_next hnext (hi.holds _ hw) (hok.of_worker hw) hrest hended
    · cases hworker.symm.trans hw'

theorem DeactivationInv.frame (hi : s.DeactivationInv) {main : Option Deactivate}
    {returned : Option (ComponentTaskType × RequestResult)}
    (hstate : n.processState = s.node.processState) (hstarted : n.started = s.node.started)
    (hprocesses : n.processes = s.node.processes) (hready : n.reachedReady = s.node.reachedReady)
    (hterminated : n.isTerminated = s.node.isTerminated) :
    DeactivationInv { s with node := n, main := main, returned := returned } := by
  obtain ⟨⟨state, pid, started, processes, _, _, _⟩, _, _, _, _, ready, terminated⟩ := n
  simp only at hstate hstarted hprocesses hready hterminated
  subst hstate hstarted hprocesses hready hterminated
  exact ⟨⟨hi.tracked.started, hi.tracked.inserted, hi.tracked.pre, hi.tracked.live,
    hi.tracked.alone⟩, hi.pending, hi.os, hi.inserted, hi.waiter, hi.live,
    fun j hw => (hi.holds j hw).congr rfl rfl rfl rfl rfl id⟩

theorem DeactivationInv.step (hi : s.DeactivationInv) (hok : s.Smooth a)
    (hmain : ∀ ok, a = .main ok → s.main = some .clear) (hs : s.step c a = some s') :
    s'.DeactivationInv := by
  have htracked := hi.tracked.step (fun ok ha => .inl (hmain ok ha)) hs
  cases moves_of_step hs with
  | begin type hw =>
    refine hi.of_job hw rfl rfl ?_ ?_ <;> cases type <;> first | rfl | trivial
  | worker ok j hw =>
    cases j with
    | activate attempt pc => exact hi.of_activate hok hw hs
    | deactivate pc => exact hi.of_deactivate hok hw hs
  | launched pid attempt hw => exact hi.of_launched hw htracked
  | exit process status =>
    exact hi.of_modify htracked (fun _ => rfl) (fun _ => rfl) (fun _ => id) (fun _ => rfl)
      fun _ => id
  | reap process status hos hle hin hreaped => exact hi.of_reap hin hreaped htracked
  | reapEarly process room hos hle hin =>
    refine hi.of_modify htracked (fun _ => rfl) (fun _ => rfl) (fun _ _ => rfl) (fun h => ?_)
      fun _ _ _ => hok.1
    exact Bool.noConfusion (hin.symm.trans h)
  | os h hos => exact hi.of_os hok hos hs
  | takeEvent => exact hi.frame rfl rfl rfl rfl rfl
  | main ok pc hpc =>
    cases hpc.symm.trans (hmain ok rfl)
    exact hi.frame rfl rfl rfl rfl rfl
  | forceKill =>
    have hnode : (s.node.update s.node.kill).processState = s.node.processState ∧
        s.node.kill.started = s.node.started ∧ s.node.kill.processes = s.node.processes := by
      rw [Node.update, Custody.kill]
      split_ifs <;> exact ⟨rfl, rfl, rfl⟩
    exact hi.frame hnode.1 hnode.2.1 hnode.2.2 rfl rfl

theorem deactivationInv_init : DeactivationInv {} where
  tracked := tracked_init
  pending := nofun
  os := nofun
  inserted := nofun
  waiter := nofun
  live := fun _ h => absurd h (by decide)
  holds := nofun

/-- The main thread goes on with a deactivation as a worker would. -/
structure SmoothInv (s : System) : Prop where
  apart : s.mainWaits = true → s.DeactivationInv
  main : ∀ pc, s.main = some pc → pc.waits = false →
    s.worker = none ∧ DeactivationInv { s with worker := some (.deactivate pc) }

theorem Deactivate.past_of_next {ok : Bool} {pc' : Deactivate}
    (hpc : pc.waits = false) (hnext : (pc.step ok n).2 = .next pc') : pc'.waits = false := by
  cases pc with
  | clear | unready => cases hpc
  | terminate t => obtain ⟨t', -, rfl⟩ | ⟨_, -, ⟨⟩⟩ := Progress.call_eq_next hnext <;> rfl
  | setIdle p => obtain ⟨p', -, rfl⟩ | ⟨_, -, ⟨⟩⟩ := Progress.call_eq_next hnext; rfl

theorem SmoothInv.of_main (hi : s.SmoothInv) (hmain : s.main = some pc)
    (hpc : pc.waits = false) (hok : s.Smooth (.main ok)) (hs : s.step c (.main ok) = some s') :
    s'.SmoothInv := by
  obtain ⟨hw, hinv⟩ := hi.main pc hmain hpc
  have hsmooth : Smooth { s with worker := some (.deactivate pc) } (.worker ok) := by
    refine ⟨?_, fun _ h => by cases h⟩
    have h := hok.1
    rw [granted, hmain, hw] at h
    cases pc <;> exact h
  have hnew : DeactivationInv { s with
      node := (pc.step ok s.node).1
      worker := ((Job.deactivate pc).step c ok s.node).2.point
      main := (pc.step ok s.node).2.point } :=
    (hinv.step (c := c) hsmooth (fun _ h => by cases h) rfl).frame rfl rfl rfl rfl rfl
  rw [step, hmain] at hs
  cases hs
  simp only [Job.step] at hnew
  simp only [mainStep]
  cases hr : (pc.step ok s.node).2 with
  | next pc' =>
    rw [hr] at hnew
    have hpast := Deactivate.past_of_next hpc hr
    refine ⟨fun h => ?_, ?_⟩
    · cases hpast.symm.trans h
    · rintro _ ⟨⟩ -
      exact ⟨hw, hnew⟩
  | done result =>
    rw [hr] at hnew
    refine ⟨fun _ => ?_, fun _ h => by cases h⟩
    rw [hw]
    exact hnew

/-- The other threads and the system do not see who deactivates the component. -/
theorem SmoothInv.of_other (hi : s.SmoothInv) (hmain : s.main = some pc)
    (hpc : pc.waits = false) (hok : s.Smooth a) (ha : ∀ ok, a ≠ .main ok)
    (hs : s.step c a = some s') : s'.SmoothInv := by
  obtain ⟨hw, hinv⟩ := hi.main pc hmain hpc
  have hbusy : s.mainWaits = false := by rw [mainWaits, hmain]; exact hpc
  suffices h : Smooth { s with worker := some (.deactivate pc) } a ∧
      step c { s with worker := some (.deactivate pc) } a =
        some { s' with worker := some (.deactivate pc) } ∧ s'.main = s.main ∧ s'.worker = none by
    obtain ⟨hsmooth, hstep, hsame, hw'⟩ := h
    refine ⟨fun h => ?_, fun pc' hpc' hpast => ?_⟩
    · rw [mainWaits, hsame] at h
      cases hbusy.symm.trans h
    · cases (hsame.trans hmain).symm.trans hpc'
      exact ⟨hw', hinv.step hsmooth (fun ok h => absurd h (ha ok)) hstep⟩
  cases a with
  | begin type => cases hbusy.symm.trans hok.1
  | worker ok =>
    rw [step, hw] at hs
    cases hs
  | launched pid =>
    rw [step, hw] at hs
    cases hs
  | exit process status =>
    obtain ⟨hcond, ⟨⟩⟩ := Option.ite_none_right_eq_some.mp hs
    exact ⟨⟨rfl, fun _ h => by cases h⟩, if_pos hcond, rfl, hw⟩
  | reap process =>
    simp only [step] at hs ⊢
    split at hs
    · obtain ⟨hcond, ⟨⟩⟩ := Option.ite_none_right_eq_some.mp hs
      exact ⟨⟨rfl, fun _ h => by cases h⟩, if_pos hcond, rfl, hw⟩
    · cases hs
  | reapEarly process room =>
    obtain ⟨hcond, ⟨⟩⟩ := Option.ite_none_right_eq_some.mp hs
    exact ⟨⟨hok.1, fun _ h => by cases h⟩, if_pos hcond, rfl, hw⟩
  | os =>
    obtain ⟨h, hos, rfl⟩ := Option.map_eq_some_iff.mp hs
    refine ⟨⟨?_, hok.2⟩, ?_, rfl, hw⟩
    · have hgranted := hok.1
      rw [granted, hw, hbusy] at hgranted
      rw [granted]
      exact hgranted
    · rw [step, hos]
      rfl
  | takeEvent =>
    obtain ⟨⟨hnone, -⟩, -⟩ := Option.ite_none_right_eq_some.mp hs
    cases hnone.symm.trans hmain
  | main ok => exact absurd rfl (ha ok)
  | forceKill =>
    obtain ⟨hnone, -⟩ := Option.ite_none_right_eq_some.mp hs
    cases hnone.symm.trans hmain

theorem SmoothInv.step (hi : s.SmoothInv) (hok : s.Smooth a) (hs : s.step c a = some s') :
    s'.SmoothInv := by
  by_cases hpast : ∃ pc, s.main = some pc ∧ pc.waits = false
  · obtain ⟨pc, hmain, hpc⟩ := hpast
    by_cases ha : ∃ ok, a = .main ok
    · obtain ⟨ok, rfl⟩ := ha
      exact hi.of_main hmain hpc hok hs
    · exact hi.of_other hmain hpc hok (not_exists.mp ha) hs
  have hwaits : s.mainWaits = true := mainWaits_iff.mpr fun pc hpc h => hpast ⟨pc, hpc, h⟩
  have hinv := hi.apart hwaits
  by_cases hclear : (∃ ok, a = .main ok) ∧ s.main ≠ some .clear
  · obtain ⟨⟨ok, rfl⟩, hclear⟩ := hclear
    obtain ⟨pc, hmain, rfl⟩ := Option.map_eq_some_iff.mp hs
    have hgranted := hok.1
    rw [granted, hmain] at hgranted
    rw [mainWaits, hmain] at hwaits
    cases pc with
    | clear => exact absurd hmain hclear
    | unready =>
      have hw : s.worker = none :=
        Option.isNone_iff_eq_none.mp (Bool.and_eq_true_iff.mp hgranted).1
      refine ⟨nofun, ?_⟩
      rintro _ ⟨⟩ -
      have hholds : Job.Holds { s.node with reachedReady := false } s.os
        (.deactivate (.terminate (.setTerminating .load))) := rfl
      have hnew := hinv.of_job (n := { s.node with reachedReady := false }) hw rfl rfl rfl hholds
      exact ⟨hw, hnew.frame rfl rfl rfl rfl rfl⟩
    | terminate | setIdle => cases hwaits
  · have hmain : ∀ ok, a = .main ok → s.main = some .clear := fun ok ha =>
      not_not.mp fun h => hclear ⟨⟨ok, ha⟩, h⟩
    refine ⟨fun _ => hinv.step hok hmain hs, fun pc hpc h => ?_⟩
    exfalso
    cases moves_of_step hs with
    | takeEvent =>
      cases hpc
      cases h
    | main ok pc hpoint =>
      cases hpoint.symm.trans (hmain ok rfl)
      cases hpc
      cases h
    | _ => exact hpast ⟨pc, hpc, h⟩

theorem smoothInv_init : SmoothInv {} := ⟨fun _ => deactivationInv_init, nofun⟩

/-- The steps of a worker that activates a component at rest, up to the start of the process. -/
def relaunch (pid : Nat) : List Act :=
  Act.begin .activate :: List.replicate 10 (Act.worker true) ++ [Act.launched pid]

theorem relaunch_of_rest (c : ComponentConfig) (hw : s.worker = none)
    (hlive : ¬ s.node.processState.Live) (hready : s.node.reachedReady = false) (hpid : pid ≠ 0) :
    ∃ t, Runs.exec (step c) Runs.anyStep s (relaunch pid) = some t ∧
      t.node.started = s.node.started + 1 := by
  obtain ⟨⟨⟨state, _, _, _, _, _, _⟩, _, _, _, _, ready, _⟩, worker, _, _, _⟩ := s
  obtain rfl : worker = none := hw
  obtain rfl : ready = false := hready
  obtain ⟨pid, rfl⟩ := Nat.exists_eq_succ_of_ne_zero hpid
  cases state with
  | idle | terminated | failed => exact ⟨_, rfl, rfl⟩
  | starting => exact absurd (.inl rfl) hlive
  | running => exact absurd (.inr (.inl rfl)) hlive
  | terminating => exact absurd (.inr (.inr rfl)) hlive

def Returns (s : System) (a : Act) : Prop :=
  ∃ ok pc, (Deactivate.step ok s.node pc).2 = .done .success ∧
    (a = .worker ok ∧ s.worker = some (.deactivate pc) ∨ a = .main ok ∧ s.main = some pc)

/-- When `deactivate` returns in a smooth run, the component is idle and can be activated. -/
theorem idle_after_deactivate (c : ComponentConfig) {s s' : System} {a : Act}
    (hrun : Runs.Run (step c) Smooth {} s) (hok : s.Smooth a) (hs : s.step c a = some s')
    (hret : s.Returns a) :
    s'.node.last.handled = true ∧ s'.node.processState = .idle ∧
      ∀ pid ≠ 0, ∃ t, Runs.exec (step c) Runs.anyStep s' (relaunch pid) = some t ∧
        t.node.started = s'.node.started + 1 := by
  have hi := hrun.invariant SmoothInv (fun hi hok hs => hi.step hok hs) smoothInv_init
  obtain ⟨ok, pc, hdone, hthread⟩ := hret
  have hpast : pc.waits = false := by cases pc <;> first | rfl | cases hdone
  suffices h : s'.worker = none ∧ s'.node = (pc.step ok s.node).1 ∧
      (Deactivate.Holds s.node s.os pc) by
    obtain ⟨hw, hnode, hholds⟩ := h
    obtain ⟨hstate, hhandled, -, hready⟩ := Deactivate.holds_of_done hdone hholds
    rw [← hnode] at hstate hhandled hready
    exact ⟨hhandled, hstate, fun pid hpid =>
      relaunch_of_rest c hw (hstate ▸ by decide) hready hpid⟩
  rcases hthread with ⟨rfl, hw⟩ | ⟨rfl, hmain⟩
  · have hwaits : s.mainWaits = true := mainWaits_iff.mpr fun pc' hpc' h => by
      cases hw.symm.trans (hi.main pc' hpc' h).1
    have hworker : s'.worker = none := by
      obtain ⟨_, hnext, -⟩ | ⟨_, -, hnone, -⟩ := deactivate_of_worker hw hs
      · cases hdone.symm.trans hnext
      · exact hnone
    exact ⟨hworker, node_of_worker hw hs, (hi.apart hwaits).holds _ hw⟩
  · obtain ⟨hw, hinv⟩ := hi.main pc hmain hpast
    rw [step, hmain] at hs
    cases hs
    exact ⟨hw, rfl, hinv.holds _ rfl⟩

theorem idle_after_deactivate_sigterm :
    ∃ s s', Runs.Run (step sampleConfig) Smooth {} s ∧ s.node.started = 2 ∧
      s.step sampleConfig (.worker true) = some s' ∧
      s'.node.last.handled = true ∧ s'.node.processState = .idle ∧
      ∀ pid ≠ 0, ∃ t, Runs.exec (step sampleConfig) Runs.anyStep s' (relaunch pid) = some t ∧
        t.node.started = s'.node.started + 1 := by
  obtain ⟨s, hrun, hstarted, hsmooth, hw⟩ := Runs.Run.exists_of_exec (step sampleConfig) Smooth {}
    (fun s => s.node.started = 2 ∧ s.Smooth (.worker true) ∧
      s.worker = some (.deactivate (.setIdle (.store rfl))))
    (List.flatten [sampleStart, [.exit 1 1, .reap 1], List.replicate 8 .os, [.takeEvent],
      List.replicate 5 (.main true), sampleStart, [.begin .deactivate],
      List.replicate 6 (.worker true), [.exit 2 15, .reap 2], List.replicate 6 .os,
      List.replicate 3 (.worker true)])
    (by decide +kernel)
  have hs := congrArg (Option.map (s.workerStep sampleConfig true)) hw
  exact ⟨s, _, hrun, hstarted, hs, idle_after_deactivate sampleConfig hrun hsmooth hs
    ⟨true, _, rfl, .inl ⟨rfl, hw⟩⟩⟩

/-- The process is reaped before the worker sends its signal, which fails. -/
theorem deactivate_left_terminating :
    ∃ s, Runs.Run (step sampleConfig) (fun _ a => a.WithoutMain) {} s ∧ s.worker = none ∧
      s.returned = some (.deactivate, .success) ∧ s.node.last.handled = false ∧
      s.node.processState = .terminating ∧
      Option.isNone (Runs.exec (step sampleConfig) Runs.anyStep s (relaunch 8)) = true :=
  Runs.Run.exists_of_exec _ _ _ _
    (List.flatten [sampleStart, [.begin .deactivate], List.replicate 5 (.worker true),
      [.exit 1 1, .reap 1, .worker false, .worker true, .worker true]])
    (by decide +kernel)

end System

end LaunchManager.ProcessInfoNode
