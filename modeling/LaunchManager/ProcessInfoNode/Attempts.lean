import LaunchManager.ProcessInfoNode.Tracking

/-!
# What the worker relies on in an attempt

Between its steps the worker relies on the processes it has started, on the waiter and on
the handler of a termination. `Activate.Relies` says on what at each point of `activate`.
A step of the worker establishes it for the next point, and a step of a handler keeps it.
-/

namespace LaunchManager.ProcessInfoNode

set_option autoImplicit false

namespace Custody

def Gone (k : Custody) : Prop :=
  ∀ p, 0 < p → p ≤ k.started → (k.processes p).exited.isSome = true

def Past (k : Custody) : Prop :=
  ∀ p, 0 < p → p < k.started → (k.processes p).exited.isSome = true

variable {k : Custody} {a : Access}

theorem Past.gone (h : k.Past) (hlast : k.last.exited.isSome = true) : k.Gone := by
  intro p hpos hle
  rcases Nat.lt_or_eq_of_le hle with hlt | rfl
  · exact h p hpos hlt
  · exact hlast

def Alive (k : Custody) (p : Nat) : Prop := 0 < p ∧ p ≤ k.started ∧ (k.processes p).exited = none

instance (k : Custody) (p : Nat) : Decidable (k.Alive p) := inferInstanceAs (Decidable (_ ∧ _ ∧ _))

theorem Gone.not_alive (h : k.Gone) (p : Nat) : ¬ k.Alive p := by
  rintro ⟨hpos, hle, hnone⟩
  have hsome := h p hpos hle
  rw [hnone] at hsome
  cases hsome

theorem Past.last_of_alive (h : k.Past) {p : Nat} (hp : k.Alive p) : p = k.started := by
  obtain ⟨hpos, hle, hnone⟩ := hp
  refine Nat.le_antisymm hle (Nat.not_lt.mp fun hlt => ?_)
  have hsome := h p hpos hlt
  rw [hnone] at hsome
  cases hsome

theorem Gone.past (h : k.Gone) : k.Past := fun p hpos hlt => h p hpos hlt.le

theorem Gone.apply (h : k.Gone) (ha : ∀ pid, a ≠ .launch pid) : (k.apply a).Gone := by
  intro p hpos hle
  rw [k.apply_started ha] at hle
  exact exited_of_apply ha (h p hpos hle)

theorem Past.apply (h : k.Past) (ha : ∀ pid, a ≠ .launch pid) : (k.apply a).Past := by
  intro p hpos hlt
  rw [k.apply_started ha] at hlt
  exact exited_of_apply ha (h p hpos hlt)

theorem kill_gone (h : k.Gone) : k.kill.Gone := h.apply (a := .kill) fun _ => nofun

theorem kill_pid (k : Custody) : k.kill.pid = k.pid := by
  rw [kill]
  split_ifs <;> rfl

end Custody

/-- The points at which a handler can be while the worker waits for the process. -/
def TryHandleTermination.plain : TryHandleTermination → Bool
  | .storeStatus | .storeResult | .exchange | .casStarting | .terminated _ => true
  | .requested _ | .normal _ | .branch | .testAndSet | .storeReady => false

/-- The parts of an attempt, by what the worker relies on in them. -/
inductive Phase where
  | free
  | rested
  | gone
  | cleared
  | placed
  | inlined
  | waiting
  | stopping
  deriving DecidableEq

def Activate.phase : Activate → Phase
  | .clear | .checkReady => .rested
  | .setIdle _ | .resetPid | .resetStatus | .resetResult | .resetWaiter => .gone
  | .setStarting _ | .launch => .cleared
  | .insert => .placed
  | .inline _ _ => .inlined
  | .waitRunning | .waitTerminated | .waitFile | .loadStatus | .getState | .setRunning _ => .waiting
  | .terminate (.setTerminating _) => .waiting
  | .terminate .release => .gone
  | .terminate _ => .stopping
  | .terminateFatal .release => .gone
  | .terminateFatal _ => .placed
  | .setFailed _ | .readResult | .reportError _ => .gone
  | .testAndSet | .storeReady => .free

def Phase.Holds (n : Node) (os : Option Handler) : Phase → Prop
  | .free => True
  | .rested => n.reachedReady = false → n.Gone
  | .gone => n.Gone
  | .cleared => n.Gone ∧ n.isTerminated = false ∧ os = none
  | .placed => n.pid ≠ 0 ∧ n.isTerminated = false ∧ os = none
  | .inlined => n.pid ≠ 0 ∧ n.Gone ∧ os = none
  | .waiting =>
    n.pid ≠ 0 ∧ (n.processState = .starting ∨ n.processState = .terminated) ∧
      (n.isTerminated = true → n.processState = .terminated) ∧
      ∀ h, os = some h → h.process = n.started ∧ h.pc.plain = true ∧
        (h.pc.pre = false → n.processState = .terminated)
  | .stopping =>
    n.pid ≠ 0 ∧ (n.isTerminated = true → n.Gone) ∧ ∀ h, os = some h → h.process = n.started

/-- An exchange that is under way expects this state. -/
def SetState.From {new : ProcessState} (old : ProcessState) : SetState new → Prop
  | .cas old' _ => old' = old
  | .load | .store _ => True

/-- What the worker knows at single points. -/
def Activate.Knows (c : ComponentConfig) (state : ProcessState) : Activate → Prop
  | .inline _ h => h.plain = true ∧ (h.pre = false → state = .terminated)
  | .waitFile => c.readyCondition = .file
  | .loadStatus => c.readyCondition = .terminated → state = .terminated
  | .setRunning p => p.From .starting ∧ (c.readyCondition = .terminated → state = .terminated)
  | .terminate (.setTerminating p) => p.From .starting
  | .terminateFatal (.setTerminating p) => p.From .starting ∧ state = .starting
  | .reportError error => error ≠ .success
  | _ => True

def Activate.signals : Activate → Bool
  | .terminate .sigterm | .terminate .sigkill => true
  | .terminateFatal .sigterm | .terminateFatal .sigkill => true
  | _ => false

def TerminateProcess.requesting : TerminateProcess → Bool
  | .sigterm | .waitTerm | .sigkill | .waitKill | .release => true
  | .setTerminating _ | .request => false

def Activate.requesting : Activate → Bool
  | .terminate t | .terminateFatal t => t.requesting
  | _ => false

theorem Phase.Holds.congr {n n' : Node} {os : Option Handler} {ph : Phase} (h : ph.Holds n os)
    (hpid : n'.pid = n.pid) (hstate : n'.processState = n.processState)
    (hterminated : n'.isTerminated = n.isTerminated) (hstarted : n'.started = n.started)
    (hready : n'.reachedReady = n.reachedReady) (hgone : n.Gone → n'.Gone) : ph.Holds n' os := by
  cases ph with
  | free => trivial
  | rested => exact fun hr => hgone (h (hready.symm.trans hr))
  | gone => exact hgone h
  | cleared => exact ⟨hgone h.1, hterminated.trans h.2.1, h.2.2⟩
  | placed => exact ⟨hpid ▸ h.1, hterminated.trans h.2.1, h.2.2⟩
  | inlined => exact ⟨hpid ▸ h.1, hgone h.2.1, h.2.2⟩
  | waiting =>
    simp only [Phase.Holds, hpid, hstate, hterminated, hstarted]
    exact h
  | stopping =>
    simp only [Phase.Holds, hpid, hterminated, hstarted]
    exact ⟨h.1, fun ht => hgone (h.2.1 ht), h.2.2⟩

section Worker
variable {c : ComponentConfig} {ok : Bool} {n n' : Node} {os : Option Handler}
  {attempt attempt' : Nat} {pc pc' : Activate}

variable {new : ProcessState} {t' : TerminateProcess} {h : TryHandleTermination}

theorem SetState.access_ne_launch (p : SetState new) (pid : Nat) :
    p.access n.toCustody ≠ .launch pid := by
  obtain hacc | ⟨hacc, -⟩ := p.access_cases n.toCustody <;> rw [hacc] <;> exact nofun

theorem SetState.from_of_next {p p' : SetState new}
    (hstate : n.processState = .starting ∨ n.processState = .terminated)
    (hnew : new = .running ∨ new = .terminating) (hnext : (p.step n).2 = .next p') :
    p'.From .starting := by
  obtain ⟨-, ⟨hmay, rfl⟩ | ⟨hidle, rfl, -⟩⟩ := SetState.next_cases hnext
  · rcases hstate with h | h
    · exact h
    · rw [h] at hmay
      rcases hnew with rfl | rfl <;> exact absurd hmay (by decide)
  · trivial

theorem SetState.starting_of_done {p : SetState new}
    (hfrom : p.From .starting) (hnew : new = .running ∨ new = .terminating)
    (hdone : (p.step n).2 = .done true) : n.processState = .starting := by
  cases p with
  | load => exact absurd rfl (SetState.access_of_done hdone).1
  | cas old h =>
    rw [SetState.step] at hdone
    split_ifs at hdone with hold
    · exact hold.trans hfrom
    · cases hdone
  | store h => rcases hnew with rfl | rfl <;> cases h

theorem SetState.terminated_of_failed {p : SetState new}
    (hstate : n.processState = .starting ∨ n.processState = .terminated)
    (hfrom : p.From .starting) (hnew : new = .running ∨ new = .terminating)
    (hdone : (p.step n).2 = .done false) : n.processState = .terminated := by
  refine hstate.resolve_left fun hstarting => ?_
  cases p with
  | load =>
    rw [SetState.step, dif_pos] at hdone
    · cases hdone
    · rw [hstarting]
      rcases hnew with rfl | rfl <;> decide
  | cas old h =>
    obtain rfl : old = .starting := hfrom
    rw [SetState.step, if_pos hstarting] at hdone
    cases hdone
  | store h => rcases hnew with rfl | rfl <;> cases h

/-- What the worker finds when it makes a step. -/
structure Activate.Finds (pc : Activate) (ok : Bool) (n : Node) (os : Option Handler) : Prop where
  ended : ¬ n.processState.Live → n.Gone
  past : n.Past
  early : n.last.early = true → n.last.exited.isSome = true
  alone : ∀ Q, pc.alone = some Q → Q n.processState
  reset : pc = .resetWaiter → os = none
  kill : pc.signals = true → ok = false → n.last.exited.isSome = true
  requests : n.terminationRequested = true → pc.requesting = true

theorem Activate.Finds.gone_of_signal (hf : pc.Finds ok n os)
    (hsig : pc.signals = true) (hpid : n.pid ≠ 0) (hfail : ¬ (ok = true ∧ n.pid ≠ 0)) :
    n.kill.Gone := by
  refine Custody.kill_gone (hf.past.gone (hf.kill hsig ?_))
  exact Bool.eq_false_iff.mpr fun h => hfail ⟨h, hpid⟩

theorem Activate.Finds.gone_of_terminated (hf : pc.Finds ok n os)
    (hstate : n.processState = .terminated) : n.Gone :=
  hf.ended (hstate ▸ by decide)

variable {t : TerminateProcess}

theorem TerminateProcess.phase_of_next (hnext : (t.step ok n).2 = .next t')
    (hphase : (Activate.terminate t).phase.Holds n os)
    (hknows : (Activate.terminate t).Knows c n.processState)
    (hf : (Activate.terminate t).Finds ok n os) :
    (Activate.terminate t').phase.Holds (t.step ok n).1 os ∧
      (Activate.terminate t').Knows c (t.step ok n).1.processState := by
  cases t with
  | setTerminating p =>
    obtain ⟨hpid, hstate, hwaiter, hos⟩ := hphase
    obtain ⟨p', hp, rfl⟩ | ⟨changed, hp, hdone⟩ := Progress.call_eq_next hnext
    · rw [TerminateProcess.step, SetState.node_of_next hp]
      exact ⟨⟨hpid, hstate, hwaiter, hos⟩, SetState.from_of_next hstate (.inr rfl) hp⟩
    · cases changed with
      | false => cases hdone
      | true =>
        cases hdone
        have hstarting := SetState.starting_of_done hknows (.inr rfl) hp
        rw [TerminateProcess.step, SetState.node_of_done hp]
        refine ⟨⟨hpid, fun hset => ?_, fun h hh => (hos h hh).1⟩, trivial⟩
        cases hstarting.symm.trans (hwaiter hset)
  | request =>
    cases hnext
    exact ⟨hphase, trivial⟩
  | sigterm | sigkill =>
    obtain ⟨hpid, hwaiter, hos⟩ := hphase
    simp only [TerminateProcess.step] at hnext ⊢
    split_ifs at hnext with hok <;> cases hnext
    · refine ⟨⟨n.kill_pid ▸ hpid, fun hset => Custody.kill_gone (hwaiter hset), fun h hh => ?_⟩,
        trivial⟩
      exact (hos h hh).trans n.kill_started.symm
    · exact ⟨hf.gone_of_signal rfl hpid hok, trivial⟩
  | waitTerm | waitKill =>
    simp only [TerminateProcess.step] at hnext ⊢
    split_ifs at hnext with hset <;> cases hnext
    · exact ⟨hphase.2.1 hset, trivial⟩
    · exact ⟨hphase, trivial⟩
  | release => cases hnext

theorem TerminateProcess.gone_of_done (hdone : (t.step ok n).2 = .done ())
    (hphase : (Activate.terminate t).phase.Holds n os)
    (hknows : (Activate.terminate t).Knows c n.processState)
    (hf : (Activate.terminate t).Finds ok n os) : (t.step ok n).1.Gone := by
  rcases TerminateProcess.done_cases hdone with rfl | ⟨p, rfl, hp, hnode⟩
  · exact hphase
  · rw [hnode]
    exact hf.gone_of_terminated (SetState.terminated_of_failed hphase.2.1 hknows (.inr rfl) hp)

theorem TerminateProcess.phase_of_next_fatal
    (hnext : (t.step ok n).2 = .next t') (hphase : (Activate.terminateFatal t).phase.Holds n os)
    (hknows : (Activate.terminateFatal t).Knows c n.processState)
    (hf : (Activate.terminateFatal t).Finds ok n os) :
    (Activate.terminateFatal t').phase.Holds (t.step ok n).1 os ∧
      (Activate.terminateFatal t').Knows c (t.step ok n).1.processState := by
  cases t with
  | setTerminating p =>
    obtain ⟨hpid, hterm, hos⟩ := hphase
    obtain ⟨p', hp, rfl⟩ | ⟨changed, hp, hdone⟩ := Progress.call_eq_next hnext
    · rw [TerminateProcess.step, SetState.node_of_next hp]
      exact ⟨⟨hpid, hterm, hos⟩, SetState.from_of_next (.inl hknows.2) (.inr rfl) hp, hknows.2⟩
    · cases changed with
      | false => cases hdone
      | true =>
        cases hdone
        rw [TerminateProcess.step, SetState.node_of_done hp]
        exact ⟨⟨hpid, hterm, hos⟩, trivial⟩
  | request =>
    cases hnext
    exact ⟨hphase, trivial⟩
  | sigterm | sigkill =>
    obtain ⟨hpid, hterm, hos⟩ := hphase
    simp only [TerminateProcess.step] at hnext ⊢
    split_ifs at hnext with hok <;> cases hnext
    · exact ⟨⟨n.kill_pid ▸ hpid, hterm, hos⟩, trivial⟩
    · exact ⟨hf.gone_of_signal rfl hpid hok, trivial⟩
  | waitTerm | waitKill =>
    simp only [TerminateProcess.step] at hnext ⊢
    split_ifs at hnext with hset <;> cases hnext
    · exact Bool.noConfusion (hphase.2.1.symm.trans hset)
    · exact ⟨hphase, trivial⟩
  | release => cases hnext

theorem TerminateProcess.gone_of_done_fatal (hdone : (t.step ok n).2 = .done ())
    (hphase : (Activate.terminateFatal t).phase.Holds n os)
    (hknows : (Activate.terminateFatal t).Knows c n.processState) : (t.step ok n).1.Gone := by
  rcases TerminateProcess.done_cases hdone with rfl | ⟨p, rfl, hp, -⟩
  · exact hphase
  · have := SetState.terminated_of_failed (.inl hknows.2) hknows.1 (.inr rfl) hp
    cases hknows.2.symm.trans this

theorem TryHandleTermination.Moves.inlined {status : Int} {h h' : TryHandleTermination}
    (hm : h.Moves c n.started status n n' (.next h')) (hphase : Phase.inlined.Holds n os)
    (hknows : (Activate.inline status h).Knows c n.processState)
    (hf : (Activate.inline status h).Finds ok n os) :
    Phase.inlined.Holds n' os ∧ (Activate.inline status h').Knows c n'.processState := by
  obtain ⟨hpid, hgone, hos⟩ := hphase
  cases hm with
  | storeStatus | noRequest => exact ⟨⟨hpid, hgone, hos⟩, rfl, by rintro ⟨⟩⟩
  | storeResult =>
    refine ⟨⟨hpid, ?_, hos⟩, rfl, by rintro ⟨⟩⟩
    exact hgone.apply (a := .rate n.started (c.terminationResult status)) fun _ => by rintro ⟨⟩
  | request h => cases hf.requests h
  | starting =>
    refine ⟨⟨hpid, ?_, hos⟩, rfl, fun _ => rfl⟩
    exact hgone.apply (a := .enter .terminated) fun _ => by rintro ⟨⟩
  | notStarting h => exact absurd (hf.alone _ rfl) h
  | _ => cases hknows.1

theorem Activate.Finds.waiting_of_insert (hf : Activate.insert.Finds ok n os)
    (hphase : Phase.placed.Holds n os) :
    Phase.waiting.Holds (n.update (n.modify n.started ({ · with inserted := true }))) os := by
  obtain ⟨hpid, hterm, hos⟩ := hphase
  refine ⟨hpid, .inl (hf.alone _ rfl), fun hset => ?_, fun h hh => ?_⟩
  · exact Bool.noConfusion (hterm.symm.trans hset)
  · cases hos.symm.trans hh

theorem Activate.Moves.phase (hm : pc.Moves c ok n attempt n' (.next (attempt', pc')))
    (hphase : pc.phase.Holds n os) (hknows : pc.Knows c n.processState) (hf : pc.Finds ok n os) :
    pc'.phase.Holds n' os ∧ pc'.Knows c n'.processState := by
  have hhandle : ∀ result, n.Gone → (n.handle n.started result).Gone :=
    fun result hgone => hgone.apply (a := .handle n.started result) fun _ => by rintro ⟨⟩
  cases hm with
  | clear | setIdle | resetPid | resetStatus | resetResult | setStarting | setFailed =>
    exact ⟨hphase, trivial⟩
  | ready | running | normalEnd | unreported => exact ⟨trivial, trivial⟩
  | unready h => exact ⟨hphase h, trivial⟩
  | idle => exact ⟨hphase.apply (a := .enter .idle) fun _ => by rintro ⟨⟩, trivial⟩
  | notIdle | abnormalEnd => exact ⟨hphase, by rintro ⟨⟩⟩
  | resetWaiter => exact ⟨⟨hphase, rfl, hf.reset rfl⟩, trivial⟩
  | @starting p => exact ⟨⟨hphase.1.apply p.access_ne_launch, hphase.2⟩, trivial⟩
  | notLaunched => exact ⟨hphase.1, trivial⟩
  | early hearly =>
    refine ⟨⟨hphase.1, ?_, hphase.2.2⟩, rfl, by rintro ⟨⟩⟩
    exact (hf.past.gone (hf.early hearly)).apply (a := .takeEarly) fun _ => by rintro ⟨⟩
  | insertedRunning | insertedTerminated => exact ⟨hf.waiting_of_insert hphase, trivial⟩
  | insertedFile _ _ hcond => exact ⟨hf.waiting_of_insert hphase, hcond⟩
  | insertedStatus _ _ hcond =>
    exact ⟨hf.waiting_of_insert hphase, fun h => by cases hcond.symm.trans h⟩
  | notInserted => exact ⟨hphase, trivial, hf.alone _ rfl⟩
  | inline hnext => exact hnext.inlined hphase hknows hf
  | inlineRetry status result => exact ⟨hhandle result hphase.2.1, trivial⟩
  | inlineError status result => exact ⟨hhandle result hphase.2.1, by rintro ⟨⟩⟩
  | inlineRunning status result =>
    have hstate : (n.handle n.started result).processState = .terminated :=
      (n.apply_processState (a := .handle n.started result) fun _ => by rintro ⟨⟩).trans
        (hknows.2 rfl)
    refine ⟨⟨?_, .inr hstate, fun _ => hstate, fun h hh => ?_⟩, trivial, fun _ => hstate⟩
    · cases result <;> exact hphase.1
    · cases hphase.2.2.symm.trans hh
  | waitRunningTerminated | waitRunningState | waitTerminatedState | waitFileState
  | loadStatusState | getStateTerminate => exact ⟨hphase, trivial⟩
  | waitRunningStatus _ hcond => exact ⟨hphase, fun h => absurd h hcond⟩
  | waitTerminatedStatus h => exact ⟨hphase, fun _ => hphase.2.2.1 h⟩
  | waitFileStatus => exact ⟨hphase, fun h => by cases hknows.symm.trans h⟩
  | loadStatusRunning => exact ⟨hphase, trivial, hknows⟩
  | getStateRetry h => exact ⟨hf.gone_of_terminated h, trivial⟩
  | getStateError h => exact ⟨hf.gone_of_terminated h, by rintro ⟨⟩⟩
  | terminate ht => exact TerminateProcess.phase_of_next ht hphase hknows hf
  | terminateRetry ht => exact ⟨TerminateProcess.gone_of_done ht hphase hknows hf, trivial⟩
  | terminateError ht => exact ⟨TerminateProcess.gone_of_done ht hphase hknows hf, by rintro ⟨⟩⟩
  | terminateFatal ht => exact TerminateProcess.phase_of_next_fatal ht hphase hknows hf
  | fatal ht => exact ⟨TerminateProcess.gone_of_done_fatal ht hphase hknows, trivial⟩
  | @failed p => exact ⟨Custody.Gone.apply hphase p.access_ne_launch, by rintro ⟨⟩⟩
  | setRunning hp => exact ⟨hphase, SetState.from_of_next hphase.2.1 (.inl rfl) hp, hknows.2⟩
  | notRunning hp =>
    refine ⟨hf.gone_of_terminated ?_, trivial⟩
    exact SetState.terminated_of_failed hphase.2.1 hknows.1 (.inl rfl) hp

def Activate.undecided : Activate → Bool
  | .clear | .checkReady | .testAndSet | .storeReady => false
  | _ => true

def Activate.unreported : Activate → Bool
  | .clear | .storeReady => false
  | _ => true

def Activate.Fresh (n : Node) (pc : Activate) : Prop :=
  (pc.undecided = true → n.reachedReady = false) ∧
    (pc.unreported = true → n.successReturned = false)

theorem TryHandleTermination.Moves.flags {process : Nat} {status : Int}
    {r : Progress TryHandleTermination TerminationResult} (hm : h.Moves c process status n n' r)
    (hplain : h ≠ .testAndSet ∧ h ≠ .storeReady) :
    n'.reachedReady = n.reachedReady ∧ n'.successReturned = n.successReturned := by
  cases hm with
  | reported | unreported => exact absurd rfl hplain.1
  | storeReady => exact absurd rfl hplain.2
  | _ => exact ⟨rfl, rfl⟩

theorem TryHandleTermination.plain_ne (hplain : h.plain = true) :
    h ≠ .testAndSet ∧ h ≠ .storeReady := by
  constructor <;> rintro rfl <;> cases hplain

theorem Activate.Fresh.terminate (h : pc.Fresh n) : pc.Fresh (t.step ok n).1 := by
  obtain ⟨k, requested, heq⟩ := t.step_node
  rw [heq]
  exact h

theorem Activate.Moves.fresh (hm : pc.Moves c ok n attempt n' (.next (attempt', pc')))
    (hknows : pc.Knows c n.processState) (hfresh : pc.Fresh n) : pc'.Fresh n' := by
  cases hm with
  | clear => exact ⟨nofun, fun _ => rfl⟩
  | ready | running | normalEnd => exact ⟨nofun, hfresh.2⟩
  | unready h => exact ⟨fun _ => h, hfresh.2⟩
  | unreported => exact ⟨nofun, nofun⟩
  | inline hnext =>
    obtain ⟨hready, hreturned⟩ := hnext.flags (TryHandleTermination.plain_ne hknows.1)
    rw [Activate.Fresh, hready, hreturned]
    exact hfresh
  | terminate | terminateRetry | terminateError | terminateFatal | fatal => exact hfresh.terminate
  | _ => exact hfresh

/-- All that the worker relies on at a point. -/
structure Activate.Relies (c : ComponentConfig) (n : Node) (os : Option Handler) (pc : Activate) :
    Prop where
  phase : pc.phase.Holds n os
  knows : pc.Knows c n.processState
  fresh : pc.Fresh n

theorem Activate.Relies.next (h : pc.Relies c n os) (hf : pc.Finds ok n os)
    (hm : pc.Moves c ok n attempt n' (.next (attempt', pc'))) : pc'.Relies c n' os :=
  have hphase := hm.phase h.phase h.knows hf
  ⟨hphase.1, hphase.2, hm.fresh h.knows h.fresh⟩

theorem Activate.Relies.congr (h : pc.Relies c n os)
    (hpid : n'.pid = n.pid) (hstate : n'.processState = n.processState)
    (hterminated : n'.isTerminated = n.isTerminated) (hstarted : n'.started = n.started)
    (hready : n'.reachedReady = n.reachedReady)
    (hreturned : n'.successReturned = n.successReturned) (hgone : n.Gone → n'.Gone) :
    pc.Relies c n' os where
  phase := h.phase.congr hpid hstate hterminated hstarted hready hgone
  knows := hstate ▸ h.knows
  fresh := ⟨fun hpc => hready.trans (h.fresh.1 hpc), fun hpc => hreturned.trans (h.fresh.2 hpc)⟩

theorem Activate.Moves.result {result : RequestResult}
    (hm : pc.Moves c ok n attempt n' (.done result)) (hrelies : pc.Relies c n os) :
    result = .success ∧ n'.reachedReady = true ∨
      result ≠ .success ∧ n'.reachedReady = false ∧ n'.Gone := by
  obtain ⟨hphase, hknows, hfresh⟩ := hrelies
  cases hm with
  | storeReady => exact .inl ⟨rfl, rfl⟩
  | reportError error h =>
    rw [hfresh.2 rfl] at h
    obtain rfl : result = error := h
    exact .inr ⟨hknows, hfresh.1 rfl, hphase⟩
  | reported h => cases (hfresh.2 rfl).symm.trans h
  | notCompleted hp hcond =>
    -- the end of the process has been noted by then, so that the exchange cannot succeed
    cases (SetState.starting_of_done hknows.1 (.inl rfl) hp).symm.trans (hknows.2 hcond)

def Activate.beforeLaunch : Activate → Bool
  | .clear | .checkReady | .setIdle _ | .resetPid | .resetStatus | .resetResult | .resetWaiter
  | .setStarting _ | .launch => true
  | _ => false

theorem Activate.Moves.attempt_cases (hm : pc.Moves c ok n attempt n' (.next (attempt', pc'))) :
    attempt' = attempt ∧ (pc'.beforeLaunch = true → pc.beforeLaunch = true) ∨
      attempt' = attempt + 1 ∧ attempt < c.activationRetryAttempts := by
  cases hm with
  | inlineRetry _ _ _ hlt | getStateRetry _ hlt | terminateRetry _ hlt => exact .inr ⟨rfl, hlt⟩
  | clear | unready | setIdle | idle | resetPid | resetStatus | resetResult | resetWaiter
  | setStarting | starting => exact .inl ⟨rfl, fun _ => rfl⟩
  | _ => exact .inl ⟨rfl, by rintro ⟨⟩⟩

section
variable {process : Nat} {status : Int} {r : Progress TryHandleTermination TerminationResult}

theorem TryHandleTermination.Moves.terminationRequested (hm : h.Moves c process status n n' r)
    (hset : n'.terminationRequested = true) : n.terminationRequested = true := by
  cases hm with
  | request | noRequest => cases hset
  | _ => exact hset

theorem TryHandleTermination.Moves.terminationResult (hm : h.Moves c process status n n' r)
    (hpc : h ≠ .storeResult) : n'.terminationResult = n.terminationResult := by
  cases hm with
  | storeResult => exact absurd rfl hpc
  | _ => rfl

end

theorem Activate.Moves.requesting {r : Progress (Nat × Activate) RequestResult}
    (hm : pc.Moves c ok n attempt n' r)
    (hrequests : n.terminationRequested = true → pc.requesting = true)
    (h : n'.terminationRequested = true) :
    ∃ attempt' pc', r = .next (attempt', pc') ∧ pc'.requesting = true := by
  have hnext : ∀ {t t' : TerminateProcess}, (t.step ok n).2 = .next t' →
      (n.terminationRequested = true → t.requesting = true) →
      (t.step ok n).1.terminationRequested = true → t'.requesting = true := by
    intro t t' ht hrequests h
    cases t with
    | setTerminating p =>
      rw [TerminateProcess.step, p.step_node] at h
      cases hrequests h
    | request =>
      cases ht
      rfl
    | release => cases ht
    | sigterm | waitTerm | sigkill | waitKill =>
      simp only [TerminateProcess.step] at ht
      split_ifs at ht <;> cases ht <;> rfl
  have hdone : ∀ {t : TerminateProcess}, (t.step ok n).2 = .done () →
      (n.terminationRequested = true → t.requesting = true) →
      (t.step ok n).1.terminationRequested = true → False := by
    intro t ht hrequests h
    rcases TerminateProcess.done_cases ht with rfl | ⟨p, rfl, -, hnode⟩
    · cases h
    · rw [hnode] at h
      cases hrequests h
  cases hm with
  | terminate ht | terminateFatal ht => exact ⟨_, _, rfl, hnext ht hrequests h⟩
  | terminateRetry ht | terminateError ht | fatal ht => exact (hdone ht hrequests h).elim
  | inline hm => cases hrequests (hm.terminationRequested h)
  | _ => cases hrequests h

theorem Activate.Moves.terminationResult {r : Progress (Nat × Activate) RequestResult}
    (hm : pc.Moves c ok n attempt n' r) :
    n'.terminationResult = n.terminationResult ∨ n'.terminationResult = none ∨
      ∃ status, pc = .inline status .storeResult := by
  have hterminate : ∀ t : TerminateProcess,
      (t.step ok n).1.terminationResult = n.terminationResult := by
    intro t
    obtain ⟨k, requested, heq⟩ := t.step_node
    rw [heq]
  cases hm with
  | resetResult => exact .inr (.inl rfl)
  | @inline status h _ _ hm =>
    by_cases hpc : h = .storeResult
    · exact .inr (.inr ⟨status, hpc ▸ rfl⟩)
    · exact .inl (hm.terminationResult hpc)
  | terminate | terminateRetry | terminateError | terminateFatal | fatal =>
    exact .inl (hterminate _)
  | _ => exact .inl rfl

theorem Activate.alone_of_phase
    (h : pc.phase = .cleared ∨ pc.phase = .placed ∨ pc.phase = .inlined) :
    ∃ Q, pc.alone = some Q := by
  cases pc with
  | setStarting | launch | insert | inline | terminateFatal => exact ⟨_, rfl⟩
  | terminate t => cases t <;> simp [Activate.phase] at h
  | _ => simp [Activate.phase] at h

theorem Activate.not_requesting_of_waiting (h : pc.phase = .waiting) : ¬ pc.requesting = true := by
  cases pc with
  | terminate t =>
    cases t with
    | setTerminating => exact nofun
    | _ => cases h
  | terminateFatal t => cases t <;> cases h
  | _ => exact nofun

theorem Phase.Holds.not_alone {ph : Phase} {h : Handler} (hph : ph.Holds n (some h)) :
    ¬ (ph = .cleared ∨ ph = .placed ∨ ph = .inlined) := by
  rintro (rfl | rfl | rfl) <;> cases hph.2.2

theorem Activate.Knows.terminated {state : ProcessState} (h : pc.Knows c state)
    (hpc : ¬ (pc.phase = .cleared ∨ pc.phase = .placed ∨ pc.phase = .inlined)) :
    pc.Knows c .terminated := by
  cases pc with
  | inline => exact absurd (.inr (.inr rfl)) hpc
  | terminateFatal t =>
    cases t with
    | setTerminating => exact absurd (.inr (.inl rfl)) hpc
    | _ => trivial
  | loadStatus => exact fun _ => rfl
  | setRunning p => exact ⟨h.1, fun _ => rfl⟩
  | terminate t => cases t <;> exact h
  | _ => exact h

theorem Phase.Holds.reap {ph : Phase} (h : ph.Holds n none) (status : Int)
    (hph : ¬ (ph = .cleared ∨ ph = .placed ∨ ph = .inlined)) :
    ph.Holds n (some ⟨n.started, status, .storeStatus⟩) := by
  cases ph with
  | cleared => exact absurd (.inl rfl) hph
  | placed => exact absurd (.inr (.inl rfl)) hph
  | inlined => exact absurd (.inr (.inr rfl)) hph
  | waiting =>
    refine ⟨h.1, h.2.1, h.2.2.1, ?_⟩
    rintro _ ⟨⟩
    exact ⟨rfl, rfl, nofun⟩
  | stopping =>
    refine ⟨h.1, h.2.1, ?_⟩
    rintro _ ⟨⟩
    rfl
  | _ => exact h

end Worker

/-- The component waits for an end of its process with this status. -/
def ComponentConfig.Awaits (c : ComponentConfig) (status : Int) : Prop :=
  c.readyCondition = .terminated ∧ c.terminationResult status = .ignore

instance (c : ComponentConfig) (status : Int) : Decidable (c.Awaits status) :=
  inferInstanceAs (Decidable (_ ∧ _))

/-- What a handler that does not report the activation has found out about the state. -/
def TryHandleTermination.Silent (c : ComponentConfig) (status : Int) (state : ProcessState) :
    TryHandleTermination → Prop
  | .casStarting => c.Awaits status → state = .starting
  | .normal _ | .branch => ¬ c.Awaits status
  | .testAndSet | .storeReady => False
  | _ => True

/-- The end has been rated and the rating is still to be read. -/
def TryHandleTermination.rated : TryHandleTermination → Bool
  | .exchange | .requested _ | .casStarting | .normal _ | .branch => true
  | _ => false

section Handling
variable {c : ComponentConfig} {n n' : Node} {process : Nat} {status : Int}
  {h h' : TryHandleTermination}

theorem TryHandleTermination.Moves.silent (hm : h.Moves c process status n n' (.next h'))
    (hsilent : h.Silent c status n.processState) (hstarting : c.Awaits status → h = .exchange →
      n.terminationRequested = false → n.processState = .starting)
    (hrated : h.rated = true → c.terminationResult status = .failure →
      n.terminationResult ≠ some .ignore) : h'.Silent c status n'.processState := by
  cases hm with
  | noRequest hrequest => exact fun hawaits => hstarting hawaits rfl hrequest
  | notStarting hstate => exact fun hawaits => hstate (hsilent hawaits)
  | normal | normalEnd => exact hsilent
  | completion hignore hcond =>
    refine hrated rfl ?_ hignore
    cases hresult : c.terminationResult status with
    | ignore => exact absurd ⟨hcond, hresult⟩ hsilent
    | failure => rfl
  | reported | unreported | storeReady => exact hsilent.elim
  | _ => trivial

theorem TryHandleTermination.Moves.rated (hm : h.Moves c process status n n' (.next h'))
    (hrated' : h'.rated = true) (hfailure : c.terminationResult status = .failure)
    (hrated : h.rated = true → n.terminationResult ≠ some .ignore) :
    n'.terminationResult ≠ some .ignore := by
  cases hm with
  | storeResult =>
    rw [hfailure]
    rintro ⟨⟩
  | request | noRequest | requested | notStarting | normal | normalEnd => exact hrated rfl
  | _ => cases hrated'

theorem TryHandleTermination.Silent.ne {state : ProcessState}
    (hsilent : h.Silent c status state) : h ≠ .testAndSet ∧ h ≠ .storeReady := by
  constructor <;> rintro rfl <;> exact hsilent

theorem TryHandleTermination.pid_of_step (h : TryHandleTermination) :
    (h.step c process status n).1.pid = n.pid := by
  rw [h.step_custody]
  rcases h.access_cases c process status n.toCustody with
    heq | ⟨heq, -⟩ | ⟨_, heq, -⟩ | ⟨result, heq, -⟩ <;> rw [heq]
  · rfl
  · rfl
  · rfl
  · cases result <;> rfl

theorem TryHandleTermination.access_ne_launch (h : TryHandleTermination) (pid : Nat) :
    h.access c process status n.toCustody ≠ .launch pid := by
  rcases h.access_cases c process status n.toCustody with
    heq | ⟨heq, -⟩ | ⟨_, heq, -⟩ | ⟨_, heq, -⟩ <;> rw [heq] <;> exact nofun

theorem TryHandleTermination.started_of_step (h : TryHandleTermination) :
    (h.step c process status n).1.started = n.started := by
  rw [h.step_custody]
  exact n.apply_started h.access_ne_launch

theorem TryHandleTermination.Moves.waiting (hm : h.Moves c process status n n' (.next h'))
    (hplain : h.plain = true) (hrequest : n.terminationRequested = false)
    (hstarting : h.pre = true → n.processState = .starting) : h'.plain = true ∧
      (h'.pre = true ∧ n'.processState = n.processState ∨
        h'.pre = false ∧ n'.processState = .terminated) := by
  cases hm with
  | storeStatus | storeResult | noRequest => exact ⟨rfl, .inl ⟨rfl, rfl⟩⟩
  | request h => cases hrequest.symm.trans h
  | starting => exact ⟨rfl, .inr ⟨rfl, rfl⟩⟩
  | notStarting h => exact absurd (hstarting rfl) h
  | _ => cases hplain

theorem Phase.Holds.handle {ph : Phase} {h : Handler} (hph : ph.Holds n (some h))
    (hsilent : h.pc.Silent c h.status n.processState)
    (hrequest : ph = .waiting → n.terminationRequested = false)
    (hlive : h.pc.pre = true → n.processState.Live)
    (hgone : n.Gone → (h.pc.step c h.process h.status n).1.Gone)
    (hprocess : h.process = n.started → n.Gone) : ph.Holds (h.pc.step c h.process h.status n).1
      ((h.pc.step c h.process h.status n).2.point.map ({ h with pc := · })) := by
  cases ph with
  | free => trivial
  | rested =>
    intro hready
    rw [((h.pc.moves ..).flags hsilent.ne).1] at hready
    exact hgone (hph hready)
  | gone => exact hgone hph
  | cleared | placed | inlined => cases hph.2.2
  | stopping =>
    obtain ⟨hpid, hwaiter, hos⟩ := hph
    refine ⟨?_, fun _ => hgone (hprocess (hos h rfl)), fun h' hh' => ?_⟩
    · rw [TryHandleTermination.pid_of_step]
      exact hpid
    · rw [TryHandleTermination.started_of_step]
      obtain ⟨pc', -, rfl⟩ := Option.map_eq_some_iff.mp hh'
      exact hos h rfl
  | waiting =>
    obtain ⟨hpid, hstate, hwaiter, hos⟩ := hph
    obtain ⟨hstarted, hplain, hpre⟩ := hos h rfl
    have hstarting : h.pc.pre = true → n.processState = .starting := by
      intro hp
      refine hstate.resolve_right fun hterminated => ?_
      exact absurd (hterminated ▸ hlive hp) (by decide)
    simp only [Phase.Holds, TryHandleTermination.pid_of_step, TryHandleTermination.started_of_step]
    have hm := h.pc.moves c h.process h.status n
    cases hr : (h.pc.step c h.process h.status n).2 with
    | next pc' =>
      rw [hr] at hm
      obtain ⟨hplain', hcases⟩ := hm.waiting hplain (hrequest rfl) hstarting
      rw [hm.isTerminated]
      refine ⟨hpid, ?_, fun hset => ?_, ?_⟩
      · rcases hcases with ⟨-, heq⟩ | ⟨-, heq⟩
        · exact heq ▸ hstate
        · exact .inr heq
      · rcases hcases with ⟨-, heq⟩ | ⟨-, heq⟩
        · exact heq.trans (hwaiter hset)
        · exact heq
      · rintro _ ⟨⟩
        refine ⟨hstarted, hplain', fun hp => ?_⟩
        rcases hcases with ⟨hp', -⟩ | ⟨-, heq⟩
        · exact Bool.noConfusion (hp'.symm.trans hp)
        · exact heq
    | done result =>
      rw [hr] at hm
      have hpc := hm.eq_terminated
      have hterminated : n.processState = .terminated := hpre (by rw [hpc]; rfl)
      have hstate' : (h.pc.step c h.process h.status n).1.processState = .terminated := by
        rw [hpc, TryHandleTermination.step_custody, ← hterminated]
        exact n.apply_processState (a := .handle h.process result) fun _ => nofun
      exact ⟨hpid, .inr hstate', fun _ => hstate', nofun⟩

end Handling

end LaunchManager.ProcessInfoNode
