import LaunchManager.ProcessInfoNode

/-!
# What one step does to the processes

Each step of each thread is one access to the processes and to the state of the
component, or touches nothing but the flags of the class. `System.access` says
which one it is, from the state before the step, and `step_custody` that the step
does just that. Invariants about processes are proved access by access.
-/

namespace LaunchManager.ProcessInfoNode

open SetState Function Option

set_option autoImplicit false

inductive Access where
  | flag
  | enter (new : ProcessState)
  | kill
  | resetPid
  | launch (pid : Nat)
  | takeEarly
  | insert
  | rate (process : Nat) (result : TerminationResult)
  | handle (process : Nat) (result : TerminationResult)
  | exit (process : Nat) (status : Int)
  | reap (process : Nat)
  | reapEarly (process : Nat) (room : Bool)
  | takeEvent
  deriving DecidableEq

def Access.note : Access → Process → Process
  | .enter new => fun p =>
    { p with
      reachedRunning := p.reachedRunning || new == ProcessState.running
      stopInitiated := p.stopInitiated || new == ProcessState.terminating }
  | .takeEarly => ({ · with early := false })
  | .insert => ({ · with inserted := true })
  | .rate _ result => ({ · with result := some result })
  | .handle _ _ => ({ · with handled := true })
  | .exit _ status => ({ · with exited := some status })
  | .reap _ => ({ · with reaped := true })
  | .reapEarly _ room => ({ · with reaped := true, early := room })
  | _ => id

/-- The states in which a process may be alive. -/
def ProcessState.Live (state : ProcessState) : Prop :=
  state = .starting ∨ state = .running ∨ state = .terminating

instance (state : ProcessState) : Decidable state.Live := inferInstanceAs (Decidable (_ ∨ _ ∨ _))

/-- The states from which a component becomes idle again. -/
def ProcessState.Ended (state : ProcessState) : Prop := state = .terminated ∨ state = .failed

variable {state new old : ProcessState}

theorem ProcessState.Ended.not_live (h : state.Ended) : ¬ state.Live := by
  rcases h with rfl | rfl <;> decide

theorem ProcessState.Ended.not_idle (h : state.Ended) : state ≠ .idle := by
  rcases h with rfl | rfl <;> decide

theorem ProcessState.Ended.not_mayBecome (h : state.Ended)
    (hnew : new.Live) : ¬ state.MayBecome new := by
  rcases h with rfl | rfl <;> rcases hnew with rfl | rfl | rfl <;> decide

theorem ProcessState.MayBecome.live (h : old.MayBecome new)
    (hnew : new = .running ∨ new = .terminating) (hold : old ≠ .idle) : old.Live := by
  revert h hnew hold
  cases old <;> cases new <;> decide

theorem ProcessState.MayBecome.eq_idle (h : old.MayBecome new)
    (hnew : new = .idle ∨ new = .starting) : old = .idle := by
  revert h hnew
  cases old <;> cases new <;> decide

theorem ProcessState.ended_of_not_mayBecome (h : ¬ old.MayBecome .terminated) : old.Ended := by
  cases old with
  | terminated => exact .inl rfl
  | failed => exact .inr rfl
  | _ => exact absurd (by decide) h

namespace Custody

section Modify
variable (k : Custody) (process : Nat) (f : Process → Process)

theorem modify_last :
    (k.modify process f).last = if process = k.started then f k.last else k.last := by
  simp only [modify, last, update_apply]
  split_ifs with h₁ h₂ h₂
  · rw [h₁]
  · exact absurd h₁.symm h₂
  · exact absurd h₂.symm h₁
  · rfl

theorem modify_self : (k.modify process f).processes process = f (k.processes process) :=
  update_self ..

theorem modify_of_ne {q : Nat} (h : q ≠ process) :
    (k.modify process f).processes q = k.processes q :=
  update_of_ne h ..

theorem modify_read {α : Type} (g : Process → α) (hg : ∀ p, g (f p) = g p) (q : Nat) :
    g ((k.modify process f).processes q) = g (k.processes q) := by
  simp only [modify, update_apply]
  split_ifs with h
  · rw [h, hg]
  · rfl

end Modify

def apply (k : Custody) : Access → Custody
  | .flag => k
  | .enter new => k.enter new
  | .kill => k.kill
  | .resetPid => { k with pid := 0 }
  | .launch pid => k.launch pid
  | .takeEarly => k.modify k.started ({ · with early := false })
  | .insert => k.modify k.started ({ · with inserted := true })
  | .rate process result => k.modify process ({ · with result := some result })
  | .handle process result => k.handle process result
  | .exit process status => k.modify process ({ · with exited := some status })
  | .reap process => k.modify process ({ · with reaped := true })
  | .reapEarly process room => k.modify process ({ · with reaped := true, early := room })
  | .takeEvent => { k with unexpected := k.unexpected - 1 }

variable {q : Nat} {k : Custody}

theorem enter_of_ne (k : Custody) (new : ProcessState) (h : q ≠ k.started) :
    (k.enter new).processes q = k.processes q :=
  update_of_ne h ..

theorem enter_last (k : Custody) (new : ProcessState) :
    (k.enter new).last = (Access.enter new).note k.last :=
  update_self ..

theorem handle_last (k : Custody) (process : Nat) (result : TerminationResult) :
    (k.handle process result).last =
      if process = k.started then { k.last with handled := true } else k.last := by
  cases result <;> exact modify_last _ _ _

variable {a : Access}

theorem apply_read (k : Custody) {α : Type} (g : Process → α)
    (ha : ∀ pid, a ≠ .launch pid) (hg : ∀ p, g (a.note p) = g p) (q : Nat) :
    g ((k.apply a).processes q) = g (k.processes q) := by
  cases a with
  | launch pid => exact absurd rfl (ha pid)
  | kill =>
    rw [apply, kill]
    split_ifs <;> rfl
  | handle process result => cases result <;> exact modify_read _ _ _ g hg q
  | enter new | takeEarly | insert | rate | exit | reap | reapEarly =>
    exact modify_read _ _ _ g hg q
  | _ => rfl

theorem apply_keeps (g : Process → Bool) (ha : ∀ pid, a ≠ .launch pid)
    (hg : ∀ p, g p = true → g (a.note p) = true) (h : g (k.processes q) = true) :
    g ((k.apply a).processes q) = true := by
  have hmodify : ∀ (k' : Custody) (process : Nat), k'.processes = k.processes →
      g ((k'.modify process a.note).processes q) = true := by
    intro k' process hk
    simp only [modify, update_apply, hk]
    split_ifs with hq
    · exact hg _ (hq ▸ h)
    · exact h
  cases a with
  | launch pid => exact absurd rfl (ha pid)
  | kill =>
    rw [apply, kill]
    split_ifs <;> exact h
  | handle process result => cases result <;> exact hmodify _ _ rfl
  | enter new | takeEarly | insert | rate | exit | reap | reapEarly => exact hmodify _ _ rfl
  | _ => exact h

theorem inserted_of_apply (ha : ∀ pid, a ≠ .launch pid)
    (h : ((k.apply a).processes q).inserted = true) :
    (k.processes q).inserted = true ∨ a = .insert ∧ q = k.started := by
  by_cases hinsert : a = .insert
  · subst a
    by_cases hq : q = k.started
    · exact .inr ⟨rfl, hq⟩
    · rw [apply, k.modify_of_ne _ _ hq] at h
      exact .inl h
  · rw [k.apply_read Process.inserted ha fun p => ?_] at h
    · exact .inl h
    · cases a <;> first | rfl | contradiction

theorem reaped_of_apply (ha : ∀ pid, a ≠ .launch pid)
    (h : ((k.apply a).processes q).reaped = false) : (k.processes q).reaped = false := by
  refine Bool.eq_false_iff.mpr fun hq => ?_
  rw [apply_keeps Process.reaped ha (fun p hp => ?_) hq] at h
  · cases h
  · cases a <;> first | rfl | exact hp

theorem kill_started (k : Custody) : k.kill.started = k.started := by
  rw [kill]
  split_ifs <;> rfl

theorem apply_started (k : Custody) (ha : ∀ pid, a ≠ .launch pid) :
    (k.apply a).started = k.started := by
  cases a with
  | launch pid => exact absurd rfl (ha pid)
  | kill => exact k.kill_started
  | handle process result => cases result <;> rfl
  | _ => rfl

theorem started_le_apply (k : Custody) (a : Access) : k.started ≤ (k.apply a).started := by
  cases a with
  | launch pid => exact Nat.le_succ _
  | _ =>
    refine (k.apply_started ?_).ge
    exact fun _ => nofun

theorem apply_read_last (k : Custody) {α : Type} (g : Process → α)
    (ha : ∀ pid, a ≠ .launch pid) (hg : ∀ p, g (a.note p) = g p) :
    g (k.apply a).last = g k.last := by
  rw [last, k.apply_started ha]
  exact k.apply_read g ha hg _

theorem apply_pid_zero (ha : ∀ pid, a ≠ .launch pid) (h : k.pid = 0) : (k.apply a).pid = 0 := by
  cases a with
  | launch pid => exact absurd rfl (ha pid)
  | kill =>
    rw [apply, kill, if_pos h]
    exact h
  | resetPid => rfl
  | handle process result => cases result <;> exact h
  | _ => exact h

theorem apply_processState (k : Custody) (ha : ∀ new, a ≠ .enter new) :
    (k.apply a).processState = k.processState := by
  cases a with
  | enter new => exact absurd rfl (ha new)
  | kill =>
    rw [apply, kill]
    split_ifs <;> rfl
  | handle process result => cases result <;> rfl
  | _ => rfl

theorem apply_verdicts (k : Custody) (ha : ∀ process, a ≠ .handle process .failure) :
    (k.apply a).verdicts = k.verdicts := by
  cases a with
  | handle process result =>
    cases result with
    | ignore => rfl
    | failure => exact absurd rfl (ha process)
  | kill =>
    rw [apply, kill]
    split_ifs <;> rfl
  | _ => rfl

theorem unexpected_le_apply (k : Custody) (ha : a ≠ .takeEvent) :
    k.unexpected ≤ (k.apply a).unexpected := by
  cases a with
  | takeEvent => exact absurd rfl ha
  | handle process result =>
    cases result with
    | ignore => exact le_rfl
    | failure => exact Nat.le_succ _
  | kill =>
    rw [apply, kill]
    split_ifs <;> exact le_rfl
  | _ => exact le_rfl

end Custody

def SetState.access {new : ProcessState} (k : Custody) : SetState new → Access
  | .load => .flag
  | .cas old _ => if k.processState = old then .enter new else .flag
  | .store _ => .enter new

def TryHandleTermination.access (c : ComponentConfig) (process : Nat) (status : Int)
    (k : Custody) : TryHandleTermination → Access
  | .storeResult => .rate process (c.terminationResult status)
  | .requested p => p.access k
  | .casStarting => if k.processState = .starting then .enter .terminated else .flag
  | .normal p => p.access k
  | .terminated result => .handle process result
  | _ => .flag

def TerminateProcess.access (k : Custody) : TerminateProcess → Access
  | .setTerminating p => p.access k
  | .sigterm => .kill
  | .sigkill => .kill
  | _ => .flag

def Deactivate.access (k : Custody) : Deactivate → Access
  | .terminate t => t.access k
  | .setIdle p => p.access k
  | _ => .flag

def Activate.access (c : ComponentConfig) (ok : Bool) (k : Custody) : Activate → Access
  | .setIdle p => p.access k
  | .resetPid => .resetPid
  | .setStarting p => p.access k
  | .insert => if k.last.early then .takeEarly else if ok then .insert else .flag
  | .inline status h => h.access c k.started status k
  | .terminate t => t.access k
  | .terminateFatal t => t.access k
  | .setFailed p => p.access k
  | .setRunning p => p.access k
  | _ => .flag

def Job.access (c : ComponentConfig) (ok : Bool) (k : Custody) : Job → Access
  | .activate _ pc => pc.access c ok k
  | .deactivate pc => pc.access k

def System.access (c : ComponentConfig) (s : System) : Act → Access
  | .begin _ => .flag
  | .worker ok => s.worker.elim .flag (Job.access c ok s.node.toCustody)
  | .launched pid => .launch pid
  | .exit process status => .exit process status
  | .reap process => .reap process
  | .reapEarly process room => .reapEarly process room
  | .os => s.os.elim .flag fun h => h.pc.access c h.process h.status s.node.toCustody
  | .takeEvent => .takeEvent
  | .main _ => s.main.elim .flag (Deactivate.access s.node.toCustody)
  | .forceKill => .kill

section AccessCases
variable {c : ComponentConfig} (k : Custody)

theorem SetState.access_cases (p : SetState new) : p.access k = .flag ∨
      p.access k = .enter new ∧ p ≠ .load ∧ (k.processState.MayBecome new ∨ new = .idle) := by
  cases p with
  | load => exact .inl rfl
  | cas old hmay =>
    rw [SetState.access]
    split_ifs with hold
    · exact .inr ⟨rfl, nofun, .inl (hold ▸ hmay)⟩
    · exact .inl rfl
  | store hidle => exact .inr ⟨rfl, nofun, .inr hidle⟩

theorem TerminateProcess.access_cases (t : TerminateProcess) :
    t.access k = .flag ∨ t.access k = .kill ∨
      t.access k = .enter .terminating ∧ k.processState.MayBecome .terminating := by
  cases t with
  | setTerminating p =>
    obtain hflag | ⟨henter, -, hmay | ⟨⟨⟩⟩⟩ := p.access_cases k
    · exact .inl hflag
    · exact .inr (.inr ⟨henter, hmay⟩)
  | sigterm | sigkill => exact .inr (.inl rfl)
  | _ => exact .inl rfl

theorem SetState.access_ne_insert (p : SetState new) : p.access k ≠ .insert := by
  obtain h | ⟨h, -⟩ := p.access_cases k <;> rw [h] <;> exact nofun

theorem TerminateProcess.access_ne_insert (t : TerminateProcess) : t.access k ≠ .insert := by
  obtain h | h | ⟨h, -⟩ := t.access_cases k <;> rw [h] <;> exact nofun

end AccessCases

/-- The termination has not been noted in the state of the component yet. -/
def TryHandleTermination.pre : TryHandleTermination → Bool
  | .branch => false
  | .testAndSet => false
  | .storeReady => false
  | .terminated _ => false
  | _ => true

/-- The exchange finds another state than the one read before. -/
def SetState.Misses {new : ProcessState} (k : Custody) : SetState new → Prop
  | .cas old _ => k.processState ≠ old
  | _ => False

def TryHandleTermination.Misses (k : Custody) : TryHandleTermination → Prop
  | .requested p => p.Misses k
  | .normal p => p.Misses k
  | _ => False

instance {new : ProcessState} (k : Custody) : ∀ p : SetState new, Decidable (p.Misses k)
  | .cas old _ => inferInstanceAs (Decidable (_ ≠ old))
  | .load => isFalse id
  | .store _ => isFalse id

instance (k : Custody) : ∀ h : TryHandleTermination, Decidable (h.Misses k)
  | .requested p => inferInstanceAs (Decidable (p.Misses k))
  | .normal p => inferInstanceAs (Decidable (p.Misses k))
  | .storeStatus | .storeResult | .exchange | .casStarting | .branch | .testAndSet | .storeReady
  | .terminated _ => isFalse id

theorem TryHandleTermination.access_cases (c : ComponentConfig) (process : Nat) (status : Int)
    (k : Custody) (h : TryHandleTermination) : h.access c process status k = .flag ∨
      h.access c process status k = .enter .terminated ∧ h.pre = true ∨
      (∃ result, h.access c process status k = .rate process result ∧ h = .storeResult) ∨
      ∃ result, h.access c process status k = .handle process result ∧ h = .terminated result := by
  have hset : ∀ p : SetState .terminated, p.access k = .flag ∨ p.access k = .enter .terminated :=
    fun p => (p.access_cases k).imp_right And.left
  cases h with
  | requested p | normal p => exact (hset p).imp_right fun hp => .inl ⟨hp, rfl⟩
  | casStarting =>
    rw [TryHandleTermination.access]
    split_ifs
    · exact .inr (.inl ⟨rfl, rfl⟩)
    · exact .inl rfl
  | storeResult => exact .inr (.inr (.inl ⟨_, rfl, rfl⟩))
  | terminated result => exact .inr (.inr (.inr ⟨_, rfl, rfl⟩))
  | _ => exact .inl rfl

theorem TryHandleTermination.access_ne_insert (c : ComponentConfig) (process : Nat) (status : Int)
    (k : Custody) (h : TryHandleTermination) : h.access c process status k ≠ .insert := by
  rcases h.access_cases c process status k with heq | ⟨heq, -⟩ | ⟨_, heq, -⟩ | ⟨_, heq, -⟩ <;>
    rw [heq] <;> exact nofun

section StepCustody
variable (c : ComponentConfig) (n : Node)

theorem SetState.step_node (p : SetState new) :
    (p.step n).1 = n.update (n.apply (p.access n.toCustody)) := by
  cases p with
  | load => rw [SetState.step]; split_ifs <;> rfl
  | cas old h => rw [SetState.step, SetState.access]; split_ifs <;> rfl
  | store h => rfl

theorem SetState.step_custody (p : SetState new) :
    (p.step n).1.toCustody = n.apply (p.access n.toCustody) := by
  rw [p.step_node]
  rfl

theorem TryHandleTermination.step_custody (process : Nat) (status : Int)
    (h : TryHandleTermination) : (h.step c process status n).1.toCustody =
      n.apply (h.access c process status n.toCustody) := by
  cases h with
  | requested p | normal p => exact p.step_custody n
  | casStarting =>
    rw [TryHandleTermination.step, TryHandleTermination.access]
    split_ifs <;> rfl
  | branch => rw [TryHandleTermination.step]; split_ifs <;> rfl
  | _ => rfl

theorem TerminateProcess.step_custody (ok : Bool) (t : TerminateProcess) :
    (t.step ok n).1.toCustody = n.apply (t.access n.toCustody) := by
  cases t with
  | setTerminating p => exact p.step_custody n
  | _ => rfl

theorem Deactivate.step_custody (ok : Bool) (pc : Deactivate) :
    (pc.step ok n).1.toCustody = n.apply (pc.access n.toCustody) := by
  cases pc with
  | terminate t => exact t.step_custody n ok
  | setIdle p => exact p.step_custody n
  | _ => rfl

theorem Activate.step_custody (attempt : Nat) (ok : Bool) (pc : Activate) :
    (pc.step c attempt ok n).1.toCustody = n.apply (pc.access c ok n.toCustody) := by
  cases pc with
  | setIdle p | setStarting p | setFailed p | setRunning p => exact p.step_custody n
  | inline status h => exact h.step_custody c n _ status
  | terminate t | terminateFatal t => exact t.step_custody n ok
  | insert =>
    rw [Activate.step, Activate.access]
    split_ifs <;> rfl
  | _ => rfl

theorem Job.step_custody (ok : Bool) (j : Job) :
    (j.step c ok n).1.toCustody = n.apply (j.access c ok n.toCustody) := by
  cases j with
  | activate attempt pc => exact pc.step_custody c n attempt ok
  | deactivate pc => exact pc.step_custody n ok

end StepCustody

section StepFlags
variable {n : Node} {ok : Bool}

theorem SetState.step_reachedReady {new : ProcessState} (p : SetState new) :
    (p.step n).1.reachedReady = n.reachedReady := by
  rw [p.step_node]
  rfl

theorem TerminateProcess.step_node (t : TerminateProcess) :
    ∃ k requested,
      (t.step ok n).1 = { n with toCustody := k, terminationRequested := requested } := by
  cases t with
  | setTerminating p => exact ⟨_, _, p.step_node n⟩
  | _ => exact ⟨_, _, rfl⟩

theorem TerminateProcess.step_reachedReady (t : TerminateProcess) :
    (t.step ok n).1.reachedReady = n.reachedReady := by
  obtain ⟨k, requested, h⟩ := t.step_node
  rw [h]

end StepFlags

section ControlFlow
variable {P Q α β : Type}

theorem Progress.call_eq_next {within : P → Q} {after : α → Progress Q β} {r : Progress P α}
    {q : Q} (h : r.call within after = .next q) :
    (∃ p, r = .next p ∧ q = within p) ∨ ∃ a, r = .done a ∧ after a = .next q := by
  cases r with
  | next p =>
    cases h
    exact .inl ⟨p, rfl, rfl⟩
  | done a => exact .inr ⟨a, rfl, h⟩

end ControlFlow

section SetState
variable {n : Node} {p p' : SetState new}

theorem SetState.next_cases (hnext : (p.step n).2 = .next p') :
    p = .load ∧ ((∃ hmay, p' = .cas n.processState hmay) ∨
      ∃ hidle, p' = .store hidle ∧ (n.processState = .terminated ∨ n.processState = .failed)) := by
  cases p with
  | load =>
    rw [SetState.step] at hnext
    split_ifs at hnext with hmay hidle <;> cases hnext
    · exact ⟨rfl, .inl ⟨hmay, rfl⟩⟩
    · exact ⟨rfl, .inr ⟨hidle.1, rfl, hidle.2⟩⟩
  | cas old h =>
    rw [SetState.step] at hnext
    split_ifs at hnext
  | store h => cases hnext

theorem SetState.access_of_done (hdone : (p.step n).2 = .done true) :
    p ≠ .load ∧ p.access n.toCustody = .enter new := by
  cases p with
  | load =>
    rw [SetState.step] at hdone
    split_ifs at hdone
    cases hdone
  | cas old h =>
    rw [SetState.step] at hdone
    split_ifs at hdone with hold
    · exact ⟨nofun, if_pos hold⟩
    · cases hdone
  | store h => exact ⟨nofun, rfl⟩

theorem SetState.done_of_access (h : p.access n.toCustody = .enter new) :
    (p.step n).2 = .done true := by
  cases p with
  | load => cases h
  | cas old hmay =>
    rw [SetState.access] at h
    split_ifs at h with hold
    rw [SetState.step, if_pos hold]
  | store => rfl

theorem SetState.node_of_done (hdone : (p.step n).2 = .done true) :
    (p.step n).1 = n.update (n.enter new) := by
  rw [p.step_node, (access_of_done hdone).2]
  rfl

theorem SetState.node_of_ne (h : (p.step n).2 ≠ .done true) : (p.step n).1 = n := by
  rw [p.step_node]
  obtain hacc | ⟨hacc, -⟩ := p.access_cases n.toCustody
  · rw [hacc]
    rfl
  · exact absurd (done_of_access hacc) h

theorem SetState.node_of_next (hnext : (p.step n).2 = .next p') : (p.step n).1 = n :=
  node_of_ne fun h => by cases hnext.symm.trans h

theorem SetState.node_of_failed (hdone : (p.step n).2 = .done false) : (p.step n).1 = n :=
  node_of_ne fun h => by cases hdone.symm.trans h

section Call
variable {Q β : Type} {within : SetState new → Q} {after : Bool → Progress Q β}
variable {M : Node → Progress Q β → Prop}

/-- A step of a caller of `setState`. -/
theorem SetState.call_cases (p : SetState new)
    (hnext : ∀ p', (p.step n).2 = .next p' → M n (.next (within p')))
    (hdone : ∀ changed, (p.step n).2 = .done changed →
      M (n.update (n.apply (p.access n.toCustody))) (after changed)) :
    M (p.step n).1 ((p.step n).2.call within after) := by
  cases hp : (p.step n).2 with
  | next p' =>
    rw [node_of_next hp]
    exact hnext p' hp
  | done changed =>
    rw [p.step_node]
    exact hdone changed hp

/-- The same for a caller that looks at the result. -/
theorem SetState.call_cases_changed (p : SetState new)
    (hnext : ∀ p', (p.step n).2 = .next p' → M n (.next (within p')))
    (htrue : (p.step n).2 = .done true → M (n.update (n.enter new)) (after true))
    (hfalse : (p.step n).2 = .done false → M n (after false)) :
    M (p.step n).1 ((p.step n).2.call within after) := by
  refine p.call_cases hnext fun changed hp => ?_
  rw [← p.step_node]
  cases changed with
  | true =>
    rw [node_of_done hp]
    exact htrue hp
  | false =>
    rw [node_of_failed hp]
    exact hfalse hp

end Call

theorem TerminateProcess.done_cases {ok : Bool} {t : TerminateProcess}
    (hdone : (t.step ok n).2 = .done ()) : t = .release ∨
      ∃ p, t = .setTerminating p ∧ (p.step n).2 = .done false ∧ (t.step ok n).1 = n := by
  cases t with
  | setTerminating p =>
    refine .inr ⟨p, rfl, ?_⟩
    simp only [TerminateProcess.step] at hdone ⊢
    cases hp : (p.step n).2 with
    | next p' =>
      rw [hp] at hdone
      cases hdone
    | done changed =>
      rw [hp] at hdone
      cases changed with
      | false => exact ⟨rfl, node_of_failed hp⟩
      | true => cases hdone
  | release => exact .inl rfl
  | _ => cases hdone

theorem SetState.ended_of_done {p : SetState .terminated} {changed : Bool}
    (hmiss : ¬ p.Misses n.toCustody) (hdone : (p.step n).2 = .done changed) :
    (n.apply (p.access n.toCustody)).processState.Ended := by
  cases p with
  | load =>
    rw [SetState.step] at hdone
    split_ifs at hdone with hmay hidle
    exact ProcessState.ended_of_not_mayBecome hmay
  | cas old hmay =>
    rw [SetState.access, if_pos (not_not.mp hmiss)]
    exact .inl rfl
  | store h => cases h

end SetState

section Handling
variable (c : ComponentConfig) (process : Nat) (status : Int) (n : Node)

/-- A step of `tryHandleTermination`, with what it has read. -/
inductive TryHandleTermination.Moves :
    TryHandleTermination → Node → Progress TryHandleTermination TerminationResult → Prop where
  | storeStatus : Moves .storeStatus { n with exitStatus := status } (.next .storeResult)
  | storeResult : Moves .storeResult
      ({ n with terminationResult := some (c.terminationResult status) }.update
        (n.modify process ({ · with result := some (c.terminationResult status) })))
      (.next .exchange)
  | request (h : n.terminationRequested = true) :
      Moves .exchange { n with terminationRequested := false } (.next (.requested .load))
  | noRequest (h : n.terminationRequested = false) :
      Moves .exchange { n with terminationRequested := false } (.next .casStarting)
  | requested {p p' : SetState .terminated} (h : (p.step n).2 = .next p') :
      Moves (.requested p) n (.next (.requested p'))
  | requestedEnd {p : SetState .terminated} {changed : Bool} (h : (p.step n).2 = .done changed) :
      Moves (.requested p) (n.update (n.apply (p.access n.toCustody))) (.next (.terminated .ignore))
  | starting (h : n.processState = .starting) :
      Moves .casStarting (n.update (n.enter .terminated)) (.next (.terminated .ignore))
  | notStarting (h : n.processState ≠ .starting) : Moves .casStarting n (.next (.normal .load))
  | normal {p p' : SetState .terminated} (h : (p.step n).2 = .next p') :
      Moves (.normal p) n (.next (.normal p'))
  | normalEnd {p : SetState .terminated} {changed : Bool} (h : (p.step n).2 = .done changed) :
      Moves (.normal p) (n.update (n.apply (p.access n.toCustody))) (.next .branch)
  | completion (h : n.terminationResult = some .ignore) (hcond : c.readyCondition = .terminated) :
      Moves .branch n (.next .testAndSet)
  | ignored (h : n.terminationResult = some .ignore) : Moves .branch n (.next (.terminated .ignore))
  | unexpected (h : n.terminationResult ≠ some .ignore) :
      Moves .branch n (.next (.terminated .failure))
  | reported : Moves .testAndSet { n with successReturned := true } (.next (.terminated .ignore))
  | unreported : Moves .testAndSet { n with successReturned := true } (.next .storeReady)
  | storeReady : Moves .storeReady { n with reachedReady := true } (.next (.terminated .ignore))
  | terminated (result : TerminationResult) : Moves (.terminated result)
      ({ n with isTerminated := true }.update (n.handle process result)) (.done result)

theorem TryHandleTermination.moves (h : TryHandleTermination) :
    h.Moves c process status n (h.step c process status n).1 (h.step c process status n).2 := by
  cases h with
  | storeStatus => exact .storeStatus
  | storeResult => exact .storeResult
  | exchange =>
    simp only [TryHandleTermination.step]
    split_ifs with h
    · exact .request h
    · exact .noRequest (Bool.eq_false_iff.mpr h)
  | requested p => exact p.call_cases (fun _ => .requested) fun _ => .requestedEnd
  | casStarting =>
    rw [TryHandleTermination.step]
    split_ifs with h
    · exact .starting h
    · exact .notStarting h
  | normal p => exact p.call_cases (fun _ => .normal) fun _ => .normalEnd
  | branch =>
    simp only [TryHandleTermination.step]
    split_ifs with h hcond
    · exact .completion h hcond
    · exact .ignored h
    · exact .unexpected h
  | testAndSet =>
    simp only [TryHandleTermination.step]
    split_ifs
    · exact .reported
    · exact .unreported
  | storeReady => exact .storeReady
  | terminated result => exact .terminated result

variable {c process status n} {n' : Node} {h h' : TryHandleTermination}

theorem TryHandleTermination.Moves.reachedReady
    {r : Progress TryHandleTermination TerminationResult} (hm : h.Moves c process status n n' r)
    (hne : h ≠ .storeReady) : n'.reachedReady = n.reachedReady := by
  cases hm with
  | storeReady => exact absurd rfl hne
  | _ => rfl

theorem TryHandleTermination.Moves.eq_terminated {result : TerminationResult}
    (hm : h.Moves c process status n n' (.done result)) : h = .terminated result := by
  cases hm
  rfl

theorem TryHandleTermination.Moves.isTerminated (hm : h.Moves c process status n n' (.next h')) :
    n'.isTerminated = n.isTerminated := by
  cases hm <;> rfl

theorem TryHandleTermination.Moves.pre (hm : h.Moves c process status n n' (.next h'))
    (hpre : h'.pre = true) : h.pre = true ∧ n'.processState = n.processState := by
  cases hm with
  | storeStatus | storeResult | request | noRequest | requested | notStarting | normal =>
    exact ⟨rfl, rfl⟩
  | _ => cases hpre

theorem TryHandleTermination.Moves.ended_of_noted (hm : h.Moves c process status n n' (.next h'))
    (hpre : h.pre = true) (hmiss : ¬ h.Misses n.toCustody) (hnoted : h'.pre = false) :
    n'.processState.Ended := by
  cases hm with
  | requestedEnd hp | normalEnd hp => exact ended_of_done hmiss hp
  | starting => exact .inl rfl
  | completion | ignored | unexpected | reported | unreported | storeReady => cases hpre
  | _ => cases hnoted

end Handling

section Activating
variable (c : ComponentConfig) (ok : Bool) (n : Node) (attempt : Nat)

/-- A step of `activate`, with what it has read. -/
inductive Activate.Moves : Activate → Node → Progress (Nat × Activate) RequestResult → Prop where
  | clear : Moves .clear { n with successReturned := false } (.next (attempt, .checkReady))
  | ready (h : n.reachedReady = true) : Moves .checkReady n (.next (attempt, .testAndSet))
  | unready (h : n.reachedReady = false) : Moves .checkReady n (.next (attempt, .setIdle .load))
  | setIdle {p p' : SetState .idle} (h : (p.step n).2 = .next p') :
      Moves (.setIdle p) n (.next (attempt, .setIdle p'))
  | idle {p : SetState .idle} (h : (p.step n).2 = .done true) :
      Moves (.setIdle p) (n.update (n.enter .idle)) (.next (attempt, .resetPid))
  | notIdle {p : SetState .idle} (h : (p.step n).2 = .done false) :
      Moves (.setIdle p) n (.next (attempt, .reportError .failure))
  | resetPid : Moves .resetPid (n.update { n.toCustody with pid := 0 })
      (.next (attempt, .resetStatus))
  | resetStatus : Moves .resetStatus { n with exitStatus := 0 } (.next (attempt, .resetResult))
  | resetResult : Moves .resetResult { n with terminationResult := none }
      (.next (attempt, .resetWaiter))
  | resetWaiter : Moves .resetWaiter { n with isTerminated := false }
      (.next (attempt, .setStarting .load))
  | setStarting {p p' : SetState .starting} (h : (p.step n).2 = .next p') :
      Moves (.setStarting p) n (.next (attempt, .setStarting p'))
  | starting {p : SetState .starting} {changed : Bool} (h : (p.step n).2 = .done changed) :
      Moves (.setStarting p) (n.update (n.apply (p.access n.toCustody))) (.next (attempt, .launch))
  | notLaunched : Moves .launch n (.next (attempt, .setFailed .load))
  | early (h : n.last.early = true) :
      Moves .insert (n.update (n.modify n.started ({ · with early := false })))
        (.next (attempt, .inline (n.last.exited.getD 0) .storeStatus))
  | insertedRunning (h : n.last.early = false) (hok : ok = true)
      (hcond : c.readyCondition ≠ .file) :
      Moves .insert (n.update (n.modify n.started ({ · with inserted := true })))
        (.next (attempt, .waitRunning))
  | insertedTerminated (h : n.last.early = false) (hok : ok = true)
      (hcond : c.readyCondition = .terminated) (hreporting : c.isReporting = false) :
      Moves .insert (n.update (n.modify n.started ({ · with inserted := true })))
        (.next (attempt, .waitTerminated))
  | insertedFile (h : n.last.early = false) (hok : ok = true) (hcond : c.readyCondition = .file) :
      Moves .insert (n.update (n.modify n.started ({ · with inserted := true })))
        (.next (attempt, .waitFile))
  | insertedStatus (h : n.last.early = false) (hok : ok = true)
      (hcond : c.readyCondition = .running) (hreporting : c.isReporting = false) :
      Moves .insert (n.update (n.modify n.started ({ · with inserted := true })))
        (.next (attempt, .loadStatus))
  | notInserted (h : n.last.early = false) (hok : ok = false) :
      Moves .insert n (.next (attempt, .terminateFatal (.setTerminating .load)))
  | inline {status : Int} {h h' : TryHandleTermination} {n' : Node}
      (hnext : h.Moves c n.started status n n' (.next h')) :
      Moves (.inline status h) n' (.next (attempt, .inline status h'))
  | inlineRetry (status : Int) (result : TerminationResult) (hreporting : c.isReporting = true)
      (hlt : attempt < c.activationRetryAttempts) :
      Moves (.inline status (.terminated result))
        ({ n with isTerminated := true }.update (n.handle n.started result))
        (.next (attempt + 1, .setIdle .load))
  | inlineError (status : Int) (result : TerminationResult) :
      Moves (.inline status (.terminated result))
        ({ n with isTerminated := true }.update (n.handle n.started result))
        (.next (attempt, .reportError .failure))
  | inlineRunning (status : Int) (result : TerminationResult) (hreporting : c.isReporting = false) :
      Moves (.inline status (.terminated result))
        ({ n with isTerminated := true }.update (n.handle n.started result))
        (.next (attempt, .setRunning .load))
  | waitRunningTerminated (hok : ok = true) :
      Moves .waitRunning n (.next (attempt, .waitTerminated))
  | waitRunningStatus (hok : ok = true) (hcond : c.readyCondition ≠ .terminated) :
      Moves .waitRunning n (.next (attempt, .loadStatus))
  | waitRunningState : Moves .waitRunning n (.next (attempt, .getState))
  | waitTerminatedStatus (h : n.isTerminated = true) :
      Moves .waitTerminated n (.next (attempt, .loadStatus))
  | waitTerminatedState : Moves .waitTerminated n (.next (attempt, .getState))
  | waitFileStatus (hok : ok = true) : Moves .waitFile n (.next (attempt, .loadStatus))
  | waitFileState : Moves .waitFile n (.next (attempt, .getState))
  | loadStatusRunning : Moves .loadStatus n (.next (attempt, .setRunning .load))
  | loadStatusState : Moves .loadStatus n (.next (attempt, .getState))
  | getStateRetry (h : n.processState = .terminated) (hlt : attempt < c.activationRetryAttempts) :
      Moves .getState n (.next (attempt + 1, .setIdle .load))
  | getStateError (h : n.processState = .terminated) :
      Moves .getState n (.next (attempt, .reportError .failure))
  | getStateTerminate : Moves .getState n (.next (attempt, .terminate (.setTerminating .load)))
  | terminate {t t' : TerminateProcess} (h : (t.step ok n).2 = .next t') :
      Moves (.terminate t) (t.step ok n).1 (.next (attempt, .terminate t'))
  | terminateRetry {t : TerminateProcess} (h : (t.step ok n).2 = .done ())
      (hlt : attempt < c.activationRetryAttempts) :
      Moves (.terminate t) (t.step ok n).1 (.next (attempt + 1, .setIdle .load))
  | terminateError {t : TerminateProcess} (h : (t.step ok n).2 = .done ()) :
      Moves (.terminate t) (t.step ok n).1 (.next (attempt, .reportError .timeout))
  | terminateFatal {t t' : TerminateProcess} (h : (t.step ok n).2 = .next t') :
      Moves (.terminateFatal t) (t.step ok n).1 (.next (attempt, .terminateFatal t'))
  | fatal {t : TerminateProcess} (h : (t.step ok n).2 = .done ()) :
      Moves (.terminateFatal t) (t.step ok n).1 (.next (attempt, .setFailed .load))
  | setFailed {p p' : SetState .failed} (h : (p.step n).2 = .next p') :
      Moves (.setFailed p) n (.next (attempt, .setFailed p'))
  | failed {p : SetState .failed} {changed : Bool} (h : (p.step n).2 = .done changed) :
      Moves (.setFailed p) (n.update (n.apply (p.access n.toCustody)))
        (.next (attempt, .reportError .failure))
  | setRunning {p p' : SetState .running} (h : (p.step n).2 = .next p') :
      Moves (.setRunning p) n (.next (attempt, .setRunning p'))
  | running {p : SetState .running} (h : (p.step n).2 = .done true)
      (hcond : c.readyCondition ≠ .terminated) :
      Moves (.setRunning p) (n.update (n.enter .running)) (.next (attempt, .testAndSet))
  | notCompleted {p : SetState .running} (h : (p.step n).2 = .done true)
      (hcond : c.readyCondition = .terminated) :
      Moves (.setRunning p) (n.update (n.enter .running)) (.done .failure)
  | notRunning {p : SetState .running} (h : (p.step n).2 = .done false) :
      Moves (.setRunning p) n (.next (attempt, .readResult))
  | normalEnd (h : n.terminationResult = some .ignore) :
      Moves .readResult n (.next (attempt, .testAndSet))
  | abnormalEnd : Moves .readResult n (.next (attempt, .reportError .failure))
  | unreported : Moves .testAndSet { n with successReturned := true } (.next (attempt, .storeReady))
  | reported (h : n.successReturned = true) :
      Moves .testAndSet { n with successReturned := true } (.done .failure)
  | storeReady : Moves .storeReady { n with reachedReady := true } (.done .success)
  | reportError (error : RequestResult) {result : RequestResult}
      (h : result = if n.successReturned then .failure else error) :
      Moves (.reportError error) { n with successReturned := true } (.done result)

abbrev Activate.StepMoves (pc : Activate) : Prop :=
  pc.Moves c ok n attempt (pc.step c attempt ok n).1 (pc.step c attempt ok n).2

variable {c ok n attempt}

theorem Activate.checkReady_moves : StepMoves c ok n attempt .checkReady := by
  simp only [StepMoves, Activate.step]
  split_ifs with hready
  · exact .ready hready
  · exact .unready (Bool.eq_false_iff.mpr hready)

theorem Activate.setIdle_moves (p : SetState .idle) : StepMoves c ok n attempt (.setIdle p) :=
  p.call_cases_changed (fun _ => .setIdle) .idle .notIdle

theorem Activate.setStarting_moves (p : SetState .starting) :
    StepMoves c ok n attempt (.setStarting p) :=
  p.call_cases (fun _ => .setStarting) fun _ => .starting

theorem Activate.firstWait_moves (hearly : n.last.early = false) (hok : ok = true) :
    Activate.insert.Moves c ok n attempt
      (n.update (n.modify n.started ({ · with inserted := true })))
      (.next (attempt, firstWait c)) := by
  rw [firstWait]
  split
  case h_1 hcond =>
    split_ifs with hreporting
    · exact .insertedRunning hearly hok (hcond ▸ by decide)
    · exact .insertedStatus hearly hok hcond (Bool.eq_false_iff.mpr hreporting)
  case h_2 hcond =>
    split_ifs with hreporting
    · exact .insertedRunning hearly hok (hcond ▸ by decide)
    · exact .insertedTerminated hearly hok hcond (Bool.eq_false_iff.mpr hreporting)
  case h_3 hcond => exact .insertedFile hearly hok hcond

theorem Activate.insert_moves : StepMoves c ok n attempt .insert := by
  rw [StepMoves, Activate.step]
  split_ifs with hearly hok
  · exact .early hearly
  · exact firstWait_moves (Bool.eq_false_iff.mpr hearly) hok
  · exact .notInserted (Bool.eq_false_iff.mpr hearly) (Bool.eq_false_iff.mpr hok)

theorem Activate.inline_moves (status : Int) (h : TryHandleTermination) :
    StepMoves c ok n attempt (.inline status h) := by
  have hm := h.moves c n.started status n
  simp only [StepMoves, Activate.step]
  generalize h.step c n.started status n = r at hm
  obtain ⟨n', h' | result⟩ := r
  · exact .inline hm
  · cases hm
    simp only [Progress.call, retry]
    split_ifs with hreporting hlt
    · exact .inlineRetry status result hreporting hlt
    · exact .inlineError status result
    · exact .inlineRunning status result (Bool.eq_false_iff.mpr hreporting)

theorem Activate.waitRunning_moves : StepMoves c ok n attempt .waitRunning := by
  simp only [StepMoves, Activate.step]
  split_ifs with hok hcond
  · exact .waitRunningTerminated hok
  · exact .waitRunningStatus hok hcond
  · exact .waitRunningState

theorem Activate.waitTerminated_moves : StepMoves c ok n attempt .waitTerminated := by
  simp only [StepMoves, Activate.step]
  split_ifs with hterminated
  · exact .waitTerminatedStatus hterminated
  · exact .waitTerminatedState

theorem Activate.waitFile_moves : StepMoves c ok n attempt .waitFile := by
  simp only [StepMoves, Activate.step]
  split_ifs with hok
  · exact .waitFileStatus hok
  · exact .waitFileState

theorem Activate.loadStatus_moves : StepMoves c ok n attempt .loadStatus := by
  simp only [StepMoves, Activate.step]
  split_ifs
  · exact .loadStatusRunning
  · exact .loadStatusState

theorem Activate.getState_moves : StepMoves c ok n attempt .getState := by
  simp only [StepMoves, Activate.step, retry]
  split_ifs with hstate hlt
  · exact .getStateRetry hstate hlt
  · exact .getStateError hstate
  · exact .getStateTerminate

theorem Activate.terminate_moves (t : TerminateProcess) :
    StepMoves c ok n attempt (.terminate t) := by
  simp only [StepMoves, Activate.step]
  cases ht : (t.step ok n).2 with
  | next t' => exact .terminate ht
  | done =>
    simp only [Progress.call, retry]
    split_ifs with hlt
    · exact .terminateRetry ht hlt
    · exact .terminateError ht

theorem Activate.terminateFatal_moves (t : TerminateProcess) :
    StepMoves c ok n attempt (.terminateFatal t) := by
  simp only [StepMoves, Activate.step]
  cases ht : (t.step ok n).2 with
  | next t' => exact .terminateFatal ht
  | done => exact .fatal ht

theorem Activate.setFailed_moves (p : SetState .failed) : StepMoves c ok n attempt (.setFailed p) :=
  p.call_cases (fun _ => .setFailed) fun _ => .failed

theorem Activate.setRunning_moves (p : SetState .running) :
    StepMoves c ok n attempt (.setRunning p) := by
  refine p.call_cases_changed (fun _ => .setRunning) (fun hp => ?_) .notRunning
  simp only [if_true]
  split_ifs with hcond
  · exact .notCompleted hp hcond
  · exact .running hp hcond

theorem Activate.readResult_moves : StepMoves c ok n attempt .readResult := by
  simp only [StepMoves, Activate.step]
  split_ifs with hresult
  · exact .normalEnd hresult
  · exact .abnormalEnd

theorem Activate.testAndSet_moves : StepMoves c ok n attempt .testAndSet := by
  simp only [StepMoves, Activate.step]
  split_ifs with hreturned
  · exact .reported hreturned
  · exact .unreported

variable (c ok n attempt)

theorem Activate.moves (pc : Activate) :
    pc.Moves c ok n attempt (pc.step c attempt ok n).1 (pc.step c attempt ok n).2 := by
  cases pc with
  | clear => exact .clear
  | checkReady => exact checkReady_moves
  | setIdle p => exact setIdle_moves p
  | resetPid => exact .resetPid
  | resetStatus => exact .resetStatus
  | resetResult => exact .resetResult
  | resetWaiter => exact .resetWaiter
  | setStarting p => exact setStarting_moves p
  | launch => exact .notLaunched
  | insert => exact insert_moves
  | inline status h => exact inline_moves status h
  | waitRunning => exact waitRunning_moves
  | waitTerminated => exact waitTerminated_moves
  | waitFile => exact waitFile_moves
  | loadStatus => exact loadStatus_moves
  | getState => exact getState_moves
  | terminate t => exact terminate_moves t
  | terminateFatal t => exact terminateFatal_moves t
  | setFailed p => exact setFailed_moves p
  | setRunning p => exact setRunning_moves p
  | readResult => exact readResult_moves
  | testAndSet => exact testAndSet_moves
  | storeReady => exact .storeReady
  | reportError error => exact .reportError error rfl

end Activating

/-- The acts of the worker and of the thread that reaps processes, and those of the system. -/
def Act.WithoutMain : Act → Prop
  | .takeEvent => False
  | .main _ => False
  | .forceKill => False
  | _ => True

instance : ∀ a : Act, Decidable a.WithoutMain
  | .takeEvent | .main _ | .forceKill => isFalse id
  | .begin _ | .worker _ | .launched _ | .exit _ _ | .reap _ | .reapEarly _ _ | .os =>
    isTrue trivial

/-- The point in `tryHandleTermination` at which the step is made. -/
def System.handling (s : System) : Act → Option TryHandleTermination
  | .os => s.os.map Handler.pc
  | .worker _ =>
    match s.worker with
    | some (.activate _ (.inline _ h)) => some h
    | _ => none
  | _ => none

namespace System
variable {c : ComponentConfig} {s s' : System}

/-- The steps of the three threads, with what they do to the threads. -/
inductive Moves (c : ComponentConfig) (s : System) : Act → System → Prop where
  | begin (type : ComponentTaskType) (hw : s.worker = none) :
      Moves c s (.begin type) { s with worker := some (.start type) }
  | worker (ok : Bool) (j : Job) (hw : s.worker = some j) :
      Moves c s (.worker ok) (s.workerStep c ok j)
  | launched (pid attempt : Nat) (hw : s.worker = some (.activate attempt .launch))
      (hpid : pid ≠ 0) :
      Moves c s (.launched pid) { s with
        node := s.node.update (s.node.launch pid), worker := some (.activate attempt .insert) }
  | exit (process : Nat) (status : Int) (hle : process ≤ s.node.started)
      (hexit : (s.node.processes process).exited = none) :
      Moves c s (.exit process status) { s with
        node := s.node.update (s.node.modify process ({ · with exited := some status })) }
  | reap (process : Nat) (status : Int) (hos : s.os = none) (hle : process ≤ s.node.started)
      (hin : (s.node.processes process).inserted = true)
      (hreaped : (s.node.processes process).reaped = false) :
      Moves c s (.reap process) { s with
        node := s.node.update (s.node.modify process ({ · with reaped := true }))
        os := some ⟨process, status, .storeStatus⟩ }
  | reapEarly (process : Nat) (room : Bool) (hos : s.os = none) (hle : process ≤ s.node.started)
      (hin : (s.node.processes process).inserted = false)
      (hreaped : (s.node.processes process).reaped = false) :
      Moves c s (.reapEarly process room) { s with
        node := s.node.update
          (s.node.modify process ({ · with reaped := true, early := room })) }
  | os (h : Handler) (hos : s.os = some h) : Moves c s .os (s.osStep c h)
  | takeEvent (hmain : s.main = none) (hpos : 0 < s.node.unexpected) :
      Moves c s .takeEvent { s with
        node := s.node.update { s.node.toCustody with unexpected := s.node.unexpected - 1 }
        main := some .clear }
  | main (ok : Bool) (pc : Deactivate) (hmain : s.main = some pc) :
      Moves c s (.main ok) (s.mainStep ok pc)
  | forceKill (hmain : s.main = none) :
      Moves c s .forceKill { s with node := s.node.update s.node.kill }

variable {a : Act}

theorem moves_of_step (hs : s.step c a = some s') : Moves c s a s' := by
  cases a with
  | begin type =>
    obtain ⟨hw, ⟨⟩⟩ := ite_none_right_eq_some.mp hs
    exact .begin type hw
  | worker ok =>
    obtain ⟨j, hw, rfl⟩ := map_eq_some_iff.mp hs
    exact .worker ok j hw
  | launched pid =>
    simp only [step] at hs
    split at hs
    · rename_i attempt hw
      obtain ⟨hpid, ⟨⟩⟩ := ite_none_right_eq_some.mp hs
      exact .launched pid attempt hw hpid
    · cases hs
  | exit process status =>
    obtain ⟨⟨_, hle, hexit⟩, ⟨⟩⟩ := ite_none_right_eq_some.mp hs
    exact .exit process status hle hexit
  | reap process =>
    simp only [step] at hs
    split at hs
    · rename_i status _
      obtain ⟨⟨hos, hle, hin, hreaped⟩, ⟨⟩⟩ := ite_none_right_eq_some.mp hs
      exact .reap process status hos hle hin (Bool.eq_false_iff.mpr hreaped)
    · cases hs
  | reapEarly process room =>
    obtain ⟨⟨hos, hle, _, hin, hreaped⟩, ⟨⟩⟩ := ite_none_right_eq_some.mp hs
    exact .reapEarly process room hos hle (Bool.eq_false_iff.mpr hin)
      (Bool.eq_false_iff.mpr hreaped)
  | os =>
    obtain ⟨h, hos, rfl⟩ := map_eq_some_iff.mp hs
    exact .os h hos
  | takeEvent =>
    obtain ⟨⟨hmain, hpos⟩, ⟨⟩⟩ := ite_none_right_eq_some.mp hs
    exact .takeEvent hmain hpos
  | main ok =>
    obtain ⟨pc, hmain, rfl⟩ := map_eq_some_iff.mp hs
    exact .main ok pc hmain
  | forceKill =>
    obtain ⟨hmain, ⟨⟩⟩ := ite_none_right_eq_some.mp hs
    exact .forceKill hmain

theorem step_custody (hs : s.step c a = some s') :
    s'.node.toCustody = s.node.apply (s.access c a) := by
  cases moves_of_step hs with
  | worker ok j hw =>
    rw [access, hw]
    exact j.step_custody c s.node ok
  | os h hos =>
    rw [access, hos]
    exact h.pc.step_custody c s.node h.process h.status
  | main ok pc hmain =>
    rw [access, hmain]
    exact pc.step_custody s.node ok
  | _ => rfl

/-- The accesses a step can make, with the point of the thread that makes them. -/
inductive Performs (s : System) : Act → Access → Prop where
  | flag {a : Act} : Performs s a .flag
  | kill {a : Act} : Performs s a .kill
  | activateIdle {ok : Bool} {attempt : Nat} {p : SetState .idle}
      (hw : s.worker = some (.activate attempt (.setIdle p))) (hp : p ≠ .load) :
      Performs s (.worker ok) (.enter .idle)
  | deactivateIdle {ok : Bool} {p : SetState .idle}
      (hw : s.worker = some (.deactivate (.setIdle p))) (hp : p ≠ .load) :
      Performs s (.worker ok) (.enter .idle)
  | mainIdle {ok : Bool} {p : SetState .idle} (hmain : s.main = some (.setIdle p)) :
      Performs s (.main ok) (.enter .idle)
  | resetPid {ok : Bool} {attempt : Nat} (hw : s.worker = some (.activate attempt .resetPid)) :
      Performs s (.worker ok) .resetPid
  | starting {ok : Bool} {attempt : Nat} {p : SetState .starting}
      (hw : s.worker = some (.activate attempt (.setStarting p))) :
      Performs s (.worker ok) (.enter .starting)
  | launch {attempt : Nat} (hw : s.worker = some (.activate attempt .launch)) (pid : Nat) :
      Performs s (.launched pid) (.launch pid)
  | takeEarly {ok : Bool} {attempt : Nat} (hw : s.worker = some (.activate attempt .insert)) :
      Performs s (.worker ok) .takeEarly
  | insert {ok : Bool} {attempt : Nat} (hw : s.worker = some (.activate attempt .insert)) :
      Performs s (.worker ok) .insert
  | running {ok : Bool} {attempt : Nat} {p : SetState .running}
      (hw : s.worker = some (.activate attempt (.setRunning p)))
      (hmay : s.node.processState.MayBecome .running) : Performs s (.worker ok) (.enter .running)
  | activateTerminating {ok : Bool} {attempt : Nat} {t : TerminateProcess}
      (hw : s.worker = some (.activate attempt (.terminate t)))
      (hmay : s.node.processState.MayBecome .terminating) :
      Performs s (.worker ok) (.enter .terminating)
  | fatalTerminating {ok : Bool} {attempt : Nat} {t : TerminateProcess}
      (hw : s.worker = some (.activate attempt (.terminateFatal t)))
      (hmay : s.node.processState.MayBecome .terminating) :
      Performs s (.worker ok) (.enter .terminating)
  | deactivateTerminating {ok : Bool} {t : TerminateProcess}
      (hw : s.worker = some (.deactivate (.terminate t)))
      (hmay : s.node.processState.MayBecome .terminating) :
      Performs s (.worker ok) (.enter .terminating)
  | mainTerminating {ok : Bool} {t : TerminateProcess} (hmain : s.main = some (.terminate t))
      (hmay : s.node.processState.MayBecome .terminating) :
      Performs s (.main ok) (.enter .terminating)
  | failed {ok : Bool} {attempt : Nat} {p : SetState .failed}
      (hw : s.worker = some (.activate attempt (.setFailed p))) :
      Performs s (.worker ok) (.enter .failed)
  | inlineTerminated {ok : Bool} {attempt : Nat} {status : Int} {h : TryHandleTermination}
      (hw : s.worker = some (.activate attempt (.inline status h))) (hpre : h.pre = true) :
      Performs s (.worker ok) (.enter .terminated)
  | osTerminated {h : Handler} (hos : s.os = some h) (hpre : h.pc.pre = true) :
      Performs s .os (.enter .terminated)
  | inlineRate {ok : Bool} {attempt : Nat} {status : Int}
      (hw : s.worker = some (.activate attempt (.inline status .storeResult)))
      (result : TerminationResult) : Performs s (.worker ok) (.rate s.node.started result)
  | osRate {process : Nat} {status : Int} (hos : s.os = some ⟨process, status, .storeResult⟩)
      (result : TerminationResult) : Performs s .os (.rate process result)
  | inlineHandle {ok : Bool} {attempt : Nat} {status : Int} {result : TerminationResult}
      (hw : s.worker = some (.activate attempt (.inline status (.terminated result)))) :
      Performs s (.worker ok) (.handle s.node.started result)
  | osHandle {process : Nat} {status : Int} {result : TerminationResult}
      (hos : s.os = some ⟨process, status, .terminated result⟩) :
      Performs s .os (.handle process result)
  | exit (process : Nat) (status : Int) : Performs s (.exit process status) (.exit process status)
  | reap {process : Nat} (hos : s.os = none) (hin : (s.node.processes process).inserted = true)
      (hreaped : (s.node.processes process).reaped = false) :
      Performs s (.reap process) (.reap process)
  | reapEarly {process : Nat} (hos : s.os = none)
      (hin : (s.node.processes process).inserted = false) (room : Bool) :
      Performs s (.reapEarly process room) (.reapEarly process room)
  | takeEvent : Performs s .takeEvent .takeEvent

variable {attempt pid : Nat} {ok : Bool}

theorem activate_performs {pc : Activate} (ok : Bool)
    (hw : s.worker = some (.activate attempt pc)) :
    Performs s (.worker ok) (pc.access c ok s.node.toCustody) := by
  cases pc with
  | setIdle p =>
    obtain h | ⟨h, hp, -⟩ := p.access_cases s.node.toCustody <;> rw [Activate.access, h]
    · exact .flag
    · exact .activateIdle hw hp
  | resetPid => exact .resetPid hw
  | setStarting p =>
    obtain h | ⟨h, -⟩ := p.access_cases s.node.toCustody <;> rw [Activate.access, h]
    · exact .flag
    · exact .starting hw
  | insert =>
    rw [Activate.access]
    split_ifs
    · exact .takeEarly hw
    · exact .insert hw
    · exact .flag
  | inline status h =>
    rcases h.access_cases c s.node.started status s.node.toCustody with
      heq | ⟨heq, hpre⟩ | ⟨result, heq, rfl⟩ | ⟨result, heq, rfl⟩ <;> rw [Activate.access, heq]
    · exact .flag
    · exact .inlineTerminated hw hpre
    · exact .inlineRate hw result
    · exact .inlineHandle hw
  | terminate t =>
    rcases t.access_cases s.node.toCustody with h | h | ⟨h, hmay⟩ <;> rw [Activate.access, h]
    · exact .flag
    · exact .kill
    · exact .activateTerminating hw hmay
  | terminateFatal t =>
    rcases t.access_cases s.node.toCustody with h | h | ⟨h, hmay⟩ <;> rw [Activate.access, h]
    · exact .flag
    · exact .kill
    · exact .fatalTerminating hw hmay
  | setFailed p =>
    obtain h | ⟨h, -⟩ := p.access_cases s.node.toCustody <;> rw [Activate.access, h]
    · exact .flag
    · exact .failed hw
  | setRunning p =>
    obtain h | ⟨h, -, hmay | ⟨⟨⟩⟩⟩ := p.access_cases s.node.toCustody <;> rw [Activate.access, h]
    · exact .flag
    · exact .running hw hmay
  | _ => exact .flag

theorem deactivate_performs {pc : Deactivate}
    (hidle : ∀ p, pc = .setIdle p → p ≠ .load → Performs s a (.enter .idle))
    (hterminating : ∀ t, pc = .terminate t → s.node.processState.MayBecome .terminating →
      Performs s a (.enter .terminating)) :
    Performs s a (pc.access s.node.toCustody) := by
  cases pc with
  | terminate t =>
    rcases t.access_cases s.node.toCustody with h | h | ⟨h, hmay⟩ <;> rw [Deactivate.access, h]
    · exact .flag
    · exact .kill
    · exact hterminating t rfl hmay
  | setIdle p =>
    obtain h | ⟨h, hp, -⟩ := p.access_cases s.node.toCustody <;> rw [Deactivate.access, h]
    · exact .flag
    · exact hidle p rfl hp
  | _ => exact .flag

theorem performs (hs : s.step c a = some s') : Performs s a (s.access c a) := by
  cases moves_of_step hs with
  | worker ok j hw =>
    rw [access, hw]
    cases j with
    | activate attempt pc => exact activate_performs ok hw
    | deactivate pc =>
      exact deactivate_performs (fun p heq hp => .deactivateIdle (heq ▸ hw) hp)
        fun t ht hmay => .deactivateTerminating (ht ▸ hw) hmay
  | launched pid attempt hw => exact .launch hw pid
  | os h hos =>
    rw [access, hos, elim_some]
    obtain ⟨process, status, pc⟩ := h
    rcases pc.access_cases c process status s.node.toCustody with
      heq | ⟨heq, hpre⟩ | ⟨result, heq, rfl⟩ | ⟨result, heq, rfl⟩ <;> rw [heq]
    · exact .flag
    · exact .osTerminated hos hpre
    · exact .osRate hos result
    · exact .osHandle hos
  | main ok pc hmain =>
    rw [access, hmain]
    exact deactivate_performs (fun p heq _ => .mainIdle (heq ▸ hmain))
      fun t ht hmay => .mainTerminating (ht ▸ hmain) hmay
  | begin => exact .flag
  | exit process status => exact .exit process status
  | reap process status hos _ hin hreaped => exact .reap hos hin hreaped
  | reapEarly process room hos _ hin => exact .reapEarly hos hin room
  | takeEvent => exact .takeEvent
  | forceKill => exact .kill

theorem eq_launched (hs : s.step c a = some s')
    (h : s.access c a = .launch pid) : a = .launched pid := by
  have hp := performs hs
  rw [h] at hp
  cases hp
  rfl

theorem last_of_launched (hs : s.step c (.launched pid) = some s') :
    s'.node.last = { pid := pid } := by
  rw [step_custody hs]
  exact update_self ..

theorem processes_of_launched {q : Nat} (hs : s.step c (.launched pid) = some s')
    (hq : q ≤ s.node.started) : s'.node.processes q = s.node.processes q := by
  rw [step_custody hs]
  exact update_of_ne (by omega) ..

theorem started_of_step (hs : s.step c a = some s') (ha : ∀ pid, a ≠ .launched pid) :
    s'.node.started = s.node.started := by
  rw [step_custody hs]
  exact s.node.apply_started fun pid hacc => ha pid (eq_launched hs hacc)

theorem processState_of_enter {new : ProcessState} (hs : s.step c a = some s')
    (hnew : s.access c a = .enter new) : s'.node.processState = new := by
  rw [step_custody hs, hnew]
  rfl

theorem processState_cases (hs : s.step c a = some s') :
    s'.node.processState = s.node.processState ∨
      ∃ new, s'.node.processState = new ∧ s.access c a = .enter new ∧
        Performs s a (.enter new) := by
  by_cases hnew : ∃ new, s.access c a = .enter new
  · obtain ⟨new, hnew⟩ := hnew
    exact .inr ⟨new, processState_of_enter hs hnew, hnew, hnew ▸ performs hs⟩
  · rw [step_custody hs]
    exact .inl (s.node.apply_processState fun new h => hnew ⟨new, h⟩)

theorem node_of_worker {j : Job} (hw : s.worker = some j)
    (hs : s.step c (.worker ok) = some s') : s'.node = (j.step c ok s.node).1 := by
  rw [step, hw] at hs
  cases hs
  rfl

theorem os_of_worker (hs : s.step c (.worker ok) = some s') : s'.os = s.os := by
  cases moves_of_step hs
  rfl

theorem node_of_os {h : Handler} (hos : s.os = some h) (hs : s.step c .os = some s') :
    s'.node = (h.pc.step c h.process h.status s.node).1 := by
  rw [step, hos] at hs
  cases hs
  rfl

theorem moves_of_os {h : Handler} (hos : s.os = some h) (hs : s.step c .os = some s') :
    (∃ pc', h.pc.Moves c h.process h.status s.node s'.node (.next pc') ∧
        s'.os = some { h with pc := pc' }) ∨
      ∃ result, h.pc.Moves c h.process h.status s.node s'.node (.done result) ∧ s'.os = none := by
  rw [step, hos] at hs
  cases hs
  have hm := h.pc.moves c h.process h.status s.node
  simp only [osStep]
  generalize h.pc.step c h.process h.status s.node = r at hm
  obtain ⟨n', pc' | result⟩ := r
  · exact .inl ⟨pc', hm, rfl⟩
  · exact .inr ⟨result, hm, rfl⟩

theorem activate_of_worker {pc : Activate}
    (hw : s.worker = some (.activate attempt pc)) (hs : s.step c (.worker ok) = some s') :
    (∃ attempt' pc', pc.Moves c ok s.node attempt s'.node (.next (attempt', pc')) ∧
        s'.worker = some (.activate attempt' pc')) ∨
      ∃ result, pc.Moves c ok s.node attempt s'.node (.done result) ∧ s'.worker = none ∧
        s'.returned = some (.activate, result) := by
  rw [step, hw] at hs
  cases hs
  have hm := pc.moves c ok s.node attempt
  simp only [workerStep, Job.step]
  generalize pc.step c attempt ok s.node = r at hm
  obtain ⟨n', ⟨attempt', pc'⟩ | result⟩ := r
  · exact .inl ⟨attempt', pc', hm, rfl⟩
  · exact .inr ⟨result, hm, rfl, rfl⟩

theorem deactivate_of_worker {pc : Deactivate} (hw : s.worker = some (.deactivate pc))
    (hs : s.step c (.worker ok) = some s') :
    (∃ pc', (pc.step ok s.node).2 = .next pc' ∧ s'.worker = some (.deactivate pc')) ∨
      ∃ result, (pc.step ok s.node).2 = .done result ∧ s'.worker = none ∧
        s'.returned = some (.deactivate, result) := by
  rw [step, hw] at hs
  cases hs
  simp only [workerStep, Job.step]
  generalize pc.step ok s.node = r
  obtain ⟨n', pc' | result⟩ := r
  · exact .inl ⟨pc', rfl, rfl⟩
  · exact .inr ⟨result, rfl, rfl, rfl⟩

theorem handler_cases {h' : Handler} (hs : s.step c a = some s') (hos' : s'.os = some h') :
    s.os = some h' ∧ a ≠ .os ∨
      (∃ process status, a = .reap process ∧ h' = ⟨process, status, .storeStatus⟩ ∧ s.os = none ∧
        process ≤ s.node.started ∧ (s.node.processes process).inserted = true ∧
        (s.node.processes process).reaped = false) ∨
      ∃ h pc', a = .os ∧ s.os = some h ∧ h' = { h with pc := pc' } ∧
        h.pc.Moves c h.process h.status s.node s'.node (.next pc') := by
  cases moves_of_step hs with
  | reap process status hos hle hin hreaped =>
    cases hos'
    exact .inr (.inl ⟨process, status, rfl, rfl, hos, hle, hin, hreaped⟩)
  | os h hos =>
    obtain ⟨pc', hm, hpc'⟩ | ⟨_, -, hnone⟩ := moves_of_os hos hs
    · cases hpc'.symm.trans hos'
      exact .inr (.inr ⟨h, pc', rfl, hos, rfl, hm⟩)
    · cases hnone.symm.trans hos'
  | _ => exact .inl ⟨hos', nofun⟩

theorem started_of_handler (hi : ∀ h, s.os = some h → h.process ≤ s.node.started)
    (hs : s.step c a = some s') (h' : Handler) (hos' : s'.os = some h') :
    h'.process ≤ s'.node.started := by
  have hle : s.node.started ≤ s'.node.started := step_custody hs ▸ s.node.started_le_apply _
  rcases handler_cases hs hos' with
    ⟨hos, -⟩ | ⟨_, _, -, rfl, -, hp, -⟩ | ⟨h, pc', -, hos, rfl, -⟩
  · exact (hi h' hos).trans hle
  · exact hp.trans hle
  · exact (hi h hos).trans hle

theorem activate_cases {attempt' : Nat} {pc' : Activate} (hs : s.step c a = some s')
    (hw' : s'.worker = some (.activate attempt' pc')) :
    s.worker = some (.activate attempt' pc') ∧ (∀ ok, a ≠ .worker ok) ∨
      s.worker = none ∧ pc' = .clear ∨
      (∃ pid, a = .launched pid ∧ s.worker = some (.activate attempt' .launch) ∧ pc' = .insert) ∨
      ∃ ok attempt pc, a = .worker ok ∧ s.worker = some (.activate attempt pc) ∧
        pc.Moves c ok s.node attempt s'.node (.next (attempt', pc')) := by
  cases moves_of_step hs with
  | begin type hw =>
    cases type <;> cases hw'
    exact .inr (.inl ⟨hw, rfl⟩)
  | worker ok j hw =>
    cases j with
    | activate attempt pc =>
      obtain ⟨_, _, hm, hw₁⟩ | ⟨_, -, hw₁, -⟩ := activate_of_worker hw hs
      · cases hw₁.symm.trans hw'
        exact .inr (.inr (.inr ⟨ok, attempt, pc, rfl, hw, hm⟩))
      · cases hw₁.symm.trans hw'
    | deactivate pc =>
      obtain ⟨_, -, hw₁⟩ | ⟨_, -, hw₁, -⟩ := deactivate_of_worker hw hs <;>
        cases hw₁.symm.trans hw'
  | launched pid attempt hw hpid =>
    cases hw'
    exact .inr (.inr (.inl ⟨pid, rfl, hw, rfl⟩))
  | _ => exact .inl ⟨hw', fun _ => nofun⟩

theorem deactivate_cases {pc' : Deactivate} (hs : s.step c a = some s')
    (hw' : s'.worker = some (.deactivate pc')) :
    s.worker = some (.deactivate pc') ∧ (∀ ok, a ≠ .worker ok) ∨
      s.worker = none ∧ pc' = .clear ∨
      ∃ ok pc, a = .worker ok ∧ s.worker = some (.deactivate pc) ∧
        (pc.step ok s.node).2 = .next pc' := by
  cases moves_of_step hs with
  | begin type hw =>
    cases type <;> cases hw'
    exact .inr (.inl ⟨hw, rfl⟩)
  | worker ok j hw =>
    cases j with
    | activate attempt pc =>
      obtain ⟨_, _, -, hw₁⟩ | ⟨_, -, hw₁, -⟩ := activate_of_worker hw hs <;>
        cases hw₁.symm.trans hw'
    | deactivate pc =>
      obtain ⟨_, hnext, hw₁⟩ | ⟨_, -, hw₁, -⟩ := deactivate_of_worker hw hs
      · cases hw₁.symm.trans hw'
        exact .inr (.inr ⟨ok, pc, rfl, hw, hnext⟩)
      · cases hw₁.symm.trans hw'
  | launched pid attempt hw hpid => cases hw'
  | _ => exact .inl ⟨hw', fun _ => nofun⟩

/-- The end of the process that was started last is past the point where the state changes. -/
def Noted (s : System) : Prop :=
  (∃ h, s.os = some h ∧ h.process = s.node.started ∧ h.pc.pre = false) ∨
    ∃ attempt status h, s.worker = some (.activate attempt (.inline status h)) ∧ h.pre = false

theorem noted_of_step (hstarted : ∀ h, s.os = some h → h.process ≤ s.node.started)
    (hmiss : ∀ h ∈ s.handling a, ¬ h.Misses s.node.toCustody) (hs : s.step c a = some s')
    (hnoted : s'.Noted) :
    (∀ pid, a ≠ .launched pid) ∧ s.Noted ∨ s'.node.processState.Ended := by
  rcases hnoted with ⟨h', hos', hp, hpre⟩ | ⟨attempt', status, h', hw', hpre⟩
  · rcases handler_cases hs hos' with ⟨hos, -⟩ | ⟨_, _, -, rfl, -⟩ | ⟨h, pc', rfl, hos, rfl, hnext⟩
    · have ha : ∀ pid, a ≠ .launched pid := by
        rintro pid rfl
        have hnew : s'.node.started = s.node.started + 1 := by rw [step_custody hs]; rfl
        have := hstarted h' hos
        omega
      exact .inl ⟨ha, .inl ⟨h', hos, hp.trans (started_of_step hs ha), hpre⟩⟩
    · cases hpre
    · cases hbefore : h.pc.pre with
      | false =>
        have hsame := hp.trans (started_of_step hs fun _ => nofun)
        exact .inl ⟨fun _ => nofun, .inl ⟨h, hos, hsame, hbefore⟩⟩
      | true =>
        have hread : ¬ h.pc.Misses s.node.toCustody := hmiss h.pc (by rw [handling, hos]; rfl)
        exact .inr (hnext.ended_of_noted hbefore hread hpre)
  · rcases activate_cases hs hw' with
      ⟨hw, -⟩ | ⟨-, ⟨⟩⟩ | ⟨_, -, -, ⟨⟩⟩ | ⟨ok, attempt, pc, rfl, hw, hnext⟩
    · refine .inl ⟨?_, .inr ⟨_, _, _, hw, hpre⟩⟩
      rintro pid rfl
      cases moves_of_step hs with
      | launched _ _ hlaunch => cases hlaunch.symm.trans hw
    · generalize s'.node = n' at hnext
      cases hnext with
      | early => cases hpre
      | @inline _ h _ _ hnext =>
        cases hbefore : h.pre with
        | false => exact .inl ⟨fun _ => nofun, .inr ⟨_, _, _, hw, hbefore⟩⟩
        | true =>
          have hread : ¬ h.Misses s.node.toCustody := hmiss h (by rw [handling, hw]; rfl)
          exact .inr (hnext.ended_of_noted hbefore hread hpre)

/-- If an idle component becomes neither running nor terminating, only the announcement of a start
brings it to life. -/
theorem live_of_step
    (hidle : s.access c a = .enter .running ∨ s.access c a = .enter .terminating →
      s.node.processState ≠ .idle)
    (hs : s.step c a = some s') (hlive : s'.node.processState.Live) :
    s.node.processState.Live ∨ ∃ attempt, s'.worker = some (.activate attempt .launch) := by
  rcases processState_cases hs with hstate | ⟨new, hstate, hnew, hp⟩
  · exact .inl (hstate ▸ hlive)
  rw [hstate] at hlive
  cases hp with
  | running _ hmay => exact .inl (hmay.live (.inl rfl) (hidle (.inl hnew)))
  | activateTerminating _ hmay | fatalTerminating _ hmay | deactivateTerminating _ hmay
  | mainTerminating _ hmay => exact .inl (hmay.live (.inr rfl) (hidle (.inr hnew)))
  | starting hw =>
    rw [access, hw] at hnew
    obtain ⟨_, _, hm, hworker⟩ | ⟨_, hm, -⟩ := activate_of_worker hw hs <;>
      generalize s'.node = n' at hm
    · cases hm with
      | setStarting hp => cases hp.symm.trans (done_of_access hnew)
      | starting => exact .inr ⟨_, hworker⟩
    · cases hm
  | _ => exact absurd hlive (by decide)

end System

def sampleConfig : ComponentConfig := ⟨false, false, .running, 0⟩

def sampleStart : List Act :=
  Act.begin .activate :: List.replicate 10 (Act.worker true) ++
    Act.launched 7 :: List.replicate 6 (Act.worker true)

end LaunchManager.ProcessInfoNode
