import LaunchManager.Component.Terminations
import LaunchManager.ProcessInfoNode.RunningReport

/-!
# Activation with a Running report

A component whose ready condition is the Running report of its process. `activate` waits on the
semaphores of a handle of its own, while `tryHandleTermination` invalidates the handle of the state
and posts on the same semaphore as the process. If the process fails before its report was posted,
the wait ends without success. Once the report is there, or if no timeout is configured, the post
of `tryHandleTermination` is taken for the final post of the process.
-/

namespace LaunchManager

open Option List

set_option autoImplicit false

open Runs

namespace Handshake

/-- A single further post does not make `waitForkRunning` succeed; `timeout` is its argument. -/
def Doomed (h : Handshake) (timeout : Option Nat) : Prop :=
  match h.launcher with
  | .before | .waitingReport _ => h.sendSync = 0 ∧ timeout ≠ none
  | .postingReply r => r = .fail
  | .waitingFinal _ => False
  | .deinit r | .returned r => r ≠ .success

instance (h : Handshake) (timeout : Option Nat) : Decidable (h.Doomed timeout) :=
  match hpc : h.launcher with
  | .before => decidable_of_iff (h.sendSync = 0 ∧ timeout ≠ none) (by rw [Doomed, hpc])
  | .waitingReport _ => decidable_of_iff (h.sendSync = 0 ∧ timeout ≠ none) (by rw [Doomed, hpc])
  | .postingReply r => decidable_of_iff (r = .fail) (by rw [Doomed, hpc])
  | .waitingFinal _ => isFalse (by rw [Doomed, hpc]; exact id)
  | .deinit r => decidable_of_iff (r ≠ .success) (by rw [Doomed, hpc])
  | .returned r => decidable_of_iff (r ≠ .success) (by rw [Doomed, hpc])

/-- `waitForkRunning` will not succeed unless there are further posts. -/
def Lost (h : Handshake) (timeout : Option Nat) : Prop :=
  match h.launcher with
  | .before => h.sendSync ≤ 1 ∧ timeout ≠ none
  | .waitingReport _ => h.sendSync ≤ 1 ∧ h.timeout ≠ none
  | .postingReply r => r = .fail ∨ h.sendSync = 0 ∧ h.timeout ≠ none
  | .waitingFinal _ => h.sendSync = 0
  | .deinit r | .returned r => r ≠ .success

def Timed (h : Handshake) : Prop := ∀ deadline, h.launcher = .waitingReport deadline →
  h.timeout ≠ none

section Lost
variable {h h' : Handshake} {timeout : Option Nat}

theorem Timed.congr (hi : h.Timed) (hlauncher : h'.launcher = h.launcher)
    (htimeout : h'.timeout = h.timeout) : h'.Timed := by
  intro deadline hpc
  rw [htimeout]
  exact hi deadline (hlauncher.symm.trans hpc)

theorem timeout_unblock (h : Handshake) : h.unblock.timeout = h.timeout := by
  rw [unblock]
  split <;> rfl

theorem timeout_of_step {a : Act} (ha : ∀ a', a ≠ .launcher a') (hs : h.step a = some h') :
    h'.timeout = h.timeout := by
  cases a with
  | tick time =>
    obtain ⟨-, heq⟩ := ite_none_right_eq_some.mp hs
    cases heq
    rfl
  | launcher a => exact absurd rfl (ha a)
  | client a => cases clientStep_of_step hs <;> rfl

theorem Timed.step (hi : h.Timed) {a : Act} (hs : h.step a = some h') : h'.Timed := by
  by_cases ha : ∃ a', a = .launcher a'
  · obtain ⟨a', rfl⟩ := ha
    intro deadline hpc
    cases launcherStep_of_step hs with
    | start => rintro ⟨⟩
    | _ => cases hpc
  · have ha' : ∀ a', a ≠ .launcher a' := fun a' heq => ha ⟨a', heq⟩
    exact hi.congr (launcher_of_step ha' hs) (timeout_of_step ha' hs)

/-- The post of `tryHandleTermination` is the only one that is left. -/
theorem Doomed.unblock (hd : h.Doomed timeout) (hi : h.Timed) : h.unblock.Lost timeout := by
  have hsend : h.unblock.sendSync ≤ h.sendSync + 1 := by
    rw [Handshake.unblock]
    split
    · exact Nat.le_succ _
    · exact Nat.le_refl _
  unfold Doomed at hd
  unfold Lost
  rw [launcher_unblock, timeout_unblock]
  split at hd
  case h_1 => exact ⟨by omega, hd.2⟩
  case h_2 deadline hpc => exact ⟨by omega, hi deadline hpc⟩
  case h_3 => exact .inl hd
  case h_4 => exact hd.elim
  case h_5 => exact hd
  case h_6 => exact hd

theorem Lost.tick (hl : h.Lost timeout) {time : Nat} (hs : h.step (.tick time) = some h') :
    h'.Lost timeout := by
  obtain ⟨-, heq⟩ := ite_none_right_eq_some.mp hs
  cases heq
  exact hl

theorem launcher_of_waitForkRunning {sync : Bool} {t : Nat} (hpc : h.launcher = .before)
    (hs : h.stepLauncher (.waitForkRunning sync (some t)) = some h') :
    h'.launcher ≠ .postingReply .success := by
  simp only [stepLauncher, hpc] at hs
  cases sync with
  | false | true =>
    cases hs
    rintro ⟨⟩

theorem launcher_of_failed {a : LauncherAct} (hpc : h.launcher = .postingReply .fail)
    (hs : h.stepLauncher a = some h') : h'.launcher = .deinit .fail := by
  cases a with
  | post ok =>
    simp only [stepLauncher, hpc, ite_self, true_or, if_true] at hs
    cases hs
    rfl
  | waitForkRunning | wait | deinit =>
    simp only [stepLauncher, hpc] at hs
    cases hs

theorem stepLauncher_returned {r : OsalReturn} (hpc : h.launcher = .returned r) (a : LauncherAct) :
    h.stepLauncher a = none := by
  cases a <;> simp only [stepLauncher, hpc]

theorem Lost.launcher (hl : h.Lost timeout) {a : LauncherAct}
    (ha : ∀ sync t, a = .waitForkRunning sync t → t = timeout) (hs : h.stepLauncher a = some h') :
    h'.Lost timeout := by
  unfold Lost at hl
  cases launcherStep_of_step hs with
  | invalid hpc => rintro ⟨⟩
  | start t hpc =>
    rw [hpc] at hl
    exact ⟨hl.1, by rintro ⟨⟩⟩
  | ignore hpc =>
    rw [hpc] at hl
    obtain ⟨t, rfl⟩ := ne_none_iff_exists'.mp hl.2
    cases a with
    | waitForkRunning sync t' =>
      obtain rfl := ha sync t' rfl
      exact absurd rfl (launcher_of_waitForkRunning hpc hs)
    | wait | post | deinit =>
      simp only [stepLauncher, hpc] at hs
      cases hs
  | report d o value r hpc hwait =>
    rw [hpc] at hl
    rcases timedWait_cases hwait with ⟨-, hvalue, -⟩ | ⟨-, -, hvalue, -⟩ | ⟨-, -, hr⟩
    · exact .inr ⟨by simp only; omega, hl.2⟩
    · exact .inr ⟨hvalue, hl.2⟩
    · exact .inl hr
  | replied r t hpc hr htimeout =>
    rw [hpc] at hl
    exact (hl.resolve_left hr).1
  | leave r r' reply hpc hr' =>
    rw [hpc] at hl
    rcases hl with rfl | ⟨-, htimeout⟩
    · cases launcher_of_failed hpc hs
      rintro ⟨⟩
    · obtain rfl := hr'.resolve_right htimeout
      rintro ⟨⟩
  | final d o value r hpc hwait =>
    rw [hpc] at hl
    rcases timedWait_cases hwait with ⟨-, hvalue, -⟩ | ⟨-, -, -, rfl⟩ | ⟨-, -, rfl⟩
    · have hzero : h.sendSync = 0 := hl
      omega
    · rintro ⟨⟩
    · rintro ⟨⟩
  | deinit r hpc =>
    rw [hpc] at hl
    exact hl

end Lost

end Handshake

namespace Component

/-- The semaphores of every process; `timeout` is that of the ready condition. `early` records the
processes that failed, and whose termination was handled before `activate` had the mutex again. -/
structure Reporting where
  threads : Threads
  timeout : Option Nat
  channel : Nat → Handshake := fun _ => {}
  early : List Nat := []

inductive ReportingAct where
  | component (a : Act)
  | channel (p : Nat) (a : Handshake.Act)
  deriving DecidableEq, Repr

namespace Reporting

def waitResult (s : Reporting) (call : Nat) : Option Bool :=
  match s.threads.calls[call]? with
  | some (.waiting (.process pid sync)) =>
    match (s.channel sync).launcher with
    | .returned result => some (decide (result = .success ∧ 0 < pid))
    | .before | .waitingReport _ | .postingReply _ | .waitingFinal _ | .deinit _ => none
  | some (.waiting .empty) | some .waited | some (.returned _) | none => none

/-- The component has the start action of a process, and the ready condition accepts every
termination. -/
def Performs (s : Reporting) : Act → Prop
  | .activate start => start ≠ some .empty
  | .wait call ok => s.waitResult call = some ok
  | .tryHandleTermination _ _ _ accepted => accepted = true
  | .resume _ _ | .requestStop _ | .deactivate _ _ => True

instance (s : Reporting) : ∀ a, Decidable (s.Performs a)
  | .activate _ => inferInstanceAs (Decidable (_ ≠ _))
  | .wait _ _ => inferInstanceAs (Decidable (_ = _))
  | .tryHandleTermination _ _ _ _ => inferInstanceAs (Decidable (_ = _))
  | .resume _ _ | .requestStop _ | .deactivate _ _ => isTrue trivial

/-- `ReportRunningReadyCondition::tryHandleTermination` posts on the semaphore of the handle. -/
def post (s : Reporting) : Act → Nat → Handshake
  | .tryHandleTermination _ _ _ _ =>
    match s.threads.members.state with
    | .starting (.process _ sync) _ => Function.update s.channel sync (s.channel sync).unblock
    | .starting .empty _ | .terminated | .ready _ | .terminating _ | .fault _ => s.channel
  | .activate _ | .wait _ _ | .resume _ _ | .requestStop _ | .deactivate _ _ => s.channel

instance (s : Threads) (call : Nat) : Decidable (s.Pending call) :=
  match h : s.calls[call]? with
  | some .waited => isTrue (.inl h)
  | some (.waiting handle) => isTrue (.inr ⟨handle, h⟩)
  | some (.returned _) => isFalse (by simp [Threads.Pending, h])
  | none => isFalse (by simp [Threads.Pending, h])

def record (s : Reporting) (a : Act) (threads : Threads) : List Nat :=
  match a with
  | .tryHandleTermination p status _ _ =>
    if status ≠ 0 ∧ s.threads.Pending p ∧ threads.aborted = none then p :: s.early else s.early
  | .activate _ | .wait _ _ | .resume _ _ | .requestStop _ | .deactivate _ _ => s.early

/-- A call that waits calls `waitForkRunning`, and a process takes part while it runs. -/
def Enabled (s : Reporting) (p : Nat) : Handshake.Act → Prop
  | .launcher (.waitForkRunning sync timeout) =>
    s.threads.Pending p ∧ sync = true ∧ timeout = s.timeout
  | .launcher (.wait _) | .launcher (.post _) | .launcher .deinit | .tick _ => True
  | .client _ => s.threads.Outstanding p

instance (s : Reporting) (p : Nat) : ∀ a, Decidable (s.Enabled p a)
  | .launcher (.waitForkRunning _ _) => inferInstanceAs (Decidable (_ ∧ _ ∧ _))
  | .launcher (.wait _) | .launcher (.post _) | .launcher .deinit | .tick _ => isTrue trivial
  | .client _ => inferInstanceAs (Decidable (s.threads.Outstanding p))

def step (s : Reporting) : ReportingAct → Option Reporting
  | .component a =>
    if s.Performs a then
      (s.threads.step a).map fun threads =>
        { s with threads, channel := s.post a, early := s.record a threads }
    else none
  | .channel p a =>
    if s.Enabled p a then
      ((s.channel p).step a).map fun h => { s with channel := Function.update s.channel p h }
    else none

end Reporting

/-! ## The calls of `activate` -/

namespace Threads

/-- How the state and the calls of `activate` belong together: the state is that of the last call,
and a call between its two sections is the one that starts, unless it was asked to stop. -/
structure Ordered (s : Threads) : Prop where
  latest : ∀ p, s.members.state.process? = some p → p + 1 = s.calls.length
  source : ∀ handle i, s.members.state = .starting handle i → handle.process? = some i
  waiting : ∀ (i : Nat) handle, s.calls[i]? = some (.waiting handle) → handle.process? = some i
  pending : ∀ i, s.Pending i → i ∈ s.members.stopRequested ∨
    (∃ handle, s.members.state = .starting handle i) ∨ ∃ handle, s.members.state = .fault handle
  ready : ∀ handle, s.members.state = .ready handle →
    ∃ p : Nat, handle.process? = some p ∧ s.calls[p]? = some (.returned .success)

section Ordered
variable {s s' : Threads} {a : Act}
variable {i call : Nat} {c d : Activation} {handle : Handle}

theorem lt_of_getElem? (h : s.calls[i]? = some c) : i < s.calls.length :=
  (List.getElem?_eq_some_iff.mp h).1

theorem getElem?_concat (h : (s.calls ++ [d])[i]? = some c) :
    s.calls[i]? = some c ∨ i = s.calls.length ∧ c = d := by
  rcases Nat.lt_trichotomy i s.calls.length with hlt | rfl | hgt
  · exact .inl ((List.getElem?_append_left hlt).symm.trans h)
  · exact .inr ⟨rfl, (Option.some.inj (List.getElem?_concat_length.symm.trans h)).symm⟩
  · rw [List.getElem?_eq_none (by rw [length_append]; exact hgt)] at h
    cases h

theorem getElem?_set_cases (h : (s.calls.set call d)[i]? = some c) :
    i = call ∧ c = d ∨ i ≠ call ∧ s.calls[i]? = some c := by
  rw [List.getElem?_set] at h
  split at h
  · rename_i heq
    split at h
    · exact .inl ⟨heq.symm, (Option.some.inj h).symm⟩
    · cases h
  · rename_i hne
    exact .inr ⟨fun heq => hne heq.symm, h⟩

/-- How a call gets its value: it is as before, or the step adds or changes it. -/
inductive CallStep (s : Threads) (a : Act) (s' : Threads) (i : Nat) : Activation → Prop
  | same {c : Activation} (hcall : s.calls[i]? = some c) : CallStep s a s' i c
  | started {resource : Resource} {handle : Handle} (ha : a = .activate (some resource))
    (hhandle : handle = resource.handle i) (hstate : s'.members.state = .starting handle i) :
    CallStep s a s' i (.waiting handle)
  | waited {handle : Handle} (ha : a = .wait i true)
    (hcall : s.calls[i]? = some (.waiting handle)) : CallStep s a s' i .waited
  | returned {r : RequestResult} : CallStep s a s' i (.returned r)

theorem call_step (h : Step s a s') (hi : s'.calls[i]? = some c) : CallStep s a s' i c := by
  cases h with
  | aborts | requestStop | notStopped | deactivated | terminated | ignored | ignoredReady
  | failed => exact .same hi
  | stopped | ready | notSupervised =>
    rcases getElem?_set_cases hi with ⟨-, rfl⟩ | ⟨-, hi⟩
    · exact .returned
    · exact .same hi
  | @waited call ok handle hcall =>
    rcases getElem?_set_cases hi with ⟨rfl, rfl⟩ | ⟨-, hi⟩
    · cases ok with
      | true => exact .waited rfl hcall
      | false => exact .returned
    · exact .same hi
  | notStarted =>
    rcases getElem?_concat hi with hi | ⟨-, rfl⟩
    · exact .same hi
    · exact .returned
  | started hhandle =>
    rcases getElem?_concat hi with hi | ⟨rfl, rfl⟩
    · exact .same hi
    · exact .started rfl hhandle rfl

theorem pending_step (h : Step s a s') (hi : s'.Pending i) :
    s.Pending i ∨ ∃ handle, s'.members.state = .starting handle i := by
  rcases hi with hi | ⟨handle, hi⟩
  · cases call_step h hi with
    | same hcall => exact .inl (.inl hcall)
    | waited _ hcall => exact .inl (.inr ⟨_, hcall⟩)
  · cases call_step h hi with
    | same hcall => exact .inl (.inr ⟨handle, hcall⟩)
    | started _ _ hstate => exact .inr ⟨handle, hstate⟩

/-- A call that was asked to stop, or whose component is in its fault state, stays so. -/
def Stopping (s : Threads) (call : Nat) : Prop :=
  call ∈ s.members.stopRequested ∨ ∃ handle, s.members.state = .fault handle

theorem Stopping.step (h : s.Stopping call) (hs : Step s a s') : s'.Stopping call := by
  cases hs with
  | aborts | waited | stopped => exact h
  | notStarted | notSupervised | notStopped | failed => exact .inr ⟨_, rfl⟩
  | started _ hstate | ready _ _ hstate | terminated _ hstate | ignored _ hstate
  | ignoredReady _ hstate => exact .inl (h.resolve_right (by simp [hstate]))
  | requestStop => exact h.imp_left (mem_cons_of_mem _)
  | deactivated hstate _ hrequested =>
    exact .inl (hrequested (h.resolve_right (not_fault_of_running hstate)))

theorem Ordered.init {m : Members} (hm : m.state = .terminated) :
    ({ members := m } : Threads).Ordered where
  latest p hp := by
    change m.state.process? = some p at hp
    rw [hm] at hp
    cases hp
  source handle i hi := by cases hm.symm.trans hi
  waiting i handle hi := by cases hi
  pending i hi := by
    rcases hi with hi | ⟨handle, hi⟩
    all_goals cases hi
  ready handle hstate := by cases hm.symm.trans hstate

theorem Ordered.resumed (h : s.Ordered) {source : Nat}
    (hcall : s.calls[call]? = some .waited) (hstop : call ∉ s.members.stopRequested)
    (hstate : s.members.state = .starting handle source) : source = call := by
  rcases h.pending call (.inl hcall) with hin | ⟨handle', hstart⟩ | ⟨handle', hfault⟩
  · exact absurd hin hstop
  · cases hstate.symm.trans hstart
    rfl
  · cases hstate.symm.trans hfault

theorem not_pending_returned {r : RequestResult} {members : Members} :
    ¬ ({ s with members, calls := s.calls.set call (.returned r) } : Threads).Pending call := by
  rintro (hc | ⟨handle, hc⟩)
  all_goals
    rcases getElem?_set_cases hc with ⟨-, hc⟩ | ⟨hne, -⟩
    · cases hc
    · exact hne rfl

theorem process?_handle {resource : Resource} (h : resource ≠ .empty) (sync : Nat) :
    (resource.handle sync).process? = some sync := by
  cases resource with
  | empty => exact absurd rfl h
  | process => rfl

theorem Ordered.source_step (h : s.Ordered) (ha : a ≠ .activate (some .empty)) (hs : Step s a s')
    (hi : s'.members.state = .starting handle i) :
    handle.process? = some i := by
  cases hs with
  | aborts | waited | stopped | requestStop => exact h.source handle i hi
  | notStarted | ready | notSupervised | notStopped | deactivated | terminated | ignoredReady
  | failed => cases hi
  | @started resource handle' hhandle =>
    cases hi
    rw [hhandle]
    exact process?_handle (by rintro rfl; exact ha rfl) _
  | ignored _ hstate =>
    cases hi
    rw [process?_invalidate]
    exact h.source _ i hstate

theorem Ordered.pending_step (h : s.Ordered) (hs : Step s a s') {i : Nat} (hi : s'.Pending i) :
    i ∈ s'.members.stopRequested ∨ (∃ handle, s'.members.state = .starting handle i) ∨
      ∃ handle, s'.members.state = .fault handle := by
  rcases Threads.pending_step hs hi with hold | hnew
  · by_cases hstopping : s.Stopping i
    · exact (hstopping.step hs).imp_right .inr
    · obtain ⟨hrequested, hfault⟩ := not_or.mp hstopping
      obtain ⟨handle, hstate⟩ :=
        ((h.pending i hold).resolve_left hrequested).resolve_right hfault
      -- the call that starts is left by the steps that end the starting state
      cases hs with
      | aborts | waited | stopped | requestStop => exact .inr (.inl ⟨handle, hstate⟩)
      | notStarted | notSupervised | notStopped | failed => exact .inr (.inr ⟨_, rfl⟩)
      | started _ hother | terminated _ hother | ignoredReady _ hother =>
        cases hstate.symm.trans hother
      | ready hcall hstop hother =>
        obtain rfl := h.resumed hcall hstop hother
        cases hstate.symm.trans hother
        exact absurd hi not_pending_returned
      | deactivated hother hsource =>
        rw [hstate] at hother
        cases hother
        exact .inl (hsource i hstate)
      | ignored _ hother =>
        cases hstate.symm.trans hother
        exact .inr (.inl ⟨_, rfl⟩)
  · exact .inr (.inl hnew)

theorem Ordered.ready_step (h : s.Ordered) (hs : Step s a s')
    (hstate' : s'.members.state = .ready handle) :
    ∃ p : Nat, handle.process? = some p ∧ s'.calls[p]? = some (.returned .success) := by
  cases hs with
  | aborts | requestStop => exact h.ready handle hstate'
  | waited hcall | stopped hcall =>
    obtain ⟨p, hp, hdone⟩ := h.ready handle hstate'
    refine ⟨p, hp, (List.getElem?_set_ne ?_).trans hdone⟩
    rintro rfl
    cases hcall.symm.trans hdone
  | notStarted | started | notSupervised | notStopped | deactivated | terminated | ignored
  | failed => cases hstate'
  | ready hcall hstop hstate =>
    cases hstate'
    obtain rfl := h.resumed hcall hstop hstate
    exact ⟨_, h.source handle _ hstate, List.getElem?_set_self (lt_of_getElem? hcall)⟩
  | ignoredReady _ hstate =>
    cases hstate'
    rw [process?_invalidate]
    exact h.ready _ hstate

theorem Ordered.latest_step (h : s.Ordered) (hs : Step s a s') {p : Nat}
    (hp : s'.members.state.process? = some p) : p + 1 = s'.calls.length := by
  cases hs with
  | aborts | requestStop => exact h.latest p hp
  | notStarted | notSupervised | notStopped | terminated | failed => cases hp
  | waited | stopped =>
    rw [length_set]
    exact h.latest p hp
  | @started resource handle hhandle hstate =>
    rw [length_append, length_singleton]
    rw [hhandle] at hp
    cases resource with
    | empty => cases hp
    | process pid =>
      cases hp
      rfl
  | ready _ _ hstate =>
    rw [length_set]
    exact h.latest p (by rw [hstate]; exact hp)
  | deactivated hstate => exact h.latest p ((State.process?_of_running hstate).trans hp)
  | ignored _ hstate | ignoredReady _ hstate =>
    exact h.latest p (by rw [hstate]; exact (process?_invalidate _).symm.trans hp)

theorem Ordered.step (h : s.Ordered) (ha : a ≠ .activate (some .empty)) (hs : Step s a s') :
    s'.Ordered where
  latest _ hp := h.latest_step hs hp
  source _ _ hi := h.source_step ha hs hi
  waiting i handle hi := by
    cases call_step hs hi with
    | same hcall => exact h.waiting i handle hcall
    | started hstart hhandle =>
      subst hstart hhandle
      exact process?_handle (by rintro rfl; exact ha rfl) i
  pending _ hi := h.pending_step hs hi
  ready _ hstate := h.ready_step hs hstate

end Ordered

end Threads

namespace Reporting

/-- A process that fails before its activation has the mutex again does so before its report was
posted, or when the wait for it has failed. -/
def FailsUnreported (s : Reporting) : ReportingAct → Prop
  | .component (.tryHandleTermination p status _ _) =>
    status ≠ 0 → s.threads.Pending p → p ∉ s.threads.members.stopRequested →
      s.threads.members.state.process? = some p → (s.channel p).Doomed s.timeout
  | .component (.activate _) | .component (.wait _ _) | .component (.resume _ _)
  | .component (.requestStop _) | .component (.deactivate _ _) | .channel _ _ => True

instance (s : Reporting) : ∀ a, Decidable (s.FailsUnreported a)
  | .component (.tryHandleTermination _ _ _ _) => inferInstanceAs (Decidable (_ → _ → _ → _ → _))
  | .component (.activate _) | .component (.wait _ _) | .component (.resume _ _)
  | .component (.requestStop _) | .component (.deactivate _ _) | .channel _ _ => isTrue trivial

def Fails (s : Reporting) (p : Nat) : Activation → Prop
  | .waiting _ => s.threads.Stopping p ∨ (s.channel p).Lost s.timeout
  | .waited => s.threads.Stopping p
  | .returned r => r ≠ .success

structure Inv (s : Reporting) : Prop where
  ordered : s.threads.Ordered
  current : s.threads.Current
  timed : ∀ p, (s.channel p).Timed
  waited : ∀ i : Nat, s.threads.calls[i]? = some .waited →
    (s.channel i).launcher = .returned .success
  early : ∀ p ∈ s.early, p ∈ s.threads.delivered ∧
    ∃ c, s.threads.calls[p]? = some c ∧ s.Fails p c

section Inv
variable {s s' : Reporting} {p q : Nat}

theorem waitResult_eq_some {ok : Bool} (h : s.waitResult p = some ok) :
    ∃ pid sync r, s.threads.calls[p]? = some (.waiting (.process pid sync)) ∧
      (s.channel sync).launcher = .returned r ∧ (ok = true → r = .success) := by
  unfold waitResult at h
  split at h
  case h_1 pid sync hcall =>
    split at h
    case h_1 r hpc =>
      cases h
      exact ⟨pid, sync, r, hcall, hpc, fun hok => (of_decide_eq_true hok).1⟩
    all_goals cases h
  all_goals cases h

/-- A wait ends with success only when the launcher has returned with success. -/
theorem Inv.wait (h : s.Inv) {ok : Bool} (hwait : s.waitResult p = some ok) :
    ∃ r, (s.channel p).launcher = .returned r ∧ (ok = true → r = .success) := by
  obtain ⟨pid, sync, r, hcall, hpc, hr⟩ := waitResult_eq_some hwait
  cases h.ordered.waiting p _ hcall
  exact ⟨r, hpc, hr⟩

theorem post_cases (s : Reporting) (a : Act) (p : Nat) :
    s.post a p = s.channel p ∨ s.post a p = (s.channel p).unblock ∧
      (∃ q status deactivated accepted, a = .tryHandleTermination q status deactivated accepted) ∧
      ∃ pid source, s.threads.members.state = .starting (.process pid p) source := by
  cases a with
  | tryHandleTermination q status deactivated accepted =>
    cases hstate : s.threads.members.state with
    | starting handle source =>
      cases handle with
      | empty =>
        simp only [post, hstate]
        exact .inl trivial
      | process pid sync =>
        simp only [post, hstate]
        by_cases hp : p = sync
        · subst hp
          rw [Function.update_self]
          exact .inr ⟨rfl, ⟨q, status, deactivated, accepted, rfl⟩, pid, source, rfl⟩
        · exact .inl (Function.update_of_ne hp _ _)
    | terminated | ready | terminating | fault =>
      simp only [post, hstate]
      exact .inl trivial
  | activate | wait | resume | requestStop | deactivate => exact .inl rfl

theorem launcher_post (s : Reporting) (a : Act) (p : Nat) :
    (s.post a p).launcher = (s.channel p).launcher := by
  rcases s.post_cases a p with heq | ⟨heq, -⟩
  · rw [heq]
  · rw [heq, Handshake.launcher_unblock]

variable {a : Act} {threads t : Threads} {c : Activation}

theorem timed_post (h : (s.channel p).Timed) : (s.post a p).Timed := by
  refine h.congr (s.launcher_post a p) ?_
  rcases s.post_cases a p with heq | ⟨heq, -⟩
  · rw [heq]
  · rw [heq, Handshake.timeout_unblock]

theorem Inv.post_delivered (h : s.Inv)
    (hs : s.threads.step a = some threads) (hp : p ∈ s.threads.delivered) :
    s.post a p = s.channel p := by
  rcases s.post_cases a p with
    heq | ⟨-, ⟨q, status, deactivated, accepted, rfl⟩, pid, source, hstate⟩
  · exact heq
  · obtain ⟨-, hs⟩ := ite_none_right_eq_some.mp hs
    obtain ⟨hq, -⟩ := ite_none_right_eq_some.mp hs
    cases h.current.running hq (congrArg State.running? hstate)
    exact absurd hp hq.2

theorem delivered_step {t' : Threads} (hs : Threads.Step t a t')
    (hp : p ∈ t.delivered) : p ∈ t'.delivered := by
  cases hs with
  | terminated | ignored | ignoredReady | failed => exact mem_cons_of_mem _ hp
  | _ => exact hp

theorem Fails.mono (h : s.Fails p c) (hstopping : s.threads.Stopping p → s'.threads.Stopping p)
    (hchannel : (s.channel p).Lost s.timeout → (s'.channel p).Lost s'.timeout) : s'.Fails p c := by
  cases c with
  | waiting => exact h.imp hstopping hchannel
  | waited => exact hstopping h
  | returned => exact h

theorem Inv.fails_step (h : s.Inv) (hperforms : s.Performs a)
    (hs : s.threads.step a = some threads) {channel : Nat → Handshake}
    (hchannel : channel p = s.channel p) (early : List Nat)
    (hcall : s.threads.calls[p]? = some c) (hc : s.Fails p c) :
    ∃ c', threads.calls[p]? = some c' ∧ Fails { s with threads, channel, early } p c' := by
  have hstep := (Threads.step_cases hs).2
  have hstopping : s.threads.Stopping p → threads.Stopping p := fun h => h.step hstep
  have hsame : Fails { s with threads, channel, early } p c :=
    hc.mono hstopping (by rw [← hchannel]; exact id)
  have hset : ∀ {call : Nat} {d : Activation},
      (call = p → Fails { s with threads, channel, early } p d) →
      ∃ c', (s.threads.calls.set call d)[p]? = some c' ∧
        Fails { s with threads, channel, early } p c' := by
    intro call d hd
    by_cases heq : call = p
    · subst heq
      exact ⟨d, List.getElem?_set_self (Threads.lt_of_getElem? hcall), hd rfl⟩
    · exact ⟨c, (List.getElem?_set_ne heq).trans hcall, hsame⟩
  cases hstep with
  | aborts | requestStop | notStopped | deactivated | terminated | ignored | ignoredReady
  | failed => exact ⟨c, hcall, hsame⟩
  | notStarted | started =>
    exact ⟨c, (List.getElem?_append_left (Threads.lt_of_getElem? hcall)).trans hcall, hsame⟩
  | stopped | notSupervised => exact hset fun _ => by rintro ⟨⟩
  | ready hcall' hstop hstate =>
    refine hset fun heq => ?_
    subst heq
    cases hcall.symm.trans hcall'
    exact absurd (hc.resolve_right (by simp [hstate])) hstop
  | @waited call ok handle hcall' =>
    refine hset fun heq => ?_
    subst heq
    cases hcall.symm.trans hcall'
    cases ok with
    | false => rintro ⟨⟩
    | true =>
      refine hstopping (hc.resolve_right fun hlost => ?_)
      obtain ⟨r, hpc, hr⟩ := h.wait hperforms
      unfold Handshake.Lost at hlost
      rw [hpc] at hlost
      exact hlost (hr rfl)

theorem Threads.Pending.exists (h : t.Pending p) :
    ∃ c, t.calls[p]? = some c ∧ (c = .waited ∨ ∃ handle, c = .waiting handle) := by
  rcases h with h | ⟨handle, h⟩
  · exact ⟨_, h, .inl rfl⟩
  · exact ⟨_, h, .inr ⟨handle, rfl⟩⟩

theorem fails_of_stopping (h : s.threads.Stopping p)
    (hc : c = .waited ∨ ∃ handle, c = .waiting handle) : s.Fails p c := by
  rcases hc with rfl | ⟨handle, rfl⟩
  · exact h
  · exact .inl h

theorem Inv.fails_new (h : s.Inv) {status : Int} {deactivated accepted : Bool}
    (haccepted : accepted = true)
    (hs : s.threads.step (.tryHandleTermination p status deactivated accepted) = some threads)
    (hhandled : threads.aborted = none) (hpending : s.threads.Pending p)
    (hdoomed : p ∉ s.threads.members.stopRequested →
      s.threads.members.state.process? = some p → (s.channel p).Doomed s.timeout)
    (early : List Nat) :
    p ∈ threads.delivered ∧ ∃ c, threads.calls[p]? = some c ∧ Fails { s with
      threads, channel := s.post (.tryHandleTermination p status deactivated accepted), early }
      p c := by
  have hstep := (Threads.step_cases hs).2
  obtain ⟨c, hcall, hc⟩ := Threads.Pending.exists hpending
  have hstopping : s.threads.Stopping p → threads.Stopping p := fun h => h.step hstep
  have hready : ∀ handle, s.threads.members.state ≠ .ready handle := by
    intro handle hstate
    obtain ⟨-, hs⟩ := ite_none_right_eq_some.mp hs
    obtain ⟨hp, -⟩ := ite_none_right_eq_some.mp hs
    obtain ⟨q, hq, hdone⟩ := h.ordered.ready handle hstate
    cases (h.current.running hp (congrArg State.running? hstate)).symm.trans hq
    rcases hpending with hw | ⟨handle', hw⟩
    all_goals cases hdone.symm.trans hw
  cases hstep with
  | aborts => cases hhandled
  | ignoredReady _ hstate => exact absurd hstate (hready _)
  | failed _ _ hother => exact absurd (hother haccepted) (hready _)
  | terminated _ hstate =>
    refine ⟨mem_cons_self, c, hcall, fails_of_stopping (hstopping ?_) hc⟩
    rcases h.ordered.pending p hpending with hin | ⟨handle', hother⟩ | hfault
    · exact .inl hin
    · cases hstate.symm.trans hother
    · exact .inr hfault
  | @ignored _ _ _ _ handle _ hp hstate =>
    refine ⟨mem_cons_self, c, hcall, ?_⟩
    by_cases hin : p ∈ s.threads.members.stopRequested
    · exact fails_of_stopping (hstopping (.inl hin)) hc
    · have hprocess := h.current.process hp (by simp [hstate])
      have hd := hdoomed hin hprocess
      rw [hstate] at hprocess
      rcases hc with rfl | ⟨handle', rfl⟩
      · -- the wait has succeeded already
        unfold Handshake.Doomed at hd
        rw [h.waited p hcall] at hd
        exact absurd rfl hd
      · refine .inr ?_
        cases handle with
        | empty => cases hprocess
        | process pid sync =>
          cases hprocess
          simp only [post, hstate, Function.update_self]
          exact hd.unblock (h.timed p)

theorem Inv.component (h : s.Inv) (hok : s.FailsUnreported (.component a))
    (hperforms : s.Performs a) (hs : s.threads.step a = some threads) :
    Inv { s with threads, channel := s.post a, early := s.record a threads } := by
  have hstep := (Threads.step_cases hs).2
  have hempty : a ≠ .activate (some .empty) := by
    rintro rfl
    exact hperforms rfl
  have hold : ∀ q ∈ s.early, q ∈ threads.delivered ∧ ∃ c, threads.calls[q]? = some c ∧
      Fails { s with threads, channel := s.post a, early := s.record a threads } q c := by
    intro q hq
    obtain ⟨hdelivered, c, hcall, hc⟩ := h.early q hq
    exact ⟨delivered_step hstep hdelivered,
      h.fails_step hperforms hs (h.post_delivered hs hdelivered) _ hcall hc⟩
  refine ⟨h.ordered.step hempty hstep, h.current.step hs, fun q => timed_post (h.timed q), ?_, ?_⟩
  · intro i hi
    refine (s.launcher_post a i).trans ?_
    cases Threads.call_step hstep hi with
    | same hcall => exact h.waited i hcall
    | waited ha =>
      subst ha
      obtain ⟨r, hpc, hr⟩ := h.wait hperforms
      rw [hpc, hr rfl]
  · intro q hq
    cases a with
    | tryHandleTermination p status deactivated accepted =>
      by_cases hnew : status ≠ 0 ∧ s.threads.Pending p ∧ threads.aborted = none
      · obtain ⟨hstatus, hpending, hhandled⟩ := hnew
        have hq' : q = p ∨ q ∈ s.early := by
          change q ∈ (if status ≠ 0 ∧ s.threads.Pending p ∧ threads.aborted = none then
            p :: s.early else s.early) at hq
          rw [if_pos ⟨hstatus, hpending, hhandled⟩] at hq
          exact mem_cons.mp hq
        rcases hq' with rfl | hq'
        · exact h.fails_new hperforms hs hhandled hpending (hok hstatus hpending) _
        · exact hold q hq'
      · change q ∈ (if status ≠ 0 ∧ s.threads.Pending p ∧ threads.aborted = none then
          p :: s.early else s.early) at hq
        rw [if_neg hnew] at hq
        exact hold q hq
    | activate | wait | resume | requestStop | deactivate => exact hold q hq

theorem Inv.channel_step (h : s.Inv) {a : Handshake.Act} (henabled : s.Enabled p a)
    {x : Handshake} (hs : (s.channel p).step a = some x) :
    Inv { s with channel := Function.update s.channel p x } := by
  have hchannel : ∀ {P : Handshake → Prop} (q : Nat), (q = p → P x) → (q ≠ p → P (s.channel q)) →
      P (Function.update s.channel p x q) := by
    intro P q heq hne
    by_cases hq : q = p
    · subst hq
      rw [Function.update_self]
      exact heq rfl
    · rw [Function.update_of_ne hq]
      exact hne hq
  refine ⟨h.ordered, h.current, ?_, ?_, ?_⟩
  · exact fun q => hchannel q (fun heq => (h.timed p).step hs) fun _ => h.timed q
  · intro i hi
    refine hchannel (P := fun y => y.launcher = .returned .success) i ?_ fun _ => h.waited i hi
    rintro rfl
    have hpc := h.waited i hi
    cases a with
    | launcher a => cases (Handshake.stepLauncher_returned hpc a).symm.trans hs
    | tick time | client a => exact (Handshake.launcher_of_step (by rintro _ ⟨⟩) hs).trans hpc
  · intro q hq
    obtain ⟨hdelivered, c, hcall, hc⟩ := h.early q hq
    refine ⟨hdelivered, c, hcall, hc.mono id fun hlost => ?_⟩
    refine hchannel (P := fun y => y.Lost s.timeout) q ?_ fun _ => hlost
    rintro rfl
    cases a with
    | tick time => exact hlost.tick hs
    | launcher a =>
      refine hlost.launcher ?_ hs
      rintro sync t rfl
      exact henabled.2.2
    | client a => exact absurd hdelivered (show s.threads.Outstanding q from henabled).2

theorem Inv.step (h : s.Inv) {a : ReportingAct} (hok : s.FailsUnreported a)
    (hs : s.step a = some s') : s'.Inv := by
  cases a with
  | component a =>
    obtain ⟨hperforms, hmap⟩ := ite_none_right_eq_some.mp hs
    obtain ⟨threads, hstep, rfl⟩ := map_eq_some_iff.mp hmap
    exact h.component hok hperforms hstep
  | channel p a =>
    obtain ⟨henabled, hmap⟩ := ite_none_right_eq_some.mp hs
    obtain ⟨x, hstep, rfl⟩ := map_eq_some_iff.mp hmap
    exact h.channel_step henabled hstep

theorem Inv.init {m : Members} (hm : m.state = .terminated) (timeout : Option Nat) :
    Inv { threads := { members := m }, timeout } where
  ordered := .init hm
  current := .init m
  timed p deadline hpc := by cases hpc
  waited i hi := by cases hi
  early p hp := absurd hp not_mem_nil

end Inv

/-- The activation of a process that fails before its report was posted does not succeed. -/
theorem failed_process_fails_activation {m : Members} (hm : m.state = .terminated)
    {timeout : Option Nat} {s : Reporting}
    (hrun : Run step FailsUnreported { threads := { members := m }, timeout } s) :
    ∀ p ∈ s.early, s.threads.calls[p]? ≠ some (.returned .success) ∧
      (s.threads.calls.length = p + 1 → s.threads.members.active = false) := by
  intro p hp
  have hs : s.Inv := hrun.invariant Inv (fun h hok hs => h.step hok hs) (.init hm timeout)
  obtain ⟨-, c, hcall, hc⟩ := hs.early p hp
  have hfailed : s.threads.calls[p]? ≠ some (.returned .success) := by
    intro hsuccess
    cases hcall.symm.trans hsuccess
    exact hc rfl
  refine ⟨hfailed, fun hlast => ?_⟩
  unfold Members.active
  cases hstate : s.threads.members.state with
  | ready handle =>
    obtain ⟨q, hprocess, hsuccess⟩ := hs.ordered.ready handle hstate
    have hq := hs.ordered.latest q (by rw [hstate]; exact hprocess)
    obtain rfl : q = p := by omega
    exact absurd hsuccess hfailed
  | terminated | starting | terminating | fault => rfl

theorem failed_process_fails_activation_unreported :
    ∃ s : Reporting, s.early = [0] ∧ s.threads.calls = [.returned .failure] ∧
      s.threads.members.active = false := by
  obtain ⟨s, hrun, hearly, hcalls⟩ := Run.exists_of_exec step FailsUnreported
    { threads := { members := Threads.sampleMembers }, timeout := some 1000 }
    (fun s => s.early = [0] ∧ s.threads.calls = [.returned .failure])
    [.component (.activate (some (.process 7))),
      .channel 0 (.launcher (.waitForkRunning true (some 1000))),
      .component (.tryHandleTermination 0 1 true true), .channel 0 (.launcher (.wait .taken)),
      .channel 0 (.launcher (.post true)), .channel 0 (.tick 100),
      .channel 0 (.launcher (.wait .timedOut)), .channel 0 (.launcher .deinit),
      .component (.wait 0 false)]
    (by decide +kernel)
  have hlast : s.threads.calls.length = 0 + 1 := by rw [hcalls]; rfl
  have hp : 0 ∈ s.early := by rw [hearly]; exact mem_cons_self
  exact ⟨s, hearly, hcalls, (failed_process_fails_activation rfl hrun 0 hp).2 hlast⟩

/-- The post of `tryHandleTermination` is taken for the final post of a process that has died. -/
theorem failed_process_activation_succeeds :
    (∃ s : Reporting,
      Run step anyStep
        { threads := { members := Threads.sampleMembers }, timeout := some 1000 } s ∧
      s.early = [0] ∧ s.threads.calls = [.returned .success] ∧
      s.threads.members.active = true) ∧
    ∃ s : Reporting,
      Run step anyStep { threads := { members := Threads.sampleMembers }, timeout := none } s ∧
      s.early = [0] ∧ s.threads.calls = [.returned .success] ∧
      s.threads.members.active = true := by
  constructor
  · exact Run.exists_of_exec _ _ _ _
      [.component (.activate (some (.process 7))),
        .channel 0 (.launcher (.waitForkRunning true (some 1000))),
        .channel 0 (.client .reportRunningState), .channel 0 (.client (.openChannel true)),
        .channel 0 (.client (.close true false)), .channel 0 (.client (.post true)),
        .channel 0 (.launcher (.wait .taken)), .channel 0 (.launcher (.post true)),
        .component (.tryHandleTermination 0 1 true true), .channel 0 (.launcher (.wait .taken)),
        .channel 0 (.launcher .deinit), .component (.wait 0 true), .component (.resume 0 true)]
      (by decide +kernel)
  · exact Run.exists_of_exec _ _ _ _
      [.component (.activate (some (.process 7))),
        .component (.tryHandleTermination 0 1 true true),
        .channel 0 (.launcher (.waitForkRunning true none)), .channel 0 (.launcher (.post true)),
        .channel 0 (.launcher .deinit), .component (.wait 0 true), .component (.resume 0 true)]
      (by decide +kernel)

end Reporting

end Component

end LaunchManager
