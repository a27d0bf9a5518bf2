import LaunchManager.ProcessInfoNode.Steps

/-!
# Which processes are signalled

The stored process identifier is reset only by the next start of the component, so
it outlives the process. A signal is sure to reach the component's own process
only in the states in which a process may be alive, only as long as these states are
left by the thread that handles its termination, and not in the time between the
reaping of the process and the change of the state.
-/

namespace LaunchManager.ProcessInfoNode

set_option autoImplicit false

namespace Custody

/-- Every signal went to the own process, and in a live state the stored identifier is the one of a
process whose termination has not been handled. -/
structure Sound (k : Custody) : Prop where
  own : ∀ σ ∈ k.signals, σ.own = true
  pid : k.pid = 0 ∨ k.pid = k.last.pid
  live : k.processState.Live → k.pid = 0 ∨ k.last.handled = false

/-- The stored identifier will not be signalled before the next start. -/
def Released (k : Custody) : Prop := k.pid = 0 ∨ ¬ k.processState.Live

def Guard (k : Custody) : Access → Prop
  | .kill => k.pid = 0 ∨ k.processState.Live ∧ k.last.reaped = false
  | .enter new => new.Live → k.pid = 0 ∨ k.processState.Live
  | .handle process _ => process = k.started → k.Released
  | _ => True

section Apply
variable {k : Custody}

theorem Sound.of_last {k' : Custody} (h : k.Sound) (hsignals : k'.signals = k.signals)
    (hpid : k'.pid = k.pid) (hlast : k'.last.pid = k.last.pid)
    (hlive : k'.processState.Live → k.pid = 0 ∨ k'.last.handled = false) : k'.Sound where
  own := hsignals ▸ h.own
  pid := by rw [hpid, hlast]; exact h.pid
  live hs := by rw [hpid]; exact hlive hs

theorem Sound.modify (h : k.Sound) (process : Nat) (f : Process → Process)
    (hpid : ∀ p, (f p).pid = p.pid) (hhandled : ∀ p, (f p).handled = p.handled) :
    (k.modify process f).Sound := by
  refine h.of_last rfl rfl (k.modify_read process f Process.pid hpid _) fun hs => ?_
  exact (h.live hs).imp_right fun hl =>
    (k.modify_read process f Process.handled hhandled _).trans hl

theorem Sound.enter (h : k.Sound) {new : ProcessState} (hg : k.Guard (.enter new)) :
    (k.enter new).Sound := by
  have hread : ∀ {α : Type} (g : Process → α), (∀ p reached stop, g { p with
      reachedRunning := reached, stopInitiated := stop } = g p) → g (k.enter new).last = g k.last :=
    fun g hg => modify_read _ _ _ g (fun _ => hg ..) _
  refine h.of_last rfl rfl (hread Process.pid fun _ _ _ => rfl) fun hs => ?_
  rcases hg hs with hpid | hlive
  · exact .inl hpid
  · exact (h.live hlive).imp_right (hread Process.handled fun _ _ _ => rfl).trans

theorem Sound.kill (h : k.Sound) (hg : k.Guard .kill) : k.kill.Sound := by
  by_cases hpid : k.pid = 0
  · rw [Custody.kill, if_pos hpid]
    exact h
  · have hown : (k.pid == k.last.pid && !k.last.reaped && !k.last.handled) = true := by
      obtain ⟨hlive, hreaped⟩ := hg.resolve_left hpid
      have hlast := h.pid.resolve_left hpid
      have hhandled := (h.live hlive).resolve_left hpid
      simp [hlast, hreaped, hhandled]
    rw [Custody.kill, if_neg hpid]
    refine ⟨fun σ hσ => ?_, h.pid, h.live⟩
    rcases List.mem_cons.mp hσ with rfl | hσ
    · exact hown
    · exact h.own σ hσ

theorem Sound.handle (h : k.Sound) {process : Nat} {result : TerminationResult}
    (hg : k.Guard (.handle process result)) : (k.handle process result).Sound := by
  have hlast := k.handle_last process result
  have hstate : (k.handle process result).processState = k.processState := by
    cases result <;> rfl
  refine h.of_last (by cases result <;> rfl) (by cases result <;> rfl) ?_ fun hs => ?_
  · rw [hlast]; split_ifs <;> rfl
  · rw [hstate] at hs
    by_cases hp : process = k.started
    · exact .inl ((hg hp).resolve_right (not_not_intro hs))
    · rw [hlast, if_neg hp]
      exact h.live hs

theorem Sound.apply (h : k.Sound) {a : Access} (hg : k.Guard a) : (k.apply a).Sound := by
  cases a with
  | flag => exact h
  | enter new => exact h.enter hg
  | kill => exact h.kill hg
  | resetPid => exact ⟨h.own, .inl rfl, fun _ => .inl rfl⟩
  | launch pid =>
    have hlast : (k.launch pid).last = { pid := pid } := Function.update_self ..
    exact ⟨h.own, .inr (by rw [Custody.apply, hlast]; rfl), fun _ => .inr (by
      rw [Custody.apply, hlast])⟩
  | handle process result => exact h.handle hg
  | takeEvent => exact ⟨h.own, h.pid, h.live⟩
  | takeEarly | insert | rate | exit | reap | reapEarly =>
    rw [Custody.apply]
    refine h.modify _ _ ?_ ?_ <;> exact fun _ => rfl

theorem Released.apply (h : k.Released) {a : Access} (hg : k.Guard a)
    (ha : ∀ pid, a ≠ .launch pid) : (k.apply a).Released := by
  cases a with
  | enter new =>
    by_cases hnew : new.Live
    · exact .inl (h.elim id fun hlive => (hg hnew).resolve_right hlive)
    · exact .inr hnew
  | kill =>
    rw [Custody.apply, Custody.kill]
    split_ifs <;> exact h
  | resetPid => exact .inl rfl
  | launch pid => exact absurd rfl (ha pid)
  | handle process result => cases result <;> exact h
  | _ => exact h

end Apply

end Custody

/-- The points between the reset of the stored identifier and the start of a process. -/
def Activate.resets : Activate → Bool
  | .resetStatus => true
  | .resetResult => true
  | .resetWaiter => true
  | .setStarting _ => true
  | .launch => true
  | _ => false

theorem Activate.Moves.resets {c : ComponentConfig} {ok : Bool} {n n' : Node}
    {attempt attempt' : Nat} {pc pc' : Activate}
    (h : pc.Moves c ok n attempt n' (.next (attempt', pc'))) (hr : pc'.resets = true) :
    pc = .resetPid ∨ pc.resets = true := by
  cases h with
  | resetPid => exact .inl rfl
  | resetStatus | resetResult | resetWaiter | setStarting | starting => exact .inr rfl
  | _ => cases hr

namespace System

/-- A signal is sent only in a live state and not while a process that has been reaped is still to
be noted, no process that was idle becomes running or terminating, and the termination is noted in
the state that was read. -/
def Clean (c : ComponentConfig) (s : System) (a : Act) : Prop :=
  (s.access c a = .kill →
    s.node.pid = 0 ∨ s.node.processState.Live ∧ s.node.last.reaped = false) ∧
  (s.access c a = .enter .running ∨ s.access c a = .enter .terminating →
    s.node.processState ≠ .idle) ∧
  ∀ h ∈ s.handling a, ¬ h.Misses s.node.toCustody

instance (c : ComponentConfig) (s : System) (a : Act) : Decidable (s.Clean c a) :=
  inferInstanceAs (Decidable (_ ∧ _ ∧ _))

structure SignalInv (s : System) : Prop where
  sound : s.node.Sound
  started : ∀ h, s.os = some h → h.process ≤ s.node.started
  noted : s.Noted → s.node.Released
  reset : ∀ attempt pc, s.worker = some (.activate attempt pc) → pc.resets = true → s.node.pid = 0

variable {c : ComponentConfig} {s s' : System} {a : Act}

theorem SignalInv.guard (hi : s.SignalInv) (hok : s.Clean c a) (hs : s.step c a = some s') :
    s.node.Guard (s.access c a) := by
  have hp := performs hs
  generalize hacc : s.access c a = acc at hp
  have hgrow : ∀ {new}, acc = .enter new → new = .running ∨ new = .terminating →
      s.node.processState.MayBecome new → s.node.Guard (.enter new) := by
    intro new hnew hcases hmay _
    refine .inr (hmay.live hcases (hok.2.1 ?_))
    rw [hacc, hnew]
    exact hcases.imp (congrArg _) (congrArg _)
  cases hp with
  | kill => exact hok.1 hacc
  | starting hw => exact fun _ => .inl (hi.reset _ _ hw rfl)
  | running hw hmay => exact hgrow rfl (.inl rfl) hmay
  | activateTerminating hw hmay | fatalTerminating hw hmay | deactivateTerminating hw hmay =>
    exact hgrow rfl (.inr rfl) hmay
  | mainTerminating hmain hmay => exact hgrow rfl (.inr rfl) hmay
  | inlineHandle hw => exact fun _ => hi.noted (.inr ⟨_, _, _, hw, rfl⟩)
  | osHandle hos => exact fun hp => hi.noted (.inl ⟨_, hos, hp, rfl⟩)
  | activateIdle | deactivateIdle | mainIdle | failed | inlineTerminated | osTerminated =>
    exact fun h => absurd h (by decide)
  | _ => trivial

theorem SignalInv.step (hi : s.SignalInv) (hok : s.Clean c a) (hs : s.step c a = some s') :
    s'.SignalInv := by
  have hguard := hi.guard hok hs
  have hcustody := step_custody hs
  have hlaunch : (∀ pid, a ≠ .launched pid) → ∀ pid, s.access c a ≠ .launch pid :=
    fun ha pid hacc => ha pid (eq_launched hs hacc)
  refine ⟨?_, started_of_handler hi.started hs, fun hnoted => ?_, fun attempt' pc' hw' hr => ?_⟩
  · rw [hcustody]
    exact hi.sound.apply hguard
  · rcases noted_of_step hi.started hok.2.2 hs hnoted with ⟨ha, h⟩ | hended
    · rw [hcustody]
      exact (hi.noted h).apply hguard (hlaunch ha)
    · exact .inr hended.not_live
  · rcases activate_cases hs hw' with
      ⟨hw, -⟩ | ⟨-, rfl⟩ | ⟨_, -, -, rfl⟩ | ⟨ok, attempt, pc, rfl, hw, hnext⟩
    · rw [hcustody]
      refine Custody.apply_pid_zero (hlaunch ?_) (hi.reset _ _ hw hr)
      rintro pid rfl
      cases moves_of_step hs with
      | launched => cases hw'; cases hr
    · cases hr
    · cases hr
    · rw [hcustody]
      rcases hnext.resets hr with rfl | hbefore
      · rw [access, hw]
        rfl
      · exact Custody.apply_pid_zero (hlaunch fun _ h => by cases h)
          (hi.reset _ _ hw hbefore)

end System

end LaunchManager.ProcessInfoNode
