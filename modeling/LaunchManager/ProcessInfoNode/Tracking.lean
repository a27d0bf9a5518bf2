import LaunchManager.ProcessInfoNode.Steps

/-!
# The process whose end is still to be noted

As long as the main thread does not stop the component itself, at most one process
is in the process map, the one started last, and the component is in a live state
until the end of that process has been noted. So the worker is alone with the state
of the component while it prepares a start, and while it gives one up. A process that is
reaped has ended, and its end is handled with the status it ended with.
-/

namespace LaunchManager.ProcessInfoNode

open SetState

set_option autoImplicit false

/-- After `setState(kIdle)` has read the state. -/
def SetState.claims : SetState .idle → Option (ProcessState → Prop)
  | .load => none
  | .cas _ _ => some (· = .idle)
  | .store _ => some fun state => state = .terminated ∨ state = .failed

/-- The worker handles a termination only if the process is still starting, so it does not come to
the points that report one. -/
def TryHandleTermination.inlineState : TryHandleTermination → ProcessState → Prop
  | .storeStatus => (· = .starting)
  | .storeResult => (· = .starting)
  | .exchange => (· = .starting)
  | .requested _ => (· = .starting)
  | .casStarting => (· = .starting)
  | .terminated .ignore => fun _ => True
  | _ => fun _ => False

/-- The points of `activate` at which no process can end, with the state they are reached in. -/
def Activate.alone : Activate → Option (ProcessState → Prop)
  | .setIdle p => p.claims
  | .resetPid => some (· = .idle)
  | .resetStatus => some (· = .idle)
  | .resetResult => some (· = .idle)
  | .resetWaiter => some (· = .idle)
  | .setStarting _ => some (· = .idle)
  | .launch => some (· = .starting)
  | .insert => some (· = .starting)
  | .inline _ h => some h.inlineState
  | .terminateFatal _ => some fun _ => True
  | .setFailed _ => some fun _ => True
  | _ => none

def Job.alone : Job → Option (ProcessState → Prop)
  | .activate _ pc => pc.alone
  | .deactivate (.setIdle p) => p.claims
  | .deactivate _ => none

section Alone
variable {c : ComponentConfig} {ok : Bool} {n n' : Node}

theorem SetState.claims_of_ne {p : SetState .idle} (h : p ≠ .load) : ∃ P, p.claims = some P := by
  cases p with
  | load => exact absurd rfl h
  | cas | store => exact ⟨_, rfl⟩

theorem SetState.claims_of_next {p p' : SetState .idle} (hnext : (p.step n).2 = .next p')
    {P : ProcessState → Prop} (hP : p'.claims = some P) :
    ¬ n.processState.Live ∧ P n.processState := by
  obtain ⟨-, ⟨hmay, rfl⟩ | ⟨_, rfl, hended⟩⟩ := next_cases hnext <;> cases hP
  · have hidle := hmay.eq_idle (.inl rfl)
    exact ⟨hidle ▸ by decide, hidle⟩
  · exact ⟨ProcessState.Ended.not_live hended, hended⟩

theorem TryHandleTermination.Moves.inlineState {status : Int} {h h' : TryHandleTermination}
    (hm : h.Moves c n.started status n n' (.next h')) (hstate : h.inlineState n.processState) :
    h'.inlineState n'.processState := by
  cases hm with
  | storeStatus | storeResult | request | noRequest | requested => exact hstate
  | requestedEnd | starting => trivial
  | notStarting h => exact absurd hstate h
  | _ => exact hstate.elim

theorem Activate.Moves.alone {attempt attempt' : Nat} {pc pc' : Activate}
    (hm : pc.Moves c ok n attempt n' (.next (attempt', pc')))
    {P : ProcessState → Prop} (hP : pc'.alone = some P)
    (hpc : ∀ Q, pc.alone = some Q → Q n.processState) :
    (¬ n.processState.Live ∨ ∃ Q, pc.alone = some Q) ∧ pc.access c ok n.toCustody ≠ .insert ∧
      P n'.processState := by
  cases hm with
  | @setIdle p p' hp =>
    obtain ⟨hlive, hstate⟩ := claims_of_next hp hP
    exact ⟨.inl hlive, p.access_ne_insert _, hstate⟩
  | @idle p hp =>
    cases hP
    exact ⟨.inr (claims_of_ne (access_of_done hp).1), p.access_ne_insert _, rfl⟩
  | resetPid | resetStatus | resetResult | resetWaiter =>
    cases hP
    exact ⟨.inr ⟨_, rfl⟩, by rintro ⟨⟩, hpc _ rfl⟩
  | @setStarting p =>
    cases hP
    exact ⟨.inr ⟨_, rfl⟩, p.access_ne_insert _, hpc _ rfl⟩
  | @starting p changed hp =>
    cases hP
    have hidle := hpc _ rfl
    refine ⟨.inr ⟨_, rfl⟩, p.access_ne_insert _, ?_⟩
    cases p with
    | load =>
      rw [SetState.step, dif_pos (by rw [hidle]; decide)] at hp
      cases hp
    | cas old hmay =>
      rw [SetState.access, if_pos (hidle.trans (hmay.eq_idle (.inr rfl)).symm)]
      rfl
    | store h => cases h
  | notLaunched =>
    cases hP
    exact ⟨.inr ⟨_, rfl⟩, by rintro ⟨⟩, trivial⟩
  | early h =>
    cases hP
    rw [Activate.access, if_pos h]
    exact ⟨.inr ⟨_, rfl⟩, by rintro ⟨⟩, hpc _ rfl⟩
  | notInserted h hok =>
    cases hP
    rw [Activate.access, h, hok]
    exact ⟨.inr ⟨_, rfl⟩, by rintro ⟨⟩, trivial⟩
  | @inline status h h' _ hnext =>
    cases hP
    exact ⟨.inr ⟨_, rfl⟩, h.access_ne_insert c _ status _, hnext.inlineState (hpc _ rfl)⟩
  | @terminateFatal t | @fatal t =>
    cases hP
    exact ⟨.inr ⟨_, rfl⟩, t.access_ne_insert _, trivial⟩
  | @setFailed p =>
    cases hP
    exact ⟨.inr ⟨_, rfl⟩, p.access_ne_insert _, trivial⟩
  | _ => cases hP

end Alone

namespace System

/-- The end of the last process is still to be noted. -/
def Open (s : System) : Prop :=
  s.node.last.inserted = true ∧ s.node.last.reaped = false ∨
    ∃ h, s.os = some h ∧ h.pc.pre = true

structure Tracked (s : System) : Prop where
  started : ∀ h, s.os = some h → h.process ≤ s.node.started
  inserted : ∀ p, (s.node.processes p).inserted = true → (s.node.processes p).reaped = false →
    p = s.node.started
  pre : ∀ h, s.os = some h → h.pc.pre = true →
    h.process = s.node.started ∧ s.node.last.reaped = true
  live : s.Open → s.node.processState.Live
  alone : ∀ j, s.worker = some j → ∀ P, j.alone = some P → ¬ s.Open ∧ P s.node.processState

/-- The main thread does no more than to clear flags. -/
def MainWaits (s : System) (a : Act) : Prop :=
  ∀ ok, a = .main ok → s.main = some .clear ∨ s.main = some .unready

variable {c : ComponentConfig} {s s' : System} {a : Act} {ok : Bool}

theorem MainWaits.of_withoutMain (h : a.WithoutMain) : s.MainWaits a := by
  rintro ok rfl
  exact h.elim

theorem Tracked.open_of_step (hi : s.Tracked) (hs : s.step c a = some s') (hopen : s'.Open) :
    s.Open ∨ s.access c a = .insert := by
  rcases hopen with ⟨hin, hreaped⟩ | ⟨h', hos', hpre⟩
  · by_cases ha : ∃ pid, a = .launched pid
    · obtain ⟨pid, rfl⟩ := ha
      rw [last_of_launched hs] at hin
      cases hin
    · replace ha : ∀ pid, s.access c a ≠ .launch pid := fun pid h => ha ⟨pid, eq_launched hs h⟩
      rw [Custody.last, step_custody hs, s.node.apply_started ha] at hin hreaped
      rcases Custody.inserted_of_apply ha hin with hin | ⟨hinsert, -⟩
      · exact .inl (.inl ⟨hin, Custody.reaped_of_apply ha hreaped⟩)
      · exact .inr hinsert
  · refine .inl ?_
    rcases handler_cases hs hos' with
      ⟨hos, -⟩ | ⟨process, status, -, -, -, -, hin, hreaped⟩ | ⟨h, pc', -, hos, rfl, hnext⟩
    · exact .inr ⟨h', hos, hpre⟩
    · obtain rfl := hi.inserted process hin hreaped
      exact .inl ⟨hin, hreaped⟩
    · exact .inr ⟨h, hos, (hnext.pre hpre).1⟩

theorem Tracked.not_open_of_launch (hi : s.Tracked) {pid : Nat}
    (hs : s.step c (.launched pid) = some s') : ¬ s.Open := by
  cases moves_of_step hs with
  | launched _ attempt hw => exact (hi.alone _ hw _ rfl).1

theorem Tracked.inserted_of_step (hi : s.Tracked) (hs : s.step c a = some s') (p : Nat)
    (hin : (s'.node.processes p).inserted = true) (hreaped : (s'.node.processes p).reaped = false) :
    p = s'.node.started := by
  rw [step_custody hs] at hin hreaped ⊢
  by_cases ha : ∃ pid, a = .launched pid
  · obtain ⟨pid, rfl⟩ := ha
    by_cases hp : p = s.node.started + 1
    · exact hp
    · have hkept : (s.node.apply (s.access c (.launched pid))).processes p = s.node.processes p :=
        Function.update_of_ne hp ..
      rw [hkept] at hin hreaped
      obtain rfl := hi.inserted p hin hreaped
      exact absurd (.inl ⟨hin, hreaped⟩) (hi.not_open_of_launch hs)
  · replace ha : ∀ pid, s.access c a ≠ .launch pid := fun pid h => ha ⟨pid, eq_launched hs h⟩
    rw [s.node.apply_started ha]
    rcases Custody.inserted_of_apply ha hin with hin | ⟨-, hp⟩
    · exact hi.inserted p hin (Custody.reaped_of_apply ha hreaped)
    · exact hp

theorem Tracked.pre_of_step (hi : s.Tracked) (hs : s.step c a = some s') (h' : Handler)
    (hos' : s'.os = some h') (hpre : h'.pc.pre = true) :
    h'.process = s'.node.started ∧ s'.node.last.reaped = true := by
  have hkeep : ∀ h, s.os = some h → h.pc.pre = true → h.process = s'.node.started ∧
      s'.node.last.reaped = true := by
    intro h hos hp
    have ha : ∀ pid, a ≠ .launched pid := by
      rintro pid rfl
      exact hi.not_open_of_launch hs (.inr ⟨h, hos, hp⟩)
    obtain ⟨hprocess, hreaped⟩ := hi.pre h hos hp
    rw [Custody.last, started_of_step hs ha]
    refine ⟨hprocess, Bool.eq_true_of_not_eq_false fun hfalse => ?_⟩
    rw [step_custody hs] at hfalse
    have := Custody.reaped_of_apply (fun pid hacc => ha pid (eq_launched hs hacc)) hfalse
    exact Bool.noConfusion (hreaped.symm.trans this)
  rcases handler_cases hs hos' with
    ⟨hos, -⟩ | ⟨process, status, rfl, rfl, -, -, hin, hreaped⟩ | ⟨h, pc', -, hos, rfl, hnext⟩
  · exact hkeep h' hos hpre
  · obtain rfl := hi.inserted process hin hreaped
    refine ⟨(started_of_step hs fun _ => by rintro ⟨⟩).symm, ?_⟩
    rw [Custody.last, started_of_step hs fun _ => by rintro ⟨⟩, step_custody hs, access,
      Custody.apply, s.node.modify_self]
  · exact hkeep h hos (hnext.pre hpre).1

theorem processState_of_step (hmain : s.MainWaits a)
    (hs : s.step c a = some s') (hopen : ¬ s.Open) (ha : ∀ ok, a ≠ .worker ok) :
    s'.node.processState = s.node.processState := by
  rw [step_custody hs]
  refine s.node.apply_processState fun new hnew => ?_
  have hp := performs hs
  rw [hnew] at hp
  cases hp with
  | osTerminated hos hpre => exact hopen (.inr ⟨_, hos, hpre⟩)
  | mainIdle hpc | mainTerminating hpc => rcases hmain _ rfl with h | h <;> cases h.symm.trans hpc
  | _ => exact ha _ rfl

theorem Tracked.live_of_step (hi : s.Tracked) (hmain : s.MainWaits a)
    (hs : s.step c a = some s') (hopen' : s'.Open) : s'.node.processState.Live := by
  rcases hi.open_of_step hs hopen' with hopen | hinsert
  · rcases processState_cases hs with hstate | ⟨new, hstate, hnew, hp⟩
    · rw [hstate]
      exact hi.live hopen
    · have halone : ∀ j P, s.worker = some j → j.alone = some P → False :=
        fun j P hw hj => (hi.alone j hw P hj).1 hopen
      rw [hstate]
      cases hp with
      | running | activateTerminating | fatalTerminating | deactivateTerminating
      | mainTerminating => decide
      | starting hw | failed hw | inlineTerminated hw => exact (halone _ _ hw rfl).elim
      | activateIdle hw hp | deactivateIdle hw hp =>
        obtain ⟨P, hP⟩ := claims_of_ne hp
        exact (halone _ P hw hP).elim
      | mainIdle hpc => rcases hmain _ rfl with h | h <;> cases h.symm.trans hpc
      | @osTerminated h hos hpre =>
        exfalso
        rcases hopen' with ⟨-, hfalse⟩ | ⟨h', hos', hpre'⟩
        · rw [Custody.last, started_of_step hs fun _ => by rintro ⟨⟩, step_custody hs] at hfalse
          refine Bool.noConfusion ((hi.pre h hos hpre).2.symm.trans
            (Custody.reaped_of_apply (fun pid hacc => ?_) hfalse))
          cases hnew.symm.trans hacc
        · rcases handler_cases hs hos' with ⟨-, ha⟩ | ⟨_, _, ⟨⟩, _⟩ | ⟨_, _, -, hos₁, rfl, hnext⟩
          · exact ha rfl
          · have hsame := (hnext.pre hpre').2
            rw [hstate] at hsame
            exact absurd (hsame ▸ hi.live hopen) (by decide)
  · have hp := performs hs
    rw [step_custody hs, hinsert]
    rw [hinsert] at hp
    cases hp with
    | insert hw => exact .inl (hi.alone _ hw _ rfl).2

variable {P : ProcessState → Prop}

theorem Tracked.alone_of_other (hi : s.Tracked) (hmain : s.MainWaits a) (hs : s.step c a = some s')
    (ha : ∀ ok, a ≠ .worker ok)
    (halone : ¬ s.Open ∧ P s.node.processState) : ¬ s'.Open ∧ P s'.node.processState := by
  obtain ⟨hopen, hstate⟩ := halone
  rw [processState_of_step hmain hs hopen ha]
  refine ⟨fun hopen' => ?_, hstate⟩
  rcases hi.open_of_step hs hopen' with h | hinsert
  · exact hopen h
  · have hp := performs hs
    rw [hinsert] at hp
    cases hp
    exact ha _ rfl

theorem Tracked.alone_of_activate (hi : s.Tracked) {attempt attempt' : Nat} {pc pc' : Activate}
    (hs : s.step c (.worker ok) = some s') (hw : s.worker = some (.activate attempt pc))
    (hnext : pc.Moves c ok s.node attempt s'.node (.next (attempt', pc')))
    (hP : pc'.alone = some P) : ¬ s'.Open ∧ P s'.node.processState := by
  obtain ⟨hbefore, hinsert, hstate⟩ := hnext.alone hP fun Q hQ => (hi.alone _ hw Q hQ).2
  have hacc : s.access c (.worker ok) = pc.access c ok s.node.toCustody := by rw [access, hw]; rfl
  refine ⟨fun hopen' => ?_, hstate⟩
  have hopen := (hi.open_of_step hs hopen').resolve_right (hacc ▸ hinsert)
  rcases hbefore with hlive | ⟨Q, hQ⟩
  · exact hlive (hi.live hopen)
  · exact (hi.alone _ hw Q hQ).1 hopen

theorem Tracked.alone_of_deactivate (hi : s.Tracked) {pc pc' : Deactivate}
    (hs : s.step c (.worker ok) = some s') (hw : s.worker = some (.deactivate pc))
    (hnext : (pc.step ok s.node).2 = .next pc')
    (hP : (Job.deactivate pc').alone = some P) : ¬ s'.Open ∧ P s'.node.processState := by
  cases pc with
  | clear | unready =>
    cases hnext
    cases hP
  | terminate t =>
    obtain ⟨t', -, rfl⟩ | ⟨_, -, ⟨⟩⟩ := Progress.call_eq_next hnext <;> cases hP
  | setIdle p =>
    obtain ⟨p', hp, rfl⟩ | ⟨_, -, ⟨⟩⟩ := Progress.call_eq_next hnext
    obtain ⟨hlive, hstate⟩ := claims_of_next hp hP
    rw [node_of_worker hw hs, Job.step, Deactivate.step, node_of_next hp]
    refine ⟨fun hopen' => hlive (hi.live ((hi.open_of_step hs hopen').resolve_right ?_)), hstate⟩
    obtain ⟨rfl, -⟩ := next_cases hp
    rw [access, hw]
    rintro ⟨⟩

theorem Tracked.step (hi : s.Tracked) (hmain : s.MainWaits a) (hs : s.step c a = some s') :
    s'.Tracked where
  started := started_of_handler hi.started hs
  inserted := hi.inserted_of_step hs
  pre := hi.pre_of_step hs
  live := hi.live_of_step hmain hs
  alone j' hw' P hP := by
    cases j' with
    | activate attempt' pc' =>
      rcases activate_cases hs hw' with
        ⟨hw, ha⟩ | ⟨-, rfl⟩ | ⟨pid, rfl, hw, rfl⟩ | ⟨ok, attempt, pc, rfl, hw, hnext⟩
      · exact hi.alone_of_other hmain hs ha (hi.alone _ hw P hP)
      · cases hP
      · cases hP
        exact hi.alone_of_other hmain hs (fun _ => nofun) (hi.alone _ hw _ rfl)
      · exact hi.alone_of_activate hs hw hnext hP
    | deactivate pc' =>
      rcases deactivate_cases hs hw' with ⟨hw, ha⟩ | ⟨-, rfl⟩ | ⟨ok, pc, rfl, hw, hnext⟩
      · exact hi.alone_of_other hmain hs ha (hi.alone _ hw P hP)
      · cases hP
      · exact hi.alone_of_deactivate hs hw hnext hP

theorem tracked_init : Tracked {} where
  started := nofun
  inserted := nofun
  pre := nofun
  live h := by rcases h with ⟨⟨⟩, _⟩ | ⟨h, ⟨⟩, _⟩
  alone := nofun

end System

/-- Only the thread that reaps processes marks one so. -/
def Process.marked (p : Process) : Bool := p.reaped || p.early

namespace Custody
variable {k : Custody} {a : Access} {q : Nat}

theorem exited_of_apply (ha : ∀ pid, a ≠ .launch pid) (h : (k.processes q).exited.isSome = true) :
    ((k.apply a).processes q).exited.isSome = true := by
  refine apply_keeps (fun p => p.exited.isSome) ha (fun p hp => ?_) h
  cases a <;> first | rfl | exact hp

theorem marked_of_apply (ha : ∀ pid, a ≠ .launch pid) (hreap : ∀ p, a ≠ .reap p)
    (hearly : ∀ p room, a ≠ .reapEarly p room)
    (h : ((k.apply a).processes q).marked = true) : (k.processes q).marked = true := by
  refine Bool.eq_true_of_not_eq_false fun hq => ?_
  have hkept : (!((k.apply a).processes q).marked) = true := by
    refine apply_keeps (fun p => !p.marked) ha (fun p hp => ?_) (by rw [hq]; rfl)
    cases a with
    | reap p => exact absurd rfl (hreap p)
    | reapEarly p room => exact absurd rfl (hearly p room)
    | takeEarly =>
      have hreaped : p.reaped = false ∧ p.early = false := by simpa [Process.marked] using hp
      simp [Access.note, Process.marked, hreaped.1]
    | _ => exact hp
  rw [h] at hkept
  cases hkept

end Custody

namespace System
variable {c : ComponentConfig} {s s' : System} {a : Act}
variable {p : Nat}

theorem status_of_step (hs : s.step c a = some s') {status : Int}
    (hle : p ≤ s.node.started) (h : (s.node.processes p).exited = some status) :
    (s'.node.processes p).exited = some status := by
  by_cases ha : ∃ pid, a = .launched pid
  · obtain ⟨pid, rfl⟩ := ha
    rw [processes_of_launched hs hle]
    exact h
  · rw [step_custody hs]
    by_cases hexit : ∃ process status', a = .exit process status'
    · obtain ⟨process, status', rfl⟩ := hexit
      cases moves_of_step hs with
      | exit _ _ _ hnone =>
        have hne : p ≠ process := by
          rintro rfl
          cases h.symm.trans hnone
        rw [access, Custody.apply, s.node.modify_of_ne _ _ hne]
        exact h
    · have hp := performs hs
      have hlaunch : ∀ pid, s.access c a ≠ .launch pid :=
        fun pid hacc => ha ⟨pid, eq_launched hs hacc⟩
      rw [s.node.apply_read Process.exited hlaunch fun r => ?_]
      · exact h
      · generalize s.access c a = acc at hp
        cases hp with
        | exit process status' => exact absurd ⟨process, status', rfl⟩ hexit
        | _ => rfl

theorem exited_of_step (hs : s.step c a = some s') (hle : p ≤ s.node.started)
    (h : (s.node.processes p).exited.isSome = true) :
    (s'.node.processes p).exited.isSome = true := by
  obtain ⟨status, hstatus⟩ := Option.isSome_iff_exists.mp h
  rw [status_of_step hs hle hstatus]
  rfl

def Reaped (s : System) : Prop :=
  ∀ p, (s.node.processes p).marked = true → (s.node.processes p).exited.isSome = true

theorem exited_of_reap (hs : s.step c (.reap p) = some s') :
    (s.node.processes p).exited.isSome = true := by
  simp only [step] at hs
  split at hs
  case h_1 status hexit => rw [hexit]; rfl
  case h_2 => cases hs

theorem exited_of_reapEarly {room : Bool} (hs : s.step c (.reapEarly p room) = some s') :
    (s.node.processes p).exited.isSome = true :=
  (Option.ite_none_right_eq_some.mp hs).1.2.2.1

theorem Reaped.step (hi : s.Reaped) (hs : s.step c a = some s') : s'.Reaped := by
  intro p h
  by_cases ha : ∃ pid, a = .launched pid
  · obtain ⟨pid, rfl⟩ := ha
    rw [step_custody hs] at h ⊢
    simp only [access, Custody.apply, Custody.launch, Function.update_apply] at h ⊢
    split_ifs at h ⊢
    · cases h
    · exact hi p h
  · replace ha : ∀ pid, s.access c a ≠ .launch pid := fun pid hacc => ha ⟨pid, eq_launched hs hacc⟩
    have hkept : (s.node.processes p).exited.isSome = true →
        (s'.node.processes p).exited.isSome = true := fun hbefore => by
      rw [step_custody hs]
      exact Custody.exited_of_apply ha hbefore
    by_cases hbefore : (s.node.processes p).marked = true
    · exact hkept (hi p hbefore)
    · rw [step_custody hs] at h
      have hp := performs hs
      generalize hacc : s.access c a = acc at hp h ha
      cases hp with
      | @reap process =>
        by_cases hq : p = process
        · subst hq
          exact hkept (exited_of_reap hs)
        · rw [Custody.apply, s.node.modify_of_ne _ _ hq] at h
          exact absurd h hbefore
      | @reapEarly process =>
        by_cases hq : p = process
        · subst hq
          exact hkept (exited_of_reapEarly hs)
        · rw [Custody.apply, s.node.modify_of_ne _ _ hq] at h
          exact absurd h hbefore
      | _ =>
        refine absurd (Custody.marked_of_apply ha (fun _ => ?_) (fun _ _ => ?_) h) hbefore <;>
          rintro ⟨⟩

/-- A handler is called with the status of a process that has ended. -/
def StatusKnown (s : System) : Prop :=
  ∀ h, s.os = some h → (s.node.processes h.process).exited = some h.status

theorem status_of_reap {process : Nat} {h : Handler} (hs : s.step c (.reap process) = some s')
    (hos : s'.os = some h) : (s.node.processes process).exited = some h.status := by
  simp only [step] at hs
  split at hs
  case h_1 status hexit =>
    obtain ⟨-, heq⟩ := Option.ite_none_right_eq_some.mp hs
    cases heq
    cases hos
    exact hexit
  case h_2 => cases hs

theorem Tracked.statusKnown_of_step (hi : s.Tracked) (h : s.StatusKnown)
    (hs : s.step c a = some s') : s'.StatusKnown := by
  intro h' hos'
  rcases handler_cases hs hos' with
    ⟨hos, -⟩ | ⟨process, status, rfl, rfl, -, hle, -⟩ | ⟨h₁, pc', -, hos, rfl, -⟩
  · exact status_of_step hs (hi.started h' hos) (h h' hos)
  · exact status_of_step hs hle (status_of_reap hs hos')
  · exact status_of_step hs (hi.started h₁ hos) (h h₁ hos)

theorem reaped_of_step (hs : s.step c a = some s') (hle : p ≤ s.node.started)
    (h : (s.node.processes p).reaped = true) : (s'.node.processes p).reaped = true := by
  by_cases ha : ∃ pid, a = .launched pid
  · obtain ⟨pid, rfl⟩ := ha
    rw [processes_of_launched hs hle]
    exact h
  · refine Bool.eq_true_of_not_eq_false fun hfalse => ?_
    rw [step_custody hs] at hfalse
    have := Custody.reaped_of_apply (fun pid hacc => ha ⟨pid, eq_launched hs hacc⟩) hfalse
    exact Bool.noConfusion (h.symm.trans this)

def HandlerReaped (s : System) : Prop :=
  ∀ h, s.os = some h → (s.node.processes h.process).reaped = true

theorem Tracked.handlerReaped_of_step (hi : s.Tracked) (h : s.HandlerReaped)
    (hs : s.step c a = some s') : s'.HandlerReaped := by
  intro h' hos'
  rcases handler_cases hs hos' with
    ⟨hos, -⟩ | ⟨process, status, rfl, rfl, -⟩ | ⟨h₁, pc', -, hos, rfl, -⟩
  · exact reaped_of_step hs (hi.started h' hos) (h h' hos)
  · rw [step_custody hs, access, Custody.apply, s.node.modify_self]
  · exact reaped_of_step hs (hi.started h₁ hos) (h h₁ hos)

theorem os_of_step (hs : s.step c a = some s') {h : Handler} (hos : s.os = some h)
    (ha : a ≠ .os) : s'.os = some h := by
  cases moves_of_step hs with
  | reap process status hnone => cases hnone.symm.trans hos
  | os => exact absurd rfl ha
  | _ => exact hos

end System

end LaunchManager.ProcessInfoNode
