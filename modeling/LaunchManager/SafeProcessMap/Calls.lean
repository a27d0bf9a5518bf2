import Mathlib.Data.Fintype.Basic
import LaunchManager.Library.Runs
import LaunchManager.SafeProcessMap.Refinement

/-!
# Insertions and terminations

Workers insert the processes they have started, the thread that waits for
children reports those that have terminated, in any order. A call is a loop of
rounds, each of them atomic, followed by the notification of the component,
which takes place after the lock is released. The callers are the same whether
they work on the array or on the finite map, so that the second is the
specification of the first.
-/

namespace LaunchManager

set_option autoImplicit false

open Runs

universe u v w

inductive Call (Process : Type v) where
  | insertIfNotTerminated (p : Process)
  | findTerminated (p : Process)
  deriving DecidableEq, Repr

namespace Call
variable {Process : Type v}

def process : Call Process → Process
  | insertIfNotTerminated p => p
  | findTerminated p => p

def other : Call Process → Call Process
  | insertIfNotTerminated p => findTerminated p
  | findTerminated p => insertIfNotTerminated p

@[simp] theorem process_other (call : Call Process) : call.other.process = call.process := by
  cases call <;> rfl

@[simp] theorem other_other (call : Call Process) : call.other.other = call := by
  cases call <;> rfl

theorem other_ne (call : Call Process) : call.other ≠ call := by
  cases call <;> exact nofun

theorem eq_or_eq_other {call d : Call Process} (h : d.process = call.process) :
    d = call ∨ d = call.other := by
  cases call <;> cases d <;> cases h
  · exact .inl rfl
  · exact .inr rfl
  · exact .inr rfl
  · exact .inl rfl

end Call

/-- The processes that are started: the identifier of each, the component it belongs to and the
status with which it terminates. -/
structure Processes (Process : Type v) (C : Type u) where
  pid : Process → ProcessID
  component : Process → C
  status : Process → Int

namespace Processes
variable {Process : Type v} {C : Type u}

/-- The data that a call passes to `search`. -/
def data (w : Processes Process C) : Call Process → ProcessInfoData C
  | .insertIfNotTerminated p => ⟨0, some (w.component p)⟩
  | .findTerminated p => ⟨w.status p, none⟩

def entry (w : Processes Process C) (call : Call Process) : MapEntry C := (w.data call).entry

def pidOf (w : Processes Process C) (call : Call Process) : ProcessID := w.pid call.process

end Processes

inductive CallPhase (C : Type u) where
  | idle
  | searching
  | telling (component : C) (status : Int) (ret : SafeProcessMapReturnType)
  | returned (ret : SafeProcessMapReturnType)
  deriving DecidableEq, Repr

namespace CallPhase
variable {C : Type u}

def begun : CallPhase C → Bool
  | idle => false
  | _ => true

/-- The call has left its entry in the map, or met the other one. -/
def accepted : CallPhase C → Bool
  | telling _ _ _ | returned .ok | returned .yield => true
  | _ => false

/-- The call has had no effect on the map, so far or for good. -/
def unserved : CallPhase C → Bool
  | idle | searching | returned .insertionError => true
  | _ => false

theorem accepted_eq_false {phase : CallPhase C} (h : phase.unserved) : phase.accepted = false := by
  cases phase with
  | returned ret => cases ret <;> first | rfl | cases h
  | idle | searching => rfl
  | telling c status ret => cases h

end CallPhase

def RoundOutcome.phase {C : Type u} (o : RoundOutcome C) : CallPhase C :=
  match o.ret, o.told with
  | none, _ => .searching
  | some ret, some (c, status) => .telling c status ret
  | some ret, none => .returned ret

/-- The map and its callers; `told` is what the component controller was called with, the last
call first. -/
structure Callers (Map : Type w) (Process : Type v) (C : Type u) where
  map : Map
  phase : Call Process → CallPhase C := fun _ => .idle
  told : List (Call Process × C × Int) := []

namespace Callers
variable {Map : Type w} {Process : Type v} {C : Type u}

inductive Act (Process : Type v) where
  | begin (call : Call Process)
  | round (call : Call Process)
  | tell (call : Call Process)

/-- `attempt` is one round on the map. -/
def step [DecidableEq Process]
    (attempt : Map → ProcessID → ProcessInfoData C → Option (Map × RoundOutcome C))
    (w : Processes Process C) (s : Callers Map Process C) :
    Act Process → Option (Callers Map Process C)
  | .begin call =>
    match s.phase call with
    | .idle =>
      let next := if 0 ≤ (w.pidOf call).toInt then .searching else .returned .invalidIdError
      some { s with phase := Function.update s.phase call next }
    | _ => none
  | .round call =>
    match s.phase call with
    | .searching =>
      (attempt s.map (w.pidOf call) (w.data call)).map fun (map, o) =>
        { s with map, phase := Function.update s.phase call o.phase }
    | _ => none
  | .tell call =>
    match s.phase call with
    | .telling c status ret =>
      some
        { s with
          phase := Function.update s.phase call (.returned ret)
          told := (call, c, status) :: s.told }
    | _ => none

def Begun (s : Callers Map Process C) (p : Process) : Prop :=
  (s.phase (.insertIfNotTerminated p)).begun ∨ (s.phase (.findTerminated p)).begun

/-- The insertion and the termination of the process have met. -/
def Met (s : Callers Map Process C) (p : Process) : Prop :=
  (s.phase (.insertIfNotTerminated p)).accepted ∧ (s.phase (.findTerminated p)).accepted

instance (s : Callers Map Process C) (p : Process) : Decidable (s.Begun p) :=
  inferInstanceAs (Decidable (_ ∨ _))

instance (s : Callers Map Process C) (p : Process) : Decidable (s.Met p) :=
  inferInstanceAs (Decidable (_ ∧ _))

def Waits (s : Callers Map Process C) (call : Call Process) : Prop :=
  (s.phase call).accepted ∧ (s.phase call.other).accepted = false

/-- An identifier is used again only after the calls of its last process have met. -/
def Reuse (w : Processes Process C) (s : Callers Map Process C) : Act Process → Prop
  | .begin call => ∀ p, p ≠ call.process → w.pid p = w.pidOf call → s.Begun p → s.Met p
  | _ => True

instance [DecidableEq Process] [Fintype Process] (w : Processes Process C)
    (s : Callers Map Process C) : ∀ a, Decidable (Reuse w s a)
  | .begin _ => inferInstanceAs (Decidable (∀ _, _ → _ → _ → _))
  | .round _ => isTrue trivial
  | .tell _ => isTrue trivial

section
variable {w : Processes Process C} {call : Call Process} {p : Process}

theorem msb_pidOf (hpid : ∀ p, 0 ≤ (w.pid p).toInt) (call : Call Process) :
    (w.pidOf call).msb = false :=
  SafeProcessMap.msb_of_nonneg (hpid _)

theorem begun_iff (s : Callers Map Process C) :
    s.Begun p ↔ ∃ call : Call Process, call.process = p ∧ (s.phase call).begun := by
  constructor
  · rintro (h | h)
    · exact ⟨_, rfl, h⟩
    · exact ⟨_, rfl, h⟩
  · rintro ⟨call | call, rfl, h⟩
    · exact .inl h
    · exact .inr h

theorem met_iff (s : Callers Map Process C) (hp : call.process = p) :
    s.Met p ↔ (s.phase call).accepted ∧ (s.phase call.other).accepted := by
  subst hp
  cases call with
  | insertIfNotTerminated p => exact Iff.rfl
  | findTerminated p => exact and_comm

theorem accepted_ret (e : MapEntry C) :
    (CallPhase.returned e.ret : CallPhase C).accepted = true := by
  cases e <;> rfl

/-- The two entries of a process meet. -/
theorem attempt_meets {m : FiniteMap C} {capacity : Nat} {key : ProcessID}
    (h : m.lookup key = some (w.entry call.other)) : m.attempt capacity key (w.entry call) =
      (m.erase key, ⟨some (w.entry call.other).ret,
        some (w.component call.process, w.status call.process)⟩) := by
  unfold FiniteMap.attempt
  rw [h]
  cases call <;> rfl

variable {s : Callers Map Process C}

theorem waits_congr {Map' : Type*} {s' : Callers Map' Process C}
    (h : ∀ call, (s'.phase call).accepted = (s.phase call).accepted) :
    s'.Waits call ↔ s.Waits call := by
  rw [Waits, Waits, h, h]

theorem met_congr {Map' : Type*} {s' : Callers Map' Process C}
    (h : ∀ call, (s'.phase call).accepted = (s.phase call).accepted) : s'.Met p ↔ s.Met p := by
  rw [Met, Met, h, h]

end

variable [DecidableEq Process]

def toldOf (s : Callers Map Process C) (p : Process) : List (Call Process × C × Int) :=
  s.told.filter fun x => x.1.process = p

/-- The callers of the finite map. -/
def specStep (capacity : Nat) (w : Processes Process C) :
    Callers (FiniteMap C) Process C → Act Process →
      Option (Callers (FiniteMap C) Process C) :=
  step (fun m key data => some (m.attempt capacity key data.entry)) w

inductive Progress (w : Processes Process C) (s : Callers Map Process C) (p : Process) : Prop where
  | pending (h : ∀ call : Call Process, call.process = p → (s.phase call).unserved)
      (htold : s.toldOf p = [])
  | waiting (first : Call Process) (hp : first.process = p)
      (h₁ : s.phase first = .returned (w.entry first).ret)
      (h₂ : (s.phase first.other).unserved) (htold : s.toldOf p = [])
  | met (first : Call Process) (hp : first.process = p)
      (h₁ : s.phase first = .returned (w.entry first).ret)
      (h₂ : s.phase first.other = .telling (w.component p) (w.status p) (w.entry first).ret)
      (htold : s.toldOf p = [])
  | told (first : Call Process) (hp : first.process = p)
      (h₁ : s.phase first = .returned (w.entry first).ret)
      (h₂ : s.phase first.other = .returned (w.entry first).ret)
      (htold : s.toldOf p = [(first.other, w.component p, w.status p)])

structure Inv (w : Processes Process C) (s : Callers (FiniteMap C) Process C) : Prop where
  exclusive : ∀ p q, p ≠ q → w.pid p = w.pid q → s.Begun p → s.Begun q → s.Met p ∨ s.Met q
  entries : ∀ k e, s.map.lookup k = some e ↔
    ∃ call, w.pidOf call = k ∧ s.Waits call ∧ w.entry call = e
  progress : ∀ p, Progress w s p

section Steps
variable {w : Processes Process C} {call : Call Process} {p : Process} {e : MapEntry C}

theorem Progress.congr {Map' : Type*} {s : Callers Map Process C} {s' : Callers Map' Process C}
    (h : Progress w s p) (hphase : ∀ call : Call Process, call.process = p →
      s'.phase call = s.phase call) (htold : s'.toldOf p = s.toldOf p) : Progress w s' p := by
  cases h with
  | pending h ht =>
    refine .pending (fun call hp => ?_) (htold.trans ht)
    rw [hphase call hp]
    exact h call hp
  | waiting first hp h₁ h₂ ht =>
    have hother := hphase first.other (first.process_other.trans hp)
    exact .waiting first hp ((hphase first hp).trans h₁) (by rw [hother]; exact h₂) (htold.trans ht)
  | met first hp h₁ h₂ ht =>
    exact .met first hp ((hphase first hp).trans h₁)
      ((hphase first.other (first.process_other.trans hp)).trans h₂) (htold.trans ht)
  | told first hp h₁ h₂ ht =>
    exact .told first hp ((hphase first hp).trans h₁)
      ((hphase first.other (first.process_other.trans hp)).trans h₂) (htold.trans ht)

section Inversion
variable {attempt : Map → ProcessID → ProcessInfoData C → Option (Map × RoundOutcome C)}
variable {s s' : Callers Map Process C}

theorem step_begin (h : step attempt w s (.begin call) = some s') :
    s.phase call = .idle ∧ s'.map = s.map ∧ s'.told = s.told ∧
      ∀ d, s'.phase d = if d = call then
        (if 0 ≤ (w.pidOf call).toInt then .searching else .returned .invalidIdError)
        else s.phase d := by
  rw [step] at h
  split at h
  case h_1 hidle =>
    cases h
    exact ⟨hidle, rfl, rfl, fun d => Function.update_apply _ _ _ _⟩
  case h_2 => cases h

theorem step_round (h : step attempt w s (.round call) = some s') : s.phase call = .searching ∧ ∃ o,
      attempt s.map (w.pidOf call) (w.data call) = some (s'.map, o) ∧ s'.told = s.told ∧
      ∀ d, s'.phase d = if d = call then o.phase else s.phase d := by
  rw [step] at h
  split at h
  case h_1 hsearch =>
    obtain ⟨⟨map, o⟩, heq, hs'⟩ := Option.map_eq_some_iff.mp h
    cases hs'
    exact ⟨hsearch, o, heq, rfl, fun d => Function.update_apply _ _ _ _⟩
  case h_2 => cases h

theorem step_tell (h : step attempt w s (.tell call) = some s') :
    ∃ c status ret, s.phase call = .telling c status ret ∧ s'.map = s.map ∧
      s'.told = (call, c, status) :: s.told ∧
      ∀ d, s'.phase d = if d = call then .returned ret else s.phase d := by
  rw [step] at h
  split at h
  case h_1 c status ret htell =>
    cases h
    exact ⟨c, status, ret, htell, rfl, rfl, fun d => Function.update_apply _ _ _ _⟩
  case h_2 => cases h

variable {next : CallPhase C}

theorem begun_of_update (hphase : ∀ d, s'.phase d = if d = call then next else s.phase d)
    (hcall : p ≠ call.process ∨ (s.phase call).begun) (hb : s'.Begun p) : s.Begun p := by
  obtain ⟨d, rfl, hd⟩ := (begun_iff _).mp hb
  rw [hphase] at hd
  split at hd
  case isTrue heq =>
    subst heq
    exact (begun_iff _).mpr ⟨d, rfl, hcall.resolve_left fun h => h rfl⟩
  case isFalse => exact (begun_iff _).mpr ⟨d, rfl, hd⟩

theorem Progress.of_update (h : Progress w s p)
    (hphase : ∀ d, s'.phase d = if d = call then next else s.phase d) (hp : p ≠ call.process)
    (htold : s'.toldOf p = s.toldOf p) : Progress w s' p := by
  refine h.congr (fun d hd => ?_) htold
  rw [hphase, if_neg]
  rintro rfl
  exact hp hd.symm

end Inversion

variable {s s' : Callers (FiniteMap C) Process C} {capacity : Nat}

theorem Inv.init : Inv w ⟨∅, fun _ => .idle, []⟩ where
  exclusive p q _ _ hp _ := by simp [Begun, CallPhase.begun] at hp
  entries k e := by
    rw [Finmap.lookup_empty]
    exact iff_of_false nofun fun ⟨_, _, h, _⟩ => by cases h.1
  progress p := .pending (fun _ _ => rfl) rfl

theorem Inv.begin {next : CallPhase C} (h : Inv w s) (hok : Reuse w s (.begin call))
    (hidle : s.phase call = .idle) (hnext : next.unserved) (hmap : s'.map = s.map)
    (htold : s'.told = s.told) (hphase : ∀ d, s'.phase d = if d = call then next else s.phase d) :
    Inv w s' := by
  have hacc : ∀ d, (s'.phase d).accepted = (s.phase d).accepted := by
    intro d
    rw [hphase]
    split
    case isTrue hd => rw [hd, CallPhase.accepted_eq_false hnext, hidle]; rfl
    case isFalse => rfl
  have huns : ∀ d, (s.phase d).unserved → (s'.phase d).unserved := by
    intro d hd
    rw [hphase]
    split
    case isTrue => exact hnext
    case isFalse => exact hd
  have hbegun : ∀ p, p ≠ call.process → s'.Begun p → s.Begun p := fun p hp =>
    begun_of_update hphase (.inl hp)
  have htold' : ∀ p, s'.toldOf p = s.toldOf p := fun p => by rw [toldOf, toldOf, htold]
  refine ⟨fun p q hpq hpid hp hq => ?_, fun k e => ?_, fun p => ?_⟩
  · rw [met_congr hacc, met_congr hacc]
    by_cases hpc : p = call.process
    · have hqc : q ≠ call.process := fun heq => hpq (hpc.trans heq.symm)
      exact .inr (hok q hqc (hpid.symm.trans (hpc ▸ rfl)) (hbegun q hqc hq))
    · by_cases hqc : q = call.process
      · exact .inl (hok p hpc (hpid.trans (hqc ▸ rfl)) (hbegun p hpc hp))
      · exact h.exclusive p q hpq hpid (hbegun p hpc hp) (hbegun q hqc hq)
  · simp only [waits_congr hacc, hmap]
    exact h.entries k e
  · by_cases hp : p = call.process
    · subst p
      cases h.progress call.process with
      | pending hall ht =>
        exact .pending (fun d hd => huns d (hall d hd)) ((htold' _).trans ht)
      | waiting first hp h₁ h₂ ht =>
        refine .waiting first hp ?_ (huns _ h₂) ((htold' _).trans ht)
        rw [hphase, if_neg, h₁]
        rintro rfl
        rw [hidle] at h₁
        cases h₁
      | met first hp h₁ h₂ ht | told first hp h₁ h₂ ht =>
        rcases Call.eq_or_eq_other hp.symm with rfl | rfl
        · rw [hidle] at h₁
          cases h₁
        · rw [hidle] at h₂
          cases h₂
    · exact (h.progress p).of_update hphase hp (htold' p)

theorem Inv.tell {c : C} {status : Int} {ret : SafeProcessMapReturnType} (h : Inv w s)
    (htell : s.phase call = .telling c status ret) (hmap : s'.map = s.map)
    (htold : s'.told = (call, c, status) :: s.told)
    (hphase : ∀ d, s'.phase d = if d = call then .returned ret else s.phase d) : Inv w s' := by
  -- the process of the call has met and tells its own data
  obtain ⟨first, rfl, h₁, h₂, ht⟩ : ∃ first, call = Call.other first ∧
      s.phase first = .returned (w.entry first).ret ∧
      s.phase first.other =
        .telling (w.component call.process) (w.status call.process) (w.entry first).ret ∧
      s.toldOf call.process = [] := by
    cases h.progress call.process with
    | pending hall ht =>
      have := hall call rfl
      rw [htell] at this
      cases this
    | waiting first hp h₁ h₂ ht | told first hp h₁ h₂ ht =>
      rcases Call.eq_or_eq_other hp.symm with rfl | rfl
      · rw [htell] at h₁
        cases h₁
      · rw [htell] at h₂
        cases h₂
    | met first hp h₁ h₂ ht =>
      rcases Call.eq_or_eq_other hp.symm with rfl | rfl
      · rw [htell] at h₁
        cases h₁
      · exact ⟨first, rfl, h₁, h₂, ht⟩
  rw [htell] at h₂
  cases h₂
  have hacc : ∀ d, (s'.phase d).accepted = (s.phase d).accepted := by
    intro d
    rw [hphase]
    split
    case isTrue hd => rw [hd, htell, accepted_ret]; rfl
    case isFalse => rfl
  have hbegun : ∀ p, s'.Begun p → s.Begun p := fun p =>
    begun_of_update hphase (.inr (by rw [htell]; rfl))
  refine ⟨fun p q hpq hpid hp hq => ?_, fun k e => ?_, fun p => ?_⟩
  · rw [met_congr hacc, met_congr hacc]
    exact h.exclusive p q hpq hpid (hbegun p hp) (hbegun q hq)
  · simp only [waits_congr hacc, hmap]
    exact h.entries k e
  · by_cases hp : p = first.other.process
    · subst p
      refine .told first first.process_other.symm ?_ ?_ ?_
      · rw [hphase, if_neg first.other_ne.symm, h₁]
      · rw [hphase, if_pos rfl]
      · rw [toldOf, htold, List.filter_cons_of_pos (by simp)]
        exact congrArg _ ht
    · refine (h.progress p).of_update hphase hp ?_
      rw [toldOf, htold, List.filter_cons_of_neg (by simpa using Ne.symm hp)]
      rfl

theorem Inv.eq_other {d : Call Process} (h : Inv w s) (hsearch : s.phase call = .searching)
    (hw : s.Waits d) (hpid : w.pidOf d = w.pidOf call) : d = call.other := by
  have hcall : (s.phase call).accepted = false := by rw [hsearch]; rfl
  have hprocess : d.process = call.process := by
    by_contra hne
    have hbegun : s.Begun d.process := by
      refine (begun_iff _).mpr ⟨d, rfl, ?_⟩
      have := hw.1
      revert this
      cases s.phase d <;> simp [CallPhase.accepted, CallPhase.begun]
    have hbegun' : s.Begun call.process := (begun_iff _).mpr ⟨call, rfl, by rw [hsearch]; rfl⟩
    rcases h.exclusive _ _ hne hpid hbegun hbegun' with hmet | hmet
    · have := ((met_iff s rfl).mp hmet).2
      rw [hw.2] at this
      cases this
    · have := ((met_iff s rfl).mp hmet).1
      rw [hcall] at this
      cases this
  refine (Call.eq_or_eq_other hprocess).resolve_left fun heq => ?_
  have := hw.1
  rw [heq, hcall] at this
  cases this

theorem Inv.round_cases (h : Inv w s) (hsearch : s.phase call = .searching) :
    s.toldOf call.process = [] ∧
      ((s.phase call.other).unserved ∧ s.map.lookup (w.pidOf call) = none ∨
        s.phase call.other = .returned (w.entry call.other).ret ∧
          s.map.lookup (w.pidOf call) = some (w.entry call.other)) := by
  have hcall : (s.phase call).accepted = false := by rw [hsearch]; rfl
  cases h.progress call.process with
  | pending hall ht =>
    have hother := hall call.other call.process_other
    refine ⟨ht, .inl ⟨hother, ?_⟩⟩
    rw [Option.eq_none_iff_forall_ne_some]
    intro e he
    obtain ⟨d, hpid, hw, -⟩ := (h.entries _ _).mp he
    have := hw.1
    rw [h.eq_other hsearch hw hpid, CallPhase.accepted_eq_false hother] at this
    cases this
  | waiting first hp h₁ h₂ ht =>
    rcases Call.eq_or_eq_other hp with rfl | rfl
    · rw [hsearch] at h₁
      cases h₁
    · refine ⟨ht, .inr ⟨h₁, (h.entries _ _).mpr ⟨call.other, congrArg w.pid hp, ?_, rfl⟩⟩⟩
      exact ⟨by rw [h₁, accepted_ret], CallPhase.accepted_eq_false h₂⟩
  | met first hp h₁ h₂ ht | told first hp h₁ h₂ ht =>
    rcases Call.eq_or_eq_other hp with rfl | rfl
    · rw [hsearch] at h₁
      cases h₁
    · rw [Call.other_other, hsearch] at h₂
      cases h₂

variable {o : RoundOutcome C}

/-- What a round does: the entry is made, it is refused, or the two calls meet. -/
theorem Inv.round_effect {m : FiniteMap C} (h : Inv w s) (hsearch : s.phase call = .searching)
    (hattempt : s.map.attempt capacity (w.pidOf call) (w.entry call) = (m, o)) :
    s.toldOf call.process = [] ∧
      ((s.phase call.other).unserved ∧ s.map.lookup (w.pidOf call) = none ∧
          (s.map.keys.card < capacity ∧ m = s.map.insert (w.pidOf call) (w.entry call) ∧
              o.phase = .returned (w.entry call).ret ∨
            ¬ s.map.keys.card < capacity ∧ m = s.map ∧ o.phase = .returned .insertionError) ∨
        s.phase call.other = .returned (w.entry call.other).ret ∧
          s.map.lookup (w.pidOf call) = some (w.entry call.other) ∧
          m = s.map.erase (w.pidOf call) ∧
          o.phase = .telling (w.component call.process) (w.status call.process)
            (w.entry call.other).ret) := by
  obtain ⟨ht, ⟨hother, hnone⟩ | ⟨hother, hsome⟩⟩ := h.round_cases hsearch
  · refine ⟨ht, .inl ⟨hother, hnone, ?_⟩⟩
    rw [FiniteMap.attempt_absent _ hnone] at hattempt
    split at hattempt
    case isTrue hlt =>
      obtain ⟨hmap, rfl⟩ := Prod.mk.inj hattempt
      exact .inl ⟨hlt, hmap.symm, rfl⟩
    case isFalse hfull =>
      obtain ⟨hmap, rfl⟩ := Prod.mk.inj hattempt
      exact .inr ⟨hfull, hmap.symm, rfl⟩
  · rw [attempt_meets hsome] at hattempt
    obtain ⟨hmap, rfl⟩ := Prod.mk.inj hattempt
    exact ⟨ht, .inr ⟨hother, hsome, hmap.symm, rfl⟩⟩

theorem Inv.round (h : Inv w s) (hsearch : s.phase call = .searching)
    (hattempt : s.map.attempt capacity (w.pidOf call) (w.entry call) = (s'.map, o))
    (htold : s'.told = s.told)
    (hphase : ∀ d, s'.phase d = if d = call then o.phase else s.phase d) : Inv w s' := by
  have hcall : (s.phase call).accepted = false := by rw [hsearch]; rfl
  have hself : s'.phase call = o.phase := (hphase call).trans (if_pos rfl)
  have hsame : ∀ d, d ≠ call → s'.phase d = s.phase d := fun d hd => (hphase d).trans (if_neg hd)
  have hsecond : s'.phase call.other = s.phase call.other := hsame _ call.other_ne
  have htold' : ∀ p, s'.toldOf p = s.toldOf p := fun p => by rw [toldOf, toldOf, htold]
  -- accepted calls stay accepted, so that processes that have met stay so
  have hmet : ∀ p, s.Met p → s'.Met p := by
    have hmono : ∀ d, (s.phase d).accepted → (s'.phase d).accepted := by
      intro d hd
      rw [hsame d]
      · exact hd
      · rintro rfl
        rw [hcall] at hd
        cases hd
    exact fun p hp => ⟨hmono _ hp.1, hmono _ hp.2⟩
  have hbegun : ∀ p, s'.Begun p → s.Begun p := fun p =>
    begun_of_update hphase (.inr (by rw [hsearch]; rfl))
  have hwaits : ∀ d, d ≠ call → d ≠ call.other → (s'.Waits d ↔ s.Waits d) := by
    intro d hd hd'
    have hne : d.other ≠ call := fun heq => hd' (by rw [← heq, Call.other_other])
    rw [Waits, Waits, hsame d hd, hsame _ hne]
  obtain ⟨ht, hcases⟩ := h.round_effect hsearch hattempt
  refine ⟨fun p q hpq hpid hp hq => ?_, fun k e => ?_, fun p => ?_⟩
  · exact (h.exclusive p q hpq hpid (hbegun p hp) (hbegun q hq)).imp (hmet p) (hmet q)
  · by_cases hk : k = w.pidOf call
    · subst hk
      -- of the calls with this identifier only those of this process can wait
      have hown : ∀ d, w.pidOf d = w.pidOf call → s'.Waits d → d = call ∨ d = call.other := by
        intro d hpid hd
        by_contra hne
        rw [not_or] at hne
        exact hne.2 (h.eq_other hsearch ((hwaits d hne.1 hne.2).mp hd) hpid)
      rcases hcases with ⟨hother, hnone, ⟨-, hmap, ho⟩ | ⟨-, hmap, ho⟩⟩ | ⟨hother, -, hmap, ho⟩
      · rw [hmap, Finmap.lookup_insert, Option.some.injEq]
        constructor
        · rintro rfl
          refine ⟨call, rfl, ⟨?_, by rw [hsecond, CallPhase.accepted_eq_false hother]⟩, rfl⟩
          rw [hself, ho, accepted_ret]
        · rintro ⟨d, hpid, hd, rfl⟩
          rcases hown d hpid hd with rfl | rfl
          · rfl
          · have := hd.1
            rw [hsecond, CallPhase.accepted_eq_false hother] at this
            cases this
      · rw [hmap, hnone]
        refine iff_of_false nofun ?_
        rintro ⟨d, hpid, hd, -⟩
        have := hd.1
        rcases hown d hpid hd with rfl | rfl
        · rw [hself, ho] at this
          cases this
        · rw [hsecond, CallPhase.accepted_eq_false hother] at this
          cases this
      · rw [hmap, Finmap.lookup_erase]
        refine iff_of_false nofun ?_
        rintro ⟨d, hpid, hd, -⟩
        have := hd.2
        rcases hown d hpid hd with rfl | rfl
        · rw [hsecond, hother, accepted_ret] at this
          cases this
        · rw [Call.other_other, hself, ho] at this
          cases this
    · have hmap : s'.map.lookup k = s.map.lookup k := by
        rcases hcases with ⟨-, -, ⟨-, hmap, -⟩ | ⟨-, hmap, -⟩⟩ | ⟨-, -, hmap, -⟩
        · rw [hmap, Finmap.lookup_insert_of_ne _ hk]
        · rw [hmap]
        · rw [hmap, Finmap.lookup_erase_ne hk]
      rw [hmap, h.entries]
      refine exists_congr fun d => and_congr_right fun hpid => and_congr_left fun _ => ?_
      refine (hwaits d ?_ ?_).symm
      · rintro rfl
        exact hk hpid.symm
      · rintro rfl
        exact hk (hpid.symm.trans (congrArg w.pid call.process_other))
  · by_cases hp : p = call.process
    · subst p
      rcases hcases with ⟨hother, -, ⟨-, -, ho⟩ | ⟨-, -, ho⟩⟩ | ⟨hother, -, -, ho⟩
      · exact .waiting call rfl (hself.trans ho) (by rw [hsecond, hother]) ((htold' _).trans ht)
      · refine .pending (fun d hd => ?_) ((htold' _).trans ht)
        rcases Call.eq_or_eq_other hd with rfl | rfl
        · rw [hself, ho]
          rfl
        · rw [hsecond, hother]
      · refine .met call.other call.process_other (hsecond.trans hother) ?_ ((htold' _).trans ht)
        rw [Call.other_other, hself, ho]
    · exact (h.progress p).of_update hphase hp (htold' p)

theorem Inv.step {a : Act Process} (hpid : ∀ p, 0 ≤ (w.pid p).toInt) (h : Inv w s)
    (hok : Reuse w s a) (hs : specStep capacity w s a = some s') : Inv w s' := by
  cases a with
  | begin call =>
    obtain ⟨hidle, hmap, htold, hphase⟩ := step_begin hs
    have hnext : (if 0 ≤ (w.pidOf call).toInt then CallPhase.searching
        else .returned .invalidIdError : CallPhase C).unserved := by
      have hnonneg : 0 ≤ (w.pidOf call).toInt := hpid call.process
      rw [if_pos hnonneg]
      rfl
    exact h.begin hok hidle hnext hmap htold hphase
  | round call =>
    obtain ⟨hsearch, o, hattempt, htold, hphase⟩ := step_round hs
    exact h.round hsearch (Option.some.inj hattempt) htold hphase
  | tell call =>
    obtain ⟨c, status, ret, htell, hmap, htold, hphase⟩ := step_tell hs
    exact h.tell htell hmap htold hphase

end Steps

/-- The array and the finite map with the same callers. -/
def Agree (capacity : Nat) (s : Callers (SafeProcessMap C) Process C)
    (t : Callers (FiniteMap C) Process C) : Prop :=
  s.phase = t.phase ∧ s.told = t.told ∧ s.map.capacity = capacity ∧ s.map.Refines t.map

def mapStep (w : Processes Process C) :
    Callers (SafeProcessMap C) Process C → Act Process →
      Option (Callers (SafeProcessMap C) Process C) :=
  step SafeProcessMap.attempt w

section Refinement
variable {w : Processes Process C} {capacity : Nat} {a : Act Process}
variable {s s' : Callers (SafeProcessMap C) Process C} {t : Callers (FiniteMap C) Process C}

theorem Agree.step (hpid : ∀ p, 0 ≤ (w.pid p).toInt) (hcap : 0 < capacity)
    (h : Agree capacity s t) (hok : Reuse w s a) (hs : mapStep w s a = some s') :
    ∃ t', Reuse w t a ∧ specStep capacity w t a = some t' ∧ Agree capacity s' t' := by
  obtain ⟨map, phase, told⟩ := s
  obtain ⟨m, phase', told'⟩ := t
  obtain ⟨rfl, rfl, rfl, hR⟩ := h
  have hok' : Reuse w ⟨m, phase, told⟩ a := by
    cases a with
    | begin call => exact hok
    | round call | tell call => trivial
  cases a with
  | begin call | tell call =>
    unfold mapStep step at hs
    unfold specStep step
    dsimp only at hs ⊢
    split at hs
    case h_1 =>
      cases hs
      exact ⟨_, hok', rfl, rfl, rfl, rfl, hR⟩
    case h_2 => cases hs
  | round call =>
    obtain ⟨map', hattempt, hcap', hR'⟩ :=
      SafeProcessMap.attempt_refines (w.data call) hR hcap (msb_pidOf hpid call)
    unfold mapStep step at hs
    unfold specStep step
    dsimp only at hs ⊢
    split at hs
    case h_1 =>
      rw [hattempt] at hs
      cases hs
      exact ⟨_, hok', rfl, rfl, rfl, hcap', hR'⟩
    case h_2 => cases hs

/-- Of two accepted calls one told the component, and both return what the first one returned. -/
theorem Progress.told_once {p : Process} {r₁ r₂ : SafeProcessMapReturnType}
    (h : Progress w s p) (h₁ : s.phase (.insertIfNotTerminated p) = .returned r₁)
    (h₂ : s.phase (.findTerminated p) = .returned r₂) (hr₁ : r₁ ≠ .insertionError)
    (hr₂ : r₂ ≠ .insertionError) :
    r₁ = .ok ∧ r₂ = .ok ∧ s.toldOf p = [(.findTerminated p, w.component p, w.status p)] ∨
      r₁ = .yield ∧ r₂ = .yield ∧
        s.toldOf p = [(.insertIfNotTerminated p, w.component p, w.status p)] := by
  have served : ∀ {call r}, s.phase call = .returned r → r ≠ .insertionError →
      ¬ (s.phase call).unserved := by
    intro call r hcall hr huns
    rw [hcall] at huns
    cases r <;> first | exact hr rfl | cases huns
  cases h with
  | pending h _ => exact absurd (h _ rfl) (served h₁ hr₁)
  | waiting first hp _ hother _ =>
    cases first with
    | insertIfNotTerminated q =>
      cases hp
      exact absurd hother (served h₂ hr₂)
    | findTerminated q =>
      cases hp
      exact absurd hother (served h₁ hr₁)
  | met first hp _ hother _ =>
    cases first with
    | insertIfNotTerminated q =>
      cases hp
      cases h₂.symm.trans hother
    | findTerminated q =>
      cases hp
      cases h₁.symm.trans hother
  | told first hp hfirst hother htold =>
    cases first with
    | insertIfNotTerminated q =>
      cases hp
      cases h₁.symm.trans hfirst
      cases h₂.symm.trans hother
      exact .inl ⟨rfl, rfl, htold⟩
    | findTerminated q =>
      cases hp
      cases h₁.symm.trans hother
      cases h₂.symm.trans hfirst
      exact .inr ⟨rfl, rfl, htold⟩

theorem Progress.toldOf_eq_nil {p : Process} (h : Progress w s p) (hmet : ¬ s.Met p) :
    s.toldOf p = [] := by
  cases h with
  | pending _ ht | waiting _ _ _ _ ht | met _ _ _ _ ht => exact ht
  | told first hp h₁ h₂ _ =>
    refine absurd ((met_iff s hp).mpr ⟨?_, ?_⟩) hmet
    · rw [h₁, accepted_ret]
    · rw [h₂, accepted_ret]

theorem Agree.round {call : Call Process} (hpid : ∀ p, 0 ≤ (w.pid p).toInt) (hcap : 0 < capacity)
    (h : Agree capacity s t) (hinv : Inv w t) (hsearch : s.phase call = .searching) :
    ∃ s', mapStep w s (.round call) = some s' ∧ s'.phase call ≠ .searching ∧
      (s'.phase call = .returned .insertionError ↔
        t.map.lookup (w.pidOf call) = none ∧ t.map.keys.card = capacity) ∧
      (s'.phase call = .returned .insertionError → s'.map.Refines t.map) := by
  obtain ⟨map, phase, told⟩ := s
  obtain ⟨m, phase', told'⟩ := t
  obtain ⟨rfl, rfl, rfl, hR⟩ := h
  dsimp only at hsearch
  obtain ⟨map', hattempt, -, hR'⟩ :=
    SafeProcessMap.attempt_refines (w.data call) hR hcap (msb_pidOf hpid call)
  rcases hspec : m.attempt map.capacity (w.pidOf call) (w.data call).entry with ⟨m', o⟩
  rw [hspec] at hattempt hR'
  have hstep : mapStep w ⟨map, phase, told⟩ (.round call) =
      some ⟨map', Function.update phase call o.phase, told⟩ := by
    unfold mapStep Callers.step
    simp only [hsearch, hattempt]
    rfl
  refine ⟨_, hstep, ?_⟩
  dsimp only
  rw [Function.update_self]
  obtain ⟨-, ⟨-, hnone, ⟨hlt, -, ho⟩ | ⟨hfull, hmap, ho⟩⟩ | ⟨-, hsome, -, ho⟩⟩ :=
    hinv.round_effect hsearch hspec
  · have hret : o.phase ≠ .returned .insertionError := by
      rw [ho]
      cases w.entry call <;> exact nofun
    refine ⟨by rw [ho]; exact nofun, iff_of_false hret fun h => hlt.ne h.2, fun h => absurd h hret⟩
  · rw [ho]
    cases (hmap : m' = m)
    exact ⟨nofun, iff_of_true rfl ⟨hnone, le_antisymm hR.card_le (not_lt.mp hfull)⟩, fun _ => hR'⟩
  · rw [ho]
    refine ⟨nofun, iff_of_false nofun fun h => ?_, nofun⟩
    rw [hsome] at h
    cases h.1

end Refinement

/-- The callers of the array are callers of a finite map, and each component is told once. -/
theorem process_map_is_finite_map (w : Processes Process C) (hpid : ∀ p, 0 ≤ (w.pid p).toInt)
    {capacity : Nat} (hpos : 1 ≤ capacity) (hle : capacity < 2 ^ 32)
    {s : Callers (SafeProcessMap C) Process C}
    (hrun : Run (mapStep w) (Reuse w) ⟨.create capacity, fun _ => .idle, []⟩ s) :
    ∃ m : FiniteMap C, s.map.Refines m ∧
      Run (specStep capacity w) (Reuse w) ⟨∅, fun _ => .idle, []⟩ ⟨m, s.phase, s.told⟩ ∧
      (∀ call, s.phase call = .searching →
        ∃ s', mapStep w s (.round call) = some s' ∧ s'.phase call ≠ .searching ∧
          (s'.phase call = .returned .insertionError ↔
            m.lookup (w.pidOf call) = none ∧ m.keys.card = capacity) ∧
          (s'.phase call = .returned .insertionError → s'.map.Refines m)) ∧
      (∀ p r₁ r₂, s.phase (.insertIfNotTerminated p) = .returned r₁ →
        s.phase (.findTerminated p) = .returned r₂ →
        r₁ ≠ .insertionError → r₂ ≠ .insertionError →
        r₁ = .ok ∧ r₂ = .ok ∧ s.toldOf p = [(.findTerminated p, w.component p, w.status p)] ∨
          r₁ = .yield ∧ r₂ = .yield ∧
            s.toldOf p = [(.insertIfNotTerminated p, w.component p, w.status p)]) ∧
      ∀ p, ¬ s.Met p → s.toldOf p = [] := by
  have hle' : capacity ≤ SafeProcessMap.NULL_INDEX := Nat.le_of_lt_succ hle
  have hinit : Agree capacity (⟨.create capacity, fun _ => .idle, []⟩ :
      Callers (SafeProcessMap C) Process C) ⟨∅, fun _ => .idle, []⟩ := by
    refine ⟨rfl, rfl, ?_, SafeProcessMap.create_refines hpos hle'⟩
    rw [SafeProcessMap.create, if_neg (Nat.ne_of_gt hpos)]
  obtain ⟨⟨m, phase, told⟩, hspec, hagree⟩ : ∃ t,
      Run (specStep capacity w) (Reuse w) ⟨∅, fun _ => .idle, []⟩ t ∧ Agree capacity s t :=
    hrun.simulation (Agree capacity) (by
      intro s t a s' h hok hs
      exact h.step hpid hpos hok hs) hinit
  have hinv : Inv w ⟨m, phase, told⟩ := 
    hspec.invariant (Inv w) (fun h hok hs => h.step hpid hok hs) .init
  have hprogress : ∀ p, Progress w s p := fun p =>
    (hinv.progress p).congr (fun call _ => congrFun hagree.1 call)
      (congrArg (List.filter _) hagree.2.1)
  refine ⟨m, hagree.2.2.2, ?_, fun call => hagree.round hpid hpos hinv,
    fun p r₁ r₂ => (hprogress p).told_once, fun p => (hprogress p).toldOf_eq_nil⟩
  rw [hagree.1, hagree.2.1]
  exact hspec

def sampleProcesses : Processes Bool Unit where
  pid _ := 42
  component _ := ()
  status p := if p then 9 else 0

theorem process_map_is_finite_map_reused :
    ∃ s : Callers (SafeProcessMap Unit) Bool Unit,
      Run (mapStep sampleProcesses) (Reuse sampleProcesses) ⟨.create 1, fun _ => .idle, []⟩ s ∧
        s.toldOf true = [(.findTerminated true, (), 9)] ∧
        s.toldOf false = [(.insertIfNotTerminated false, (), 0)] := by
  obtain ⟨s, hrun, h₁, h₂, h₃, h₄⟩ := Run.exists_of_exec (mapStep sampleProcesses)
    (Reuse sampleProcesses) ⟨.create 1, fun _ => .idle, []⟩
    (fun s => s.phase (.insertIfNotTerminated true) = .returned .ok ∧
      s.phase (.findTerminated true) = .returned .ok ∧
      s.phase (.insertIfNotTerminated false) = .returned .yield ∧
      s.phase (.findTerminated false) = .returned .yield)
    [.begin (.insertIfNotTerminated true), .round (.insertIfNotTerminated true),
      .begin (.findTerminated true), .round (.findTerminated true),
      .begin (.findTerminated false), .round (.findTerminated false),
      .begin (.insertIfNotTerminated false), .tell (.findTerminated true),
      .round (.insertIfNotTerminated false), .tell (.insertIfNotTerminated false)]
    (by decide +kernel)
  obtain ⟨m, -, -, -, htold, -⟩ := process_map_is_finite_map sampleProcesses
    (by decide) (le_refl 1) (by decide) hrun
  refine ⟨s, hrun, ?_, ?_⟩
  · simpa [sampleProcesses] using htold true _ _ h₁ h₂ nofun nofun
  · simpa [sampleProcesses] using htold false _ _ h₃ h₄ nofun nofun

end Callers

end LaunchManager
