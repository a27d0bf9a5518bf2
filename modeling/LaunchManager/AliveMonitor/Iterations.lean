import LaunchManager.AliveMonitor.Rounds
import LaunchManager.AliveMonitor.Expiry

/-!
# The iterations of an evaluation

The loop of `evaluate` takes one iteration for each event of the buffer and one for
each cycle that it evaluates before an event. The ends of the evaluated cycles are at
least a cycle apart, also across a restart within the batch, so their number is
bounded by the time up to the sync timestamp.
-/

namespace LaunchManager

open List

set_option autoImplicit false

open Runs TimeSortingBuffer

inductive Iteration where
  | event (e : TimeSortedUpdateEvent)
  | evaluation (cycleEnd : Nat)
  deriving DecidableEq, Repr

namespace Iteration

def event? : Iteration → Option TimeSortedUpdateEvent
  | .event e => some e
  | .evaluation _ => none

def cycleEnd? : Iteration → Option Nat
  | .event _ => none
  | .evaluation cycleEnd => some cycleEnd

theorem length_eq (its : List Iteration) :
    its.length = (its.filterMap event?).length + (its.filterMap cycleEnd?).length := by
  induction its with
  | nil => rfl
  | cons it its ih =>
    cases it with
    | event e | evaluation cycleEnd =>
      simp only [filterMap_cons, event?, cycleEnd?, length_cons]
      omega

end Iteration

/-! ### Cycle ends -/

theorem length_le_of_apart {k t first : Nat} (hk : 0 < k) {ends : List Nat}
    (hapart : (first :: ends).Pairwise (· + k ≤ ·)) (hle : ∀ x ∈ first :: ends, x ≤ t) :
    (first :: ends).length ≤ (t - first) / k + 1 := by
  induction ends generalizing first with
  | nil => simp
  | cons second ends ih =>
    obtain ⟨hfirst, hrest⟩ := pairwise_cons.mp hapart
    have hstep : first + k ≤ second := hfirst second mem_cons_self
    have hsecond : second ≤ t := hle second (by simp)
    have hlen := ih hrest fun x hx => hle x (mem_cons_of_mem first hx)
    have hdiv : (t - second) / k + 1 ≤ (t - first) / k := by
      rw [← Nat.add_div_right _ hk]
      exact Nat.div_le_div_right (by omega)
    rw [length_cons]
    omega

namespace AliveState
variable {s : AliveState} {τ τ' k : Nat} {ends : List Nat}

/-- The ends of the cycles that settling evaluates. -/
def cycleEnds (s : AliveState) (τ : Nat) : List Nat :=
  if s.Due τ then s.referenceCycleEnd :: s.evaluateCycle.cycleEnds τ else []
termination_by s.evaluationsBefore τ
decreasing_by exact evaluationsBefore_lt ‹_›

def iterations : AliveState → List TimeSortedUpdateEvent → List Iteration
  | _, [] => []
  | s, e :: rest =>
    (s.cycleEnds e.due).map .evaluation ++ .event e :: (s.absorb e).iterations rest

theorem filterMap_event_iterations (s : AliveState) (events : List TimeSortedUpdateEvent) :
    (s.iterations events).filterMap Iteration.event? = events := by
  induction events generalizing s with
  | nil => rfl
  | cons e rest ih =>
    rw [iterations, filterMap_append, filterMap_cons, ih, filterMap_map]
    simp [Iteration.event?, Function.comp_def]

/-- The cycle ends evaluated so far: a cycle apart, before `τ`, and a cycle before the end of the
one that is under way. -/
structure Apart (s : AliveState) (τ : Nat) (ends : List Nat) : Prop where
  apart : ends.Pairwise (· + s.config.aliveReferenceCycle ≤ ·)
  before : ∀ x ∈ ends, x < τ
  next : s.Active → ∀ x ∈ ends, x + s.config.aliveReferenceCycle ≤ s.referenceCycleEnd

namespace Apart

theorem mono (h : Apart s τ ends) (hle : τ ≤ τ') : Apart s τ' ends :=
  ⟨h.apart, fun x hx => Nat.lt_of_lt_of_le (h.before x hx) hle, h.next⟩

theorem evaluateCycle (h : Apart s τ ends) (hdue : s.Due τ) :
    Apart s.evaluateCycle τ (ends ++ [s.referenceCycleEnd]) := by
  have hnext := h.next hdue.1
  have hconfig := (evaluates_evaluateCycle hdue.1).frame.config
  constructor
  · rw [hconfig, pairwise_append]
    refine ⟨h.apart, pairwise_singleton _ _, ?_⟩
    intro x hx y hy
    rw [mem_singleton.mp hy]
    exact hnext x hx
  · intro x hx
    rcases mem_append.mp hx with hx | hx
    · exact h.before x hx
    · rw [mem_singleton.mp hx]
      exact hdue.2
  · intro hactive x hx
    rcases nextCycle_evaluateCycle hdue.1 with hexpired | ⟨-, hend⟩
    · exact absurd hexpired hactive.ne_expired
    · rw [hconfig, hend]
      rcases mem_append.mp hx with hx | hx
      · have := hnext x hx
        omega
      · rw [mem_singleton.mp hx]

theorem settle (h : Apart s τ ends) : Apart (s.settle τ) τ (ends ++ s.cycleEnds τ) := by
  fun_induction cycleEnds s τ generalizing ends with
  | case1 s hdue ih =>
    rw [settle_of_due hdue]
    have hrest := ih (h.evaluateCycle hdue)
    rwa [append_assoc] at hrest
  | case2 s hdue =>
    rw [settle_of_not_due hdue, append_nil]
    exact h

end Apart

theorem active_handleEvent {e : TimeSortedUpdateEvent} (hactive : (s.handleEvent e).Active) :
    (s.Active ∧ (s.handleEvent e).referenceCycleEnd = s.referenceCycleEnd) ∨
      (s.handleEvent e).referenceCycleEnd = e.due + s.config.aliveReferenceCycle := by
  have hm := handles_handleEvent s e
  generalize s.handleEvent e = s' at hm hactive
  cases hm with
  | sync | uncounted | repeated | counted => exact .inl ⟨hactive, rfl⟩
  | activated => exact .inr rfl
  | overflow | late => exact absurd rfl hactive.ne_expired
  | deactivated => exact absurd rfl hactive.ne_deactivated
  | inactive _ off => exact absurd off hactive.ne_deactivated

namespace Apart

theorem handleEvent {e : TimeSortedUpdateEvent} (h : Apart s e.due ends) :
    Apart (s.handleEvent e) e.due ends := by
  have hconfig := (handles_handleEvent s e).frame.config
  refine ⟨by rw [hconfig]; exact h.apart, h.before, ?_⟩
  intro hactive x hx
  rw [hconfig]
  rcases active_handleEvent hactive with ⟨hs, hend⟩ | hend
  · rw [hend]
    exact h.next hs x hx
  · have := h.before x hx
    omega

theorem absorb {e : TimeSortedUpdateEvent} (h : Apart s τ ends) (hle : τ ≤ e.due) :
    Apart (s.absorb e) e.due (ends ++ s.cycleEnds e.due) :=
  (h.mono hle).settle.handleEvent

theorem iterations {events : List TimeSortedUpdateEvent} (h : Apart s τ ends)
    (hdue : (events.map TimeSortedUpdateEvent.due).Pairwise (· ≤ ·))
    (hle : ∀ e ∈ events, τ ≤ e.due) (hlast : ∀ e ∈ events, e.due ≤ τ') (hτ : τ ≤ τ') :
    Apart (events.foldl AliveState.absorb s) τ'
      (ends ++ (s.iterations events).filterMap Iteration.cycleEnd?) := by
  induction events generalizing s τ ends with
  | nil =>
    rw [AliveState.iterations, filterMap_nil, append_nil]
    exact h.mono hτ
  | cons e rest ih =>
    rw [map_cons, pairwise_cons] at hdue
    have hrest := ih (h.absorb (hle e mem_cons_self)) hdue.2
      (fun e' he' => hdue.1 e'.due (mem_map_of_mem he'))
      (fun e' he' => hlast e' (mem_cons_of_mem e he')) (hlast e mem_cons_self)
    have hends : (s.iterations (e :: rest)).filterMap Iteration.cycleEnd? =
        s.cycleEnds e.due ++
          ((s.absorb e).iterations rest).filterMap Iteration.cycleEnd? := by
      rw [AliveState.iterations, filterMap_append, filterMap_map, filterMap_cons]
      simp [Iteration.cycleEnd?, Function.comp_def]
    rw [hends, ← append_assoc]
    exact hrest

end Apart

end AliveState

/-! ### Runs of the machine -/

namespace AliveMachine

def iteration? (m : AliveMachine) : Option Iteration :=
  match m.evaluation with
  | some ⟨_, some e, _⟩ =>
    some (if m.alive.detectEvaluationEvent e then .evaluation m.alive.referenceCycleEnd
      else .event e)
  | _ => none

def noteIteration (m : AliveMachine) (act : Act) (_ : AliveMachine) (its : List Iteration) :
    List Iteration :=
  match act with
  | .iterate => its ++ m.iteration?.toList
  | _ => its

def evaluateActs (sync n : Nat) : List Act :=
  .evaluate sync :: (List.replicate n .iterate ++ [.finish])

section Loop
variable {a : Alive} {s : AliveState} {sync : Nat} {e : TimeSortedUpdateEvent}
  {rest : List TimeSortedUpdateEvent} {b : TimeSortingBuffer TimeSortedUpdateEvent}
  {its : List Iteration}

def inLoop (a : Alive) (s : AliveState) (sync : Nat) (e : Option TimeSortedUpdateEvent)
    (b : TimeSortingBuffer TimeSortedUpdateEvent) : AliveMachine :=
  ⟨{ a with toAliveState := s }, some ⟨sync, e, b⟩⟩

theorem iterate_due (htime : e.timestamp ≤ sync) (hdue : s.Due e.due) :
    recorded step noteIteration (inLoop a s sync (some e) b, its) .iterate =
      some (inLoop a s.evaluateCycle sync (some e) b,
        its ++ [.evaluation s.referenceCycleEnd]) := by
  have hdetect : s.detectEvaluationEvent e = true := (s.detectEvaluationEvent_iff e).mpr hdue
  simp [recorded, step, inLoop, iterate, noteIteration, iteration?, htime, hdetect,
    AliveState.processEvent_of_due hdue]

theorem iterate_event (htime : e.timestamp ≤ sync) (hdue : ¬ s.Due e.due) :
    recorded step noteIteration (inLoop a s sync (some e) b, its) .iterate =
      some (inLoop a (s.handleEvent e) sync b.getNextElement.1 b.getNextElement.2,
        its ++ [.event e]) := by
  have hdetect : s.detectEvaluationEvent e = false :=
    Bool.eq_false_iff.mpr fun h => hdue ((s.detectEvaluationEvent_iff e).mp h)
  simp [recorded, step, inLoop, iterate, noteIteration, iteration?, htime, hdetect,
    AliveState.processEvent_of_not_due hdue]

theorem exec_cycleEnds (htime : e.timestamp ≤ sync) :
    exec (recorded step noteIteration) anyStep (inLoop a s sync (some e) b, its)
        (List.replicate (s.cycleEnds e.due).length .iterate) =
      some (inLoop a (s.settle e.due) sync (some e) b,
        its ++ (s.cycleEnds e.due).map .evaluation) := by
  generalize hτ : e.due = τ
  fun_induction AliveState.cycleEnds s τ generalizing its with
  | case1 s hdue ih =>
    rw [← hτ] at hdue
    rw [length_cons, replicate_succ, exec_cons trivial (iterate_due htime hdue), ih,
      ← hτ, AliveState.settle_of_due hdue, map_cons, append_assoc,
      singleton_append]
  | case2 s hdue =>
    rw [AliveState.settle_of_not_due hdue, map_nil, append_nil]
    rfl

theorem exec_absorb (htime : e.timestamp ≤ sync) :
    exec (recorded step noteIteration) anyStep (inLoop a s sync (some e) b, its)
        (List.replicate ((s.cycleEnds e.due).length + 1) .iterate) =
      some (inLoop a (s.absorb e) sync b.getNextElement.1 b.getNextElement.2,
        its ++ (s.cycleEnds e.due).map .evaluation ++ [.event e]) := by
  rw [replicate_add, exec_append, exec_cycleEnds htime, Option.bind_some,
    replicate_one, exec_cons trivial (iterate_event htime (s.not_due_settle e.due))]
  rfl

/-- The loop works off the event it holds and those that the buffer still has to return. -/
theorem exec_iterations (hbuffer : b.Remaining rest)
    (hbefore : ∀ e' ∈ e :: rest, e'.timestamp ≤ sync) :
    exec (recorded step noteIteration) anyStep (inLoop a s sync (some e) b, its)
        (List.replicate (s.iterations (e :: rest)).length .iterate ++ [.finish]) =
      some (finish { a with toAliveState := (e :: rest).foldl AliveState.absorb s } sync,
        its ++ s.iterations (e :: rest)) := by
  induction rest generalizing s e b its with
  | nil =>
    have hlength : (s.iterations [e]).length = (s.cycleEnds e.due).length + 1 := by
      simp [AliveState.iterations]
    rw [hlength, exec_append, exec_absorb (hbefore e mem_cons_self),
      hbuffer.getNextElement_nil]
    simp [exec, anyStep, recorded, step, inLoop, noteIteration, finish, AliveState.iterations]
  | cons e' rest ih =>
    obtain ⟨b', hnext, hrest, -⟩ := hbuffer.getNextElement_cons
    have hlength : (s.iterations (e :: e' :: rest)).length =
        (s.cycleEnds e.due).length + 1 + ((s.absorb e).iterations (e' :: rest)).length := by
      rw [AliveState.iterations, length_append, length_map, length_cons]
      omega
    rw [hlength, replicate_add, append_assoc, exec_append,
      exec_absorb (hbefore e mem_cons_self), hnext, Option.bind_some,
      ih hrest fun x hx => hbefore x (mem_cons_of_mem e hx), append_assoc,
      append_assoc]
    rfl

theorem exec_evaluate {l : List (TimeSortedUpdateEvent × Nat)} (h : a.Collected l)
    (hroom : l.length < a.timeSortingUpdateEventBuffer.capacity)
    (htime : ∀ x ∈ l, x.1.timestamp = x.2) (hbefore : ∀ x ∈ l, x.2 ≤ sync) :
    ∃ a', a.evaluate sync = some a' ∧ a'.timeSortingUpdateEventBuffer.timeSortedBuffer = [] ∧
      exec (recorded step noteIteration) anyStep (⟨a, none⟩, [])
          (evaluateActs sync (a.iterations (l.map Prod.fst ++ [.sync sync])).length) =
        some (⟨a', none⟩, a.iterations (l.map Prod.fst ++ [.sync sync])) := by
  refine ⟨_, h.evaluate_eq hroom htime hbefore, rfl, ?_⟩
  obtain ⟨hstored, hstate, -⟩ := h.storeSyncEvent hroom hbefore
  obtain ⟨e, rest, hevents⟩ : ∃ e rest, l.map Prod.fst ++ [.sync sync] = e :: rest := by
    cases l <;> exact ⟨_, _, rfl⟩
  have hremaining := hstored.buffer.remaining
  rw [map_append, map_singleton, hevents] at hremaining
  obtain ⟨b, hnext, hrest, -⟩ := hremaining.getNextElement_cons
  have hstart : recorded step noteIteration (⟨a, none⟩, []) (.evaluate sync) =
      some (inLoop (a.storeSyncEvent sync) a.toAliveState sync (some e) b, []) := by
    have hloss := not_not.mpr hstored.noDataLoss
    simp only [recorded, step, startEvaluate, hnext, if_neg hloss, Option.isNone_none, if_true,
      Option.map_some, noteIteration, inLoop, ← hstate]
  have hall : ∀ e' ∈ e :: rest, e'.timestamp ≤ sync := by
    intro e' he'
    rw [← hevents, mem_append, mem_singleton] at he'
    rcases he' with he' | rfl
    · obtain ⟨x, hx, rfl⟩ := mem_map.mp he'
      exact htime x hx ▸ hbefore x hx
    · exact le_rfl
  have hfold : (e :: rest).foldl AliveState.absorb a.toAliveState =
      ((l.map Prod.fst).foldl AliveState.absorb a.toAliveState).settle (sync + 1) := by
    rw [← hevents, foldl_append]
    exact AliveState.absorb_sync _ sync
  rw [hevents, evaluateActs, exec_cons trivial hstart, exec_iterations hrest hall, hfold]
  rfl

end Loop

/-! ### Reachable supervisions -/

/-- Between two calls the buffer holds what was reported since the last evaluation. -/
def Buffered (m : AliveMachine) : Prop :=
  m.evaluation = none → ∃ l, m.alive.timeSortingUpdateEventBuffer.Holds l ∧
    ∀ x ∈ l, x.1.timestamp = x.2 ∧ x.1.due = x.2

theorem buffered_updateData {a : Alive} (h : Buffered ⟨a, none⟩) (input : AliveInput) :
    Buffered ⟨a.updateData input, none⟩ := by
  intro _
  obtain ⟨l, hholds, hitems⟩ := h rfl
  unfold Alive.updateData
  split
  · exact ⟨l, hholds, hitems⟩
  · unfold Alive.store
    by_cases hroom : l.length < a.timeSortingUpdateEventBuffer.capacity
    · obtain ⟨b, hpush, hholds', -⟩ := hholds.push input.event input.event.timestamp hroom
      rw [hpush]
      refine ⟨_, hholds', ?_⟩
      intro x hx
      rcases mem_insertByTime.mp hx with rfl | hx
      · exact ⟨rfl, input.due_event.trans input.timestamp_event.symm⟩
      · exact hitems x hx
    · rw [push_full hholds (Nat.not_lt.mp hroom)]
      exact ⟨l, hholds, hitems⟩

theorem buffered_step {m m' : AliveMachine} {act : Act} (h : m.Buffered)
    (hstep : m.step act = some m') : m'.Buffered := by
  cases act with
  | updateData input =>
    obtain ⟨hidle, hstep⟩ := Option.ite_none_right_eq_some.mp hstep
    cases hstep
    obtain ⟨a, evaluation⟩ := m
    obtain rfl : evaluation = none := Option.isNone_iff_eq_none.mp hidle
    exact buffered_updateData h input
  | evaluate sync =>
    obtain ⟨hidle, hstep⟩ := Option.ite_none_right_eq_some.mp hstep
    cases hstep
    unfold startEvaluate
    dsimp only
    split
    · intro _
      exact ⟨[], holds_clear _, by simp⟩
    · intro hnone
      cases hnone
  | iterate =>
    simp only [step] at hstep
    split at hstep
    · obtain ⟨-, hstep⟩ := Option.ite_none_right_eq_some.mp hstep
      cases hstep
      intro hnone
      unfold iterate at hnone
      dsimp only at hnone
      split at hnone <;> cases hnone
    · cases hstep
  | finish =>
    simp only [step] at hstep
    split at hstep
    · cases hstep
      intro _
      exact ⟨[], holds_clear _, by simp⟩
    · cases hstep

variable {l : List (TimeSortedUpdateEvent × Nat)}

theorem pairwise_due {sync : Nat}
    (hsorted : l.Pairwise (·.2 ≤ ·.2)) (hitems : ∀ x ∈ l, x.1.due = x.2)
    (hbefore : ∀ x ∈ l, x.2 ≤ sync) : ((l.map Prod.fst ++ [TimeSortedUpdateEvent.sync sync]).map
        TimeSortedUpdateEvent.due).Pairwise (· ≤ ·) ∧
      ∀ e ∈ l.map Prod.fst ++ [.sync sync], e.due ≤ sync + 1 := by
  have hdue : (l.map Prod.fst).map TimeSortedUpdateEvent.due = l.map Prod.snd := by
    rw [map_map]
    exact map_congr_left hitems
  have hle : ∀ e ∈ l.map Prod.fst, e.due ≤ sync + 1 := by
    intro e he
    obtain ⟨x, hx, rfl⟩ := mem_map.mp he
    rw [hitems x hx]
    exact Nat.le_succ_of_le (hbefore x hx)
  constructor
  · rw [map_append, hdue, pairwise_append, pairwise_map]
    refine ⟨hsorted, pairwise_singleton _ _, ?_⟩
    intro t ht t' ht'
    obtain ⟨x, hx, rfl⟩ := mem_map.mp ht
    rw [map_singleton, mem_singleton] at ht'
    rw [ht']
    exact Nat.le_succ_of_le (hbefore x hx)
  · intro e he
    rcases mem_append.mp he with he | he
    · exact hle e he
    · rw [mem_singleton.mp he]
      exact le_rfl

theorem apart_cycleEnds (s : AliveState) {sync : Nat}
    (hsorted : l.Pairwise (·.2 ≤ ·.2)) (hitems : ∀ x ∈ l, x.1.due = x.2)
    (hbefore : ∀ x ∈ l, x.2 ≤ sync) :
    ((s.iterations (l.map Prod.fst ++ [.sync sync])).filterMap Iteration.cycleEnd?).Pairwise
        (· + s.config.aliveReferenceCycle ≤ ·) ∧
      ∀ x ∈ (s.iterations (l.map Prod.fst ++ [.sync sync])).filterMap Iteration.cycleEnd?,
        x ≤ sync := by
  obtain ⟨hdue, hlast⟩ := pairwise_due hsorted hitems hbefore
  have hnone : s.Apart 0 [] := ⟨.nil, by simp, by simp⟩
  have hapart := hnone.iterations hdue (fun _ _ => Nat.zero_le _) hlast (Nat.zero_le _)
  have hconfig := (AliveState.frame_foldl_absorb s (l.map Prod.fst ++ [.sync sync])).config
  refine ⟨?_, fun x hx => Nat.lt_succ_iff.mp (hapart.before x hx)⟩
  rw [← hconfig]
  exact hapart.apart

/-- Without data loss the loop has one iteration for each event and one for each evaluated cycle. -/
theorem evaluate_iterations {config : AliveConfig} {recoveryClient : Nat → Bool}
    {bufferSize : UInt16} {a : Alive} {sync : Nat}
    (hrun : Run step anyStep { alive := .create config recoveryClient bufferSize } ⟨a, none⟩)
    (hloss : a.dataLossReason = .noDataLoss)
    (hroom : a.timeSortingUpdateEventBuffer.timeSortedBuffer.length <
      a.timeSortingUpdateEventBuffer.capacity)
    (hbefore : ∀ c ∈ a.timeSortingUpdateEventBuffer.timeSortedBuffer, c.timestamp ≤ sync) :
    ∃ a' its, exec (recorded step noteIteration) anyStep (⟨a, none⟩, [])
        (evaluateActs sync its.length) = some (⟨a', none⟩, its) ∧
      a.evaluate sync = some a' ∧
      a'.timeSortingUpdateEventBuffer.timeSortedBuffer = [] ∧
      its.length = a.timeSortingUpdateEventBuffer.timeSortedBuffer.length + 1 +
        (its.filterMap Iteration.cycleEnd?).length ∧
      ∀ first ends, its.filterMap Iteration.cycleEnd? = first :: ends →
        (first :: ends).length ≤ (sync - first) / a.config.aliveReferenceCycle + 1 := by
  have hbuffered : Buffered ⟨a, none⟩ :=
    Run.invariant Buffered (fun h _ hstep => buffered_step h hstep)
      (fun _ => ⟨[], holds_empty _, by simp⟩) hrun
  obtain ⟨l, hholds, hitems⟩ := hbuffered rfl
  have hlength := hholds.length_eq
  have hl : ∀ x ∈ l, x.2 ≤ sync := by
    intro x hx
    obtain ⟨c, hc, rfl⟩ := hholds.mem hx
    exact hbefore c hc
  rw [← hlength] at hroom ⊢
  have hcollected : a.Collected l := ⟨hholds, hloss⟩
  obtain ⟨a', hevaluate, hempty, hexec⟩ :=
    exec_evaluate hcollected hroom (fun x hx => (hitems x hx).1) hl
  obtain ⟨hapart, hle⟩ :=
    apart_cycleEnds a.toAliveState hholds.sorted (fun x hx => (hitems x hx).2) hl
  refine ⟨a', _, hexec, hevaluate, hempty, ?_, ?_⟩
  · rw [Iteration.length_eq, AliveState.filterMap_event_iterations]
    simp
  · intro first ends hends
    rw [hends] at hapart hle
    exact length_le_of_apart a.config.aliveReferenceCycle_pos hapart hle

theorem evaluate_iterations_restarted :
    ∃ a a' its,
      Run step anyStep { alive := .create sampleConfig (fun _ => true) 4 } ⟨a, none⟩ ∧
      a.timeSortingUpdateEventBuffer.timeSortedBuffer.length = 3 ∧
      exec (recorded step noteIteration) anyStep (⟨a, none⟩, [])
        (evaluateActs 5000000 its.length) = some (⟨a', none⟩, its) ∧
      its.length = 4 + (its.filterMap Iteration.cycleEnd?).length := by
  obtain ⟨⟨a, evaluation⟩, hrun, hidle, hloss, hlength, hcapacity, hbefore⟩ :=
    Run.exists_of_exec step anyStep { alive := .create sampleConfig (fun _ => true) 4 }
      (fun m => m.evaluation.isNone = true ∧ m.alive.dataLossReason = .noDataLoss ∧
        m.alive.timeSortingUpdateEventBuffer.timeSortedBuffer.length = 3 ∧
        m.alive.timeSortingUpdateEventBuffer.capacity = 4 ∧
        ∀ c ∈ m.alive.timeSortingUpdateEventBuffer.timeSortedBuffer, c.timestamp ≤ 5000000)
      [.updateData (.supervisionEvent 1 .activation),
        .updateData (.supervisionEvent 2500001 .deactivation),
        .updateData (.supervisionEvent 2600001 .activation)]
      (by decide +kernel)
  obtain rfl : evaluation = none := Option.isNone_iff_eq_none.mp hidle
  have hroom : a.timeSortingUpdateEventBuffer.timeSortedBuffer.length <
      a.timeSortingUpdateEventBuffer.capacity := by
    rw [hlength, hcapacity]
    decide
  obtain ⟨a', its, hexec, -, -, hcount, -⟩ := evaluate_iterations hrun hloss hroom hbefore
  rw [hlength] at hcount
  exact ⟨a, a', its, hrun, hlength, hexec, hcount⟩

end AliveMachine

end LaunchManager
