import LaunchManager.Library.Runs
import LaunchManager.AliveMonitor.Rounds

/-!
# Entries into Expired

`switchToExpired` is called from many places, some of them inside another
transition. Whatever the calls are, the outputs of a supervision follow the
grammar `Outputs`: Expired is entered from another status only, the request is
sent on entry, and only Deactivated follows Expired. `AliveMachine` takes
`evaluate` apart into the iterations of its loop.
-/

namespace LaunchManager

open List

set_option autoImplicit false

open Runs

def statusAfter : List AliveOutput → AliveStatus
  | [] => .deactivated
  | .status x :: _ => x
  | .recoveryRequest _ :: outs => statusAfter outs

/-- The outputs of a supervision that is now in the given status, the latest first. -/
inductive Outputs : AliveStatus → List AliveOutput → Prop where
  | initial : Outputs .deactivated []
  | deactivated {x : AliveStatus} {outs : List AliveOutput} (h : Outputs x outs) :
      Outputs .deactivated (.status .deactivated :: outs)
  | ok {x : AliveStatus} {outs : List AliveOutput} (h : Outputs x outs) (hx : x ≠ .expired) :
      Outputs .ok (.status .ok :: outs)
  | failed {x : AliveStatus} {outs : List AliveOutput} (h : Outputs x outs) (hx : x ≠ .expired) :
      Outputs .failed (.status .failed :: outs)
  | expired {x : AliveStatus} {outs : List AliveOutput} (t : Nat) (h : Outputs x outs)
      (hx : x ≠ .expired) : Outputs .expired (.recoveryRequest t :: .status .expired :: outs)

namespace Outputs
variable {x : AliveStatus} {outs newer mid older : List AliveOutput} {t t' : Nat}

theorem statusAfter_eq (h : Outputs x outs) : statusAfter outs = x := by
  cases h <;> rfl

/-- What a place between two outputs looks like: there the grammar has taken a whole step, or an
entry into Expired waits for its request. -/
def Cut (newer older : List AliveOutput) : Prop :=
  (∃ y, Outputs y older) ∨ ∃ rest t past y, newer = rest ++ [.recoveryRequest t] ∧
    older = .status .expired :: past ∧ Outputs y past ∧ y ≠ .expired

theorem Cut.cons (out : AliveOutput) (h : Cut newer older) : Cut (out :: newer) older := by
  rcases h with h | ⟨rest, t, past, y, rfl, h⟩
  · exact .inl h
  · exact .inr ⟨out :: rest, t, past, y, rfl, h⟩

theorem cut (h : Outputs x outs) (heq : outs = newer ++ older) : Cut newer older := by
  induction h generalizing newer with
  | initial =>
    obtain ⟨-, rfl⟩ := append_eq_nil_iff.mp heq.symm
    exact .inl ⟨_, .initial⟩
  | deactivated h ih =>
    rcases cons_eq_append_iff.mp heq with ⟨-, rfl⟩ | ⟨newer', rfl, heq'⟩
    · exact .inl ⟨_, .deactivated h⟩
    · exact (ih heq').cons _
  | ok h hx ih =>
    rcases cons_eq_append_iff.mp heq with ⟨-, rfl⟩ | ⟨newer', rfl, heq'⟩
    · exact .inl ⟨_, .ok h hx⟩
    · exact (ih heq').cons _
  | failed h hx ih =>
    rcases cons_eq_append_iff.mp heq with ⟨-, rfl⟩ | ⟨newer', rfl, heq'⟩
    · exact .inl ⟨_, .failed h hx⟩
    · exact (ih heq').cons _
  | expired t h hx ih =>
    rcases cons_eq_append_iff.mp heq with ⟨-, rfl⟩ | ⟨newer', rfl, heq'⟩
    · exact .inl ⟨_, .expired t h hx⟩
    · rcases cons_eq_append_iff.mp heq' with ⟨rfl, rfl⟩ | ⟨newer'', rfl, heq''⟩
      · exact .inr ⟨[], t, _, _, rfl, rfl, h, hx⟩
      · exact ((ih heq'').cons _).cons _

theorem request (h : Outputs x (newer ++ .recoveryRequest t :: older)) :
    ∃ y past, older = .status .expired :: past ∧ Outputs y past ∧ y ≠ .expired := by
  rcases h.cut rfl with ⟨y, hy⟩ | ⟨_, _, _, _, -, heq, -⟩
  · cases hy with
    | expired _ hpast hx => exact ⟨_, _, rfl, hpast, hx⟩
  · cases heq

theorem entry (h : Outputs x (newer ++ .status .expired :: older)) :
    statusAfter older ≠ .expired ∧ ∃ rest t, newer = rest ++ [.recoveryRequest t] := by
  rcases h.cut rfl with ⟨y, hy⟩ | ⟨rest, t, past, y, hnewer, heq, hpast, hx⟩
  · cases hy
  · cases heq
    exact ⟨hpast.statusAfter_eq ▸ hx, rest, t, hnewer⟩

theorem deactivated_of_ne (h : Outputs x outs) (hx : x ≠ .expired)
    (heq : outs = mid ++ .recoveryRequest t :: older) : .status .deactivated ∈ mid := by
  induction h generalizing mid with
  | initial => cases append_eq_nil_iff.mp heq.symm |>.2
  | deactivated h ih =>
    rcases cons_eq_append_iff.mp heq with ⟨-, heq'⟩ | ⟨mid', rfl, -⟩
    · cases heq'
    · exact mem_cons_self
  | ok h hne ih | failed h hne ih =>
    rcases cons_eq_append_iff.mp heq with ⟨-, heq'⟩ | ⟨mid', rfl, heq'⟩
    · cases heq'
    · exact mem_cons_of_mem _ (ih hne heq')
  | expired t h hne ih => exact absurd rfl hx

theorem between
    (h : Outputs x (newer ++ .recoveryRequest t' :: (mid ++ .recoveryRequest t :: older))) :
    .status .deactivated ∈ mid := by
  obtain ⟨y, past, heq, hpast, hx⟩ := h.request
  cases mid with
  | nil => cases heq
  | cons out mid =>
    obtain ⟨-, heq'⟩ := cons_eq_cons.mp heq
    exact mem_cons_of_mem _ (hpast.deactivated_of_ne hx heq'.symm)

end Outputs

namespace AliveState
variable {s : AliveState} {t : Nat}

/-- The end of the cycle under way belongs to its start; without one it is never reached. -/
def CycleFits (s : AliveState) : Prop :=
  match s.aliveStatus with
  | .deactivated | .expired => s.referenceCycleEnd = maxNanoseconds
  | .ok | .failed =>
    s.referenceCycleEnd = s.referenceCycleStart + s.config.aliveReferenceCycle

theorem cycleFits_of_active (hactive : s.Active)
    (h : s.referenceCycleEnd = s.referenceCycleStart + s.config.aliveReferenceCycle) :
    s.CycleFits := by
  unfold CycleFits
  rcases hactive with hs | hs <;> rw [hs] <;> exact h

structure Sound (s : AliveState) : Prop where
  outputs : Outputs s.aliveStatus s.history
  cycleFits : s.CycleFits

theorem sound_switchToExpired (h : Outputs s.aliveStatus s.history)
    (hne : s.aliveStatus ≠ .expired) : s.switchToExpired.Sound :=
  ⟨.expired _ h hne, rfl⟩

theorem Judged.outputs {u : AliveState} (h : Judged s u) (hactive : s.Active)
    (houtputs : Outputs s.aliveStatus s.history) : Outputs u.aliveStatus u.history := by
  cases h with
  | kept n => exact houtputs
  | ok => exact .ok houtputs hactive.ne_expired
  | failed n => exact .failed houtputs hactive.ne_expired

namespace Sound
variable {s' : AliveState} {e : TimeSortedUpdateEvent}

theorem evaluates (h : s.Sound) (hactive : s.Active) (hm : Evaluates s s') : s'.Sound := by
  cases hm with
  | expired judged =>
    exact sound_switchToExpired (judged.outputs hactive h.outputs)
      (judged.active hactive).ne_expired
  | next judged fits =>
    refine ⟨judged.outputs hactive h.outputs, cycleFits_of_active (judged.active hactive) ?_⟩
    cases judged <;> rfl

theorem handles (h : s.Sound) (hm : Handles s e s') : s'.Sound := by
  cases hm with
  | sync | uncounted | repeated | inactive => exact h
  | counted => exact ⟨h.outputs, h.cycleFits⟩
  | overflow t hactive =>
    exact sound_switchToExpired (s := { s with eventTimestamp := t }) h.outputs hactive.ne_expired
  | late t off =>
    exact sound_switchToExpired (s := { s with eventTimestamp := t }) h.outputs (by simp [off])
  | activated t off fits => exact ⟨.ok h.outputs (by simp [off]), rfl⟩
  | deactivated => exact ⟨.deactivated h.outputs, rfl⟩

theorem processEvent (h : s.Sound) (e : TimeSortedUpdateEvent) : (s.processEvent e).Sound := by
  by_cases hdue : s.Due e.due
  · rw [processEvent_of_due hdue]
    exact h.evaluates hdue.1 (evaluates_evaluateCycle hdue.1)
  · rw [processEvent_of_not_due hdue]
    exact h.handles (handles_handleEvent s e)

end Sound

end AliveState

namespace Alive
variable {a : Alive}

theorem sound_store (h : a.Sound) (e : TimeSortedUpdateEvent) : (a.store e).Sound := by
  unfold store
  split
  · exact h
  · exact ⟨h.outputs, h.cycleFits⟩

theorem sound_updateData (h : a.Sound) (input : AliveInput) : (a.updateData input).Sound := by
  unfold updateData
  split
  · exact ⟨h.outputs, h.cycleFits⟩
  · exact sound_store h _

theorem sound_handleDataLossReaction (h : a.Sound) : a.handleDataLossReaction.Sound := by
  unfold handleDataLossReaction
  split
  · exact AliveState.sound_switchToExpired h.outputs ‹_›
  · exact ⟨h.outputs, h.cycleFits⟩

end Alive

/-- A place in the loop of `evaluate`. -/
structure Evaluation where
  sync : Nat
  sortedUpdateEvent : Option TimeSortedUpdateEvent
  buffer : TimeSortingBuffer TimeSortedUpdateEvent

/-- A supervision between two calls, or inside `evaluate`. -/
structure AliveMachine where
  alive : Alive
  evaluation : Option Evaluation := none

namespace AliveMachine

inductive Act where
  | updateData (input : AliveInput)
  | evaluate (sync : Nat)
  | iterate
  | finish
  deriving DecidableEq, Repr

def startEvaluate (a : Alive) (sync : Nat) : AliveMachine :=
  let a := a.storeSyncEvent sync
  if a.dataLossReason ≠ .noDataLoss then
    { alive := { a.handleDataLossReaction with lastSyncTimestamp := sync } }
  else
    let (first, b) := a.timeSortingUpdateEventBuffer.getNextElement
    { alive := a, evaluation := some ⟨sync, first, b⟩ }

def iterate (a : Alive) (v : Evaluation) (e : TimeSortedUpdateEvent) : AliveMachine :=
  let next := { a with toAliveState := a.processEvent e }
  if a.detectEvaluationEvent e then { alive := next, evaluation := some v }
  else
    let (event, b) := v.buffer.getNextElement
    { alive := next, evaluation := some ⟨v.sync, event, b⟩ }

def finish (a : Alive) (sync : Nat) : AliveMachine where
  alive := { a with
    timeSortingUpdateEventBuffer := a.timeSortingUpdateEventBuffer.clear
    lastSyncTimestamp := sync }

def step (m : AliveMachine) : Act → Option AliveMachine
  | .updateData input =>
    if m.evaluation.isNone then some { alive := m.alive.updateData input } else none
  | .evaluate sync => if m.evaluation.isNone then some (startEvaluate m.alive sync) else none
  | .iterate =>
    match m.evaluation with
    | some ⟨sync, some e, b⟩ =>
      if e.timestamp ≤ sync then some (iterate m.alive ⟨sync, some e, b⟩ e) else none
    | _ => none
  | .finish =>
    match m.evaluation with
    | some ⟨sync, none, _⟩ => some (finish m.alive sync)
    | _ => none

end AliveMachine

variable {a : Alive}

theorem AliveMachine.run_processEvents {sync fuel : Nat}
    {b : TimeSortingBuffer TimeSortedUpdateEvent} {e : Option TimeSortedUpdateEvent}
    {s : AliveState} (h : AliveState.processEvents sync fuel b e a.toAliveState = some s) :
    Run step anyStep ⟨a, some ⟨sync, e, b⟩⟩
      (finish { a with toAliveState := s } sync) := by
  induction fuel generalizing a b e with
  | zero =>
    cases e with
    | none =>
      cases h
      exact .single (a := .finish) trivial rfl
    | some e => cases h
  | succ fuel ih =>
    cases e with
    | none =>
      cases h
      exact .single (a := .finish) trivial rfl
    | some e =>
      rw [AliveState.processEvents] at h
      split at h
      · rename_i htime
        have hiterate : step ⟨a, some ⟨sync, some e, b⟩⟩ .iterate =
            some (iterate a ⟨sync, some e, b⟩ e) := if_pos htime
        refine (Run.single trivial hiterate).trans ?_
        unfold iterate
        split at h
        · rename_i hdetect
          rw [if_pos hdetect]
          exact ih (a := { a with toAliveState := _ }) h
        · rename_i hdetect
          rw [if_neg hdetect]
          exact ih (a := { a with toAliveState := _ }) h
      · cases h

theorem AliveMachine.run_evaluate {a' : Alive} {sync : Nat} (h : a.evaluate sync = some a') :
    Run step anyStep ⟨a, none⟩ ⟨a', none⟩ := by
  have hstart : step ⟨a, none⟩ (.evaluate sync) = some (startEvaluate a sync) := rfl
  refine (Run.single trivial hstart).trans ?_
  unfold Alive.evaluate at h
  unfold startEvaluate
  dsimp only at h ⊢
  split at h
  · rename_i hloss
    rw [if_pos hloss]
    cases h
    exact .refl _
  · rename_i hloss
    rw [if_neg hloss]
    obtain ⟨s, hs, rfl⟩ := Option.map_eq_some_iff.mp h
    exact run_processEvents hs

theorem AliveMachine.sound_startEvaluate (h : a.Sound) (sync : Nat) :
    (startEvaluate a sync).alive.Sound := by
  have hstored : (a.storeSyncEvent sync).Sound := Alive.sound_store h _
  unfold startEvaluate
  dsimp only
  split
  · exact Alive.sound_handleDataLossReaction hstored
  · exact hstored

theorem AliveMachine.sound_iterate (h : a.Sound) (v : Evaluation)
    (e : TimeSortedUpdateEvent) : (iterate a v e).alive.Sound := by
  unfold iterate
  dsimp only
  split
  · exact h.processEvent e
  · exact h.processEvent e

theorem AliveMachine.sound_step {m m' : AliveMachine} {act : Act} (h : m.alive.Sound)
    (hstep : m.step act = some m') : m'.alive.Sound := by
  unfold step at hstep
  split at hstep
  · split at hstep
    · cases hstep
      exact Alive.sound_updateData h _
    · cases hstep
  · split at hstep
    · cases hstep
      exact sound_startEvaluate h _
    · cases hstep
  · split at hstep
    · split at hstep
      · cases hstep
        exact sound_iterate h _ _
      · cases hstep
    · cases hstep
  · split at hstep
    · cases hstep
      exact h
    · cases hstep

/-- Every entry into Expired sends one request at once, and no other request is sent. -/
theorem AliveMachine.one_request_per_expiry (config : AliveConfig) (recoveryClient : Nat → Bool)
    (bufferSize : UInt16) (m : AliveMachine)
    (hrun : Run step anyStep { alive := .create config recoveryClient bufferSize } m) :
    statusAfter m.alive.history = m.alive.aliveStatus ∧
    (∀ newer older, m.alive.history = newer ++ .status .expired :: older →
      statusAfter older ≠ .expired ∧ ∃ rest t, newer = rest ++ [.recoveryRequest t]) ∧
    (∀ newer older t, m.alive.history = newer ++ .recoveryRequest t :: older →
      ∃ past, older = .status .expired :: past ∧ statusAfter past ≠ .expired) ∧
    (∀ newer mid older t t',
      m.alive.history = newer ++ .recoveryRequest t' :: (mid ++ .recoveryRequest t :: older) →
      .status .deactivated ∈ mid) ∧
    m.alive.CycleFits := by
  have hsound : m.alive.Sound :=
    hrun.invariant (fun m => m.alive.Sound) (fun h _ hstep => sound_step h hstep) ⟨.initial, rfl⟩
  have houtputs := hsound.outputs
  refine ⟨houtputs.statusAfter_eq, ?_, ?_, ?_, hsound.cycleFits⟩
  · intro newer older heq
    rw [heq] at houtputs
    exact houtputs.entry
  · intro newer older t heq
    rw [heq] at houtputs
    obtain ⟨y, past, rfl, hpast, hx⟩ := houtputs.request
    exact ⟨past, rfl, hpast.statusAfter_eq ▸ hx⟩
  · intro newer mid older t t' heq
    rw [heq] at houtputs
    exact houtputs.between

theorem AliveMachine.one_request_per_expiry_restarted :
    ∃ m, Run step anyStep { alive := .create sampleConfig (fun _ => true) 4 } m ∧
      m.alive.recoveryRequests = [3000002, 2000001] ∧ m.alive.CycleFits := by
  obtain ⟨m, hrun, hrequests⟩ := Run.exists_of_exec step anyStep
    { alive := .create sampleConfig (fun _ => true) 4 }
    (fun m => m.alive.recoveryRequests = [3000002, 2000001])
    [.updateData (.supervisionEvent 1 .activation), .evaluate 3000000,
      .iterate, .iterate, .iterate, .iterate, .finish,
      .updateData (.supervisionEvent 3000001 .deactivation), .evaluate 3000002,
      .iterate, .iterate, .finish, .updateData (.checkpoint 0), .evaluate 3000003]
    (by decide +kernel)
  exact ⟨m, hrun, hrequests,
    (one_request_per_expiry sampleConfig (fun _ => true) 4 m hrun).2.2.2.2⟩

end LaunchManager
