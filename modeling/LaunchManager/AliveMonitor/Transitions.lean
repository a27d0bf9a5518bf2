import LaunchManager.AliveMonitor.Alive

/-!
# What an evaluation does

`evaluate` works the sorted events off one by one. Before it handles an event, it
evaluates every cycle that ended before the event is due: `settle` is this inner
loop, `absorb` one round of the outer one. A sync event only settles.
-/

namespace LaunchManager

set_option autoImplicit false

/-- The instant up to which an event has the cycles evaluated. A sync event has those evaluated
that end with it. -/
def TimeSortedUpdateEvent.due : TimeSortedUpdateEvent → Nat
  | .supervisionEvent t _ => t
  | .checkpoint t => t
  | .sync t => t + 1

namespace AliveState

def Active (s : AliveState) : Prop := s.aliveStatus = .ok ∨ s.aliveStatus = .failed

def Due (s : AliveState) (τ : Nat) : Prop := s.Active ∧ s.referenceCycleEnd < τ

instance (s : AliveState) : Decidable s.Active := inferInstanceAs (Decidable (_ ∨ _))

instance (s : AliveState) (τ : Nat) : Decidable (s.Due τ) := inferInstanceAs (Decidable (_ ∧ _))

def evaluateCycle (s : AliveState) : AliveState :=
  { s with eventTimestamp := s.referenceCycleEnd }.checkTransitions .evaluation s.referenceCycleEnd

def handleEvent (s : AliveState) (e : TimeSortedUpdateEvent) : AliveState :=
  (s.checkTransitions (getAliveEventType false e) e.timestamp).checkTransitionsToDeactivated
    (getAliveEventType false e) e.timestamp

section Events
variable {s : AliveState} {e : TimeSortedUpdateEvent} {type : UpdateEventType} {t : Nat}

theorem detectEvaluationEvent_iff (s : AliveState) (e : TimeSortedUpdateEvent) :
    s.detectEvaluationEvent e = true ↔ s.Due e.due := by
  have hdue : (s.referenceCycleEnd < e.timestamp ∨
      (s.referenceCycleEnd = e.timestamp ∧ e.isSync = true)) ↔ s.referenceCycleEnd < e.due := by
    cases e with
    | supervisionEvent t type | checkpoint t => simp [TimeSortedUpdateEvent.isSync]; rfl
    | sync t =>
      simp only [TimeSortedUpdateEvent.isSync, and_true]
      exact Nat.lt_succ_iff_lt_or_eq.symm
  unfold detectEvaluationEvent Due Active
  cases s.aliveStatus <;> simp [← hdue]

theorem checkTransitionsToDeactivated_of_ne (h : type ≠ .deactivation) :
    s.checkTransitionsToDeactivated type t = s := by
  rw [checkTransitionsToDeactivated, if_neg fun hand => h hand.1]

theorem processEvent_of_due (h : s.Due e.due) : s.processEvent e = s.evaluateCycle := by
  simp only [processEvent, (s.detectEvaluationEvent_iff e).mpr h, if_true, getAliveEventType]
  exact checkTransitionsToDeactivated_of_ne (by decide)

theorem processEvent_of_not_due (h : ¬ s.Due e.due) : s.processEvent e = s.handleEvent e := by
  have hnot : s.detectEvaluationEvent e = false :=
    Bool.eq_false_iff.mpr fun h' => h ((s.detectEvaluationEvent_iff e).mp h')
  simp only [processEvent, handleEvent, hnot, if_false, Bool.false_eq_true]

theorem checkTransitions_checkpoint (hactive : s.Active) :
    s.checkTransitions .checkpoint t = s.incIndicationCount t := by
  unfold checkTransitions
  rcases hactive with hs | hs
  · rw [hs]
    rfl
  · rw [hs]
    rfl

theorem checkTransitions_evaluation (hactive : s.Active) : s.checkTransitions .evaluation t =
    if s.aliveStatus = .ok then s.evaluateRefCycleOutOfOk else s.evaluateRefCycleOutOfFailed := by
  unfold checkTransitions
  rcases hactive with hs | hs
  · rw [hs]
    rfl
  · rw [hs]
    rfl

theorem handleEvent_sync (s : AliveState) (t : Nat) : s.handleEvent (.sync t) = s := by
  have hsync : s.checkTransitions .sync t = s := by
    unfold checkTransitions
    split <;> rfl
  change (s.checkTransitions .sync t).checkTransitionsToDeactivated .sync t = s
  rw [checkTransitionsToDeactivated_of_ne (by decide), hsync]

theorem handleEvent_checkpoint (s : AliveState) (t : Nat) :
    s.handleEvent (.checkpoint t) = if s.Active then s.incIndicationCount t else s := by
  change (s.checkTransitions .checkpoint t).checkTransitionsToDeactivated .checkpoint t = _
  rw [checkTransitionsToDeactivated_of_ne (by decide)]
  by_cases h : s.Active
  · rw [if_pos h, checkTransitions_checkpoint h]
  · rw [if_neg h, checkTransitions]
    unfold Active at h
    cases hs : s.aliveStatus with
    | deactivated | expired => rfl
    | ok => exact absurd (.inl hs) h
    | failed => exact absurd (.inr hs) h

theorem handleEvent_activation (s : AliveState) (t : Nat) :
    s.handleEvent (.supervisionEvent t .activation) =
      if s.aliveStatus = .deactivated then s.checkTransitionsOutOfDeactivated .activation t
      else s := by
  change (s.checkTransitions .activation t).checkTransitionsToDeactivated .activation t = _
  rw [checkTransitionsToDeactivated_of_ne (by decide), checkTransitions]
  cases s.aliveStatus <;> rfl

theorem handleEvent_deactivation (s : AliveState) (t : Nat) :
    s.handleEvent (.supervisionEvent t .deactivation) =
      if s.aliveStatus = .deactivated then s
      else { s with eventTimestamp := t }.switchToDeactivated := by
  have hsame : s.checkTransitions .deactivation t = s := by
    unfold checkTransitions
    split <;> rfl
  change (s.checkTransitions .deactivation t).checkTransitionsToDeactivated .deactivation t = _
  rw [hsame, checkTransitionsToDeactivated]
  by_cases h : s.aliveStatus = .deactivated
  · rw [if_neg fun hand => hand.2 h, if_pos h]
  · rw [if_pos ⟨rfl, h⟩, if_neg h]

end Events

section Moves
variable {s s' u : AliveState} {e : TimeSortedUpdateEvent}

/-- What an evaluation makes of the status and of the number of failed cycles. -/
inductive Judged (s : AliveState) : AliveState → Prop where
  | kept (n : Nat) :
      Judged s { s with eventTimestamp := s.referenceCycleEnd, failedSupervisionCycles := n }
  | ok : Judged s { s with eventTimestamp := s.referenceCycleEnd }.switchToOk
  | failed (n : Nat) :
      Judged s { s with
        eventTimestamp := s.referenceCycleEnd
        aliveStatus := .failed
        failedSupervisionCycles := n
        history := .status .failed :: s.history }

/-- After an evaluation the supervision has expired, or the next cycle is under way. -/
inductive Evaluates (s : AliveState) : AliveState → Prop where
  | expired {u : AliveState} (judged : Judged s u) : Evaluates s u.switchToExpired
  | next {u : AliveState} (judged : Judged s u)
      (fits : s.referenceCycleEnd + s.config.aliveReferenceCycle ≤ maxNanoseconds) :
      Evaluates s { u with
        referenceCycleStart := s.referenceCycleEnd
        referenceCycleEnd := s.referenceCycleEnd + s.config.aliveReferenceCycle
        indicationCount := 0 }

/-- What an event does that triggers no evaluation. -/
inductive Handles (s : AliveState) : TimeSortedUpdateEvent → AliveState → Prop where
  | sync (t : Nat) : Handles s (.sync t) s
  | uncounted (t : Nat) (idle : ¬ s.Active) : Handles s (.checkpoint t) s
  | counted (t : Nat) (active : s.Active) :
      Handles s (.checkpoint t) { s with indicationCount := s.indicationCount + 1 }
  | overflow (t : Nat) (active : s.Active) :
      Handles s (.checkpoint t) { s with eventTimestamp := t }.switchToExpired
  | activated (t : Nat) (off : s.aliveStatus = .deactivated)
      (fits : t + s.config.aliveReferenceCycle ≤ maxNanoseconds) :
      Handles s (.supervisionEvent t .activation) { s with
        referenceCycleStart := t
        referenceCycleEnd := t + s.config.aliveReferenceCycle
        eventTimestamp := t }.switchToOk
  | late (t : Nat) (off : s.aliveStatus = .deactivated) :
      Handles s (.supervisionEvent t .activation) { s with eventTimestamp := t }.switchToExpired
  | repeated (t : Nat) (on : s.aliveStatus ≠ .deactivated) :
      Handles s (.supervisionEvent t .activation) s
  | deactivated (t : Nat) (on : s.aliveStatus ≠ .deactivated) :
      Handles s (.supervisionEvent t .deactivation)
        { s with eventTimestamp := t }.switchToDeactivated
  | inactive (t : Nat) (off : s.aliveStatus = .deactivated) :
      Handles s (.supervisionEvent t .deactivation) s

theorem setNextCycle_of_overflow
    (h : s.referenceCycleEnd > maxNanoseconds - s.config.aliveReferenceCycle) :
    s.setNextCycle = { s with eventTimestamp := s.referenceCycleEnd }.switchToExpired := by
  rw [setNextCycle, setReferenceCycleTimestamps, if_pos h]

theorem setNextCycle_of_fits
    (h : ¬ s.referenceCycleEnd > maxNanoseconds - s.config.aliveReferenceCycle) :
    s.setNextCycle = { s with
      referenceCycleStart := s.referenceCycleEnd
      referenceCycleEnd := s.referenceCycleEnd + s.config.aliveReferenceCycle
      indicationCount := 0 } := by
  rw [setNextCycle, setReferenceCycleTimestamps, if_neg h]

theorem Judged.setNextCycle (h : Judged s u) : Evaluates s u.setNextCycle := by
  have hcycle := s.config.aliveReferenceCycle_lt
  have hconfig : u.config = s.config := by cases h <;> rfl
  have hend : u.referenceCycleEnd = s.referenceCycleEnd := by cases h <;> rfl
  by_cases hover : u.referenceCycleEnd > maxNanoseconds - u.config.aliveReferenceCycle
  · have htime : { u with eventTimestamp := u.referenceCycleEnd } = u := by cases h <;> rfl
    rw [setNextCycle_of_overflow hover, htime]
    exact .expired h
  · rw [setNextCycle_of_fits hover]
    rw [hend, hconfig] at hover
    cases h with
    | kept n => exact .next (.kept n) (by omega)
    | ok => exact .next .ok (by omega)
    | failed n => exact .next (.failed n) (by omega)

theorem evaluates_evaluateCycle (hactive : s.Active) : Evaluates s s.evaluateCycle := by
  have hactive' : Active { s with eventTimestamp := s.referenceCycleEnd } := hactive
  unfold evaluateCycle
  rw [checkTransitions_evaluation hactive']
  split
  · unfold evaluateRefCycleOutOfOk
    split
    · split
      · exact (Judged.failed _).setNextCycle
      · exact .expired (.kept _)
    · exact (Judged.kept _).setNextCycle
  · unfold evaluateRefCycleOutOfFailed
    split
    · split
      · exact .expired (.kept _)
      · dsimp only
        split
        · exact (Judged.kept _).setNextCycle
        · exact .expired (.kept _)
    · dsimp only
      split
      · exact Judged.ok.setNextCycle
      · exact (Judged.kept _).setNextCycle

theorem handles_handleEvent (s : AliveState) (e : TimeSortedUpdateEvent) :
    Handles s e (s.handleEvent e) := by
  cases e with
  | sync t =>
    rw [handleEvent_sync]
    exact .sync t
  | checkpoint t =>
    rw [handleEvent_checkpoint]
    split
    · rename_i hactive
      unfold incIndicationCount
      split
      · exact .overflow t hactive
      · exact .counted t hactive
    · rename_i hidle
      exact .uncounted t hidle
  | supervisionEvent t type =>
    cases type with
    | activation =>
      rw [handleEvent_activation]
      split
      · rename_i hoff
        have hcycle := s.config.aliveReferenceCycle_lt
        rw [checkTransitionsOutOfDeactivated, if_pos rfl, setReferenceCycleTimestamps]
        by_cases hover : t > maxNanoseconds - s.config.aliveReferenceCycle
        · rw [if_pos hover]
          exact .late t hoff
        · rw [if_neg hover]
          exact .activated t hoff (by omega)
      · rename_i hon
        exact .repeated t hon
    | deactivation =>
      rw [handleEvent_deactivation]
      split
      · rename_i hoff
        exact .inactive t hoff
      · rename_i hon
        exact .deactivated t hon

theorem Active.ne_expired (h : s.Active) : s.aliveStatus ≠ .expired := by
  rcases h with hs | hs <;> rw [hs] <;> decide

theorem Active.ne_deactivated (h : s.Active) : s.aliveStatus ≠ .deactivated := by
  rcases h with hs | hs <;> rw [hs] <;> decide

theorem Judged.active (h : Judged s u) (hactive : s.Active) : u.Active := by
  cases h with
  | kept n => exact hactive
  | ok => exact .inl rfl
  | failed n => exact .inr rfl

theorem Judged.recoveryRequests (h : Judged s u) : u.recoveryRequests = s.recoveryRequests := by
  cases h <;> rfl

theorem nextCycle_evaluateCycle (hactive : s.Active) : s.evaluateCycle.aliveStatus = .expired ∨
    (s.evaluateCycle.Active ∧ s.evaluateCycle.referenceCycleEnd =
      s.referenceCycleEnd + s.config.aliveReferenceCycle) := by
  have h := evaluates_evaluateCycle hactive
  generalize s.evaluateCycle = s' at h
  cases h with
  | expired judged => exact .inl rfl
  | next judged fits => exact .inr ⟨judged.active hactive, rfl⟩

structure Frame (s s' : AliveState) : Prop where
  config : s'.config = s.config
  noDataLoss : s.dataLossReason = .noDataLoss → s'.dataLossReason = .noDataLoss

theorem Frame.refl (s : AliveState) : Frame s s := ⟨rfl, id⟩

theorem Frame.trans {s'' : AliveState} (h : Frame s s') (h' : Frame s' s'') : Frame s s'' :=
  ⟨h'.config.trans h.config, h'.noDataLoss ∘ h.noDataLoss⟩

theorem Evaluates.frame (h : Evaluates s s') : Frame s s' := by
  have hframe : ∀ {u}, Judged s u → Frame s u := fun judged => by
    cases judged <;> exact ⟨rfl, id⟩
  cases h with
  | expired judged => exact ⟨(hframe judged).config, fun _ => rfl⟩
  | next judged fits => exact ⟨(hframe judged).config, (hframe judged).noDataLoss⟩

theorem Handles.frame (h : Handles s e s') : Frame s s' := by
  cases h with
  | sync | uncounted | repeated | inactive => exact .refl s
  | counted | activated | deactivated => exact ⟨rfl, id⟩
  | overflow | late => exact ⟨rfl, fun _ => rfl⟩

end Moves

section Settle
variable {s : AliveState} {τ τ' : Nat}

/-- How many evaluations may be due before `τ`. -/
def evaluationsBefore (s : AliveState) (τ : Nat) : Nat :=
  if s.Active then τ - s.referenceCycleEnd else 0

theorem evaluationsBefore_lt (h : s.Due τ) :
    s.evaluateCycle.evaluationsBefore τ < s.evaluationsBefore τ := by
  have hk := s.config.aliveReferenceCycle_pos
  obtain ⟨hactive, hlt⟩ := h
  rw [evaluationsBefore, evaluationsBefore, if_pos hactive]
  rcases nextCycle_evaluateCycle hactive with hs | ⟨hs, hend⟩
  · rw [if_neg fun h : s.evaluateCycle.Active => h.ne_expired hs]
    omega
  · rw [if_pos hs, hend]
    omega

def settle (s : AliveState) (τ : Nat) : AliveState :=
  if s.Due τ then s.evaluateCycle.settle τ else s
termination_by s.evaluationsBefore τ
decreasing_by exact evaluationsBefore_lt ‹_›

theorem settle_of_due (h : s.Due τ) : s.settle τ = s.evaluateCycle.settle τ := by
  rw [settle, if_pos h]

theorem settle_of_not_due (h : ¬ s.Due τ) : s.settle τ = s := by
  rw [settle, if_neg h]

theorem not_due_settle (s : AliveState) (τ : Nat) : ¬ (s.settle τ).Due τ := by
  fun_induction settle s τ with
  | case1 s h ih => exact ih
  | case2 s h => exact h

/-- Settling earlier makes no difference later. -/
theorem settle_settle (hle : τ ≤ τ') : (s.settle τ).settle τ' = s.settle τ' := by
  fun_induction settle s τ with
  | case1 s h ih => rw [ih, ← settle_of_due ⟨h.1, Nat.lt_of_lt_of_le h.2 hle⟩]
  | case2 s h => rfl

theorem settle_induction (P : AliveState → Prop) (τ : Nat)
    (step : ∀ s, s.Due τ → P s → P s.evaluateCycle) (h : P s) : P (s.settle τ) := by
  fun_induction settle s τ with
  | case1 s hdue ih => exact ih (step s hdue h)
  | case2 s hdue => exact h

/-- One sorted event: the cycles before it, then the event itself. -/
def absorb (s : AliveState) (e : TimeSortedUpdateEvent) : AliveState :=
  (s.settle e.due).handleEvent e

theorem absorb_sync (s : AliveState) (t : Nat) : s.absorb (.sync t) = s.settle (t + 1) :=
  handleEvent_sync _ t

theorem absorb_settle {e : TimeSortedUpdateEvent} (hle : τ ≤ e.due) :
    (s.settle τ).absorb e = s.absorb e := by
  rw [absorb, settle_settle hle, absorb]

theorem foldl_absorb_induction (P : AliveState → Prop)
    (evaluated : ∀ {u u'}, u.Active → Evaluates u u' → P u → P u')
    (handled : ∀ {u u' e}, Handles u e u' → P u → P u') (events : List TimeSortedUpdateEvent)
    (h : P s) : P (events.foldl absorb s) := by
  induction events generalizing s with
  | nil => exact h
  | cons e events ih =>
    refine ih (handled (handles_handleEvent _ e) (settle_induction P _ (fun u hdue hu => ?_) h))
    exact evaluated hdue.1 (evaluates_evaluateCycle hdue.1) hu

theorem frame_settle (s : AliveState) (τ : Nat) : Frame s (s.settle τ) :=
  settle_induction (Frame s) τ
    (fun _ hdue hs => hs.trans (evaluates_evaluateCycle hdue.1).frame) (.refl s)

theorem frame_foldl_absorb (s : AliveState) (events : List TimeSortedUpdateEvent) :
    Frame s (events.foldl absorb s) :=
  foldl_absorb_induction (Frame s) (fun _ h hs => hs.trans h.frame) (fun h hs => hs.trans h.frame)
    events (.refl s)

end Settle

section Loop
variable {s : AliveState} {b : TimeSortingBuffer TimeSortedUpdateEvent}
  {e : TimeSortedUpdateEvent} {rest : List TimeSortedUpdateEvent} {sync fuel : Nat}

/-- With enough fuel, the loop absorbs the event it holds and those that the buffer still has to
return. -/
theorem processEvents_eq (hbuffer : b.Remaining rest)
    (hbefore : ∀ e' ∈ e :: rest, e'.timestamp ≤ sync)
    (hfuel : rest.length * (sync + 2) + s.evaluationsBefore (sync + 1) + 1 ≤ fuel) :
    processEvents sync fuel b (some e) s = some ((e :: rest).foldl absorb s) := by
  induction fuel generalizing s b e rest with
  | zero => exact absurd hfuel (Nat.not_succ_le_zero _)
  | succ fuel ih =>
    have hle := hbefore e List.mem_cons_self
    have hdue_le : e.due ≤ sync + 1 := by
      cases e with
      | supervisionEvent t type | checkpoint t => exact Nat.le_succ_of_le hle
      | sync t => exact Nat.succ_le_succ hle
    rw [processEvents, if_pos hle]
    by_cases hdue : s.Due e.due
    · -- the event stays and the end of the cycle has moved
      have hdue' : s.Due (sync + 1) := ⟨hdue.1, Nat.lt_of_lt_of_le hdue.2 hdue_le⟩
      have hfewer := evaluationsBefore_lt hdue'
      rw [if_pos ((s.detectEvaluationEvent_iff e).mpr hdue), processEvent_of_due hdue,
        ih hbuffer hbefore (by omega)]
      simp only [List.foldl_cons, absorb, settle_of_due hdue]
    · rw [if_neg fun h => hdue ((s.detectEvaluationEvent_iff e).mp h), processEvent_of_not_due hdue]
      have habsorb : s.absorb e = s.handleEvent e := by rw [absorb, settle_of_not_due hdue]
      rw [List.foldl_cons, habsorb]
      cases rest with
      | nil =>
        rw [hbuffer.getNextElement_nil]
        cases fuel <;> rfl
      | cons e' rest =>
        obtain ⟨b', hnext, hremaining, -⟩ := hbuffer.getNextElement_cons
        rw [hnext]
        refine ih hremaining (fun x hx => hbefore x (List.mem_cons_of_mem e hx)) ?_
        have hbound : (s.handleEvent e).evaluationsBefore (sync + 1) ≤ sync + 1 := by
          unfold evaluationsBefore
          split <;> omega
        rw [List.length_cons, Nat.succ_mul] at hfuel
        omega

end Loop

end AliveState

end LaunchManager
