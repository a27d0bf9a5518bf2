import LaunchManager.AliveMonitor.Rounds
import LaunchManager.Library.Debounce

/-!
# Reference cycles and the debounce counter

What an observer of all events makes of them: a supervision starts at an
activation, ends at a deactivation and consists of the checkpoints between them.
Its status follows from the number of checkpoints in each complete cycle.
`Follows` relates the members of the class to it, and is kept by every event.
-/

namespace LaunchManager

open AliveState List

set_option autoImplicit false

/-- A supervision since its activation, with the timestamps of its checkpoints. -/
structure Supervision where
  activation : Nat
  checkpoints : List Nat
  deriving DecidableEq, Repr

/-- What one event does to the supervision, if there is one. -/
def Supervision.observe : Option Supervision → TimeSortedUpdateEvent → Option Supervision
  | none, .supervisionEvent t .activation => some ⟨t, []⟩
  | none, _ => none
  | some _, .supervisionEvent _ .deactivation => none
  | some v, .checkpoint t => some { v with checkpoints := v.checkpoints ++ [t] }
  | some v, _ => some v

def AliveConfig.isBad (c : AliveConfig) (count : Nat) : Bool :=
  (decide (c.minAliveIndications ≠ 0) && decide (count < c.minAliveIndications)) ||
    (decide (c.maxAliveIndications ≠ 0) && decide (c.maxAliveIndications < count))

namespace Supervision
variable (v : Supervision) (c : AliveConfig)

def count (i : Nat) : Nat :=
  Debounce.count v.activation c.aliveReferenceCycle v.checkpoints i

def counter (n : Nat) : Nat := Debounce.counter (fun i => c.isBad (v.count c i)) n

def cycles (t : Nat) : Nat := (t - v.activation) / c.aliveReferenceCycle

/-- Once the counter would have exceeded the tolerance, the supervision stays expired. -/
def status (t : Nat) : AliveStatus :=
  if ∃ m < v.cycles c t + 1, c.failedSupervisionCyclesTolerance < v.counter c m then .expired
  else if v.counter c (v.cycles c t) = 0 then .ok
  else .failed

/-- The end of the cycle under way at time `t` is a timestamp. -/
def Representable (t : Nat) : Prop :=
  v.activation + v.cycles c t * c.aliveReferenceCycle + c.aliveReferenceCycle ≤ maxNanoseconds

instance (t : Nat) : Decidable (v.Representable c t) := inferInstanceAs (Decidable (_ ≤ _))

def Reached (τ n : Nat) : Prop := Debounce.Reached v.activation c.aliveReferenceCycle τ n

def cycleEnd (n : Nat) : Nat := Debounce.cycleEnd v.activation c.aliveReferenceCycle n

end Supervision

/-- `n` cycles of the supervision were evaluated and the next one is under way. -/
structure Tracks (s : AliveState) (v : Supervision) (n : Nat) : Prop where
  cycleEnd : s.referenceCycleEnd = v.cycleEnd s.config n
  within : ∀ t ∈ v.checkpoints, t ≤ v.cycleEnd s.config n
  count : s.indicationCount = v.count s.config n
  countBound : s.indicationCount ≤ maxUInt32
  counter : s.failedSupervisionCycles = v.counter s.config n
  tolerated : ∀ m ≤ n, v.counter s.config m ≤ s.config.failedSupervisionCyclesTolerance
  status : s.aliveStatus = if v.counter s.config n = 0 then .ok else .failed

/-- A reason to be expired: the tolerance was exceeded, or a counter or timestamp overflowed. -/
inductive Exceeded (c : AliveConfig) (v : Supervision) (τ : Nat) : Prop where
  | tolerance (m : Nat) (reached : v.Reached c τ m)
      (exceeded : c.failedSupervisionCyclesTolerance < v.counter c m)
  | count (i : Nat) (overflow : maxUInt32 < v.count c i)
  | timestamp (m : Nat) (reached : v.Reached c τ m) (overflow : maxNanoseconds < v.cycleEnd c m)

/-- The members follow the supervision; no event before `τ` is to come. -/
inductive Follows (s : AliveState) (τ : Nat) : Option Supervision → Prop where
  | off (status : s.aliveStatus = .deactivated) (count : s.indicationCount = 0) : Follows s τ none
  | on (v : Supervision) (n : Nat) (reached : v.Reached s.config τ n) (tracks : Tracks s v n) :
      Follows s τ (some v)
  | expired (v : Supervision) (status : s.aliveStatus = .expired)
      (exceeded : Exceeded s.config v τ) :
      Follows s τ (some v)

section Supervision
variable {v : Supervision} {c : AliveConfig} {t τ τ' i m n : Nat}

theorem Exceeded.mono (h : Exceeded c v τ) (hle : τ ≤ τ') : Exceeded c v τ' := by
  cases h with
  | tolerance m hm h => exact .tolerance m (Debounce.Reached.mono hm hle) h
  | count i h => exact .count i h
  | timestamp m hm h => exact .timestamp m (Debounce.Reached.mono hm hle) h

theorem Supervision.counter_concat (h : v.Reached c t n) (hm : m ≤ n) :
    Supervision.counter { v with checkpoints := v.checkpoints ++ [t] } c m = v.counter c m := by
  refine Debounce.counter_congr fun i hi => ?_
  exact congrArg c.isBad (Debounce.count_concat_of_lt h (Nat.lt_of_lt_of_le hi hm))

theorem Exceeded.checkpoint (h : Exceeded c v τ) (ht : τ ≤ t) :
    Exceeded c { v with checkpoints := v.checkpoints ++ [t] } τ := by
  cases h with
  | tolerance m hm h =>
    have hreached : v.Reached c t m := Debounce.Reached.mono hm ht
    exact .tolerance m hm ((Supervision.counter_concat hreached le_rfl).symm ▸ h)
  | count i h =>
    refine .count i (Nat.lt_of_lt_of_le h ?_)
    rw [Supervision.count, Supervision.count, Debounce.count_append]
    exact Nat.le_add_right _ _
  | timestamp m hm h => exact .timestamp m hm h

end Supervision

namespace Follows
variable {s : AliveState} {τ τ' : Nat} {o : Option Supervision}

theorem mono (h : Follows s τ o) (hle : τ ≤ τ') : Follows s τ' o := by
  cases h with
  | off hs hc => exact .off hs hc
  | on v n hr ht => exact .on v n (Debounce.Reached.mono hr hle) ht
  | expired v hs he => exact .expired v hs (he.mono hle)

end Follows

theorem AliveState.isError_eq (s : AliveState) :
    (s.isMinError || s.isMaxError) = s.config.isBad s.indicationCount := by
  simp [isMinError, isMaxError, AliveConfig.isBad, AliveConfig.isMinCheckDisabled,
    AliveConfig.isMaxCheckDisabled]

section Evaluation
variable {s : AliveState} {v : Supervision} {n : Nat}

theorem Supervision.cycleEnd_succ (v : Supervision) (c : AliveConfig) (n : Nat) :
    v.cycleEnd c (n + 1) = v.cycleEnd c n + c.aliveReferenceCycle :=
  Debounce.cycleEnd_succ v.activation c.aliveReferenceCycle n

/-- The result of evaluating cycle `n`: the next cycle is under way, or there was a reason to
expire. -/
def Evaluated (c : AliveConfig) (s : AliveState) (v : Supervision) (n : Nat) : Prop :=
  Tracks s v (n + 1) ∨ (s.aliveStatus = .expired ∧
    (c.failedSupervisionCyclesTolerance < v.counter c (n + 1) ∨
      maxNanoseconds < v.cycleEnd c (n + 1)))

theorem Evaluated.setNextCycle (hend : s.referenceCycleEnd = v.cycleEnd s.config n)
    (hwithin : ∀ t ∈ v.checkpoints, t ≤ v.cycleEnd s.config n)
    (hcounter : s.failedSupervisionCycles = v.counter s.config (n + 1))
    (htolerated : ∀ m ≤ n + 1, v.counter s.config m ≤ s.config.failedSupervisionCyclesTolerance)
    (hstatus : s.aliveStatus = if v.counter s.config (n + 1) = 0 then .ok else .failed) :
    Evaluated s.config s.setNextCycle v n := by
  have hsucc := v.cycleEnd_succ s.config n
  by_cases hover : s.referenceCycleEnd > maxNanoseconds - s.config.aliveReferenceCycle
  · rw [setNextCycle_of_overflow hover]
    refine .inr ⟨rfl, .inr ?_⟩
    rw [hsucc, ← hend]
    omega
  · rw [setNextCycle_of_fits hover]
    have hcount : v.count s.config (n + 1) = 0 :=
      Debounce.count_eq_zero hwithin (Nat.lt_succ_self n)
    refine .inl ⟨?_, ?_, hcount.symm, Nat.zero_le _, hcounter, htolerated, hstatus⟩
    · change s.referenceCycleEnd + s.config.aliveReferenceCycle = v.cycleEnd s.config (n + 1)
      rw [hsucc, hend]
    · intro t ht
      change t ≤ v.cycleEnd s.config (n + 1)
      rw [hsucc]
      exact Nat.le_trans (hwithin t ht) (Nat.le_add_right _ _)

theorem Tracks.counter_succ (h : Tracks s v n) : v.counter s.config (n + 1) =
    if s.isMinError || s.isMaxError then s.failedSupervisionCycles + 1
    else s.failedSupervisionCycles - 1 := by
  rw [isError_eq, h.count, h.counter]
  rfl

theorem Tracks.tolerated_succ (h : Tracks s v n)
    (hle : v.counter s.config (n + 1) ≤ s.config.failedSupervisionCyclesTolerance) :
    ∀ m ≤ n + 1, v.counter s.config m ≤ s.config.failedSupervisionCyclesTolerance := by
  intro m hm
  rcases Nat.lt_or_ge n m with hlt | hge
  · exact (by omega : m = n + 1) ▸ hle
  · exact h.tolerated m hge

theorem Tracks.evaluateRefCycleOutOfOk (h : Tracks s v n) (hok : s.aliveStatus = .ok) :
    Evaluated s.config s.evaluateRefCycleOutOfOk v n := by
  have hzero : v.counter s.config n = 0 := by
    by_contra hne
    rw [h.status, if_neg hne] at hok
    cases hok
  have hfailed : s.failedSupervisionCycles = 0 := h.counter.trans hzero
  have hnext := h.counter_succ
  rw [hfailed] at hnext
  unfold AliveState.evaluateRefCycleOutOfOk
  split at hnext
  · rename_i herror
    rw [if_pos herror, hfailed]
    split
    · have htolerated := h.tolerated_succ (by omega)
      refine Evaluated.setNextCycle h.cycleEnd h.within ?_ htolerated ?_
      · exact (congrArg (· + 1) hfailed).trans hnext.symm
      · rw [hnext]
        rfl
    · exact .inr ⟨rfl, .inl (by omega)⟩
  · rename_i herror
    rw [if_neg herror]
    refine Evaluated.setNextCycle h.cycleEnd h.within (hfailed.trans hnext.symm)
      (h.tolerated_succ (by omega)) ?_
    rw [hnext, hok]
    rfl

theorem Tracks.evaluateRefCycleOutOfFailed (h : Tracks s v n) (hfail : s.aliveStatus = .failed) :
    Evaluated s.config s.evaluateRefCycleOutOfFailed v n := by
  have hpos : v.counter s.config n ≠ 0 := by
    intro hzero
    rw [h.status, if_pos hzero] at hfail
    cases hfail
  have hcounter := h.counter
  have hmax := s.config.tolerance_le
  have hnow := h.tolerated n le_rfl
  have hnext := h.counter_succ
  unfold AliveState.evaluateRefCycleOutOfFailed
  split at hnext
  · rename_i herror
    rw [if_pos herror]
    split
    · exact .inr ⟨rfl, .inl (by omega)⟩
    · dsimp only
      split
      · rename_i hle
        refine Evaluated.setNextCycle h.cycleEnd h.within hnext.symm
          (h.tolerated_succ (by omega)) ?_
        have hne : v.counter s.config (n + 1) ≠ 0 := by omega
        exact hfail.trans (if_neg hne).symm
      · exact .inr ⟨rfl, .inl (by omega)⟩
  · rename_i herror
    rw [if_neg herror]
    dsimp only
    split
    · refine Evaluated.setNextCycle h.cycleEnd h.within ?_ (h.tolerated_succ (by omega)) ?_
      · exact (by omega : 0 = v.counter s.config (n + 1))
      · have hzero : v.counter s.config (n + 1) = 0 := by omega
        exact (if_pos hzero).symm
    · have hne : v.counter s.config (n + 1) ≠ 0 := by omega
      exact Evaluated.setNextCycle h.cycleEnd h.within hnext.symm (h.tolerated_succ (by omega))
        (hfail.trans (if_neg hne).symm)

theorem Tracks.active (h : Tracks s v n) : s.Active := by
  have hstatus := h.status
  split at hstatus
  · exact .inl hstatus
  · exact .inr hstatus

theorem Tracks.evaluateCycle (h : Tracks s v n) : Evaluated s.config s.evaluateCycle v n := by
  -- the timestamp of the evaluation is not among the members that are related
  have htracks : Tracks { s with eventTimestamp := s.referenceCycleEnd } v n := { h with }
  have hactive := htracks.active
  unfold AliveState.evaluateCycle
  rw [checkTransitions_evaluation hactive]
  split
  · rename_i hok
    exact htracks.evaluateRefCycleOutOfOk hok
  · rename_i hok
    exact htracks.evaluateRefCycleOutOfFailed (hactive.resolve_left hok)

end Evaluation

namespace Follows
variable {s : AliveState} {τ t : Nat} {o : Option Supervision} {v : Supervision} {n : Nat}

theorem evaluateCycle (h : Follows s τ o) (hdue : s.Due τ) : Follows s.evaluateCycle τ o := by
  obtain ⟨hactive, hlt⟩ := hdue
  have hconfig := (evaluates_evaluateCycle hactive).frame.config
  unfold AliveState.Active at hactive
  cases h with
  | off hs _ | expired v hs _ => simp [hs] at hactive
  | on v n _ ht =>
    have hreached : v.Reached s.config τ (n + 1) := by
      rw [ht.cycleEnd] at hlt
      exact Debounce.reached_succ hlt
    rcases ht.evaluateCycle with hnext | ⟨hstatus, hover | hover⟩
    · exact .on v (n + 1) (hconfig.symm ▸ hreached) hnext
    · exact .expired v hstatus (hconfig.symm ▸ .tolerance (n + 1) hreached hover)
    · exact .expired v hstatus (hconfig.symm ▸ .timestamp (n + 1) hreached hover)

theorem settle (h : Follows s τ o) : Follows (s.settle τ) τ o :=
  settle_induction (Follows · τ o) τ (fun _ hdue hs => hs.evaluateCycle hdue) h

theorem activation (hcount : s.indicationCount = 0) (t : Nat) :
    Follows (s.checkTransitionsOutOfDeactivated .activation t) t (some ⟨t, []⟩) := by
  have hend : Supervision.cycleEnd ⟨t, []⟩ s.config 0 = t + s.config.aliveReferenceCycle := by
    rw [Supervision.cycleEnd, Debounce.cycleEnd, Nat.zero_add, Nat.one_mul]
  have hreached : Supervision.Reached ⟨t, []⟩ s.config t 0 := Debounce.reached_zero le_rfl
  rw [AliveState.checkTransitionsOutOfDeactivated, if_pos rfl,
    AliveState.setReferenceCycleTimestamps]
  by_cases hover : t > maxNanoseconds - s.config.aliveReferenceCycle
  · rw [if_pos hover]
    refine .expired _ rfl (.timestamp 0 hreached (?_ : maxNanoseconds <
      Supervision.cycleEnd ⟨t, []⟩ s.config 0))
    omega
  · rw [if_neg hover]
    refine .on _ 0 hreached ⟨hend.symm, by simp, hcount, ?_, rfl, ?_, rfl⟩
    · exact le_of_eq_of_le hcount (Nat.zero_le _)
    · intro m hm
      rw [Nat.le_zero.mp hm]
      exact Nat.zero_le _

theorem checkpoint (hreached : v.Reached s.config t n) (h : Tracks s v n)
    (hle : t ≤ s.referenceCycleEnd) :
    Follows (s.incIndicationCount t) t (some { v with checkpoints := v.checkpoints ++ [t] }) := by
  have hcount : Supervision.count { v with checkpoints := v.checkpoints ++ [t] } s.config n =
      s.indicationCount + 1 := by
    rw [h.cycleEnd] at hle
    rw [h.count]
    exact Debounce.count_concat_self hreached hle
  unfold AliveState.incIndicationCount
  split
  · rename_i hmax
    refine .expired _ rfl (.count n (?_ : maxUInt32 < Supervision.count _ s.config n))
    omega
  · rename_i hmax
    have hcounter := fun m (hm : m ≤ n) => Supervision.counter_concat hreached hm
    have hbound := h.countBound
    refine .on _ n hreached ⟨h.cycleEnd, ?_, hcount.symm, ?_, ?_, ?_, ?_⟩
    · intro u hu
      rcases mem_append.mp hu with hu | hu
      · exact h.within u hu
      · rw [mem_singleton.mp hu]
        exact Nat.le_trans hle (Nat.le_of_eq h.cycleEnd)
    · exact Nat.succ_le_of_lt (Nat.lt_of_le_of_ne hbound hmax)
    · exact h.counter.trans (hcounter n le_rfl).symm
    · exact fun m hm => le_of_eq_of_le (hcounter m hm) (h.tolerated m hm)
    · rw [hcounter n le_rfl]
      exact h.status

theorem handleEvent {e : TimeSortedUpdateEvent} (h : Follows s e.due o) (hdue : ¬ s.Due e.due) :
    Follows (s.handleEvent e) e.due (Supervision.observe o e) := by
  cases e with
  | sync t =>
    rw [handleEvent_sync]
    cases h with
    | off hs hc => exact .off hs hc
    | on v n hr ht => exact .on v n hr ht
    | expired v hs he => exact .expired v hs he
  | checkpoint t =>
    rw [handleEvent_checkpoint]
    cases h with
    | off hs hc =>
      rw [if_neg (by simp [AliveState.Active, hs])]
      exact .off hs hc
    | on v n hr ht =>
      rw [if_pos ht.active]
      refine checkpoint hr ht (Nat.le_of_not_lt fun hlt => hdue ⟨ht.active, hlt⟩)
    | expired v hs he =>
      rw [if_neg (by simp [AliveState.Active, hs])]
      exact .expired _ hs (he.checkpoint le_rfl)
  | supervisionEvent t type =>
    cases type with
    | activation =>
      rw [handleEvent_activation]
      cases h with
      | off hs hc =>
        rw [if_pos hs]
        exact activation hc t
      | on v n hr ht =>
        rw [if_neg (by rcases ht.active with h | h <;> simp [h])]
        exact .on v n hr ht
      | expired v hs he =>
        rw [if_neg (by simp [hs])]
        exact .expired v hs he
    | deactivation =>
      rw [handleEvent_deactivation]
      cases h with
      | off hs hc =>
        rw [if_pos hs]
        exact .off hs hc
      | on v n hr ht =>
        rw [if_neg (by rcases ht.active with h | h <;> simp [h])]
        exact .off rfl rfl
      | expired v hs he =>
        rw [if_neg (by simp [hs])]
        exact .off rfl rfl

theorem absorb {e : TimeSortedUpdateEvent} (h : Follows s τ o) (hle : τ ≤ e.due) :
    Follows (s.absorb e) e.due (Supervision.observe o e) :=
  (h.mono hle).settle.handleEvent (not_due_settle s e.due)

theorem foldl_absorb {events : List TimeSortedUpdateEvent} (h : Follows s τ o)
    (hsorted : (τ :: events.map TimeSortedUpdateEvent.due).Pairwise (· ≤ ·)) {τ' : Nat}
    (hle : ∀ t ∈ τ :: events.map TimeSortedUpdateEvent.due, t ≤ τ') :
    Follows (events.foldl AliveState.absorb s) τ' (events.foldl Supervision.observe o) := by
  induction events generalizing s τ o with
  | nil => exact h.mono (hle τ (by simp))
  | cons e events ih =>
    rw [map_cons] at hsorted hle
    obtain ⟨hfirst, hrest⟩ := pairwise_cons.mp hsorted
    exact ih (h.absorb (hfirst e.due mem_cons_self)) hrest
      fun t ht => hle t (mem_cons_of_mem τ ht)

theorem cycles_eq (hreached : v.Reached s.config (t + 1) n) (h : Tracks s v n)
    (hsettled : ¬ s.Due (t + 1)) : v.cycles s.config t = n := by
  have hlt : t < v.cycleEnd s.config n := by
    rw [← h.cycleEnd]
    exact Nat.lt_of_not_le fun hle => hsettled ⟨h.active, Nat.lt_succ_of_le hle⟩
  exact Debounce.div_eq_of_reached s.config.aliveReferenceCycle_pos hreached hlt

theorem status_eq (h : Follows s (t + 1) (some v)) (hsettled : ¬ s.Due (t + 1))
    (hrepresentable : v.Representable s.config t) (hcount : ∀ i, v.count s.config i < 2 ^ 32) :
    s.aliveStatus = v.status s.config t := by
  have hk := s.config.aliveReferenceCycle_pos
  unfold Supervision.status
  cases h with
  | on v n hreached ht =>
    have hcycles := cycles_eq hreached ht hsettled
    have hnone : ¬ ∃ m < n + 1,
        s.config.failedSupervisionCyclesTolerance < v.counter s.config m := by
      rintro ⟨m, hm, hover⟩
      exact Nat.not_lt.mpr (ht.tolerated m (Nat.le_of_lt_succ hm)) hover
    rw [hcycles, if_neg hnone]
    exact ht.status
  | expired v hs he =>
    cases he with
    | tolerance m hreached hover =>
      have hle := Debounce.le_div_of_reached hk hreached
      rw [if_pos ⟨m, Nat.lt_succ_of_le hle, hover⟩]
      exact hs
    | count i hover =>
      have hlt := hcount i
      rw [maxUInt32] at hover
      omega
    | timestamp m hreached hover =>
      have hle := Debounce.le_div_of_reached hk hreached
      have hmul : m * s.config.aliveReferenceCycle ≤
          v.cycles s.config t * s.config.aliveReferenceCycle := Nat.mul_le_mul_right _ hle
      rw [Supervision.Representable] at hrepresentable
      rw [Supervision.cycleEnd, Debounce.cycleEnd, Nat.succ_mul] at hover
      omega

end Follows

def supervisionOf (inputs : List AliveInput) : Option Supervision :=
  (chronicleEvents inputs).foldl Supervision.observe none

theorem sorted_chronicle (inputs : List AliveInput) : (chronicle inputs).Pairwise (·.2 ≤ ·.2) := by
  have hfold : ∀ l : List (TimeSortedUpdateEvent × Nat), l.Pairwise (·.2 ≤ ·.2) →
      (inputs.foldl (fun l input => TimeSortingBuffer.insertByTime input.item l) l).Pairwise
        (·.2 ≤ ·.2) := by
    induction inputs with
    | nil => exact fun l h => h
    | cons input inputs ih =>
      exact fun l h => ih _ (TimeSortingBuffer.sorted_insertByTime input.item h)
  exact hfold [] List.Pairwise.nil

theorem map_due_chronicleEvents (inputs : List AliveInput) :
    (chronicleEvents inputs).map TimeSortedUpdateEvent.due = (chronicle inputs).map Prod.snd := by
  rw [chronicleEvents, map_map]
  refine map_congr_left fun x hx => ?_
  obtain ⟨input, -, rfl⟩ := mem_chronicle.mp hx
  exact input.due_event

theorem pairwise_due_chronicleEvents (inputs : List AliveInput) :
    ((chronicleEvents inputs).map TimeSortedUpdateEvent.due).Pairwise (· ≤ ·) := by
  rw [map_due_chronicleEvents, pairwise_map]
  exact sorted_chronicle _

variable {rs : List AliveRound} {last : AliveRound}

theorem Chronological.due_le (h : Chronological rs) (hlast : rs.getLast? = some last) :
    ∀ t ∈ (chronicleEvents (streamOf rs)).map TimeSortedUpdateEvent.due, t ≤ last.sync := by
  intro t ht
  rw [map_due_chronicleEvents] at ht
  obtain ⟨x, hx, rfl⟩ := mem_map.mp ht
  obtain ⟨input, hinput, rfl⟩ := mem_chronicle.mp hx
  obtain ⟨r, hr, hinput⟩ := mem_flatMap.mp hinput
  exact Nat.le_trans (h.before r hr input hinput) (h.sync_le hlast hr)

theorem Alive.rounds_follow (config : AliveConfig) (recoveryClient : Nat → Bool)
    {bufferSize : UInt16}
    (hchronological : Chronological rs) (hprompt : Prompt rs)
    (hlossless : ∀ r ∈ rs, r.Lossless bufferSize.toNat) (hlast : rs.getLast? = some last) :
    ∃ a, (create config recoveryClient bufferSize).rounds rs = some a ∧ a.config = config ∧
      Follows a.toAliveState (last.sync + 1) (supervisionOf (streamOf rs)) ∧
      ¬ a.toAliveState.Due (last.sync + 1) := by
  let s₀ := (create config recoveryClient bufferSize).toAliveState
  obtain ⟨a, hrun, -, hstate⟩ := (create_collected config recoveryClient bufferSize).rounds
    hchronological hprompt hlossless hlast
  have hbefore : ∀ t ∈ 0 :: (chronicleEvents (streamOf rs)).map TimeSortedUpdateEvent.due,
      t ≤ last.sync + 1 := by
    intro t ht
    rcases mem_cons.mp ht with rfl | ht
    · exact Nat.zero_le _
    · exact Nat.le_succ_of_le (hchronological.due_le hlast t ht)
  have hsorted : (0 :: (chronicleEvents (streamOf rs)).map TimeSortedUpdateEvent.due).Pairwise
      (· ≤ ·) :=
    pairwise_cons.mpr ⟨fun t _ => Nat.zero_le t, pairwise_due_chronicleEvents _⟩
  have hstart : Follows s₀ 0 none := .off rfl rfl
  have hfollows := (hstart.foldl_absorb hsorted hbefore).settle
  have hconfig := ((frame_foldl_absorb s₀ (chronicleEvents (streamOf rs))).trans
    (frame_settle _ (last.sync + 1))).config
  refine ⟨a, hrun, ?_, ?_, ?_⟩
  · rw [hstate]
    exact hconfig
  · rw [hstate]
    exact hfollows
  · rw [hstate]
    exact not_due_settle _ _

/-- The supervision follows the debounce counter of the cycles that tile time from its activation.
-/
theorem Alive.follows_debounce_counter (config : AliveConfig) (recoveryClient : Nat → Bool)
    (bufferSize : UInt16) (rs : List AliveRound) (sync : Nat)
    (hchronological : Chronological rs) (hprompt : Prompt rs)
    (hlossless : ∀ r ∈ rs, r.Lossless bufferSize.toNat)
    (hlast : rs.getLast?.map AliveRound.sync = some sync) :
    ∃ a, (create config recoveryClient bufferSize).rounds rs = some a ∧
      match supervisionOf (streamOf rs) with
      | none => a.aliveStatus = .deactivated
      | some v => v.Representable config sync → (∀ i, v.count config i < 2 ^ 32) →
          a.aliveStatus = v.status config sync := by
  obtain ⟨last, hget, rfl⟩ := Option.map_eq_some_iff.mp hlast
  obtain ⟨a, hrun, rfl, hfollows, hsettled⟩ :=
    rounds_follow config recoveryClient hchronological hprompt hlossless hget
  refine ⟨a, hrun, ?_⟩
  cases hview : supervisionOf (streamOf rs) with
  | none =>
    rw [hview] at hfollows
    cases hfollows with
    | off hs _ => exact hs
  | some v =>
    rw [hview] at hfollows
    exact hfollows.status_eq hsettled

theorem Alive.follows_debounce_counter_sample :
    ∃ a, (create sampleConfig (fun _ => true) 4).rounds
        [⟨[.supervisionEvent 5 .activation, .checkpoint 7], 1000005⟩, ⟨[], 2500000⟩] = some a ∧
      a.aliveStatus = Supervision.status ⟨5, [7]⟩ sampleConfig 2500000 := by
  obtain ⟨a, hrun, hstatus⟩ := follows_debounce_counter sampleConfig (fun _ => true) 4
    [⟨[.supervisionEvent 5 .activation, .checkpoint 7], 1000005⟩, ⟨[], 2500000⟩] 2500000
    (by decide) (by decide) (by decide) rfl
  refine ⟨a, hrun, hstatus (by decide) fun i => ?_⟩
  exact Nat.lt_of_le_of_lt countP_le_length (by decide)

example : Supervision.status ⟨5, [7]⟩ sampleConfig 2500000 = .failed := by decide

section Deviations

def strictConfig : AliveConfig where
  reportingCycleMs := 1
  failedCyclesTolerance := 0
  minIndications := some 1
  maxIndications := none
  reportingCycle_ne_zero := sampleConfig.reportingCycle_ne_zero

/-- No bound is enabled, and a cycle is longer than `2 ^ 32` nanoseconds. -/
def unboundedConfig : AliveConfig where
  reportingCycleMs := 5000
  failedCyclesTolerance := 0
  minIndications := none
  maxIndications := none
  reportingCycle_ne_zero := by decide

def steadyRounds (n : Nat) : List AliveRound :=
  ⟨[.supervisionEvent 0 .activation], 0⟩ ::
    (List.range n).map fun j => ⟨[.checkpoint (j + 1)], j + 1⟩

variable {n : Nat}

theorem mem_steadyRounds {r : AliveRound} (h : r ∈ steadyRounds n) :
    r = ⟨[.supervisionEvent 0 .activation], 0⟩ ∨
      ∃ j < n, r = ⟨[.checkpoint (j + 1)], j + 1⟩ := by
  rcases mem_cons.mp h with h | h
  · exact .inl h
  · obtain ⟨j, hj, rfl⟩ := mem_map.mp h
    exact .inr ⟨j, mem_range.mp hj, rfl⟩

theorem pairwise_steadyRounds (n : Nat) : (steadyRounds n).Pairwise fun r r' =>
    r.sync ≤ r'.sync ∧ ∀ input ∈ r'.inputs, r.sync < input.timestamp := by
  refine pairwise_cons.mpr ⟨fun r hr => ?_, ?_⟩
  · obtain ⟨j, -, rfl⟩ := mem_map.mp hr
    refine ⟨Nat.zero_le _, fun input hinput => ?_⟩
    rw [mem_singleton.mp hinput]
    exact Nat.succ_pos j
  · refine pairwise_map.mpr (pairwise_lt_range.imp fun {j j'} hlt => ?_)
    refine ⟨Nat.succ_le_succ (Nat.le_of_lt hlt), fun input hinput => ?_⟩
    rw [mem_singleton.mp hinput]
    exact Nat.succ_lt_succ hlt

theorem steadyRounds_chronological (n : Nat) : Chronological (steadyRounds n) := by
  refine ⟨(pairwise_steadyRounds n).imp And.left, fun r hr input hinput => ?_⟩
  rcases mem_steadyRounds hr with rfl | ⟨j, -, rfl⟩
  · rw [mem_singleton.mp hinput]
    exact le_rfl
  · rw [mem_singleton.mp hinput]
    exact le_rfl

theorem steadyRounds_lossless (n : Nat) : ∀ r ∈ steadyRounds n, r.Lossless 2 := by
  intro r hr
  rcases mem_steadyRounds hr with rfl | ⟨j, -, rfl⟩
  · decide
  · refine ⟨Nat.lt_succ_self 1, fun input hinput => ?_⟩
    rw [mem_singleton.mp hinput]
    rfl

def steadyCheckpoints (n : Nat) : List Nat := (List.range n).map (· + 1)

theorem supervisionOf_steadyRounds (n : Nat) :
    supervisionOf (streamOf (steadyRounds n)) = some ⟨0, steadyCheckpoints n⟩ := by
  have hstream : streamOf (steadyRounds n) =
      .supervisionEvent 0 .activation :: (steadyCheckpoints n).map AliveInput.checkpoint := by
    rw [streamOf, steadyRounds, flatMap_cons, flatMap_map, steadyCheckpoints,
      map_map, map_eq_flatMap]
    rfl
  have hsorted : (streamOf (steadyRounds n)).Pairwise (·.timestamp ≤ ·.timestamp) := by
    rw [hstream]
    refine pairwise_cons.mpr ⟨fun _ _ => Nat.zero_le _, ?_⟩
    rw [pairwise_map, steadyCheckpoints, pairwise_map]
    exact pairwise_lt_range.imp fun {j j'} (hlt : j < j') =>
      Nat.succ_le_succ (Nat.le_of_lt hlt)
  have hfold : ∀ (l : List Nat) (v : Supervision),
      (l.map TimeSortedUpdateEvent.checkpoint).foldl Supervision.observe (some v) =
        some { v with checkpoints := v.checkpoints ++ l } := by
    intro l
    induction l with
    | nil => simp
    | cons t l ih =>
      intro v
      rw [map_cons, foldl_cons]
      refine (ih _).trans ?_
      simp
  have hevents : chronicleEvents (streamOf (steadyRounds n)) =
      .supervisionEvent 0 .activation ::
        (steadyCheckpoints n).map TimeSortedUpdateEvent.checkpoint := by
    rw [chronicleEvents, chronicle_of_sorted hsorted, hstream]
    simp [AliveInput.item, AliveInput.event, Function.comp_def]
  rw [supervisionOf, hevents, foldl_cons]
  exact hfold (steadyCheckpoints n) ⟨0, []⟩

theorem Follows.expired_of_count {s : AliveState} {v : Supervision} {t : Nat}
    (h : Follows s (t + 1) (some v)) (hsettled : ¬ s.Due (t + 1))
    (hcount : maxUInt32 < v.count s.config (v.cycles s.config t)) : s.aliveStatus = .expired := by
  cases h with
  | on v n hreached ht =>
    have hcycles := cycles_eq hreached ht hsettled
    have hbound := ht.countBound
    rw [ht.count, ← hcycles] at hbound
    omega
  | expired v hs he => exact hs

theorem count_steadyCheckpoints (h : n ≤ unboundedConfig.aliveReferenceCycle) :
    Supervision.count ⟨0, steadyCheckpoints n⟩ unboundedConfig 0 = n := by
  have hall : ∀ t ∈ steadyCheckpoints n,
      Debounce.inCycle 0 unboundedConfig.aliveReferenceCycle 0 t = true := by
    intro t ht
    obtain ⟨j, hj, rfl⟩ := mem_map.mp ht
    have hj := mem_range.mp hj
    refine Debounce.inCycle_of_reached (Debounce.reached_zero (Nat.zero_le _)) ?_
    rw [Debounce.cycleEnd, Nat.zero_add, Nat.zero_add, Nat.one_mul]
    omega
  rw [Supervision.count, Debounce.count, countP_eq_length.mpr hall]
  simp [steadyCheckpoints]

theorem getLast_steadyRounds (n : Nat) :
    (steadyRounds (n + 1)).getLast? = some ⟨[.checkpoint (n + 1)], n + 1⟩ := by
  rw [steadyRounds, range_succ, map_append, ← cons_append]
  exact List.getLast?_concat

theorem steadyRounds_expired (hmany : maxUInt32 ≤ n)
    (hlong : n + 1 < unboundedConfig.aliveReferenceCycle) :
    ((Alive.create unboundedConfig (fun _ => true) 2).rounds (steadyRounds (n + 1))).map
      (·.aliveStatus) = some .expired := by
  have hlossless : ∀ r ∈ steadyRounds (n + 1), r.Lossless (2 : UInt16).toNat :=
    steadyRounds_lossless (n + 1)
  obtain ⟨a, hrun, hconfig, hfollows, hsettled⟩ :=
    Alive.rounds_follow unboundedConfig (fun _ => true) (steadyRounds_chronological (n + 1))
      ((pairwise_steadyRounds _).imp And.right) hlossless (getLast_steadyRounds n)
  rw [supervisionOf_steadyRounds] at hfollows
  have hcycles : Supervision.cycles ⟨0, steadyCheckpoints (n + 1)⟩ unboundedConfig (n + 1) = 0 :=
    Nat.div_eq_of_lt hlong
  have hexpired : a.aliveStatus = .expired := by
    refine hfollows.expired_of_count hsettled ?_
    rw [hconfig, hcycles, count_steadyCheckpoints (Nat.le_of_lt hlong)]
    exact Nat.lt_succ_of_le hmany
  rw [hrun, Option.map_some, hexpired]

theorem status_steadyCheckpoints (hlong : n < unboundedConfig.aliveReferenceCycle) :
    Supervision.status ⟨0, steadyCheckpoints n⟩ unboundedConfig n = .ok := by
  have hcycles : Supervision.cycles ⟨0, steadyCheckpoints n⟩ unboundedConfig n = 0 :=
    Nat.div_eq_of_lt hlong
  have hnone : ¬ ∃ m < 0 + 1, unboundedConfig.failedSupervisionCyclesTolerance <
      Supervision.counter ⟨0, steadyCheckpoints n⟩ unboundedConfig m := by
    rintro ⟨m, hm, hover⟩
    obtain rfl : m = 0 := by omega
    exact Nat.not_lt_zero _ hover
  rw [Supervision.status, hcycles, if_neg hnone]
  exact if_pos rfl

theorem representable_steadyCheckpoints (hlong : n < unboundedConfig.aliveReferenceCycle) :
    Supervision.Representable ⟨0, steadyCheckpoints n⟩ unboundedConfig n := by
  have hcycles : Supervision.cycles ⟨0, steadyCheckpoints n⟩ unboundedConfig n = 0 :=
    Nat.div_eq_of_lt hlong
  have hsmall : unboundedConfig.aliveReferenceCycle ≤ maxNanoseconds := by decide
  rw [Supervision.Representable, hcycles, Nat.zero_mul, Nat.zero_add]
  exact hsmall

/-- A checkpoint arrives after the evaluation of its cycle, or a cycle holds `2 ^ 32` of them. -/
theorem Alive.debounce_counter_deviations :
    (∃ rs sync v, Chronological rs ∧ (∀ r ∈ rs, r.Lossless 4) ∧
      rs.getLast?.map AliveRound.sync = some sync ∧ supervisionOf (streamOf rs) = some v ∧
      v.Representable strictConfig sync ∧ (∀ i, v.count strictConfig i < 2 ^ 32) ∧
      ((create strictConfig (fun _ => true) 4).rounds rs).map (·.aliveStatus) ≠
        some (v.status strictConfig sync)) ∧
    ∃ rs sync v, Chronological rs ∧ Prompt rs ∧ (∀ r ∈ rs, r.Lossless 2) ∧
      rs.getLast?.map AliveRound.sync = some sync ∧ supervisionOf (streamOf rs) = some v ∧
      v.Representable unboundedConfig sync ∧
      ((create unboundedConfig (fun _ => true) 2).rounds rs).map (·.aliveStatus) ≠
        some (v.status unboundedConfig sync) := by
  constructor
  · refine ⟨[⟨[.supervisionEvent 1 .activation], 1000001⟩, ⟨[.checkpoint 500000], 1000002⟩],
      1000002, ⟨1, [500000]⟩, by decide, by decide, rfl, by decide, by decide, fun i => ?_, ?_⟩
    · exact Nat.lt_of_le_of_lt countP_le_length (by decide)
    · decide +kernel
  · obtain ⟨n, hmany, hlong⟩ :
        ∃ n, maxUInt32 ≤ n ∧ n + 1 < unboundedConfig.aliveReferenceCycle :=
      ⟨maxUInt32, le_rfl, by decide⟩
    refine ⟨steadyRounds (n + 1), n + 1, ⟨0, steadyCheckpoints (n + 1)⟩,
      steadyRounds_chronological _, (pairwise_steadyRounds _).imp And.right,
      steadyRounds_lossless _, ?_, supervisionOf_steadyRounds _,
      representable_steadyCheckpoints hlong, ?_⟩
    · rw [getLast_steadyRounds]
      rfl
    · rw [steadyRounds_expired hmany hlong, status_steadyCheckpoints hlong]
      decide

end Deviations

end LaunchManager
