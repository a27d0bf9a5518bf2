import LaunchManager.AliveMonitor.CyclicExecutor
import LaunchManager.AliveMonitor.Restart

/-!
# Cycles without a clock

When the clock cannot be read the largest timestamp stands in for it, so that no data
is held back. But by then every reference cycle has ended: the supervision of every
process that is not switched off in the cycle expires.
-/

namespace LaunchManager

open AliveState List

set_option autoImplicit false

open Runs

namespace AliveState
variable {s s' : AliveState} {e : TimeSortedUpdateEvent}

def EndsInTime (s : AliveState) : Prop := s.Active → s.referenceCycleEnd ≤ maxNanoseconds

theorem EndsInTime.evaluates (hm : Evaluates s s') : s'.EndsInTime := by
  cases hm with
  | expired => exact fun _ => le_rfl
  | next _ fits => exact fun _ => fits

theorem EndsInTime.handles (h : s.EndsInTime) (hm : Handles s e s') : s'.EndsInTime := by
  cases hm with
  | sync | uncounted | repeated | inactive | counted => exact h
  | overflow | late | deactivated => exact fun _ => le_rfl
  | activated _ _ fits => exact fun _ => fits

theorem EndsInTime.settle (h : s.EndsInTime) (τ : Nat) : (s.settle τ).EndsInTime :=
  settle_induction EndsInTime τ (fun _ hdue _ => .evaluates (evaluates_evaluateCycle hdue.1)) h

theorem EndsInTime.foldl (h : s.EndsInTime) (events : List TimeSortedUpdateEvent) :
    (events.foldl AliveState.absorb s).EndsInTime :=
  foldl_absorb_induction EndsInTime (fun _ hm _ => .evaluates hm) (fun hm hs => hs.handles hm)
    events h

theorem EndsInTime.not_active (h : s.EndsInTime) : ¬ (s.settle (maxNanoseconds + 1)).Active := by
  intro hactive
  exact not_due_settle s _ ⟨hactive, Nat.lt_succ_of_le (h.settle _ hactive)⟩

theorem absorb_deactivated (h : s.aliveStatus = .deactivated)
    (he : e.supervision? = none) : s.absorb e = s := by
  have hactive : ¬ s.Active := fun hactive => hactive.ne_deactivated h
  unfold AliveState.absorb
  rw [settle_of_not_due fun hdue => hactive hdue.1]
  cases e with
  | supervisionEvent t type => cases he
  | checkpoint t => rw [handleEvent_checkpoint, if_neg hactive]
  | sync t => exact handleEvent_sync s t

theorem foldl_deactivation {events : List TimeSortedUpdateEvent}
    (hlast : (events.filterMap TimeSortedUpdateEvent.supervision?).getLast? =
      some .deactivation) :
    (events.foldl AliveState.absorb s).aliveStatus = .deactivated := by
  induction events using List.reverseRecOn with
  | nil => cases hlast
  | append_singleton events e ih =>
    rw [foldl_append]
    change ((events.foldl AliveState.absorb s).absorb e).aliveStatus = .deactivated
    cases he : e.supervision? with
    | none =>
      rw [filterMap_append, filterMap_cons_none he, filterMap_nil,
        append_nil] at hlast
      rw [absorb_deactivated (ih hlast) he]
      exact ih hlast
    | some type =>
      rw [filterMap_append, filterMap_cons_some he, filterMap_nil,
        List.getLast?_concat] at hlast
      cases hlast
      cases e with
      | supervisionEvent t type =>
        cases he
        unfold AliveState.absorb
        rw [handleEvent_deactivation]
        split
        · assumption
        · rfl
      | checkpoint | sync => cases he

end AliveState

theorem Alive.endsInTime_round {a b : Alive} {r : AliveRound} (h : a.Collected [])
    (hends : a.EndsInTime) (hround : a.round r = some b) : b.EndsInTime := by
  obtain ⟨-, -, ⟨-, hstate⟩ | ⟨-, hexpired, -⟩⟩ := round_cases h hround
  · rw [hstate]
    exact (hends.foldl _).settle _
  · intro hactive
    exact absurd hexpired hactive.ne_expired

namespace CyclicExecutor
variable {Id χ ρ ε : Type} [DecidableEq Id] {ch : CheckpointChannel χ ρ ε}
variable {x x' : CyclicExecutor Id χ ρ} {c : Trigger Id ε}

/-- Between two cycles no supervision holds collected inputs, as long as the events of all
processes are distributed. -/
structure Ready (x : CyclicExecutor Id χ ρ) : Prop where
  intact : x.events.Intact
  collected : x.events.buffer.overflowFlag = true ∨
    ∀ q ∈ x.supervised, q.2.alive.Collected [] ∧ q.2.alive.EndsInTime

theorem ready_create (processes : List (SupervisedConfig Id χ)) :
    Ready (create processes : CyclicExecutor Id χ ρ) where
  intact := ⟨⟨[], RingBuffer.holds_create (by decide)⟩, by rintro ⟨⟩⟩
  collected := .inr fun q hq => by
    obtain ⟨p, -, rfl⟩ := mem_map.mp hq
    exact ⟨Alive.create_collected _ _ _, fun _ => le_rfl⟩

theorem Ready.performCyclicTriggers (h : Ready x)
    (hcycle : x.performCyclicTriggers ch c = some x') : Ready x' := by
  obtain ⟨events, hevents, rfl, hlength, hget⟩ := performCyclicTriggers_cases hcycle
  have hfold := (Option.filter_eq_some_iff.mp hevents).1
  have hintact : x'.events.Intact := (h.intact.startDistribution c.sync).distribute hfold
  refine ⟨hintact, ?_⟩
  cases hflag : x'.events.flagSuccess with
  | false => exact .inl (hintact.failed hflag)
  | true =>
    rcases h.collected with hover | hcollected
    · exact .inl (EventDistribution.overflowFlag_distribute hover hfold)
    · refine .inr fun q' hq' => ?_
      obtain ⟨i, hi⟩ := mem_iff_getElem?.mp hq'
      obtain ⟨hlt, -⟩ := List.getElem?_eq_some_iff.mp hi
      have hq := List.getElem?_eq_getElem (hlength ▸ hlt)
      obtain ⟨inputs, q'', -, hq'', -, hhandled⟩ := hget i _ hq
      cases hi.symm.trans hq''
      cases hhandled with
      | evaluated _ hround _ _ =>
        obtain ⟨hempty, hends⟩ := hcollected _ (mem_of_getElem? hq)
        exact ⟨(Alive.round_cases hempty hround).1, Alive.endsInTime_round hempty hends hround⟩
      | skipped hfailed _ => cases hflag.symm.trans hfailed

theorem Ready.step {a : Act Id ε} (h : Ready x) (hstep : x.step ch a = some x') : Ready x' := by
  cases a with
  | queueSupervisionEvent event =>
    cases hstep
    refine ⟨h.intact.queueSupervisionEvent event, h.collected.imp_left fun hover => ?_⟩
    exact EventDistribution.overflowFlag_queueSupervisionEvent event hover
  | outside i change =>
    cases hstep
    refine ⟨h.intact, h.collected.imp_right fun hcollected q hq => ?_⟩
    obtain ⟨j, hj⟩ := mem_iff_getElem?.mp hq
    rw [List.getElem?_modify] at hj
    obtain ⟨q₀, hq₀, rfl⟩ := Option.map_eq_some_iff.mp hj
    have hempty := hcollected q₀ (mem_of_getElem? hq₀)
    split
    · exact hempty
    · exact hempty
  | performCyclicTriggers c => exact h.performCyclicTriggers hstep

theorem Ready.of_run {processes : List (SupervisedConfig Id χ)}
    (hrun : Run (CyclicExecutor.step ch) anyStep (create processes) x) : Ready x :=
  Run.invariant Ready (fun h _ hstep => h.step hstep) (ready_create processes) hrun

end CyclicExecutor

namespace Alive
variable {a a' : Alive} {inputs : List AliveInput}

theorem Collected.round_eq {r : AliveRound} (h : a.Collected [])
    (hlossless : r.Lossless a.timeSortingUpdateEventBuffer.capacity)
    (hbefore : ∀ input ∈ r.inputs, input.timestamp ≤ r.sync) : a.round r = some
      { toAliveState :=
          ((chronicleEvents r.inputs).foldl AliveState.absorb a.toAliveState).settle (r.sync + 1)
        timeSortingUpdateEventBuffer := { capacity := a.timeSortingUpdateEventBuffer.capacity }
        lastSyncTimestamp := r.sync } := by
  have hroom := hlossless.room
  obtain ⟨hcollected, hstate, hcapacity⟩ :=
    h.updateAll hlossless.intact (by simpa using Nat.le_of_lt hroom)
  have hitems : ∀ x ∈ chronicle r.inputs, x.1.timestamp = x.2 ∧ x.2 ≤ r.sync := by
    intro x hx
    obtain ⟨input, hinput, rfl⟩ := mem_chronicle.mp hx
    exact ⟨input.timestamp_event, hbefore input hinput⟩
  have hroom' : (chronicle r.inputs).length <
      (r.inputs.foldl Alive.updateData a).timeSortingUpdateEventBuffer.capacity := by
    rw [hcapacity]
    exact (length_chronicle r.inputs).trans_lt hroom
  have heval := hcollected.evaluate_eq hroom' (fun x hx => (hitems x hx).1)
    fun x hx => (hitems x hx).2
  have hcapacity' := (hcollected.storeSyncEvent hroom' fun x hx => (hitems x hx).2).2.2
  rw [hstate] at heval
  rw [Alive.round, heval, TimeSortingBuffer.clear, hcapacity', hcapacity]
  rfl

/-- The inputs switch the supervision off, and none of them is lost. -/
structure SwitchedOff (a : Alive) (inputs : List AliveInput) : Prop where
  lossless : AliveRound.Lossless ⟨inputs, maxNanoseconds⟩ a.timeSortingUpdateEventBuffer.capacity
  last : (AliveRound.supervisionEvents ⟨inputs, maxNanoseconds⟩).getLast? = some .deactivation

theorem SwitchedOff.state (h : SwitchedOff a inputs) (τ : Nat) :
    ((chronicleEvents inputs).foldl AliveState.absorb a.toAliveState).settle τ =
      (chronicleEvents inputs).foldl AliveState.absorb a.toAliveState := by
  have hoff : ((chronicleEvents inputs).foldl AliveState.absorb a.toAliveState).aliveStatus =
      .deactivated := foldl_deactivation h.last
  refine settle_of_not_due fun hdue => ?_
  exact hdue.1.ne_deactivated hoff

/-- The round that switches a supervision off can be left out: its inputs belong to the next round
as well. -/
theorem SwitchedOff.merge (h : SwitchedOff a inputs) (hcollected : a.Collected []) {sync : Nat}
    (hround : a.round ⟨inputs, sync⟩ = some a') (r : AliveRound)
    (hlossless : AliveRound.Lossless ⟨inputs ++ r.inputs, r.sync⟩
      a.timeSortingUpdateEventBuffer.capacity)
    (horder : ∀ input ∈ inputs, ∀ later ∈ r.inputs, input.timestamp ≤ later.timestamp)
    (hbefore : ∀ input ∈ inputs ++ r.inputs, input.timestamp ≤ r.sync) :
    a'.round r = a.round ⟨inputs ++ r.inputs, r.sync⟩ := by
  obtain ⟨hcollected', hcapacity, ⟨-, hstate⟩ | ⟨hlossy, -⟩⟩ := round_cases hcollected hround
  · have hlossless' : r.Lossless a'.timeSortingUpdateEventBuffer.capacity := by
      have hroom := hlossless.room
      rw [length_append] at hroom
      refine ⟨by rw [hcapacity]; omega, fun input hinput => ?_⟩
      exact hlossless.intact input (mem_append_right inputs hinput)
    have hchronicle : chronicleEvents (inputs ++ r.inputs) =
        chronicleEvents inputs ++ chronicleEvents r.inputs := by
      rw [chronicleEvents, chronicle_append horder, map_append]
      rfl
    rw [hcollected'.round_eq hlossless' fun input hinput =>
        hbefore input (mem_append_right inputs hinput),
      hcollected.round_eq hlossless hbefore, hstate, h.state, hchronicle, foldl_append,
      hcapacity]
  · exact absurd ⟨h.lossless.room, h.lossless.intact⟩ hlossy

end Alive

theorem Trigger.sync_of_clockless {Id ε : Type} {c : Trigger Id ε}
    (h : getMonotonicSystemClock c.clockGettime = 0) : c.sync = maxNanoseconds := by
  rw [Trigger.sync, h]
  rfl

namespace CyclicExecutor
variable {Id χ ρ ε : Type} [DecidableEq Id]

def sampleProcesses : List (SupervisedConfig Nat (RingBuffer Nat)) :=
  [⟨7, .create 512, sampleConfig, fun _ => true⟩]

def quietTrigger (clockGettime : Option Timespec) : Trigger Nat Nat :=
  ⟨clockGettime, [none], fun _ => [none]⟩

def sampleActs : List (Act Nat Nat) :=
  [.queueSupervisionEvent ⟨7, .activation, 1⟩, .outside 0 500000,
    .performCyclicTriggers ⟨some ⟨0, 900000⟩, [none, none], fun _ => List.replicate 6 none⟩]

def outcome (acts : List (Act Nat Nat)) : Option (List (AliveStatus × List Nat)) :=
  (exec (step MonitorIfDaemon.ringChannel) anyStep (create sampleProcesses) acts).map fun x =>
    x.supervised.map fun q => (q.2.alive.aliveStatus, q.2.alive.recoveryRequests)

/-- A cycle without a clock that is skipped, or that switches the supervision off, leaves no trace.
-/
theorem clockless_cycle_undisturbed (ch : CheckpointChannel χ ρ ε)
    (processes : List (SupervisedConfig Id χ)) (x x' : CyclicExecutor Id χ ρ) (c : Trigger Id ε)
    (i : Nat) (q : Id × Supervised χ ρ) (inputs : List AliveInput)
    (hrun : Run (step ch) anyStep (create processes) x)
    (hclock : getMonotonicSystemClock c.clockGettime = 0)
    (hcycle : x.performCyclicTriggers ch c = some x') (hq : x.supervised[i]? = some q)
    (hstatus : q.2.alive.aliveStatus = .ok ∨ q.2.alive.aliveStatus = .failed)
    (hinputs : x.inputsOf ch c i = some inputs)
    (hharmless : x.events.FindsOverflow maxNanoseconds c.distributing ∨
      q.2.alive.SwitchedOff inputs) :
    ∃ q', x'.supervised[i]? = some q' ∧ q'.2.alive.aliveStatus ≠ .expired ∧
      (q'.2.alive.history = q.2.alive.history ∨
        ∀ t, (∀ input ∈ inputs, input.timestamp ≤ t) →
          ∃ b, q.2.alive.round ⟨inputs, t⟩ = some b ∧
            b.toAliveState = q'.2.alive.toAliveState) ∧
      ∀ r : AliveRound, AliveRound.Lossless ⟨inputs ++ r.inputs, r.sync⟩
          q.2.alive.timeSortingUpdateEventBuffer.capacity →
        (∀ input ∈ inputs, ∀ later ∈ r.inputs, input.timestamp ≤ later.timestamp) →
        (∀ input ∈ inputs ++ r.inputs, input.timestamp ≤ r.sync) →
        q'.2.alive.round r = q.2.alive.round ⟨inputs ++ r.inputs, r.sync⟩ := by
  obtain ⟨events, hevents, -, -, hget⟩ := performCyclicTriggers_cases hcycle
  obtain ⟨inputs', q', hinputs', hq', -, hhandled⟩ := hget i q hq
  cases hinputs.symm.trans hinputs'
  refine ⟨q', hq', ?_⟩
  rw [Trigger.sync_of_clockless hclock] at hevents
  cases hhandled with
  | skipped _ hskipped =>
    have hkept := Alive.kept_foldl q.2.alive inputs
    rw [hskipped]
    refine ⟨?_, .inl hkept.history, fun r _ _ _ => ?_⟩
    · rw [hkept.status]
      exact AliveState.Active.ne_expired hstatus
    · rw [Alive.round, Alive.round, foldl_append]
  | evaluated hsuccess hround _ _ =>
    rw [Trigger.sync_of_clockless hclock] at hround
    have hoff : q.2.alive.SwitchedOff inputs := by
      refine hharmless.resolve_left fun hfinds => ?_
      cases hsuccess.symm.trans (EventDistribution.failed_of_findsOverflow hfinds hevents)
    have hcollected : q.2.alive.Collected [] := by
      rcases (Ready.of_run hrun).collected with hover | hcollected
      · cases hsuccess.symm.trans (EventDistribution.failed_of_overflow hover hevents)
      · exact (hcollected q (mem_of_getElem? hq)).1
    obtain ⟨-, -, ⟨-, hstate⟩ | ⟨hlossy, -⟩⟩ := Alive.round_cases hcollected hround
    · rw [hoff.state] at hstate
      refine ⟨?_, .inr fun t ht => ?_, fun r hlossless horder hbefore =>
        hoff.merge hcollected hround r hlossless horder hbefore⟩
      · have hdeactivated : q'.2.alive.aliveStatus = .deactivated := by
          rw [hstate]
          exact foldl_deactivation hoff.last
        rw [hdeactivated]
        decide
      · refine ⟨_, hcollected.round_eq ⟨hoff.lossless.room, hoff.lossless.intact⟩ ht, ?_⟩
        rw [hstate]
        exact hoff.state (t + 1)
    · exact absurd hoff.lossless hlossy

theorem clockless_cycle_undisturbed_deactivated :
    ∃ (x x' : CyclicExecutor Nat (RingBuffer Nat) Nat)
        (q q' : Nat × Supervised (RingBuffer Nat) Nat),
      Run (step MonitorIfDaemon.ringChannel) anyStep (create sampleProcesses) x ∧
      x.performCyclicTriggers MonitorIfDaemon.ringChannel ⟨none, [none, none], fun _ => [none]⟩ =
        some x' ∧
      x.supervised[0]? = some q ∧ x'.supervised[0]? = some q' ∧ q.2.alive.aliveStatus = .ok ∧
      q'.2.alive.aliveStatus ≠ .expired ∧
      q'.2.alive.round ⟨[.supervisionEvent 960000 .activation], 1000000⟩ =
        q.2.alive.round ⟨[.supervisionEvent 950000 .deactivation,
          .supervisionEvent 960000 .activation], 1000000⟩ := by
  obtain ⟨x, hrun, hfirst, hinputs, hdone⟩ :=
    Run.exists_of_exec (step MonitorIfDaemon.ringChannel) anyStep (create sampleProcesses)
      (fun x => x.supervised[0]?.map (fun q =>
          (q.2.alive.aliveStatus, q.2.alive.timeSortingUpdateEventBuffer.capacity)) =
            some (.ok, 100) ∧
        x.inputsOf MonitorIfDaemon.ringChannel ⟨none, [none, none], fun _ => [none]⟩ 0 =
          some [.supervisionEvent 950000 .deactivation] ∧
        (x.performCyclicTriggers MonitorIfDaemon.ringChannel
          ⟨none, [none, none], fun _ => [none]⟩).isSome = true)
      (sampleActs ++ [.queueSupervisionEvent ⟨7, .deactivation, 950000⟩])
      (by decide +kernel)
  obtain ⟨q, hq, hpair⟩ := Option.map_eq_some_iff.mp hfirst
  obtain ⟨hok, hcapacity⟩ := Prod.mk.inj hpair
  obtain ⟨x', hcycle⟩ := Option.isSome_iff_exists.mp hdone
  have hoff : q.2.alive.SwitchedOff [.supervisionEvent 950000 .deactivation] :=
    ⟨by rw [hcapacity]; decide, by decide⟩
  obtain ⟨q', hq', hstatus, -, hlater⟩ := clockless_cycle_undisturbed MonitorIfDaemon.ringChannel
    sampleProcesses x x' _ 0 q _ hrun rfl hcycle hq (.inl hok) hinputs (.inr hoff)
  refine ⟨x, x', q, q', hrun, hcycle, hq, hq', hok, hstatus, ?_⟩
  exact hlater ⟨[.supervisionEvent 960000 .activation], 1000000⟩ (by rw [hcapacity]; decide)
    (by decide) (by decide)

/-- The process has reported as required; the cycle without a clock lets it expire. -/
theorem clockless_cycle_sends_request :
    outcome sampleActs = some [(.ok, [])] ∧
    outcome (sampleActs ++ [.performCyclicTriggers (quietTrigger (some ⟨0, 950000⟩))]) =
      some [(.ok, [])] ∧
    outcome (sampleActs ++ [.performCyclicTriggers (quietTrigger none)]) =
      some [(.expired, [3000001])] ∧
    outcome (sampleActs ++ [.performCyclicTriggers (quietTrigger none),
        .performCyclicTriggers (quietTrigger (some ⟨0, 950000⟩))]) =
      some [(.expired, [3000001])] := by
  decide +kernel

theorem clockless_cycle_expires (ch : CheckpointChannel χ ρ ε)
    (processes : List (SupervisedConfig Id χ)) (x x' : CyclicExecutor Id χ ρ) (c : Trigger Id ε)
    (i : Nat) (q : Id × Supervised χ ρ) (inputs : List AliveInput)
    (hrun : Run (step ch) anyStep (create processes) x)
    (hclock : getMonotonicSystemClock c.clockGettime = 0)
    (hcycle : x.performCyclicTriggers ch c = some x') (hq : x.supervised[i]? = some q)
    (hstatus : q.2.alive.aliveStatus = .ok ∨ q.2.alive.aliveStatus = .failed)
    (hinputs : x.inputsOf ch c i = some inputs)
    (hfinds : ¬ x.events.FindsOverflow maxNanoseconds c.distributing)
    (hoff : ¬ q.2.alive.SwitchedOff inputs) :
    ∃ q', x'.supervised[i]? = some q' ∧ q'.2.alive.aliveStatus = .expired ∧
      q.2.alive.recoveryRequests.length < q'.2.alive.recoveryRequests.length := by
  obtain ⟨events, hevents, -, -, hget⟩ := performCyclicTriggers_cases hcycle
  obtain ⟨inputs', q', hinputs', hq', -, hhandled⟩ := hget i q hq
  cases hinputs.symm.trans hinputs'
  refine ⟨q', hq', ?_⟩
  rw [Trigger.sync_of_clockless hclock] at hevents
  have hready := Ready.of_run hrun
  cases hhandled with
  | skipped hfailed _ =>
    exact absurd (EventDistribution.findsOverflow_of_failed hready.intact hevents hfailed) hfinds
  | evaluated hsuccess hround _ _ =>
    rw [Trigger.sync_of_clockless hclock] at hround
    have hcollected : q.2.alive.Collected [] ∧ q.2.alive.EndsInTime := by
      rcases hready.collected with hover | hcollected
      · cases hsuccess.symm.trans (EventDistribution.failed_of_overflow hover hevents)
      · exact hcollected q (mem_of_getElem? hq)
    have hfresh : AliveState.Fresh q.2.alive.recoveryRequests.length q.2.alive.toAliveState :=
      ⟨le_rfl, fun hs => absurd hs (AliveState.Active.ne_expired hstatus)⟩
    obtain ⟨-, -, ⟨hlossless, hstate⟩ | ⟨-, hexpired, hkept⟩⟩ :=
      Alive.round_cases hcollected.1 hround
    · have hfresh' := (hfresh.foldl (chronicleEvents inputs)).settle (maxNanoseconds + 1)
      have hidle := (hcollected.2.foldl (chronicleEvents inputs)).not_active
      have hon : ((chronicleEvents inputs).foldl AliveState.absorb
          q.2.alive.toAliveState).aliveStatus ≠ .deactivated := by
        cases hlast : (AliveRound.supervisionEvents ⟨inputs, maxNanoseconds⟩).getLast? with
        | none =>
          refine foldl_ne_deactivated ?_ (List.getLast?_eq_none_iff.mp hlast)
          exact AliveState.Active.ne_deactivated hstatus
        | some type =>
          cases type with
          | activation => exact foldl_activation hlast
          | deactivation => exact absurd ⟨hlossless, hlast⟩ hoff
      have hon' := settle_ne_deactivated hon (maxNanoseconds + 1)
      rw [← hstate] at hfresh' hidle hon'
      have hexpired : q'.2.alive.aliveStatus = .expired := by
        cases hs : q'.2.alive.aliveStatus with
        | ok => exact absurd (.inl hs) hidle
        | failed => exact absurd (.inr hs) hidle
        | expired => rfl
        | deactivated => exact absurd hs hon'
      exact ⟨hexpired, hfresh'.expired hexpired⟩
    · exact ⟨hexpired, (hkept _ hfresh).expired hexpired⟩

theorem clockless_cycle_expires_quiet :
    ∃ (x x' : CyclicExecutor Nat (RingBuffer Nat) Nat)
        (q q' : Nat × Supervised (RingBuffer Nat) Nat),
      x.performCyclicTriggers MonitorIfDaemon.ringChannel (quietTrigger none) = some x' ∧
      x.supervised[0]? = some q ∧ q.2.alive.aliveStatus = .ok ∧
      x'.supervised[0]? = some q' ∧ q'.2.alive.aliveStatus = .expired ∧
      q.2.alive.recoveryRequests.length < q'.2.alive.recoveryRequests.length := by
  obtain ⟨x, hrun, hfirst, hinputs, hevents, hdone⟩ :=
    Run.exists_of_exec (step MonitorIfDaemon.ringChannel) anyStep (create sampleProcesses)
      (fun x => x.supervised[0]?.map (fun q => q.2.alive.aliveStatus) = some .ok ∧
        x.inputsOf MonitorIfDaemon.ringChannel (quietTrigger none) 0 = some [] ∧
        (x.events.distributeChanges maxNanoseconds (quietTrigger none).distributing).map
          EventDistribution.flagSuccess = some true ∧
        (x.performCyclicTriggers MonitorIfDaemon.ringChannel (quietTrigger none)).isSome = true)
      sampleActs (by decide +kernel)
  obtain ⟨q, hq, hok⟩ := Option.map_eq_some_iff.mp hfirst
  obtain ⟨t, ht, hsuccess⟩ := Option.map_eq_some_iff.mp hevents
  obtain ⟨x', hcycle⟩ := Option.isSome_iff_exists.mp hdone
  obtain ⟨q', hq', hexpired⟩ := clockless_cycle_expires MonitorIfDaemon.ringChannel
    sampleProcesses x x' _ 0 q [] hrun rfl hcycle hq (.inl hok) hinputs
    (fun hfinds => by
      cases hsuccess.symm.trans (EventDistribution.failed_of_findsOverflow hfinds ht))
    (fun hoff => by cases hoff.last)
  exact ⟨x, x', q, q', hcycle, hq, hok, hq', hexpired⟩

end CyclicExecutor

end LaunchManager
