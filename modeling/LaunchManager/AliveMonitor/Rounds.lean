import LaunchManager.AliveMonitor.Transitions

/-!
# Evaluation rounds

A round hands a list of inputs to the supervision and then evaluates it. Without
data loss a round absorbs its inputs in the order of their timestamps, and a whole
stream of rounds, each with the inputs up to its sync timestamp, absorbs all
inputs and settles at the last sync timestamp, however the stream was cut.
-/

namespace LaunchManager

open List

set_option autoImplicit false

open TimeSortingBuffer

def AliveInput.item (input : AliveInput) : TimeSortedUpdateEvent × Nat :=
  (input.event, input.timestamp)

def chronicle (inputs : List AliveInput) : List (TimeSortedUpdateEvent × Nat) :=
  inputs.foldl (fun l input => insertByTime input.item l) []

def chronicleEvents (inputs : List AliveInput) : List TimeSortedUpdateEvent :=
  (chronicle inputs).map Prod.fst

structure AliveRound where
  inputs : List AliveInput
  sync : Nat
  deriving DecidableEq, Repr

namespace Alive

def round (a : Alive) (r : AliveRound) : Option Alive :=
  (r.inputs.foldl updateData a).evaluate r.sync

def rounds (a : Alive) (rs : List AliveRound) : Option Alive := rs.foldlM round a

end Alive

/-- No data is lost in the round: the buffer takes its inputs and the sync event, and no input
reports a loss. -/
structure AliveRound.Lossless (r : AliveRound) (capacity : Nat) : Prop where
  room : r.inputs.length < capacity
  intact : ∀ input ∈ r.inputs, input.isDataLossEvent = false

/-- Increasing sync timestamps, none before the inputs of its round. -/
structure Chronological (rs : List AliveRound) : Prop where
  increasing : rs.Pairwise (·.sync ≤ ·.sync)
  before : ∀ r ∈ rs, ∀ input ∈ r.inputs, input.timestamp ≤ r.sync

/-- Every input belongs to the first round that is not earlier than it. -/
def Prompt (rs : List AliveRound) : Prop :=
  rs.Pairwise fun r r' => ∀ input ∈ r'.inputs, r.sync < input.timestamp

instance (r : AliveRound) (capacity : Nat) : Decidable (r.Lossless capacity) :=
  decidable_of_iff (r.inputs.length < capacity ∧ ∀ input ∈ r.inputs, input.isDataLossEvent = false)
    ⟨fun h => ⟨h.1, h.2⟩, fun h => ⟨h.room, h.intact⟩⟩

instance (rs : List AliveRound) : Decidable (Chronological rs) :=
  decidable_of_iff (rs.Pairwise (·.sync ≤ ·.sync) ∧
      ∀ r ∈ rs, ∀ input ∈ r.inputs, input.timestamp ≤ r.sync)
    ⟨fun h => ⟨h.1, h.2⟩, fun h => ⟨h.increasing, h.before⟩⟩

instance (rs : List AliveRound) : Decidable (Prompt rs) :=
  inferInstanceAs (Decidable (List.Pairwise _ _))

theorem AliveInput.timestamp_event (input : AliveInput) :
    input.event.timestamp = input.timestamp := by
  cases input <;> rfl

theorem AliveInput.due_event (input : AliveInput) : input.event.due = input.timestamp := by
  cases input <;> rfl

theorem Chronological.sync_le {rs : List AliveRound} {r last : AliveRound} (h : Chronological rs)
    (hlast : rs.getLast? = some last) (hr : r ∈ rs) : r.sync ≤ last.sync := by
  obtain ⟨init, rfl⟩ := List.getLast?_eq_some_iff.mp hlast
  rcases mem_append.mp hr with hr | hr
  · exact (pairwise_append.mp h.increasing).2.2 r hr last (mem_singleton.mpr rfl)
  · rw [mem_singleton.mp hr]

section Chronicle
variable {inputs : List AliveInput} {l : List (TimeSortedUpdateEvent × Nat)} {t : Nat}
variable {x : TimeSortedUpdateEvent × Nat}

theorem mem_insertByTime {y : TimeSortedUpdateEvent × Nat} : y ∈ insertByTime x l ↔ y = x ∨ y ∈ l :=
  mem_orderedInsert _

theorem insertByTime_append_right
    {r : List (TimeSortedUpdateEvent × Nat)} (h : ∀ y ∈ l, y.2 ≤ x.2) :
    insertByTime x (l ++ r) = l ++ insertByTime x r := by
  induction l with
  | nil => rfl
  | cons y l ih =>
    have hy : ¬ x.2 < y.2 := Nat.not_lt.mpr (h y mem_cons_self)
    rw [cons_append, insertByTime, orderedInsert_cons, if_neg hy]
    exact congrArg (y :: ·) (ih fun z hz => h z (mem_cons_of_mem y hz))

theorem foldl_insertByTime_append (h : ∀ y ∈ l, ∀ input ∈ inputs, y.2 ≤ input.timestamp)
    (r : List (TimeSortedUpdateEvent × Nat)) :
    inputs.foldl (fun l input => insertByTime input.item l) (l ++ r) =
      l ++ inputs.foldl (fun l input => insertByTime input.item l) r := by
  induction inputs generalizing r with
  | nil => rfl
  | cons input inputs ih =>
    rw [foldl_cons, foldl_cons,
      insertByTime_append_right fun y hy => h y hy input mem_cons_self]
    exact ih (fun y hy x hx => h y hy x (mem_cons_of_mem input hx)) _

theorem mem_chronicle : x ∈ chronicle inputs ↔ ∃ input ∈ inputs, x = input.item := by
  have hfold : ∀ l, x ∈ inputs.foldl (fun l input => insertByTime input.item l) l ↔
      x ∈ l ∨ ∃ input ∈ inputs, x = input.item := by
    induction inputs with
    | nil => simp
    | cons input inputs ih =>
      intro l
      rw [foldl_cons, ih, mem_insertByTime]
      simp only [exists_mem_cons_iff, or_assoc]
      exact or_left_comm
  simpa [chronicle] using hfold []

theorem chronicle_append {earlier later : List AliveInput}
    (h : ∀ x ∈ earlier, ∀ y ∈ later, x.timestamp ≤ y.timestamp) :
    chronicle (earlier ++ later) = chronicle earlier ++ chronicle later := by
  have hle : ∀ y ∈ chronicle earlier, ∀ input ∈ later, y.2 ≤ input.timestamp := by
    intro y hy input hinput
    obtain ⟨x, hx, rfl⟩ := mem_chronicle.mp hy
    exact h x hx input hinput
  have happend := foldl_insertByTime_append hle []
  rw [append_nil] at happend
  rw [chronicle, foldl_append]
  exact happend

theorem chronicle_of_sorted (h : inputs.Pairwise (·.timestamp ≤ ·.timestamp)) :
    chronicle inputs = inputs.map AliveInput.item := by
  induction inputs with
  | nil => rfl
  | cons input inputs ih =>
    obtain ⟨hle, hrest⟩ := pairwise_cons.mp h
    have hsplit : chronicle ([input] ++ inputs) = chronicle [input] ++ chronicle inputs := by
      refine chronicle_append fun x hx y hy => ?_
      rw [mem_singleton.mp hx]
      exact hle y hy
    rw [singleton_append] at hsplit
    rw [hsplit, ih hrest]
    rfl

theorem length_chronicle (inputs : List AliveInput) :
    (chronicle inputs).length = inputs.length := by
  have hfold : ∀ l, (inputs.foldl (fun l input => insertByTime input.item l) l).length =
      l.length + inputs.length := by
    induction inputs with
    | nil => intro l; rfl
    | cons input inputs ih =>
      intro l
      rw [foldl_cons, ih, insertByTime, orderedInsert_length, length_cons]
      omega
  simpa [chronicle] using hfold []

end Chronicle

namespace Alive
variable {a : Alive} {l : List (TimeSortedUpdateEvent × Nat)} {sync : Nat}

/-- The buffer holds the items, and no data was lost since the last evaluation. -/
structure Collected (a : Alive) (l : List (TimeSortedUpdateEvent × Nat)) : Prop where
  buffer : a.timeSortingUpdateEventBuffer.Holds l
  noDataLoss : a.dataLossReason = .noDataLoss

theorem Collected.store {e : TimeSortedUpdateEvent} (h : a.Collected l)
    (hroom : l.length < a.timeSortingUpdateEventBuffer.capacity) :
    (a.store e).Collected (insertByTime (e, e.timestamp) l) ∧
      (a.store e).toAliveState = a.toAliveState ∧
      (a.store e).timeSortingUpdateEventBuffer.capacity =
        a.timeSortingUpdateEventBuffer.capacity := by
  obtain ⟨b, hpush, hholds, hcapacity⟩ := h.buffer.push e e.timestamp hroom
  have hstore : a.store e = { a with timeSortingUpdateEventBuffer := b } := by
    rw [Alive.store, hpush]
  rw [hstore]
  exact ⟨⟨hholds, h.noDataLoss⟩, rfl, hcapacity⟩

theorem Collected.updateData {input : AliveInput} (h : a.Collected l)
    (hintact : input.isDataLossEvent = false)
    (hroom : l.length < a.timeSortingUpdateEventBuffer.capacity) :
    (a.updateData input).Collected (insertByTime input.item l) ∧
      (a.updateData input).toAliveState = a.toAliveState ∧
      (a.updateData input).timeSortingUpdateEventBuffer.capacity =
        a.timeSortingUpdateEventBuffer.capacity := by
  have hupdate : a.updateData input = a.store input.event := by
    rw [Alive.updateData, hintact]
    rfl
  have hitem : input.item = (input.event, input.event.timestamp) := by
    rw [AliveInput.item, input.timestamp_event]
  rw [hupdate, hitem]
  exact h.store hroom

theorem Collected.updateAll {inputs : List AliveInput} (h : a.Collected l)
    (hintact : ∀ input ∈ inputs, input.isDataLossEvent = false)
    (hroom : l.length + inputs.length ≤ a.timeSortingUpdateEventBuffer.capacity) :
    (inputs.foldl Alive.updateData a).Collected
        (inputs.foldl (fun l input => insertByTime input.item l) l) ∧
      (inputs.foldl Alive.updateData a).toAliveState = a.toAliveState ∧
      (inputs.foldl Alive.updateData a).timeSortingUpdateEventBuffer.capacity =
        a.timeSortingUpdateEventBuffer.capacity := by
  induction inputs generalizing a l with
  | nil => exact ⟨h, rfl, rfl⟩
  | cons input inputs ih =>
    rw [length_cons] at hroom
    obtain ⟨hcollected, hstate, hcapacity⟩ :=
      h.updateData (hintact input mem_cons_self) (by omega)
    have hlength : (insertByTime input.item l).length = l.length + 1 :=
      orderedInsert_length _ _ _
    obtain ⟨hall, hstate', hcapacity'⟩ := ih hcollected
      (fun x hx => hintact x (mem_cons_of_mem input hx)) (by omega)
    exact ⟨hall, hstate'.trans hstate, hcapacity'.trans hcapacity⟩

theorem Collected.loop {events : List TimeSortedUpdateEvent} (h : a.Collected l)
    (hevents : l.map Prod.fst = events ++ [.sync sync])
    (hbefore : ∀ e ∈ events, e.timestamp ≤ sync) : AliveState.processEvents sync
        (a.timeSortingUpdateEventBuffer.timeSortedBuffer.length * (sync + 2))
        a.timeSortingUpdateEventBuffer.getNextElement.2
        a.timeSortingUpdateEventBuffer.getNextElement.1 a.toAliveState =
      some ((events.foldl AliveState.absorb a.toAliveState).settle (sync + 1)) := by
  have hall : ∀ e ∈ l.map Prod.fst, e.timestamp ≤ sync := by
    intro e he
    rw [hevents] at he
    rcases mem_append.mp he with he | he
    · exact hbefore e he
    · rw [mem_singleton.mp he]
      exact le_rfl
  have hfold : (l.map Prod.fst).foldl AliveState.absorb a.toAliveState =
      (events.foldl AliveState.absorb a.toAliveState).settle (sync + 1) := by
    rw [hevents, foldl_append]
    exact AliveState.absorb_sync _ sync
  have hremaining := h.buffer.remaining
  have hlength := h.buffer.length_eq
  cases l with
  | nil => simp at hevents
  | cons x l =>
    obtain ⟨b, hnext, hrest, -⟩ := hremaining.getNextElement_cons
    have hbound : a.toAliveState.evaluationsBefore (sync + 1) ≤ sync + 1 := by
      unfold AliveState.evaluationsBefore
      split <;> omega
    rw [hnext, ← hfold]
    refine AliveState.processEvents_eq hrest hall ?_
    rw [← hlength, length_map, length_cons, Nat.succ_mul]
    omega

theorem Collected.storeSyncEvent (h : a.Collected l)
    (hroom : l.length < a.timeSortingUpdateEventBuffer.capacity) (hbefore : ∀ x ∈ l, x.2 ≤ sync) :
    (a.storeSyncEvent sync).Collected (l ++ [(.sync sync, sync)]) ∧
      (a.storeSyncEvent sync).toAliveState = a.toAliveState ∧
      (a.storeSyncEvent sync).timeSortingUpdateEventBuffer.capacity =
        a.timeSortingUpdateEventBuffer.capacity := by
  have hstored := h.store (e := .sync sync) hroom
  have hlast := insertByTime_append (x := (TimeSortedUpdateEvent.sync sync, sync)) (r := [])
    hbefore (by simp)
  rw [append_nil] at hlast
  rw [← hlast]
  exact hstored

theorem Collected.evaluate_eq (h : a.Collected l)
    (hroom : l.length < a.timeSortingUpdateEventBuffer.capacity)
    (htime : ∀ x ∈ l, x.1.timestamp = x.2) (hbefore : ∀ x ∈ l, x.2 ≤ sync) : a.evaluate sync = some
      { a.storeSyncEvent sync with
        toAliveState := ((l.map Prod.fst).foldl AliveState.absorb a.toAliveState).settle (sync + 1)
        timeSortingUpdateEventBuffer := (a.storeSyncEvent sync).timeSortingUpdateEventBuffer.clear
        lastSyncTimestamp := sync } := by
  obtain ⟨hcollected, hstate, -⟩ := h.storeSyncEvent hroom hbefore
  have hloop := hcollected.loop (by simp : _ = l.map Prod.fst ++ [.sync sync]) (by
    intro e he
    obtain ⟨x, hx, rfl⟩ := mem_map.mp he
    exact htime x hx ▸ hbefore x hx)
  rw [hstate] at hloop
  rw [Alive.evaluate]
  dsimp only
  rw [hstate, hloop, if_neg (not_not.mpr h.noDataLoss)]
  rfl

theorem Collected.evaluate (h : a.Collected l)
    (hroom : l.length < a.timeSortingUpdateEventBuffer.capacity)
    (htime : ∀ x ∈ l, x.1.timestamp = x.2) (hbefore : ∀ x ∈ l, x.2 ≤ sync) :
    ∃ a', a.evaluate sync = some a' ∧ a'.Collected [] ∧
      a'.timeSortingUpdateEventBuffer.capacity = a.timeSortingUpdateEventBuffer.capacity ∧
      a'.toAliveState =
        ((l.map Prod.fst).foldl AliveState.absorb a.toAliveState).settle (sync + 1) := by
  obtain ⟨-, -, hcapacity⟩ := h.storeSyncEvent hroom hbefore
  have hframe : AliveState.Frame a.toAliveState
      (((l.map Prod.fst).foldl AliveState.absorb a.toAliveState).settle (sync + 1)) :=
    (AliveState.frame_foldl_absorb _ _).trans (AliveState.frame_settle _ _)
  exact ⟨_, h.evaluate_eq hroom htime hbefore, ⟨holds_clear _, hframe.noDataLoss h.noDataLoss⟩,
    hcapacity, rfl⟩

theorem Collected.round {r : AliveRound} (h : a.Collected [])
    (hlossless : r.Lossless a.timeSortingUpdateEventBuffer.capacity)
    (hbefore : ∀ input ∈ r.inputs, input.timestamp ≤ r.sync) :
    ∃ a', a.round r = some a' ∧ a'.Collected [] ∧
      a'.timeSortingUpdateEventBuffer.capacity = a.timeSortingUpdateEventBuffer.capacity ∧
      a'.toAliveState =
        ((chronicleEvents r.inputs).foldl AliveState.absorb a.toAliveState).settle
          (r.sync + 1) := by
  have hroom := hlossless.room
  obtain ⟨hcollected, hstate, hcapacity⟩ :=
    h.updateAll hlossless.intact (by simpa using Nat.le_of_lt hroom)
  have hlength := length_chronicle r.inputs
  have hitems : ∀ x ∈ chronicle r.inputs, x.1.timestamp = x.2 ∧ x.2 ≤ r.sync := by
    intro x hx
    obtain ⟨input, hinput, rfl⟩ := mem_chronicle.mp hx
    exact ⟨input.timestamp_event, hbefore input hinput⟩
  obtain ⟨a', hevaluate, hempty, hcapacity', hstate'⟩ := hcollected.evaluate
    (by rw [hcapacity]; exact hlength.trans_lt hroom)
    (fun x hx => (hitems x hx).1) fun x hx => (hitems x hx).2
  rw [hstate] at hstate'
  exact ⟨a', hevaluate, hempty, hcapacity'.trans hcapacity, hstate'⟩

end Alive

/-- A sync event in between is invisible to what comes later. -/
theorem AliveState.settle_foldl_absorb {s : AliveState} {events : List TimeSortedUpdateEvent}
    {τ τ' : Nat} (hevents : ∀ e ∈ events, τ ≤ e.due) (hle : τ ≤ τ') :
    (events.foldl absorb (s.settle τ)).settle τ' = (events.foldl absorb s).settle τ' := by
  cases events with
  | nil => exact settle_settle hle
  | cons e events => rw [foldl_cons, absorb_settle (hevents e mem_cons_self),
      foldl_cons]

def streamOf (rs : List AliveRound) : List AliveInput := rs.flatMap AliveRound.inputs

theorem chronicleEvents_due {inputs : List AliveInput} {t : Nat}
    (h : ∀ input ∈ inputs, t < input.timestamp) : ∀ e ∈ chronicleEvents inputs, t + 1 ≤ e.due := by
  intro e he
  obtain ⟨x, hx, rfl⟩ := mem_map.mp he
  obtain ⟨input, hinput, rfl⟩ := mem_chronicle.mp hx
  exact input.due_event.symm ▸ h input hinput

/-- However a stream is cut into rounds, it is absorbed as a whole. -/
theorem Alive.Collected.rounds {a : Alive} {rs : List AliveRound} {last : AliveRound}
    (h : a.Collected []) (hchronological : Chronological rs) (hprompt : Prompt rs)
    (hlossless : ∀ r ∈ rs, r.Lossless a.timeSortingUpdateEventBuffer.capacity)
    (hlast : rs.getLast? = some last) :
    ∃ a', a.rounds rs = some a' ∧ a'.Collected [] ∧ a'.toAliveState =
      ((chronicleEvents (streamOf rs)).foldl AliveState.absorb a.toAliveState).settle
        (last.sync + 1) := by
  induction rs generalizing a with
  | nil => cases hlast
  | cons r rs ih =>
    obtain ⟨hsync, hincreasing⟩ := pairwise_cons.mp hchronological.increasing
    obtain ⟨hlater, hprompt⟩ := pairwise_cons.mp hprompt
    obtain ⟨a₁, hround, hempty, hcapacity, hstate⟩ :=
      h.round (hlossless r mem_cons_self) (hchronological.before r mem_cons_self)
    have hrounds : a.rounds (r :: rs) = a₁.rounds rs := by
      rw [Alive.rounds, foldlM_cons, hround]
      rfl
    have hstream : streamOf (r :: rs) = r.inputs ++ streamOf rs := flatMap_cons
    rw [hrounds]
    cases rs with
    | nil =>
      obtain rfl : r = last := Option.some.inj hlast
      refine ⟨a₁, rfl, hempty, ?_⟩
      rw [hstream, hstate]
      exact congrArg (fun l => (List.foldl AliveState.absorb _ (chronicleEvents l)).settle _)
        (append_nil _).symm
    | cons r' rs =>
      obtain ⟨a', hrounds', hempty', hstate'⟩ := ih hempty
        ⟨hincreasing, fun x hx => hchronological.before x (mem_cons_of_mem r hx)⟩ hprompt
        (fun x hx => hcapacity ▸ hlossless x (mem_cons_of_mem r hx)) hlast
      have hmem : ∀ input ∈ streamOf (r' :: rs), r.sync < input.timestamp := by
        intro input hinput
        obtain ⟨x, hx, hinput⟩ := mem_flatMap.mp hinput
        exact hlater x hx input hinput
      have hle : r.sync + 1 ≤ last.sync + 1 :=
        Nat.succ_le_succ (hsync last (mem_of_getLast? hlast))
      have hchronicle : chronicleEvents (streamOf (r :: r' :: rs)) =
          chronicleEvents r.inputs ++ chronicleEvents (streamOf (r' :: rs)) := by
        rw [hstream, chronicleEvents, chronicle_append, map_append]
        · rfl
        · intro x hx y hy
          exact Nat.le_of_lt (Nat.lt_of_le_of_lt
            (hchronological.before r mem_cons_self x hx) (hmem y hy))
      refine ⟨a', hrounds', hempty', ?_⟩
      rw [hstate', hstate, AliveState.settle_foldl_absorb (chronicleEvents_due hmem) hle,
        hchronicle, foldl_append]

theorem Alive.create_collected (config : AliveConfig) (recoveryClient : Nat → Bool)
    (bufferSize : UInt16) : (create config recoveryClient bufferSize).Collected [] :=
  ⟨holds_empty _, rfl⟩

/-- Two ways of cutting a stream into rounds leave the supervision in the same state. -/
theorem Alive.rounds_independent_of_cut (config : AliveConfig) (recoveryClient : Nat → Bool)
    (bufferSize : UInt16) (stream : List AliveInput) (rs rs' : List AliveRound) (sync : Nat)
    (hcut : streamOf rs = stream) (hcut' : streamOf rs' = stream)
    (hchronological : Chronological rs) (hchronological' : Chronological rs')
    (hprompt : Prompt rs) (hprompt' : Prompt rs')
    (hlossless : ∀ r ∈ rs, r.Lossless bufferSize.toNat)
    (hlossless' : ∀ r ∈ rs', r.Lossless bufferSize.toNat)
    (hlast : rs.getLast?.map AliveRound.sync = some sync)
    (hlast' : rs'.getLast?.map AliveRound.sync = some sync) :
    ∃ a a', (create config recoveryClient bufferSize).rounds rs = some a ∧
      (create config recoveryClient bufferSize).rounds rs' = some a' ∧
      a.aliveStatus = a'.aliveStatus ∧
      a.failedSupervisionCycles = a'.failedSupervisionCycles ∧
      a.indicationCount = a'.indicationCount ∧
      a.referenceCycleStart = a'.referenceCycleStart ∧
      a.referenceCycleEnd = a'.referenceCycleEnd ∧
      a.recoveryRequests = a'.recoveryRequests := by
  have hcollected := create_collected config recoveryClient bufferSize
  obtain ⟨last, hget, hsync⟩ := Option.map_eq_some_iff.mp hlast
  obtain ⟨last', hget', hsync'⟩ := Option.map_eq_some_iff.mp hlast'
  obtain ⟨a, hrun, -, hstate⟩ := hcollected.rounds hchronological hprompt hlossless hget
  obtain ⟨a', hrun', -, hstate'⟩ := hcollected.rounds hchronological' hprompt' hlossless' hget'
  have heq : a.toAliveState = a'.toAliveState := by
    rw [hstate, hstate', hcut, hcut', hsync, hsync']
  refine ⟨a, a', hrun, hrun', ?_⟩
  rw [heq]
  exact ⟨rfl, rfl, rfl, rfl, rfl, rfl⟩

def sampleConfig : AliveConfig where
  reportingCycleMs := 1
  failedCyclesTolerance := 1
  minIndications := some 1
  maxIndications := some 2
  reportingCycle_ne_zero := by decide

theorem Alive.rounds_independent_of_cut_sample :
    ∃ a a', (create sampleConfig (fun _ => true) 4).rounds
        [⟨[.supervisionEvent 5 .activation, .checkpoint 7, .checkpoint 1000006], 3000000⟩] =
          some a ∧
      (create sampleConfig (fun _ => true) 4).rounds
        [⟨[.supervisionEvent 5 .activation, .checkpoint 7], 1000005⟩,
          ⟨[.checkpoint 1000006], 1000006⟩, ⟨[], 3000000⟩] = some a' ∧
      a.aliveStatus = a'.aliveStatus ∧
      a.failedSupervisionCycles = a'.failedSupervisionCycles ∧
      a.indicationCount = a'.indicationCount ∧
      a.referenceCycleStart = a'.referenceCycleStart ∧
      a.referenceCycleEnd = a'.referenceCycleEnd ∧
      a.recoveryRequests = a'.recoveryRequests :=
  rounds_independent_of_cut sampleConfig (fun _ => true) 4
    [.supervisionEvent 5 .activation, .checkpoint 7, .checkpoint 1000006] _ _ 3000000 rfl rfl
    (by decide) (by decide) (by decide) (by decide) (by decide) (by decide) rfl rfl

end LaunchManager
