import LaunchManager.Library.Runs
import LaunchManager.AliveMonitor.RingBuffer
import LaunchManager.AliveMonitor.Alive

/-!
# The distribution of supervision events

Any thread queues supervision events; once a cycle the reader takes them out of
the buffer and pushes them to the observers of their process. The first event
that is later than the sync timestamp is parked in its `ObservableEvent` and ends
the cycle; the next cycle begins with it.
-/

namespace LaunchManager

open List

set_option autoImplicit false

open Runs

/-- The timestamp is in nanoseconds. -/
structure SupervisionEvent (Id : Type) where
  id : Id
  eventType : SupervisionEventType
  systemClockTimestamp : Nat
  deriving DecidableEq, Repr

/-- The map holds the `ObservableEvent` of each registered process, with its last event. -/
structure ObservableEventReader (Id : Type) where
  processStateMap : Id → Option (SupervisionEvent Id)
  isPushPending : Bool := false
  lastChangedProcess : Option Id := none

namespace ObservableEventReader
variable {Id : Type}

def create (registered : Id → Bool) : ObservableEventReader Id where
  processStateMap id := if registered id then some ⟨id, .activation, 0⟩ else none

/-- What `pushData` of the last changed process sends. -/
def lastChange (r : ObservableEventReader Id) : List (SupervisionEvent Id) :=
  (r.lastChangedProcess.bind r.processStateMap).toList

/-- The push that is left over from the cycle before, with the event it sends. -/
def pushPending (r : ObservableEventReader Id) :
    ObservableEventReader Id × List (SupervisionEvent Id) :=
  if r.isPushPending then ({ r with isPushPending := false }, r.lastChange) else (r, [])

/-- The new state of the reader, the events that are pushed, and whether the sync timestamp is
reached. -/
def pushUpdateTill [DecidableEq Id] (r : ObservableEventReader Id) (event : SupervisionEvent Id)
    (sync : Nat) :
    ObservableEventReader Id × List (SupervisionEvent Id) × Bool :=
  match r.processStateMap event.id with
  | none => (r, [], false)
  | some state =>
    let state := { state with
      eventType := event.eventType
      systemClockTimestamp := event.systemClockTimestamp }
    let r := { r with processStateMap := Function.update r.processStateMap event.id (some state) }
    if event.systemClockTimestamp ≤ sync then (r, [state], false)
    else ({ r with lastChangedProcess := some event.id }, [], true)

end ObservableEventReader

def bufferQueueSize : Nat := 4096

/-- The buffer, its reader and the sync timestamp of the `distributeChanges` that is under way.
`enqueued`, `dequeued` and `delivered` are history variables: the events accepted by the buffer,
taken out of it and pushed to their process, in this order. -/
structure EventDistribution (Id : Type) where
  buffer : RingBuffer (SupervisionEvent Id)
  reader : ObservableEventReader Id
  cycle : Option Nat := none
  flagSuccess : Bool := true
  enqueued : List (SupervisionEvent Id) := []
  dequeued : List (SupervisionEvent Id) := []
  delivered : List (SupervisionEvent Id) := []

namespace EventDistribution
variable {Id : Type}

def create (registered : Id → Bool) : EventDistribution Id where
  buffer := .create bufferQueueSize
  reader := .create registered

/-- `queueSupervisionEvent` of some thread, the start of `distributeChanges`, or one iteration of
its loop. -/
inductive Act (Id : Type) where
  | queueSupervisionEvent (event : SupervisionEvent Id)
  | distributeChanges (sync : Nat)
  | next
  deriving DecidableEq, Repr

def queueSupervisionEvent (s : EventDistribution Id) (event : SupervisionEvent Id) :
    EventDistribution Id :=
  match s.buffer.tryEnqueue event with
  | (b, true) => { s with buffer := b, enqueued := s.enqueued ++ [event] }
  | (b, false) => { s with buffer := b }

def startDistribution (s : EventDistribution Id) (sync : Nat) : EventDistribution Id :=
  let (reader, pushed) := s.reader.pushPending
  { s with
    reader := reader
    cycle := some sync
    flagSuccess := true
    delivered := s.delivered ++ pushed }

def handleNext [DecidableEq Id] (s : EventDistribution Id) (sync : Nat) : EventDistribution Id :=
  if s.buffer.overflowFlag then { s with cycle := none, flagSuccess := false }
  else if s.buffer.empty then { s with cycle := none }
  else
    match s.buffer.tryDequeue with
    | (b, none) => { s with buffer := b, cycle := none, flagSuccess := false }
    | (b, some event) =>
      let (reader, pushed, pending) := s.reader.pushUpdateTill event sync
      { s with
        buffer := b
        reader := { reader with isPushPending := pending }
        cycle := if pending then none else some sync
        dequeued := s.dequeued ++ [event]
        delivered := s.delivered ++ pushed }

def step [DecidableEq Id] (s : EventDistribution Id) : Act Id → Option (EventDistribution Id)
  | .queueSupervisionEvent event => some (s.queueSupervisionEvent event)
  | .distributeChanges sync => if s.cycle = none then some (s.startDistribution sync) else none
  | .next => s.cycle.map s.handleNext

def noOverflow (s : EventDistribution Id) : Act Id → Prop
  | .queueSupervisionEvent _ => s.buffer.size < s.buffer.capacity
  | _ => True

def inCycle (s : EventDistribution Id) : Act Id → Prop
  | .distributeChanges _ => False
  | act => s.noOverflow act

def parked (s : EventDistribution Id) : List (SupervisionEvent Id) :=
  if s.reader.isPushPending then s.reader.lastChange else []

section Steps
variable {registered : Id → Bool}

def ofRegistered (registered : Id → Bool) (l : List (SupervisionEvent Id)) :
    List (SupervisionEvent Id) :=
  l.filter fun e => registered e.id

def Registers (registered : Id → Bool) (r : ObservableEventReader Id) : Prop :=
  ∀ id, match r.processStateMap id with
    | none => registered id = false
    | some state => registered id = true ∧ state.id = id

theorem registers_create (registered : Id → Bool) :
    Registers registered (ObservableEventReader.create registered) := by
  intro id
  unfold ObservableEventReader.create
  cases h : registered id <;> simp [h]

theorem Registers.update [DecidableEq Id] {r : ObservableEventReader Id}
    {event : SupervisionEvent Id} (h : Registers registered r)
    (hregistered : registered event.id = true) : Registers registered
      { r with processStateMap := Function.update r.processStateMap event.id (some event) } := by
  intro id
  by_cases hid : id = event.id
  · subst hid
    simp [hregistered]
  · simp only [Function.update_of_ne hid]
    exact h id

def Late (registered : Id → Bool) (sync : Nat) (e : SupervisionEvent Id) : Prop :=
  registered e.id = true ∧ sync < e.systemClockTimestamp

instance (registered : Id → Bool) (sync : Nat) (e : SupervisionEvent Id) :
    Decidable (Late registered sync e) := inferInstanceAs (Decidable (_ ∧ _))

section Push
variable [DecidableEq Id] {r : ObservableEventReader Id} {event : SupervisionEvent Id} {sync : Nat}

theorem pushUpdateTill_unknown (h : Registers registered r)
    (hunknown : registered event.id = false) : r.pushUpdateTill event sync = (r, [], false) := by
  have hstate := h event.id
  unfold ObservableEventReader.pushUpdateTill
  cases hmap : r.processStateMap event.id with
  | none => rfl
  | some state =>
    rw [hmap, hunknown] at hstate
    cases hstate.1

theorem pushUpdateTill_registered (h : Registers registered r)
    (hregistered : registered event.id = true) : r.pushUpdateTill event sync =
      if event.systemClockTimestamp ≤ sync then
        ({ r with processStateMap := Function.update r.processStateMap event.id (some event) },
          [event], false)
      else
        ({ r with
           processStateMap := Function.update r.processStateMap event.id (some event)
           lastChangedProcess := some event.id }, [], true) := by
  have hstate := h event.id
  unfold ObservableEventReader.pushUpdateTill
  cases hmap : r.processStateMap event.id with
  | none =>
    rw [hmap, hregistered] at hstate
    cases hstate
  | some state =>
    rw [hmap] at hstate
    have hevent : ({ state with
        eventType := event.eventType
        systemClockTimestamp := event.systemClockTimestamp } : SupervisionEvent Id) = event := by
      cases event
      cases hstate.2
      rfl
    dsimp only
    rw [hevent]

theorem pushUpdateTill_of_not_late (h : Registers registered r)
    (hlate : ¬ Late registered sync event) :
    ∃ r', r.pushUpdateTill event sync = (r', ofRegistered registered [event], false) ∧
      Registers registered r' := by
  cases hregistered : registered event.id with
  | false =>
    refine ⟨r, ?_, h⟩
    rw [pushUpdateTill_unknown h hregistered]
    simp [ofRegistered, hregistered]
  | true =>
    refine ⟨_, ?_, h.update hregistered⟩
    rw [pushUpdateTill_registered h hregistered, if_pos (Nat.not_lt.mp fun hlt =>
      hlate ⟨hregistered, hlt⟩)]
    simp [ofRegistered, hregistered]

theorem pushUpdateTill_of_late (h : Registers registered r) (hlate : Late registered sync event) :
    ∃ r', r.pushUpdateTill event sync = (r', [], true) ∧ Registers registered r' ∧
      r'.lastChange = [event] := by
  rw [pushUpdateTill_registered h hlate.1, if_neg (Nat.not_le.mpr hlate.2)]
  refine ⟨_, rfl, h.update hlate.1, ?_⟩
  simp [ObservableEventReader.lastChange]

end Push

/-- The events that wait in the buffer, the oldest first. -/
structure Accounts (registered : Id → Bool) (s : EventDistribution Id)
    (waiting : List (SupervisionEvent Id)) : Prop where
  holds : s.buffer.Holds waiting
  noOverflow : s.buffer.overflowFlag = false
  registers : Registers registered s.reader
  enqueued : s.enqueued = s.dequeued ++ waiting
  delivered : s.delivered ++ s.parked = ofRegistered registered s.dequeued
  idle : s.cycle.isSome → s.reader.isPushPending = false

theorem Accounts.create (registered : Id → Bool) :
    Accounts registered (EventDistribution.create registered) [] where
  holds := RingBuffer.holds_create (by decide)
  noOverflow := rfl
  registers := registers_create registered
  enqueued := rfl
  delivered := rfl
  idle := fun h => absurd h Bool.false_ne_true

variable {s : EventDistribution Id} {waiting : List (SupervisionEvent Id)}

theorem queueSupervisionEvent_eq (hroom : s.buffer.size < s.buffer.capacity)
    (event : SupervisionEvent Id) : s.queueSupervisionEvent event =
      { s with buffer := (s.buffer.tryEnqueue event).1, enqueued := s.enqueued ++ [event] } := by
  rw [queueSupervisionEvent, RingBuffer.tryEnqueue_of_lt hroom]

theorem Accounts.queueSupervisionEvent (h : Accounts registered s waiting)
    (hroom : s.buffer.size < s.buffer.capacity) (event : SupervisionEvent Id) :
    Accounts registered (s.queueSupervisionEvent event) (waiting ++ [event]) := by
  have hflag : (s.buffer.tryEnqueue event).1.overflowFlag = s.buffer.overflowFlag := by
    rw [RingBuffer.tryEnqueue_of_lt hroom]
  rw [queueSupervisionEvent_eq hroom]
  exact ⟨h.holds.tryEnqueue hroom, hflag.trans h.noOverflow, h.registers, by simp [h.enqueued],
    h.delivered, h.idle⟩

theorem pushPending_eq (r : ObservableEventReader Id) : r.pushPending =
    ({ r with isPushPending := false }, if r.isPushPending then r.lastChange else []) := by
  unfold ObservableEventReader.pushPending
  cases hpending : r.isPushPending with
  | true => rfl
  | false =>
    obtain ⟨map, pending, last⟩ := r
    cases hpending
    rfl

theorem startDistribution_eq (s : EventDistribution Id) (sync : Nat) : s.startDistribution sync =
      { s with
        reader := { s.reader with isPushPending := false }
        cycle := some sync
        flagSuccess := true
        delivered := s.delivered ++ s.parked } := by
  unfold startDistribution
  rw [pushPending_eq]
  rfl

theorem Accounts.startDistribution (h : Accounts registered s waiting) (sync : Nat) :
    Accounts registered (s.startDistribution sync) waiting := by
  rw [startDistribution_eq]
  refine ⟨h.holds, h.noOverflow, h.registers, h.enqueued, ?_, fun _ => rfl⟩
  exact (append_nil _).trans h.delivered

section Cycle
variable {sync : Nat}

/-- How far a cycle has come that began in `s` with the waiting events `waiting`: `taken` are the
events that it has dealt with. -/
def Progress (registered : Id → Bool) (sync : Nat) (s : EventDistribution Id)
    (waiting : List (SupervisionEvent Id)) (t : EventDistribution Id) : Prop :=
  ∃ taken, (∀ e ∈ taken, ¬ Late registered sync e) ∧
    t.delivered = s.delivered ++ s.parked ++ ofRegistered registered taken ∧
    (t.cycle = some sync ∧ t.dequeued = s.dequeued ++ taken ∨
      t.cycle = none ∧ (waiting <+: taken ∨
        ∃ last rest, waiting <+: taken ++ last :: rest ∧ Late registered sync last))

def InProgress (registered : Id → Bool) (sync : Nat) (s : EventDistribution Id)
    (waiting : List (SupervisionEvent Id)) (t : EventDistribution Id) : Prop :=
  ∃ waiting', Accounts registered t waiting' ∧ s.enqueued <+: t.enqueued ∧
    Progress registered sync s waiting t

theorem inProgress_start (h : Accounts registered s waiting) (sync : Nat) :
    InProgress registered sync s waiting (s.startDistribution sync) := by
  have henqueued : (s.startDistribution sync).enqueued = s.enqueued := by
    rw [startDistribution_eq]
  refine ⟨waiting, h.startDistribution sync, henqueued ▸ prefix_rfl, ?_⟩
  rw [startDistribution_eq]
  exact ⟨[], fun _ he => absurd he not_mem_nil, (append_nil _).symm,
    .inl ⟨rfl, (append_nil _).symm⟩⟩

/-- What waited at the start of the cycle is dealt with or still waits. -/
theorem waiting_isInitial {t : EventDistribution Id} {taken waiting' : List (SupervisionEvent Id)}
    (hs : Accounts registered s waiting) (ht : Accounts registered t waiting')
    (henqueued : s.enqueued <+: t.enqueued) (hdequeued : t.dequeued = s.dequeued ++ taken) :
    waiting <+: taken ++ waiting' := by
  rw [hs.enqueued, ht.enqueued, hdequeued, append_assoc] at henqueued
  exact (prefix_append_right_inj _).mp henqueued

theorem InProgress.queueSupervisionEvent {t : EventDistribution Id}
    (h : InProgress registered sync s waiting t) (hroom : t.buffer.size < t.buffer.capacity)
    (event : SupervisionEvent Id) :
    InProgress registered sync s waiting (t.queueSupervisionEvent event) := by
  obtain ⟨waiting', ht, henqueued, hprogress⟩ := h
  refine ⟨_, ht.queueSupervisionEvent hroom event, ?_, ?_⟩
  · rw [queueSupervisionEvent_eq hroom]
    exact henqueued.trans (prefix_append _ _)
  · rw [queueSupervisionEvent_eq hroom]
    exact hprogress

end Cycle

section Next
variable [DecidableEq Id] {sync : Nat} {event : SupervisionEvent Id}

theorem handleNext_nil (h : Accounts registered s []) :
    s.handleNext sync = { s with cycle := none } := by
  have hempty : s.buffer.empty = true := beq_iff_eq.mpr h.holds.size
  rw [handleNext, h.noOverflow, if_neg Bool.false_ne_true, hempty, if_pos rfl]

variable {r : ObservableEventReader Id} {pushed : List (SupervisionEvent Id)}

theorem handleNext_cons (h : Accounts registered s (event :: waiting))
    {pending : Bool}
    (hpush : s.reader.pushUpdateTill event sync = (r, pushed, pending)) : s.handleNext sync =
      { s with
        buffer := s.buffer.tryDequeue.1
        reader := { r with isPushPending := pending }
        cycle := if pending then none else some sync
        dequeued := s.dequeued ++ [event]
        delivered := s.delivered ++ pushed } := by
  have hread : s.buffer.tryDequeue = (s.buffer.tryDequeue.1, some event) :=
    Prod.ext rfl h.holds.tryDequeue_cons.1
  rw [handleNext, h.noOverflow, if_neg Bool.false_ne_true, h.holds.not_empty,
    if_neg Bool.false_ne_true, hread]
  dsimp only
  rw [hpush]

theorem Accounts.next_cons (h : Accounts registered s (event :: waiting))
    (hcycle : s.cycle = some sync)
    {pending : Bool}
    (hpush : s.reader.pushUpdateTill event sync = (r, pushed, pending))
    (hr : Registers registered r)
    (hevent : pushed ++ (if pending then r.lastChange else []) = ofRegistered registered [event]) :
    Accounts registered (s.handleNext sync) waiting := by
  have hpending : s.reader.isPushPending = false := h.idle (by rw [hcycle]; rfl)
  have hdelivered : s.delivered = ofRegistered registered s.dequeued := by
    rw [← h.delivered, parked, hpending, if_neg Bool.false_ne_true, append_nil]
  rw [handleNext_cons h hpush]
  refine ⟨h.holds.tryDequeue_cons.2, (RingBuffer.overflowFlag_tryDequeue _).trans h.noOverflow, hr,
    by simp [h.enqueued], ?_, fun hsome => ?_⟩
  · refine (append_assoc _ _ _).trans ((congrArg (s.delivered ++ ·) hevent).trans ?_)
    rw [hdelivered]
    exact (filter_append _ _).symm
  · cases pending with
    | true => cases hsome
    | false => rfl

theorem Accounts.next_of_not_late (h : Accounts registered s (event :: waiting))
    (hcycle : s.cycle = some sync) (hlate : ¬ Late registered sync event) :
    Accounts registered (s.handleNext sync) waiting ∧ (s.handleNext sync).cycle = some sync ∧
      (s.handleNext sync).dequeued = s.dequeued ++ [event] ∧
      (s.handleNext sync).delivered = s.delivered ++ ofRegistered registered [event] := by
  obtain ⟨r, hpush, hr⟩ := pushUpdateTill_of_not_late h.registers hlate
  refine ⟨h.next_cons hcycle hpush hr (append_nil _), ?_⟩
  rw [handleNext_cons h hpush]
  exact ⟨rfl, rfl, rfl⟩

theorem Accounts.next_of_late (h : Accounts registered s (event :: waiting))
    (hcycle : s.cycle = some sync) (hlate : Late registered sync event) :
    Accounts registered (s.handleNext sync) waiting ∧ (s.handleNext sync).cycle = none ∧
      (s.handleNext sync).delivered = s.delivered := by
  obtain ⟨r, hpush, hr, hlast⟩ := pushUpdateTill_of_late h.registers hlate
  refine ⟨h.next_cons hcycle hpush hr (by simp [hlast, ofRegistered, hlate.1]), ?_⟩
  rw [handleNext_cons h hpush]
  exact ⟨rfl, append_nil _⟩

theorem Accounts.next (h : Accounts registered s waiting) (hcycle : s.cycle = some sync) :
    ∃ waiting', Accounts registered (s.handleNext sync) waiting' := by
  cases waiting with
  | nil =>
    rw [handleNext_nil h]
    exact ⟨[], { h with idle := fun hsome => absurd hsome Bool.false_ne_true }⟩
  | cons event waiting =>
    by_cases hlate : Late registered sync event
    · exact ⟨_, (h.next_of_late hcycle hlate).1⟩
    · exact ⟨_, (h.next_of_not_late hcycle hlate).1⟩

theorem accounts_step {t : EventDistribution Id} {act : Act Id}
    (h : ∃ waiting, Accounts registered s waiting) (hok : s.noOverflow act)
    (hstep : s.step act = some t) : ∃ waiting, Accounts registered t waiting := by
  obtain ⟨waiting, h⟩ := h
  cases act with
  | queueSupervisionEvent event =>
    cases hstep
    exact ⟨_, h.queueSupervisionEvent hok event⟩
  | distributeChanges sync =>
    rw [step] at hstep
    split at hstep
    · cases hstep
      exact ⟨_, h.startDistribution sync⟩
    · cases hstep
  | next =>
    obtain ⟨sync, hcycle, rfl⟩ := Option.map_eq_some_iff.mp hstep
    exact h.next hcycle

theorem InProgress.next {t : EventDistribution Id} {sync' : Nat}
    (hs : Accounts registered s waiting) (h : InProgress registered sync s waiting t)
    (hcycle : t.cycle = some sync') :
    InProgress registered sync s waiting (t.handleNext sync') := by
  obtain ⟨waiting', ht, henqueued, hprogress⟩ := h
  obtain ⟨taken, hdue, hdelivered, ⟨hsync, hdequeued⟩ | ⟨hnone, -⟩⟩ := hprogress
  · obtain rfl : sync = sync' := Option.some.inj (hsync.symm.trans hcycle)
    have hinitial := waiting_isInitial hs ht henqueued hdequeued
    cases waiting' with
    | nil =>
      rw [append_nil] at hinitial
      obtain ⟨waiting', hnext⟩ := ht.next hcycle
      rw [handleNext_nil ht] at hnext ⊢
      exact ⟨waiting', hnext, henqueued, taken, hdue, hdelivered, .inr ⟨rfl, .inl hinitial⟩⟩
    | cons event waiting' =>
      have hsame : (t.handleNext sync).enqueued = t.enqueued := by
        rw [handleNext_cons ht rfl]
      by_cases hlate : Late registered sync event
      · obtain ⟨hnext, hdone, hpushed⟩ := ht.next_of_late hcycle hlate
        exact ⟨waiting', hnext, hsame ▸ henqueued, taken, hdue, hpushed.trans hdelivered,
          .inr ⟨hdone, .inr ⟨event, waiting', hinitial, hlate⟩⟩⟩
      · obtain ⟨hnext, hon, htaken, hpushed⟩ := ht.next_of_not_late hcycle hlate
        refine ⟨waiting', hnext, hsame ▸ henqueued, taken ++ [event], ?_, ?_, .inl ⟨hon, ?_⟩⟩
        · intro e he
          rcases mem_append.mp he with he | he
          · exact hdue e he
          · exact mem_singleton.mp he ▸ hlate
        · rw [hpushed, hdelivered, append_assoc (s.delivered ++ s.parked)]
          exact congrArg _ (filter_append _ _).symm
        · rw [htaken, hdequeued, append_assoc]
  · cases hnone.symm.trans hcycle

theorem InProgress.step {t u : EventDistribution Id} {act : Act Id}
    (hs : Accounts registered s waiting) (h : InProgress registered sync s waiting t)
    (hok : t.inCycle act) (hstep : t.step act = some u) :
    InProgress registered sync s waiting u := by
  cases act with
  | queueSupervisionEvent event =>
    cases hstep
    exact h.queueSupervisionEvent hok event
  | distributeChanges sync => exact hok.elim
  | next =>
    obtain ⟨sync', hcycle, rfl⟩ := Option.map_eq_some_iff.mp hstep
    exact h.next hs hcycle

theorem exists_end (h : Accounts registered s waiting) (hcycle : s.cycle = some sync) :
    ∃ t, Run step inCycle s t ∧ t.cycle = none := by
  have hstep : s.step .next = some (s.handleNext sync) := by
    rw [EventDistribution.step, hcycle]
    rfl
  induction waiting generalizing s with
  | nil =>
    refine ⟨_, .single (a := .next) trivial hstep, ?_⟩
    rw [handleNext_nil h]
  | cons event waiting ih =>
    by_cases hlate : Late registered sync event
    · exact ⟨_, .single (a := .next) trivial hstep, (h.next_of_late hcycle hlate).2.1⟩
    · obtain ⟨hnext, hon, -⟩ := h.next_of_not_late hcycle hlate
      obtain ⟨t, hrun, hend⟩ := ih hnext hon (by rw [EventDistribution.step, hon]; rfl)
      exact ⟨t, (Run.single (a := .next) trivial hstep).trans hrun, hend⟩

end Next

section Result
variable {sync : Nat} {t : EventDistribution Id}
variable {e : SupervisionEvent Id}

/-- At the end of a cycle an event was delivered in it that waited behind no late event. -/
theorem Progress.delivers {before after : List (SupervisionEvent Id)}
    (h : Progress registered sync s (before ++ e :: after) t) (hend : t.cycle = none)
    (hregistered : registered e.id = true) (hdue : e.systemClockTimestamp ≤ sync)
    (hbefore : ∀ e' ∈ before, ¬ Late registered sync e') : ∃ rest,
      t.delivered = s.delivered ++ s.parked ++ ofRegistered registered before ++ e :: rest := by
  have hnot : ¬ Late registered sync e := fun hlate => Nat.not_lt.mpr hdue hlate.2
  have hsplit : ∀ rest, ofRegistered registered (before ++ e :: rest) =
      ofRegistered registered before ++ e :: ofRegistered registered rest := by
    intro rest
    simp [ofRegistered, hregistered]
  obtain ⟨taken, -, hdelivered, hstage⟩ := h
  suffices htaken : ∃ rest, taken = before ++ e :: rest by
    obtain ⟨rest, rfl⟩ := htaken
    refine ⟨ofRegistered registered rest, ?_⟩
    rw [hdelivered, hsplit, append_assoc (s.delivered ++ s.parked)]
  rcases hstage with ⟨hcycle, -⟩ | ⟨-, ⟨more, rfl⟩ | ⟨last, rest, ⟨more, heq⟩, hlast⟩⟩
  · cases hend.symm.trans hcycle
  · exact ⟨after ++ more, by simp⟩
  · rw [append_assoc, cons_append, append_eq_append_iff] at heq
    -- the late event stands behind `e`
    rcases heq with ⟨l, rfl, hl⟩ | ⟨l, rfl, hl⟩
    · cases l with
      | nil =>
        obtain ⟨rfl, -⟩ := List.cons.inj hl
        exact absurd hlast hnot
      | cons x l =>
        obtain ⟨rfl, -⟩ := List.cons.inj hl
        exact ⟨l, rfl⟩
    · cases l with
      | nil =>
        obtain ⟨rfl, -⟩ := List.cons.inj hl
        exact absurd hlast hnot
      | cons x l =>
        obtain ⟨rfl, -⟩ := List.cons.inj hl
        exact absurd hlast (hbefore _ (by simp))

theorem Progress.mem_delivered (h : Progress registered sync s waiting t)
    (he : e ∈ t.delivered.drop s.delivered.length) :
    e ∈ s.parked ∨ e.systemClockTimestamp ≤ sync := by
  obtain ⟨taken, hdue, hdelivered, -⟩ := h
  rw [hdelivered, append_assoc, drop_left] at he
  rcases mem_append.mp he with he | he
  · exact .inl he
  · obtain ⟨hmem, hregistered⟩ := mem_filter.mp he
    exact .inr (Nat.not_lt.mp fun hlt => hdue e hmem ⟨hregistered, hlt⟩)

end Result

end Steps

section Delivery
variable [DecidableEq Id]

/-- Events are delivered once and in order, and not later than the cycle that drains the buffer
unless they wait behind a late one. -/
theorem events_delivered_in_order (registered : Id → Bool) (s : EventDistribution Id)
    (hrun : Run step noOverflow (create registered) s) :
    (∃ waiting, s.buffer.Holds waiting ∧
      s.delivered ++ s.parked ++ ofRegistered registered waiting =
        ofRegistered registered s.enqueued) ∧
    ∀ sync, s.cycle = none →
      (∃ t, Run step inCycle (s.startDistribution sync) t ∧ t.cycle = none) ∧
      ∀ t, Run step inCycle (s.startDistribution sync) t → t.cycle = none →
        (∀ before e after, s.buffer.Holds (before ++ e :: after) → registered e.id = true →
          e.systemClockTimestamp ≤ sync → (∀ e' ∈ before, ¬ Late registered sync e') →
          ∃ rest, t.delivered =
            s.delivered ++ s.parked ++ ofRegistered registered before ++ e :: rest) ∧
        ((∀ e ∈ s.dequeued, e.systemClockTimestamp ≤ sync) →
          ∀ e ∈ t.delivered.drop s.delivered.length, e.systemClockTimestamp ≤ sync) := by
  obtain ⟨waiting, haccounts⟩ := hrun.invariant (fun s => ∃ waiting, Accounts registered s waiting)
    accounts_step ⟨[], Accounts.create registered⟩
  refine ⟨⟨waiting, haccounts.holds, ?_⟩, fun sync hidle => ⟨?_, fun t hcycle hend => ?_⟩⟩
  · rw [haccounts.delivered, haccounts.enqueued]
    exact (filter_append _ _).symm
  · have hcycle : (s.startDistribution sync).cycle = some sync := by rw [startDistribution_eq]
    exact exists_end (haccounts.startDistribution sync) hcycle
  · obtain ⟨-, -, -, hprogress⟩ := hcycle.invariant (InProgress registered sync s waiting)
      (InProgress.step haccounts) (inProgress_start haccounts sync)
    refine ⟨fun before e after hholds hregistered hdue hbefore => ?_, fun hcaught e he => ?_⟩
    · obtain rfl := haccounts.holds.unique hholds
      exact hprogress.delivers hend hregistered hdue hbefore
    · refine (hprogress.mem_delivered he).elim (fun hparked => ?_) id
      have hmem : e ∈ ofRegistered registered s.dequeued := by
        rw [← haccounts.delivered]
        exact mem_append_right _ hparked
      exact hcaught e (mem_filter.mp hmem).1

def twoQueued (first second : SupervisionEvent Nat) : EventDistribution Nat :=
  ((create fun _ => true).queueSupervisionEvent first).queueSupervisionEvent second

theorem twoQueued_spec (first second : SupervisionEvent Nat) :
    Run step noOverflow (create fun _ => true) (twoQueued first second) ∧
      Accounts (fun _ => true) (twoQueued first second) [first, second] := by
  have hroom : (create fun _ : Nat => true).buffer.size <
      (create fun _ : Nat => true).buffer.capacity := by decide
  have hfirst := (Accounts.create fun _ => true).queueSupervisionEvent hroom first
  have hroom' : ((create fun _ => true).queueSupervisionEvent first).buffer.size <
      ((create fun _ => true).queueSupervisionEvent first).buffer.capacity := by
    rw [queueSupervisionEvent_eq hroom, RingBuffer.tryEnqueue_of_lt hroom]
    change 1 < bufferQueueSize
    decide
  exact ⟨(Run.single (a := .queueSupervisionEvent first) hroom rfl).trans
    (Run.single (a := .queueSupervisionEvent second) hroom' rfl),
    hfirst.queueSupervisionEvent hroom' second⟩

theorem events_delivered_in_order_parked :
    ∃ t, Run step inCycle
        ((twoQueued ⟨1, .activation, 2⟩ ⟨2, .activation, 5⟩).startDistribution 3) t ∧
      t.cycle = none ∧ ∃ rest, t.delivered = ⟨1, .activation, 2⟩ :: rest := by
  obtain ⟨hrun, haccounts⟩ := twoQueued_spec ⟨1, .activation, 2⟩ ⟨2, .activation, 5⟩
  obtain ⟨-, hcycles⟩ := events_delivered_in_order _ _ hrun
  obtain ⟨⟨t, hcycle, hend⟩, hdelivers⟩ := hcycles 3 rfl
  exact ⟨t, hcycle, hend, (hdelivers t hcycle hend).1 [] _ [⟨2, .activation, 5⟩] haccounts.holds rfl
    (by decide) (fun _ h => nomatch h)⟩

/-- An event that is due waits behind a late event of another process. -/
theorem late_event_blocks_cycle :
    ∃ (s t : EventDistribution Nat) (sync : Nat) (before after : List (SupervisionEvent Nat))
      (e : SupervisionEvent Nat), Run step noOverflow (create fun _ => true) s ∧ s.cycle = none ∧
      s.buffer.Holds (before ++ e :: after) ∧ e.systemClockTimestamp ≤ sync ∧
      Run step inCycle (s.startDistribution sync) t ∧ t.cycle = none ∧ e ∉ t.delivered := by
  obtain ⟨hrun, haccounts⟩ := twoQueued_spec ⟨1, .activation, 5⟩ ⟨2, .activation, 2⟩
  refine ⟨_, ((twoQueued ⟨1, .activation, 5⟩ ⟨2, .activation, 2⟩).startDistribution 3).handleNext 3,
    3, [_], [], _, hrun, rfl, haccounts.holds, by decide, .single (a := .next) trivial rfl, ?_, ?_⟩
  · decide +kernel
  · decide +kernel

end Delivery

end EventDistribution

end LaunchManager
