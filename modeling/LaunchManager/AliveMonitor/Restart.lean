import LaunchManager.AliveMonitor.Expiry

/-!
# Supervision of a restarted process

After an activation the supervision is under way, or it has expired and a recovery request was sent
since. What is lost in an evaluation, events of the supervision included, makes it expire; but a
supervision that has expired before sends no further request, and leaves that status with a
deactivation only.
-/

namespace LaunchManager

open AliveState List

set_option autoImplicit false

open TimeSortingBuffer

def TimeSortedUpdateEvent.supervision? : TimeSortedUpdateEvent → Option SupervisionEventType
  | .supervisionEvent _ type => some type
  | .checkpoint _ | .sync _ => none

/-- The supervision events among the inputs of a round, in the order of time. -/
def AliveRound.supervisionEvents (r : AliveRound) : List SupervisionEventType :=
  (chronicleEvents r.inputs).filterMap TimeSortedUpdateEvent.supervision?

namespace AliveState

/-- At least `n` requests were sent, and a further one if the supervision has expired. -/
structure Fresh (n : Nat) (s : AliveState) : Prop where
  sent : n ≤ s.recoveryRequests.length
  expired : s.aliveStatus = .expired → n < s.recoveryRequests.length

section Fresh
variable {n : Nat} {s s' : AliveState} {e : TimeSortedUpdateEvent}

theorem fresh_switchToExpired (h : n ≤ s.recoveryRequests.length) : Fresh n s.switchToExpired :=
  ⟨Nat.le_succ_of_le h, fun _ => Nat.lt_succ_of_le h⟩

theorem sent_evaluates (h : n ≤ s.recoveryRequests.length) (hm : Evaluates s s') :
    n ≤ s'.recoveryRequests.length := by
  cases hm with
  | expired judged =>
    rw [← judged.recoveryRequests] at h
    exact Nat.le_succ_of_le h
  | next judged fits =>
    rw [← judged.recoveryRequests] at h
    exact h

theorem sent_handles (h : n ≤ s.recoveryRequests.length) (hm : Handles s e s') :
    n ≤ s'.recoveryRequests.length := by
  cases hm with
  | overflow | late => exact Nat.le_succ_of_le h
  | _ => exact h

theorem sent_settle (h : n ≤ s.recoveryRequests.length) (τ : Nat) :
    n ≤ (s.settle τ).recoveryRequests.length :=
  settle_induction (n ≤ ·.recoveryRequests.length) τ
    (fun _ hdue hs => sent_evaluates hs (evaluates_evaluateCycle hdue.1)) h

theorem Fresh.evaluates (h : Fresh n s) (hactive : s.Active) (hm : Evaluates s s') :
    Fresh n s' := by
  refine ⟨sent_evaluates h.sent hm, fun hs => ?_⟩
  cases hm with
  | expired judged =>
    have hsent := h.sent
    rw [← judged.recoveryRequests] at hsent
    exact Nat.lt_succ_of_le hsent
  | next judged fits => exact absurd hs (judged.active hactive).ne_expired

theorem Fresh.handles (h : Fresh n s) (hm : Handles s e s') : Fresh n s' := by
  cases hm with
  | sync | uncounted | repeated | inactive => exact h
  | counted => exact ⟨h.sent, h.expired⟩
  | overflow | late => exact fresh_switchToExpired (s := { s with eventTimestamp := _ }) h.sent
  | activated | deactivated => exact ⟨h.sent, by rintro ⟨⟩⟩

theorem Fresh.settle (h : Fresh n s) (τ : Nat) : Fresh n (s.settle τ) :=
  settle_induction (Fresh n) τ
    (fun _ hdue hs => hs.evaluates hdue.1 (evaluates_evaluateCycle hdue.1)) h

theorem Fresh.foldl (h : Fresh n s) (events : List TimeSortedUpdateEvent) :
    Fresh n (events.foldl AliveState.absorb s) :=
  foldl_absorb_induction (Fresh n) (fun hactive hm hs => hs.evaluates hactive hm)
    (fun hm hs => hs.handles hm) events h

theorem fresh_deactivation (h : n ≤ s.recoveryRequests.length) (t : Nat) :
    Fresh n (s.handleEvent (.supervisionEvent t .deactivation)) := by
  have hm := handles_handleEvent s (.supervisionEvent t .deactivation)
  refine ⟨sent_handles h hm, fun hs => ?_⟩
  generalize s.handleEvent (.supervisionEvent t .deactivation) = s' at hm hs
  cases hm with
  | deactivated => cases hs
  | inactive _ off => cases off.symm.trans hs

theorem settle_ne_deactivated (h : s.aliveStatus ≠ .deactivated) (τ : Nat) :
    (s.settle τ).aliveStatus ≠ .deactivated := by
  refine settle_induction (fun s => s.aliveStatus ≠ .deactivated) τ (fun s hdue _ => ?_) h
  rcases nextCycle_evaluateCycle hdue.1 with hs | ⟨hs, -⟩
  · rw [hs]
    decide
  · exact hs.ne_deactivated

theorem absorb_ne_deactivated (h : s.aliveStatus ≠ .deactivated ∨ e.supervision? = some .activation)
    (he : e.supervision? ≠ some .deactivation) : (s.absorb e).aliveStatus ≠ .deactivated := by
  have hm := handles_handleEvent (s.settle e.due) e
  have h' : (s.settle e.due).aliveStatus ≠ .deactivated ∨ e.supervision? = some .activation :=
    h.imp_left (settle_ne_deactivated · e.due)
  unfold AliveState.absorb
  generalize (s.settle e.due).handleEvent e = s' at hm
  cases hm with
  | sync | uncounted => exact h'.resolve_right (by rintro ⟨⟩)
  | repeated _ on => exact on
  | counted _ hactive => exact hactive.ne_deactivated
  | overflow | late | activated => rintro ⟨⟩
  | deactivated | inactive => exact absurd rfl he

variable {events : List TimeSortedUpdateEvent}

theorem foldl_ne_deactivated (h : s.aliveStatus ≠ .deactivated)
    (hnone : events.filterMap TimeSortedUpdateEvent.supervision? = []) :
    (events.foldl AliveState.absorb s).aliveStatus ≠ .deactivated := by
  induction events generalizing s with
  | nil => exact h
  | cons e events ih =>
    cases he : e.supervision? with
    | none =>
      rw [filterMap_cons_none he] at hnone
      exact ih (absorb_ne_deactivated (.inl h) (by simp [he])) hnone
    | some type =>
      rw [filterMap_cons_some he] at hnone
      cases hnone

theorem foldl_activation
    (hlast : (events.filterMap TimeSortedUpdateEvent.supervision?).getLast? = some .activation) :
    (events.foldl AliveState.absorb s).aliveStatus ≠ .deactivated := by
  induction events using List.reverseRecOn with
  | nil => cases hlast
  | append_singleton events e ih =>
    rw [foldl_append]
    change ((events.foldl AliveState.absorb s).absorb e).aliveStatus ≠ .deactivated
    cases he : e.supervision? with
    | none =>
      rw [filterMap_append, filterMap_cons_none he, filterMap_nil,
        append_nil] at hlast
      exact absorb_ne_deactivated (.inl (ih hlast)) (by simp [he])
    | some type =>
      rw [filterMap_append, filterMap_cons_some he, filterMap_nil,
        List.getLast?_concat] at hlast
      cases hlast
      exact absorb_ne_deactivated (.inr he) (by simp [he])

theorem fresh_foldl_deactivation (h : n ≤ s.recoveryRequests.length)

    (hmem : .deactivation ∈ events.filterMap TimeSortedUpdateEvent.supervision?) :
    Fresh n (events.foldl AliveState.absorb s) := by
  induction events generalizing s with
  | nil => cases hmem
  | cons e events ih =>
    obtain ⟨e', he', hsup⟩ := mem_filterMap.mp hmem
    rcases mem_cons.mp he' with rfl | hmem'
    · cases e' with
      | supervisionEvent t type =>
        cases hsup
        exact Fresh.foldl (fresh_deactivation (sent_settle h _) t) events
      | checkpoint | sync => cases hsup
    · exact ih (sent_handles (sent_settle h _) (handles_handleEvent _ e))
        (mem_filterMap.mpr ⟨e', hmem', hsup⟩)

end Fresh

theorem processEvents_before {s s' : AliveState} {sync fuel : Nat}
    {b : TimeSortingBuffer TimeSortedUpdateEvent} {e : TimeSortedUpdateEvent}
    {rest : List TimeSortedUpdateEvent} (hbuffer : b.Remaining rest)
    (h : processEvents sync fuel b (some e) s = some s') :
    ∀ e' ∈ e :: rest, e'.timestamp ≤ sync := by
  induction fuel generalizing s b e rest with
  | zero => cases h
  | succ fuel ih =>
    rw [processEvents] at h
    by_cases hle : e.timestamp ≤ sync
    · rw [if_pos hle] at h
      split at h
      · exact ih hbuffer h
      · intro e' he'
        rcases mem_cons.mp he' with rfl | he'
        · exact hle
        · cases rest with
          | nil => cases he'
          | cons e₁ rest =>
            obtain ⟨b', hnext, hremaining, -⟩ := hbuffer.getNextElement_cons
            rw [hnext] at h
            exact ih hremaining h e' he'
    · rw [if_neg hle] at h
      cases h

end AliveState

namespace Alive
variable {a b c : Alive}

/-- What collecting inputs does not change; a loss of data stays noted. -/
structure Kept (a b : Alive) : Prop where
  holds : (∃ l, a.timeSortingUpdateEventBuffer.Holds l) →
    ∃ l, b.timeSortingUpdateEventBuffer.Holds l ∧
      b.timeSortingUpdateEventBuffer.capacity = a.timeSortingUpdateEventBuffer.capacity
  status : b.aliveStatus = a.aliveStatus
  history : b.history = a.history
  loss : a.dataLossReason ≠ .noDataLoss → b.dataLossReason ≠ .noDataLoss

theorem Kept.refl (a : Alive) : Kept a a :=
  ⟨fun ⟨l, h⟩ => ⟨l, h, rfl⟩, rfl, rfl, id⟩

theorem Kept.trans (h : Kept a b) (h' : Kept b c) : Kept a c where
  holds hl := by
    obtain ⟨l, hb, hcapacity⟩ := h.holds hl
    obtain ⟨l', hc, hcapacity'⟩ := h'.holds ⟨l, hb⟩
    exact ⟨l', hc, hcapacity'.trans hcapacity⟩
  status := h'.status.trans h.status
  history := h'.history.trans h.history
  loss := h'.loss ∘ h.loss

theorem kept_store (a : Alive) (e : TimeSortedUpdateEvent) : Kept a (a.store e) := by
  have hholds : (∃ l, a.timeSortingUpdateEventBuffer.Holds l) →
      ∃ l, (a.timeSortingUpdateEventBuffer.push e e.timestamp).1.Holds l ∧
        (a.timeSortingUpdateEventBuffer.push e e.timestamp).1.capacity =
          a.timeSortingUpdateEventBuffer.capacity := by
    rintro ⟨l, hl⟩
    rcases Nat.lt_or_ge l.length a.timeSortingUpdateEventBuffer.capacity with hlt | hge
    · obtain ⟨b', hpush, hb', hcapacity⟩ := hl.push e e.timestamp hlt
      rw [hpush]
      exact ⟨_, hb', hcapacity⟩
    · rw [push_full hl hge]
      exact ⟨l, hl, rfl⟩
  unfold store
  cases hpush : a.timeSortingUpdateEventBuffer.push e e.timestamp with
  | mk b' ok =>
    rw [hpush] at hholds
    cases ok with
    | true => exact ⟨hholds, rfl, rfl, id⟩
    | false => exact ⟨hholds, rfl, rfl, fun _ => by rintro ⟨⟩⟩

theorem kept_updateData (a : Alive) (input : AliveInput) : Kept a (a.updateData input) := by
  unfold updateData
  split
  · exact ⟨(Kept.refl a).holds, rfl, rfl, fun _ => by rintro ⟨⟩⟩
  · exact kept_store a _

theorem kept_foldl (a : Alive) (inputs : List AliveInput) : Kept a (inputs.foldl updateData a) := by
  induction inputs generalizing a with
  | nil => exact .refl a
  | cons input inputs ih => exact (kept_updateData a input).trans (ih _)

variable {l : List (TimeSortedUpdateEvent × Nat)} {n : Nat} {r : AliveRound} {rs : List AliveRound}

theorem loss_of_full {e : TimeSortedUpdateEvent} (h : a.timeSortingUpdateEventBuffer.Holds l)
    (hfull : a.timeSortingUpdateEventBuffer.capacity ≤ l.length) :
    (a.store e).dataLossReason ≠ .noDataLoss := by
  rw [store, push_full h hfull]
  rintro ⟨⟩

theorem loss_of_inputs {inputs : List AliveInput}
    (h : a.Collected l) (hlost : ¬ ((∀ input ∈ inputs, input.isDataLossEvent = false) ∧
      l.length + inputs.length ≤ a.timeSortingUpdateEventBuffer.capacity))
    (hle : l.length ≤ a.timeSortingUpdateEventBuffer.capacity) :
    (inputs.foldl updateData a).dataLossReason ≠ .noDataLoss := by
  induction inputs generalizing a l with
  | nil => exact absurd ⟨by simp, hle⟩ hlost
  | cons input inputs ih =>
    cases hintact : input.isDataLossEvent with
    | true =>
      refine (kept_foldl (a.updateData input) inputs).loss ?_
      rw [updateData, hintact, if_pos rfl]
      rintro ⟨⟩
    | false =>
      rcases Nat.lt_or_ge l.length a.timeSortingUpdateEventBuffer.capacity with hlt | hge
      · obtain ⟨hcollected, -, hcapacity⟩ := h.updateData hintact hlt
        have hlength : (insertByTime input.item l).length = l.length + 1 :=
          orderedInsert_length _ _ _
        refine ih hcollected (fun hrest => hlost ⟨?_, ?_⟩) (by omega)
        · intro x hx
          rcases mem_cons.mp hx with rfl | hx
          · exact hintact
          · exact hrest.1 x hx
        · have hroom := hrest.2
          rw [length_cons]
          omega
      · refine (kept_foldl (a.updateData input) inputs).loss ?_
        rw [updateData, hintact, if_neg (by decide)]
        exact loss_of_full h.buffer hge

theorem handleDataLossReaction_expired (a : Alive) :
    a.handleDataLossReaction.aliveStatus = .expired := by
  unfold handleDataLossReaction
  split
  · rfl
  · exact not_not.mp ‹_›

theorem fresh_handleDataLossReaction (h : AliveState.Fresh n a.toAliveState) :
    AliveState.Fresh n a.handleDataLossReaction.toAliveState := by
  unfold handleDataLossReaction
  split
  · exact fresh_switchToExpired h.sent
  · exact ⟨h.sent, h.expired⟩

theorem Kept.fresh (h : Kept a b) (hfresh : AliveState.Fresh n a.toAliveState) :
    AliveState.Fresh n b.toAliveState := by
  have hrequests : b.recoveryRequests = a.recoveryRequests := by
    unfold AliveState.recoveryRequests
    rw [h.history]
  refine ⟨?_, fun hs => ?_⟩
  · rw [hrequests]
    exact hfresh.sent
  · rw [hrequests]
    exact hfresh.expired (h.status.symm.trans hs)

theorem before_of_evaluate {sync : Nat}
    (h : a.Collected l) (hroom : l.length < a.timeSortingUpdateEventBuffer.capacity)
    (heval : a.evaluate sync = some b) : ∀ x ∈ l, x.1.timestamp ≤ sync := by
  have hcollected : (a.storeSyncEvent sync).Collected
      (insertByTime (TimeSortedUpdateEvent.sync sync, sync) l) :=
    (h.store (e := .sync sync) hroom).1
  rw [evaluate] at heval
  dsimp only at heval
  rw [if_neg (not_not.mpr hcollected.noDataLoss)] at heval
  obtain ⟨s', hloop, -⟩ := Option.map_eq_some_iff.mp heval
  have hremaining := hcollected.buffer.remaining
  have hmem : ∀ x ∈ l, x ∈ insertByTime (TimeSortedUpdateEvent.sync sync, sync) l :=
    fun x hx => mem_insertByTime.mpr (.inr hx)
  generalize insertByTime (TimeSortedUpdateEvent.sync sync, sync) l = l' at hremaining hmem
  cases l' with
  | nil => exact fun x hx => absurd (hmem x hx) not_mem_nil
  | cons y l' =>
    obtain ⟨b', hnext, hrest, -⟩ := hremaining.getNextElement_cons
    rw [hnext] at hloop
    have hbefore := processEvents_before hrest hloop
    intro x hx
    exact hbefore x.1 (mem_map_of_mem (f := Prod.fst) (hmem x hx))

theorem before_of_round (h : a.Collected [])
    (hlossless : r.Lossless a.timeSortingUpdateEventBuffer.capacity)
    (hround : a.round r = some b) : ∀ input ∈ r.inputs, input.timestamp ≤ r.sync := by
  have hroom := hlossless.room
  obtain ⟨hcollected, -, hcapacity⟩ :=
    h.updateAll hlossless.intact (by simpa using Nat.le_of_lt hroom)
  have hitems := before_of_evaluate hcollected
    (by rw [hcapacity]; exact (length_chronicle r.inputs).trans_lt hroom) hround
  intro input hinput
  rw [← input.timestamp_event]
  exact hitems input.item (mem_chronicle.mpr ⟨input, hinput, rfl⟩)

theorem round_cases (h : a.Collected []) (hround : a.round r = some b) : b.Collected [] ∧
      b.timeSortingUpdateEventBuffer.capacity = a.timeSortingUpdateEventBuffer.capacity ∧
      (r.Lossless a.timeSortingUpdateEventBuffer.capacity ∧ b.toAliveState =
          ((chronicleEvents r.inputs).foldl AliveState.absorb a.toAliveState).settle (r.sync + 1) ∨
        ¬ r.Lossless a.timeSortingUpdateEventBuffer.capacity ∧ b.aliveStatus = .expired ∧
          ∀ n, AliveState.Fresh n a.toAliveState → AliveState.Fresh n b.toAliveState) := by
  by_cases hlossless : r.Lossless a.timeSortingUpdateEventBuffer.capacity
  · obtain ⟨b', hround', hempty, hcapacity', hstate⟩ :=
      h.round hlossless (before_of_round h hlossless hround)
    cases hround.symm.trans hround'
    exact ⟨hempty, hcapacity', .inl ⟨hlossless, hstate⟩⟩
  · have hkept := kept_foldl a r.inputs
    have hkept' := hkept.trans (kept_store (r.inputs.foldl updateData a) (.sync r.sync))
    have hloss : ((r.inputs.foldl updateData a).storeSyncEvent r.sync).dataLossReason ≠
        .noDataLoss := by
      by_cases hintact : (∀ input ∈ r.inputs, input.isDataLossEvent = false) ∧
          ([] : List (TimeSortedUpdateEvent × Nat)).length + r.inputs.length ≤
            a.timeSortingUpdateEventBuffer.capacity
      · obtain ⟨hintact, hfits⟩ := hintact
        obtain ⟨hcollected, -, hcapacity⟩ := h.updateAll hintact hfits
        refine loss_of_full hcollected.buffer ?_
        rw [hcapacity]
        by_contra hlt
        exact hlossless ⟨by
          rw [← length_chronicle r.inputs]
          exact Nat.lt_of_not_le hlt, hintact⟩
      · exact (kept_store _ _).loss (loss_of_inputs h hintact (Nat.zero_le _))
    have hb : b = { ((r.inputs.foldl updateData a).storeSyncEvent
        r.sync).handleDataLossReaction with lastSyncTimestamp := r.sync } := by
      unfold round evaluate at hround
      dsimp only at hround
      rw [if_pos hloss] at hround
      exact (Option.some.inj hround).symm
    obtain ⟨l, -, hcapacity⟩ := hkept'.holds ⟨[], h.buffer⟩
    rw [hb]
    refine ⟨⟨holds_clear _, rfl⟩, hcapacity, .inr ⟨hlossless, handleDataLossReaction_expired _, ?_⟩⟩
    intro n hfresh
    exact fresh_handleDataLossReaction (hkept'.fresh hfresh)

theorem rounds_cons (h : a.rounds (r :: rs) = some c) :
    ∃ b, a.round r = some b ∧ b.rounds rs = some c := by
  rw [rounds, foldlM_cons] at h
  exact Option.bind_eq_some_iff.mp h

theorem Collected.of_rounds (h : a.Collected []) (hrounds : a.rounds rs = some b) : b.Collected [] ∧
      b.timeSortingUpdateEventBuffer.capacity = a.timeSortingUpdateEventBuffer.capacity := by
  induction rs generalizing a with
  | nil =>
    cases hrounds
    exact ⟨h, rfl⟩
  | cons r rs ih =>
    obtain ⟨a₁, hround, hrest⟩ := rounds_cons hrounds
    obtain ⟨h₁, hcapacity, -⟩ := round_cases h hround
    obtain ⟨hb, hcapacity'⟩ := ih h₁ hrest
    exact ⟨hb, hcapacity'.trans hcapacity⟩

/-- The supervision is under way, or it has expired and more than `n` requests were sent. -/
def Watched (n : Nat) (a : Alive) : Prop :=
  AliveState.Fresh n a.toAliveState ∧ a.aliveStatus ≠ .deactivated

theorem Watched.round (h : Watched n a) (hcollected : a.Collected [])
    (hnone : r.supervisionEvents = []) (hround : a.round r = some b) : Watched n b := by
  obtain ⟨-, -, ⟨-, hstate⟩ | ⟨-, hexpired, hfresh⟩⟩ := round_cases hcollected hround
  · rw [Watched, hstate]
    exact ⟨(h.1.foldl _).settle _,
      settle_ne_deactivated (foldl_ne_deactivated h.2 hnone) _⟩
  · exact ⟨hfresh n h.1, by rw [hexpired]; decide⟩

theorem Watched.rounds (h : Watched n a)
    (hcollected : a.Collected []) (hnone : ∀ r ∈ rs, r.supervisionEvents = [])
    (hrounds : a.rounds rs = some b) : Watched n b := by
  induction rs generalizing a with
  | nil =>
    cases hrounds
    exact h
  | cons r rs ih =>
    obtain ⟨a₁, hround, hrest⟩ := rounds_cons hrounds
    exact ih (h.round hcollected (hnone r mem_cons_self) hround)
      (round_cases hcollected hround).1 (fun r' hr' => hnone r' (mem_cons_of_mem r hr')) hrest

theorem watched_of_activation (hcollected : a.Collected [])
    (hlatest : r.supervisionEvents.getLast? = some .activation)
    (hexpired : a.aliveStatus = .expired →
      r.Lossless a.timeSortingUpdateEventBuffer.capacity ∧ .deactivation ∈ r.supervisionEvents)
    (hround : a.round r = some b) : Watched a.recoveryRequests.length b := by
  obtain ⟨-, -, ⟨-, hstate⟩ | ⟨hlossy, hb, hfresh⟩⟩ := round_cases hcollected hround
  · rw [Watched, hstate]
    refine ⟨AliveState.Fresh.settle ?_ _,
      settle_ne_deactivated (foldl_activation hlatest) _⟩
    by_cases hs : a.aliveStatus = .expired
    · exact fresh_foldl_deactivation le_rfl (hexpired hs).2
    · exact AliveState.Fresh.foldl ⟨le_rfl, fun hs' => absurd hs' hs⟩ _
  · refine ⟨hfresh _ ⟨le_rfl, fun hs => absurd (hexpired hs).1 hlossy⟩, ?_⟩
    rw [hb]
    decide

/-- A supervision whose latest event is an activation is under way, or it has expired with a
request. -/
theorem activated_is_watched (config : AliveConfig) (recoveryClient : Nat → Bool)
    (bufferSize : UInt16) (earlier later : List AliveRound) (r : AliveRound) (a₀ a : Alive)
    (hstart : (create config recoveryClient bufferSize).rounds earlier = some a₀)
    (hlatest : r.supervisionEvents.getLast? = some .activation)
    (hlater : ∀ r' ∈ later, r'.supervisionEvents = [])
    (hrun : a₀.rounds (r :: later) = some a)
    (hexpired : a₀.aliveStatus = .expired →
      r.Lossless bufferSize.toNat ∧ .deactivation ∈ r.supervisionEvents) :
    a.aliveStatus = .ok ∨ a.aliveStatus = .failed ∨
      a.aliveStatus = .expired ∧ a₀.recoveryRequests.length < a.recoveryRequests.length := by
  have hcreated := create_collected config recoveryClient bufferSize
  obtain ⟨hcollected, hcapacity⟩ := hcreated.of_rounds hstart
  obtain ⟨a₁, hround, hrest⟩ := rounds_cons hrun
  have hwatched : Watched a₀.recoveryRequests.length a₁ :=
    watched_of_activation hcollected hlatest (by rw [hcapacity]; exact hexpired) hround
  obtain ⟨hfresh, hne⟩ := hwatched.rounds (round_cases hcollected hround).1 hlater hrest
  cases hs : a.aliveStatus with
  | ok => exact .inl rfl
  | failed => exact .inr (.inl rfl)
  | expired => exact .inr (.inr ⟨rfl, hfresh.expired hs⟩)
  | deactivated => exact absurd hs hne

theorem activated_is_watched_restarted :
    ∃ a₀ a : Alive, a₀.aliveStatus = .expired ∧ a.aliveStatus ≠ .deactivated ∧
      (a.aliveStatus = .ok ∨ a.aliveStatus = .failed ∨
        a.aliveStatus = .expired ∧ a₀.recoveryRequests.length < a.recoveryRequests.length) := by
  have hstatus : (((create sampleConfig (fun _ => true) 4).rounds
      [⟨[.supervisionEvent 1 .activation], 3000000⟩]).map (·.aliveStatus)) = some .expired := by
    decide +kernel
  have hdone : (((create sampleConfig (fun _ => true) 4).rounds
      [⟨[.supervisionEvent 1 .activation], 3000000⟩,
        ⟨[.supervisionEvent 3000001 .deactivation, .supervisionEvent 3000002 .activation],
          4000000⟩, ⟨[.checkpoint 0], 5000000⟩]).map (·.aliveStatus)) = some .expired := by
    decide +kernel
  obtain ⟨a, hrounds, ha⟩ := Option.map_eq_some_iff.mp hdone
  obtain ⟨a₀, hround, hrest⟩ := rounds_cons hrounds
  have hstart : (create sampleConfig (fun _ => true) 4).rounds
      [⟨[.supervisionEvent 1 .activation], 3000000⟩] = some a₀ := by
    rw [rounds, foldlM_cons, hround]
    rfl
  rw [hstart] at hstatus
  refine ⟨a₀, a, Option.some.inj hstatus, by rw [ha]; decide, ?_⟩
  exact activated_is_watched sampleConfig (fun _ => true) 4 _ _ _ a₀ a hstart (by decide)
    (by decide) hrest fun _ => by decide

/-- Data is lost in the evaluation of a restart, or the activation comes without a deactivation. -/
theorem activated_without_watch :
    (((create sampleConfig (fun _ => true) 4).rounds
        [⟨[.supervisionEvent 1 .activation], 3000000⟩]).map
      fun a => (a.aliveStatus, a.recoveryRequests)) = some (.expired, [2000001]) ∧
    (((create sampleConfig (fun _ => true) 4).rounds
        [⟨[.supervisionEvent 1 .activation], 3000000⟩,
          ⟨[.supervisionEvent 3000001 .deactivation, .supervisionEvent 3000002 .activation,
            .checkpoint 0], 4000000⟩, ⟨[], 9000000⟩]).map
      fun a => (a.aliveStatus, a.recoveryRequests)) = some (.expired, [2000001]) ∧
    (((create sampleConfig (fun _ => true) 4).rounds
        [⟨[.supervisionEvent 1 .activation], 3000000⟩,
          ⟨[.supervisionEvent 3000001 .activation], 4000000⟩, ⟨[], 9000000⟩]).map
      fun a => (a.aliveStatus, a.recoveryRequests)) = some (.expired, [2000001]) := by
  decide +kernel

end Alive

end LaunchManager
