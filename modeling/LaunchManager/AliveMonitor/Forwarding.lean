import LaunchManager.AliveMonitor.MonitorIfDaemon

/-!
# Forwarding of checkpoints

The application writes checkpoints into the ring buffer at any time, also while the
daemon drains it. As long as nothing overflows, what was written is what was forwarded
followed by what the buffer holds. A drain stops at an empty buffer or at a checkpoint
that is later than the sync timestamp; since timestamps do not decrease, nothing of its
cycle is left behind then.
-/

namespace LaunchManager

open List

set_option autoImplicit false

open Runs

def DrainPoint.sync? {ρ : Type} : DrainPoint ρ → Option Nat
  | .idle => none
  | .empty sync => some sync
  | .peek sync => some sync
  | .compare sync _ => some sync
  | .push sync _ => some sync
  | .pop sync => some sync

/-- What has passed through the channel: the checkpoints written, those forwarded with the number
of the drain, and the finished drains with their sync timestamp and the number of checkpoints that
had been written when the drain ended. -/
structure Traffic where
  written : List Nat := []
  forwarded : List (Nat × Nat) := []
  drains : List (Nat × Nat) := []
  deriving DecidableEq, Repr

theorem getElem?_concat_cases {α : Type} {l : List α} {x y : α} {i : Nat}
    (h : (l ++ [x])[i]? = some y) : l[i]? = some y ∨ (i = l.length ∧ y = x) := by
  rcases Nat.lt_or_ge i l.length with hlt | hge
  · rw [List.getElem?_append_left hlt] at h
    exact .inl h
  · obtain ⟨hlt, hy⟩ := List.getElem?_eq_some_iff.mp h
    rw [length_append, length_singleton] at hlt
    obtain rfl : i = l.length := by omega
    exact .inr ⟨rfl, by simpa using hy.symm⟩

namespace Traffic

/-- The `k`-th drain finds the `i`-th checkpoint, which is not later than its sync timestamp. -/
def Finds (tr : Traffic) (k i t : Nat) : Prop :=
  ∃ sync found, tr.drains[k]? = some (sync, found) ∧ i < found ∧ t ≤ sync

/-- Every checkpoint is assigned to the first drain that finds it. `sync?` belongs to the drain
under way, whose number is the number of finished ones. -/
structure Assigned (tr : Traffic) (sync? : Option Nat) : Prop where
  order : tr.forwarded.map Prod.fst = tr.written.take tr.forwarded.length
  written : ∀ {k sync found : Nat}, tr.drains[k]? = some (sync, found) → found ≤ tr.written.length
  current : ∀ {i t k : Nat}, tr.forwarded[i]? = some (t, k) →
    k < tr.drains.length ∨ (k = tr.drains.length ∧ ∃ sync, sync? = some sync ∧ t ≤ sync)
  found : ∀ {i t k sync found : Nat}, tr.forwarded[i]? = some (t, k) →
    tr.drains[k]? = some (sync, found) → i < found ∧ t ≤ sync
  complete : ∀ {i t k : Nat}, tr.written[i]? = some t → tr.Finds k i t →
    ∃ k' ≤ k, tr.forwarded[i]? = some (t, k')

variable {tr : Traffic} {sync? : Option Nat} {i t k sync : Nat}

namespace Assigned

theorem initial : Assigned {} none where
  order := rfl
  written := by simp
  current := by simp
  found := by simp
  complete := by simp

theorem length_le (h : tr.Assigned sync?) : tr.forwarded.length ≤ tr.written.length := by
  have hlength := congrArg List.length h.order
  rw [length_map, length_take] at hlength
  omega

theorem timestamp_eq (h : tr.Assigned sync?) {f : Nat × Nat} (hf : tr.forwarded[i]? = some f) :
    tr.written[i]? = some f.1 := by
  obtain ⟨hlt, rfl⟩ := List.getElem?_eq_some_iff.mp hf
  have hmap := congrArg (·[i]?) h.order
  simpa [List.getElem?_take, hlt] using hmap.symm

theorem forwarded_of_lt (h : tr.Assigned sync?) (hlt : i < tr.forwarded.length)
    (ht : tr.written[i]? = some t) : ∃ k, tr.forwarded[i]? = some (t, k) := by
  obtain ⟨⟨t', k⟩, hf⟩ : ∃ f, tr.forwarded[i]? = some f :=
    ⟨_, List.getElem?_eq_getElem hlt⟩
  have hsame := h.timestamp_eq hf
  rw [ht] at hsame
  cases hsame
  exact ⟨k, hf⟩

theorem start (h : tr.Assigned none) (sync : Nat) : tr.Assigned (some sync) where
  order := h.order
  written := h.written
  current := by
    intro i t k hf
    rcases h.current hf with hlt | ⟨-, sync, hnone, -⟩
    · exact .inl hlt
    · cases hnone
  found := h.found
  complete := h.complete

theorem write (h : tr.Assigned sync?) (t : Nat) :
    Assigned { tr with written := tr.written ++ [t] } sync? where
  order := by
    rw [take_append_of_le_length h.length_le]
    exact h.order
  written := by
    intro k sync found hk
    have := h.written hk
    rw [length_append]
    omega
  current := h.current
  found := h.found
  complete := by
    rintro i x k hx ⟨sync, found, hk, hi, hle⟩
    have hlt : i < tr.written.length := Nat.lt_of_lt_of_le hi (h.written hk)
    rw [List.getElem?_append_left hlt] at hx
    exact h.complete hx ⟨sync, found, hk, hi, hle⟩

theorem forward (h : tr.Assigned (some sync)) (hnext : tr.written[tr.forwarded.length]? = some t)
    (hle : t ≤ sync) :
    Assigned { tr with forwarded := tr.forwarded ++ [(t, tr.drains.length)] } (some sync) where
  order := by
    rw [map_append, h.order, length_append, length_singleton, take_add_one,
      hnext]
    rfl
  written := h.written
  current := by
    intro i x k hf
    rcases getElem?_concat_cases hf with hf | ⟨-, hlast⟩
    · exact h.current hf
    · cases hlast
      exact .inr ⟨rfl, sync, rfl, hle⟩
  found := by
    intro i x k sync found hf hk
    rcases getElem?_concat_cases hf with hf | ⟨-, hlast⟩
    · exact h.found hf hk
    · cases hlast
      exact absurd (List.getElem?_eq_some_iff.mp hk).1 (Nat.lt_irrefl _)
  complete := by
    intro i x k hx hfinds
    obtain ⟨k', hle', hf⟩ := h.complete hx hfinds
    refine ⟨k', hle', ?_⟩
    rw [List.getElem?_append_left (List.getElem?_eq_some_iff.mp hf).1]
    exact hf

theorem finish (h : tr.Assigned (some sync))
    (hall : ∀ {i t : Nat}, tr.written[i]? = some t → t ≤ sync → i < tr.forwarded.length) :
    Assigned { tr with drains := tr.drains ++ [(sync, tr.written.length)] } none where
  order := h.order
  written := by
    intro k s found hk
    rcases getElem?_concat_cases hk with hk | ⟨-, hlast⟩
    · exact h.written hk
    · cases hlast
      exact le_rfl
  current := by
    intro i t k hf
    left
    rw [length_append, length_singleton]
    rcases h.current hf with hlt | ⟨rfl, -⟩
    · exact Nat.lt_succ_of_lt hlt
    · exact Nat.lt_succ_self _
  found := by
    intro i t k s found hf hk
    rcases getElem?_concat_cases hk with hk | ⟨rfl, hlast⟩
    · exact h.found hf hk
    · cases hlast
      have hi := (List.getElem?_eq_some_iff.mp hf).1
      refine ⟨Nat.lt_of_lt_of_le hi h.length_le, ?_⟩
      rcases h.current hf with hlt | ⟨-, s, hs, hle⟩
      · exact absurd hlt (Nat.lt_irrefl _)
      · cases hs
        exact hle
  complete := by
    rintro i t k ht ⟨s, found, hk, hi, hle⟩
    rcases getElem?_concat_cases hk with hk | ⟨rfl, hlast⟩
    · exact h.complete ht ⟨s, found, hk, hi, hle⟩
    · cases hlast
      obtain ⟨k', hf⟩ := h.forwarded_of_lt (hall ht hle) ht
      refine ⟨k', ?_, hf⟩
      rcases h.current hf with hlt | ⟨rfl, -⟩
      · exact Nat.le_of_lt hlt
      · exact le_rfl

theorem first (h : tr.Assigned sync?) (ht : tr.written[i]? = some t) (hk : k < tr.drains.length) :
    tr.forwarded[i]? = some (t, k) ↔ tr.Finds k i t ∧ ∀ k' < k, ¬ tr.Finds k' i t := by
  constructor
  · intro hf
    obtain ⟨⟨sync, found⟩, hdrain⟩ : ∃ d, tr.drains[k]? = some d :=
      ⟨_, List.getElem?_eq_getElem hk⟩
    obtain ⟨hi, hle⟩ := h.found hf hdrain
    refine ⟨⟨sync, found, hdrain, hi, hle⟩, ?_⟩
    intro k' hlt hfinds
    obtain ⟨k'', hle', hf'⟩ := h.complete ht hfinds
    rw [hf] at hf'
    cases hf'
    exact absurd hle' (Nat.not_le.mpr hlt)
  · rintro ⟨hfinds, hfirst⟩
    obtain ⟨k', hle, hf⟩ := h.complete ht hfinds
    rcases Nat.lt_or_eq_of_le hle with hlt | rfl
    · obtain ⟨⟨sync, found⟩, hdrain⟩ : ∃ d, tr.drains[k']? = some d :=
        ⟨_, List.getElem?_eq_getElem (Nat.lt_trans hlt hk)⟩
      obtain ⟨hi, hle⟩ := h.found hf hdrain
      exact absurd ⟨sync, found, hdrain, hi, hle⟩ (hfirst k' hlt)
    · exact hf

end Assigned

end Traffic

namespace RingBuffer
variable {b : RingBuffer Nat} {x : Nat} {l : List Nat}

theorem Holds.timestamp_readHead (h : b.Holds (x :: l)) :
    MonitorIfDaemon.ringChannel.timestamp b b.readHead = x := by
  have hpeek := h.tryPeek_cons
  rw [tryPeek, h.not_empty, if_neg Bool.false_ne_true] at hpeek
  exact congrArg (Option.getD · 0) hpeek

theorem readHead_tryEnqueue (b : RingBuffer Nat) (x : Nat) :
    (b.tryEnqueue x).1.readHead = b.readHead := by
  unfold tryEnqueue
  split <;> rfl

end RingBuffer

namespace MonitorIfDaemon

def Traffic.note (m : MonitorIfDaemon (RingBuffer Nat) Nat) (a : Act Nat)
    (m' : MonitorIfDaemon (RingBuffer Nat) Nat) (tr : Traffic) : Traffic :=
  match a with
  | .outside timestamp => { tr with written := tr.written ++ [timestamp] }
  | .advance =>
    match m.point with
    | .push _ elem =>
      { tr with
        forwarded := tr.forwarded ++ [(ringChannel.timestamp m.channel elem, tr.drains.length)] }
    | .empty sync | .compare sync _ =>
      if m'.point = .idle then { tr with drains := tr.drains ++ [(sync, tr.written.length)] }
      else tr
    | _ => tr
  | _ => tr

/-- A checkpoint is written only when there is room, and with a timestamp that is not before the
earlier ones. -/
def Orderly (p : MonitorIfDaemon (RingBuffer Nat) Nat × Traffic) : Act Nat → Prop
  | .outside timestamp => p.1.channel.size < p.1.channel.capacity ∧ ∀ t ∈ p.2.written, t ≤ timestamp
  | _ => True

instance (p : MonitorIfDaemon (RingBuffer Nat) Nat × Traffic) (a : Act Nat) :
    Decidable (Orderly p a) :=
  match a with
  | .outside timestamp => inferInstanceAs (Decidable (p.1.channel.size < p.1.channel.capacity ∧
      ∀ t ∈ p.2.written, t ≤ timestamp))
  | .updateData _ => isTrue trivial
  | .checkForNewData _ => isTrue trivial
  | .advance => isTrue trivial

def Located (point : DrainPoint Nat) (readHead : Nat) (content : List Nat) : Prop :=
  match point with
  | .idle | .empty _ => True
  | .peek _ | .pop _ => content ≠ []
  | .compare _ elem => elem = readHead ∧ content ≠ []
  | .push sync elem => elem = readHead ∧ ∃ x rest, content = x :: rest ∧ x ≤ sync

/-- What the buffer still has to forward: its oldest element is popped after it was forwarded. -/
def unforwarded (point : DrainPoint Nat) (content : List Nat) : List Nat :=
  match point with
  | .pop _ => content.tail
  | _ => content

section Located
variable {point : DrainPoint Nat} {readHead : Nat} {content : List Nat}

theorem Located.concat (h : Located point readHead content) (t : Nat) :
    Located point readHead (content ++ [t]) := by
  cases point with
  | idle | empty sync => trivial
  | peek sync | pop sync => exact append_ne_nil_of_left_ne_nil h [t]
  | compare sync elem => exact ⟨h.1, append_ne_nil_of_left_ne_nil h.2 [t]⟩
  | push sync elem =>
    obtain ⟨helem, x, rest, rfl, hle⟩ := h
    exact ⟨helem, x, rest ++ [t], rfl, hle⟩

theorem Located.unforwarded_concat (h : Located point readHead content) (t : Nat) :
    unforwarded point (content ++ [t]) = unforwarded point content ++ [t] := by
  cases point with
  | pop sync => exact tail_append_of_ne_nil h
  | _ => rfl

end Located

/-- What was written is what was forwarded and what the channel holds. -/
structure Flow (m : MonitorIfDaemon (RingBuffer Nat) Nat) (tr : Traffic) (content : List Nat) :
    Prop where
  holds : m.channel.Holds content
  intact : m.channel.overflowFlag = false
  located : Located m.point m.channel.readHead content
  conserved : tr.written = tr.forwarded.map Prod.fst ++ unforwarded m.point content
  sorted : tr.written.Pairwise (· ≤ ·)
  pushed : m.pushed.reverse = tr.forwarded.map fun f => .checkpoint f.1
  reading : m.point ≠ .idle → m.status = .active
  healthy : m.status ≠ .inactiveOverflow
  assigned : tr.Assigned m.point.sync?

namespace Flow
variable {m m' : MonitorIfDaemon (RingBuffer Nat) Nat} {tr : Traffic} {content : List Nat}

theorem initial {capacity : Nat} (h : 0 < capacity) :
    Flow { channel := .create capacity } {} [] where
  holds := RingBuffer.holds_create h
  intact := rfl
  located := trivial
  conserved := rfl
  sorted := .nil
  pushed := rfl
  reading := fun hne => absurd rfl hne
  healthy := fun h => InternalState.noConfusion h
  assigned := .initial

variable {t elem : Nat}

theorem outside (h : Flow m tr content) (hroom : m.channel.size < m.channel.capacity)
    (hafter : ∀ x ∈ tr.written, x ≤ t) : Flow { m with channel := (m.channel.tryEnqueue t).1 }
      { tr with written := tr.written ++ [t] } (content ++ [t]) where
  holds := h.holds.tryEnqueue hroom
  intact := by
    rw [RingBuffer.tryEnqueue_of_lt hroom]
    exact h.intact
  located := by
    rw [RingBuffer.readHead_tryEnqueue]
    exact h.located.concat t
  conserved := by
    rw [h.located.unforwarded_concat, ← append_assoc, ← h.conserved]
  sorted := by
    refine pairwise_append.mpr ⟨h.sorted, pairwise_singleton _ _, ?_⟩
    intro x hx y hy
    rw [mem_singleton.mp hy]
    exact hafter x hx
  pushed := h.pushed
  reading := h.reading
  healthy := h.healthy
  assigned := h.assigned.write t

theorem updateData (h : Flow m tr content) (eventType : SupervisionEventType) :
    Flow (m.updateData eventType) tr content := by
  cases eventType <;> exact { h with }

theorem activateIfRequested (h : Flow m tr content) : Flow m.activateIfRequested tr content := by
  unfold MonitorIfDaemon.activateIfRequested
  split
  · exact { h with
      reading := fun _ => rfl, healthy := fun hbroken => InternalState.noConfusion hbroken }
  · exact h

theorem checkForNewData (h : Flow m tr content) (hidle : m.point = .idle) (sync : Nat) :
    Flow (m.checkForNewData ringChannel sync) tr content := by
  have hidle' : m.activateIfRequested.point = .idle := by
    unfold MonitorIfDaemon.activateIfRequested
    split <;> exact hidle
  have h := h.activateIfRequested
  unfold MonitorIfDaemon.checkForNewData
  generalize m.activateIfRequested = m at h hidle'
  dsimp only
  split
  · rename_i hactive
    have hintact : ringChannel.hasOverflow m.channel = false := h.intact
    rw [hintact, if_neg Bool.false_ne_true]
    have hconserved := h.conserved
    have hassigned := h.assigned
    rw [hidle'] at hconserved hassigned
    exact ⟨h.holds, h.intact, trivial, hconserved, h.sorted, h.pushed, fun _ => hactive, h.healthy,
      hassigned.start sync⟩
  · rename_i hbroken
    exact absurd hbroken h.healthy
  · exact h

theorem moved (h : Flow m tr content) (point : DrainPoint Nat) (hactive : m.status = .active)
    (hlocated : Located point m.channel.readHead content)
    (hsame : unforwarded point content = unforwarded m.point content)
    (hsync : point.sync? = m.point.sync?) : Flow { m with point := point } tr content where
  holds := h.holds
  intact := h.intact
  located := hlocated
  conserved := by
    rw [hsame]
    exact h.conserved
  sorted := h.sorted
  pushed := h.pushed
  reading := fun _ => hactive
  healthy := h.healthy
  assigned := by
    rw [hsync]
    exact h.assigned

variable {sync : Nat}

theorem forwarded_all (h : Flow m tr content)
    (hkeep : unforwarded m.point content = content) (hlater : ∀ x ∈ content, sync < x) {i : Nat}
    (ht : tr.written[i]? = some t) (hle : t ≤ sync) : i < tr.forwarded.length := by
  by_contra hge
  have hmem : t ∈ content := by
    rw [h.conserved, hkeep, List.getElem?_append_right (by simpa using hge)] at ht
    exact mem_of_getElem? ht
  exact absurd (hlater t hmem) (Nat.not_lt.mpr hle)

theorem finish (h : Flow m tr content) (hsync : m.point.sync? = some sync)
    (hkeep : unforwarded m.point content = content) (hlater : ∀ x ∈ content, sync < x) :
    Flow (m.finishRead true) { tr with drains := tr.drains ++ [(sync, tr.written.length)] }
      content := by
  have hassigned := h.assigned
  rw [hsync] at hassigned
  have hdone := hassigned.finish fun ht hle => h.forwarded_all hkeep hlater ht hle
  have hconserved := h.conserved
  rw [hkeep] at hconserved
  unfold finishRead
  split
  · contradiction
  split
  · exact ⟨h.holds, h.intact, trivial, hconserved, h.sorted, h.pushed, fun hne => absurd rfl hne,
      fun hbroken => InternalState.noConfusion hbroken, hdone⟩
  · exact ⟨h.holds, h.intact, trivial, hconserved, h.sorted, h.pushed, fun hne => absurd rfl hne,
      h.healthy, hdone⟩

/-- The drain ends after everything of its cycle was forwarded. -/
def Drained (m : MonitorIfDaemon (RingBuffer Nat) Nat) (tr : Traffic) : Prop :=
  ∃ sync, m.point.sync? = some sync ∧
    ∀ i t : Nat, tr.written[i]? = some t → t ≤ sync → i < tr.forwarded.length

/-- As many steps are left of a drain at most, as long as nothing is written. -/
def left (m : MonitorIfDaemon (RingBuffer Nat) Nat) : Nat :=
  match m.point with
  | .idle => 0
  | .pop _ => 5 * m.channel.size + 1
  | .push _ _ => 5 * m.channel.size + 2
  | .compare _ _ => 5 * m.channel.size + 3
  | .peek _ => 5 * m.channel.size + 4
  | .empty _ => 5 * m.channel.size + 5

/-- The drain goes on towards its end, or it ends and is recorded. -/
structure Next (m m' : MonitorIfDaemon (RingBuffer Nat) Nat) (tr : Traffic) : Prop where
  flow : ∃ content, Flow m' (Traffic.note m .advance m' tr) content
  drained : m'.point = .idle → Drained m tr
  ended : m'.point = .idle → ∀ sync, m.point.sync? = some sync →
    (Traffic.note m .advance m' tr).drains = tr.drains ++ [(sync, tr.written.length)]
  ongoing : m'.point ≠ .idle → left m' < left m ∧ m'.point.sync? = m.point.sync? ∧
    (Traffic.note m .advance m' tr).drains = tr.drains ∧
    (Traffic.note m .advance m' tr).written = tr.written

theorem next_of_goOn {tr' : Traffic} (h : Flow m' tr' content)
    (hnote : Traffic.note m .advance m' tr = tr') (hpoint : m'.point ≠ .idle)
    (hleft : left m' < left m) (hsync : m'.point.sync? = m.point.sync?)
    (hkept : tr'.drains = tr.drains ∧ tr'.written = tr.written) : Next m m' tr := by
  have hidle : m'.point = .idle → False := fun hidle => hpoint hidle
  subst hnote
  exact ⟨⟨content, h⟩, fun hi => (hidle hi).elim, fun hi => (hidle hi).elim,
    fun _ => ⟨hleft, hsync, hkept⟩⟩

theorem point_finishRead (m : MonitorIfDaemon (RingBuffer Nat) Nat) (success : Bool) :
    (m.finishRead success).point = .idle := by
  unfold finishRead
  split
  · rfl
  · split <;> rfl

theorem next_of_stop (h : Flow m tr content) (hsync : m.point.sync? = some sync)
    (hkeep : unforwarded m.point content = content) (hlater : ∀ x ∈ content, sync < x)
    (hnote : Traffic.note m .advance (m.finishRead true) tr =
      { tr with drains := tr.drains ++ [(sync, tr.written.length)] }) :
    Next m (m.finishRead true) tr := by
  refine ⟨⟨content, ?_⟩, fun _ => ⟨sync, hsync, ?_⟩, fun _ sync' hsync' => ?_,
    fun hne => absurd (point_finishRead m true) hne⟩
  · rw [hnote]
    exact h.finish hsync hkeep hlater
  · intro i t ht hle
    exact h.forwarded_all hkeep hlater ht hle
  · cases hsync.symm.trans hsync'
    rw [hnote]

theorem advance_empty (h : Flow { m with point := .empty sync } tr content)
    (hstep : { m with point := .empty sync }.advance ringChannel = some m') :
    Next { m with point := .empty sync } m' tr := by
  cases content with
  | nil =>
    have hempty : ringChannel.empty m.channel = true := beq_iff_eq.mpr h.holds.size
    simp only [MonitorIfDaemon.advance, hempty, if_true] at hstep
    cases hstep
    exact h.next_of_stop rfl rfl (by simp) (by simp [Traffic.note, point_finishRead])
  | cons x rest =>
    have hempty : ringChannel.empty m.channel = false := h.holds.not_empty
    simp only [MonitorIfDaemon.advance, hempty, if_false, Bool.false_eq_true] at hstep
    cases hstep
    exact next_of_goOn (h.moved (.peek sync) (h.reading nofun) (cons_ne_nil x rest) rfl rfl)
      rfl nofun (Nat.lt_succ_self _) rfl ⟨rfl, rfl⟩

theorem advance_peek (h : Flow { m with point := .peek sync } tr content)
    (hstep : { m with point := .peek sync }.advance ringChannel = some m') :
    Next { m with point := .peek sync } m' tr := by
  cases content with
  | nil => exact absurd rfl h.located
  | cons x rest =>
    have hpeek : ringChannel.tryPeek m.channel = some m.channel.readHead :=
      congrArg (Option.map fun _ => m.channel.readHead) h.holds.tryPeek_cons
    simp only [MonitorIfDaemon.advance, hpeek] at hstep
    cases hstep
    exact next_of_goOn (h.moved (.compare sync m.channel.readHead) (h.reading nofun)
      ⟨rfl, cons_ne_nil x rest⟩ rfl rfl) rfl nofun (Nat.lt_succ_self _) rfl ⟨rfl, rfl⟩

theorem advance_compare (h : Flow { m with point := .compare sync elem } tr content)
    (hstep : { m with point := .compare sync elem }.advance ringChannel = some m') :
    Next { m with point := .compare sync elem } m' tr := by
  obtain ⟨(rfl : elem = m.channel.readHead), hne⟩ := h.located
  cases content with
  | nil => exact absurd rfl hne
  | cons x rest =>
    have htime : ringChannel.timestamp m.channel m.channel.readHead = x :=
      h.holds.timestamp_readHead
    simp only [MonitorIfDaemon.advance, htime] at hstep
    split at hstep <;> cases hstep
    · next hle =>
      exact next_of_goOn (h.moved (.push sync m.channel.readHead) (h.reading nofun)
        ⟨rfl, x, rest, rfl, hle⟩ rfl rfl) rfl nofun (Nat.lt_succ_self _) rfl ⟨rfl, rfl⟩
    · next hlate =>
      have hsorted : (x :: rest).Pairwise (· ≤ ·) :=
        (pairwise_append.mp (h.conserved ▸ h.sorted)).2.1
      refine h.next_of_stop rfl rfl ?_ (by simp [Traffic.note, point_finishRead])
      intro y hy
      rcases mem_cons.mp hy with rfl | hy
      · exact Nat.not_le.mp hlate
      · exact Nat.lt_of_lt_of_le (Nat.not_le.mp hlate) (rel_of_pairwise_cons hsorted hy)

theorem advance_push (h : Flow { m with point := .push sync elem } tr content)
    (hstep : { m with point := .push sync elem }.advance ringChannel = some m') :
    Next { m with point := .push sync elem } m' tr := by
  obtain ⟨(rfl : elem = m.channel.readHead), x, rest, rfl, hle⟩ := h.located
  have htime : ringChannel.timestamp m.channel m.channel.readHead = x := h.holds.timestamp_readHead
  simp only [MonitorIfDaemon.advance, htime] at hstep
  cases hstep
  have hnext : tr.written[tr.forwarded.length]? = some x := by
    rw [h.conserved]
    simp [unforwarded]
  have hforwarded : Flow { m with pushed := .checkpoint x :: m.pushed, point := .pop sync }
      { tr with forwarded := tr.forwarded ++ [(x, tr.drains.length)] } (x :: rest) :=
    ⟨h.holds, h.intact, cons_ne_nil x rest, by simpa [unforwarded] using h.conserved, h.sorted,
      by simpa using h.pushed, fun _ => h.reading nofun, h.healthy, h.assigned.forward hnext hle⟩
  exact next_of_goOn hforwarded (by simp [Traffic.note, htime]) nofun (Nat.lt_succ_self _) rfl
    ⟨rfl, rfl⟩

theorem advance_pop (h : Flow { m with point := .pop sync } tr content)
    (hstep : { m with point := .pop sync }.advance ringChannel = some m') :
    Next { m with point := .pop sync } m' tr := by
  cases content with
  | nil => exact absurd rfl h.located
  | cons x rest =>
    obtain ⟨hok, hholds⟩ := h.holds.tryPop_cons
    have hpop : ringChannel.tryPop m.channel = (m.channel.tryPop.1, true) := Prod.ext rfl hok
    have hintact : m.channel.tryPop.1.overflowFlag = false := by
      rw [← h.intact, RingBuffer.tryPop]
      split <;> rfl
    simp only [MonitorIfDaemon.advance, hpop] at hstep
    cases hstep
    have hpopped : Flow { m with channel := m.channel.tryPop.1, point := .empty sync } tr rest :=
      { h with
        holds := hholds, intact := hintact, located := trivial
        reading := fun _ => h.reading (by rintro ⟨⟩) }
    refine next_of_goOn hpopped rfl (by rintro ⟨⟩) ?_ rfl ⟨rfl, rfl⟩
    have hsize : m.channel.size = rest.length + 1 := h.holds.size
    have hsize' : m.channel.tryPop.1.size = rest.length := hholds.size
    simp only [left]
    omega

theorem advance (h : Flow m tr content) (hstep : m.advance ringChannel = some m') :
    Next m m' tr := by
  have hm : ∀ p, m.point = p → { m with point := p } = m := by
    rintro _ rfl
    rfl
  cases hpoint : m.point with
  | idle => exact absurd hpoint (advance_cases hstep).1
  | empty =>
    rw [← hm _ hpoint] at h hstep ⊢
    exact advance_empty h hstep
  | peek =>
    rw [← hm _ hpoint] at h hstep ⊢
    exact advance_peek h hstep
  | compare =>
    rw [← hm _ hpoint] at h hstep ⊢
    exact advance_compare h hstep
  | push =>
    rw [← hm _ hpoint] at h hstep ⊢
    exact advance_push h hstep
  | pop =>
    rw [← hm _ hpoint] at h hstep ⊢
    exact advance_pop h hstep

theorem step {a : Act Nat} (h : Flow m tr content) (horderly : Orderly (m, tr) a)
    (hstep : m.step ringChannel a = some m') :
    ∃ content', Flow m' (Traffic.note m a m' tr) content' := by
  cases a with
  | updateData eventType =>
    simp only [MonitorIfDaemon.step] at hstep
    split at hstep
    · cases hstep
      exact ⟨content, h.updateData eventType⟩
    · cases hstep
  | checkForNewData sync =>
    simp only [MonitorIfDaemon.step] at hstep
    split at hstep
    · rename_i hidle
      cases hstep
      exact ⟨content, h.checkForNewData hidle sync⟩
    · cases hstep
  | advance => exact (h.advance hstep).flow
  | outside t =>
    cases hstep
    exact ⟨_, h.outside horderly.1 horderly.2⟩

theorem deactivated {a : Act Nat} (h : Flow m tr content) (hstep : m.step ringChannel a = some m')
    (hactive : m.status = .active) (hleft : m'.status ≠ .active) :
    m'.status = .inactive ∧ Drained m tr := by
  cases a with
  | updateData eventType =>
    simp only [MonitorIfDaemon.step] at hstep
    split at hstep
    · cases hstep
      cases eventType <;> exact absurd hactive hleft
    · cases hstep
  | checkForNewData sync =>
    simp only [MonitorIfDaemon.step] at hstep
    split at hstep
    · cases hstep
      have hawake : m.activateIfRequested = m := if_neg (by simp [hactive])
      have hintact : ringChannel.hasOverflow m.channel = false := h.intact
      simp only [MonitorIfDaemon.checkForNewData, hawake, hactive, hintact, Bool.false_eq_true,
        if_false] at hleft
      exact absurd rfl hleft
    · cases hstep
  | advance =>
    obtain ⟨⟨content', hflow⟩, hdrained, -⟩ := h.advance hstep
    have hinactive : m'.status = .inactive := by
      cases hstatus : m'.status with
      | active => exact absurd hstatus hleft
      | inactive => rfl
      | inactiveOverflow => exact absurd hstatus hflow.healthy
    rcases (advance_cases hstep).2 with ⟨channel, point, timestamps, rfl, -⟩ | rfl | ⟨channel, rfl⟩
    · exact absurd hactive hleft
    · exact ⟨hinactive, hdrained (point_finishRead m true)⟩
    · exact ⟨hinactive, hdrained (point_finishRead _ false)⟩
  | outside t =>
    cases hstep
    exact absurd hactive hleft

theorem starts (h : Flow m tr content) (hidle : m.point = .idle)
    (hactive : m.activateIfRequested.status = .active) (sync : Nat) :
    ∃ m', m.step ringChannel (.checkForNewData sync) = some m' ∧ m'.point = .empty sync := by
  have hintact : ringChannel.hasOverflow m.activateIfRequested.channel = false :=
    h.activateIfRequested.intact
  refine ⟨_, by simp only [MonitorIfDaemon.step, hidle]; rfl, ?_⟩
  simp only [MonitorIfDaemon.checkForNewData, hactive, hintact, Bool.false_eq_true, if_false]

theorem ends (h : Flow m tr content) (hsync : m.point.sync? = some sync) :
    ∃ n m' tr', exec (recorded (MonitorIfDaemon.step ringChannel) Traffic.note) Orderly (m, tr)
        (List.replicate n .advance) = some (m', tr') ∧
      m'.point = .idle ∧ tr'.drains = tr.drains ++ [(sync, tr.written.length)] := by
  induction hn : left m using Nat.strong_induction_on generalizing m tr content with
  | _ n ih =>
    obtain ⟨m', hstep⟩ : ∃ m', m.advance ringChannel = some m' := by
      refine advance_isSome ringChannel fun hidle => ?_
      rw [hidle] at hsync
      cases hsync
    have hnext := h.advance hstep
    have hrec : recorded (MonitorIfDaemon.step ringChannel) Traffic.note (m, tr) .advance =
        some (m', Traffic.note m .advance m' tr) :=
      congrArg (Option.map fun t => (t, Traffic.note m .advance t tr)) hstep
    by_cases hidle : m'.point = .idle
    · exact ⟨1, m', _, exec_cons trivial hrec [], hidle, hnext.ended hidle sync hsync⟩
    · obtain ⟨hleft, hsame, hdrains, hwritten⟩ := hnext.ongoing hidle
      obtain ⟨content', hflow⟩ := hnext.flow
      obtain ⟨k, m'', tr'', hexec, hend, hrecorded⟩ :=
        ih _ (hn ▸ hleft) hflow (hsame.trans hsync) rfl
      rw [hdrains, hwritten] at hrecorded
      exact ⟨k + 1, m'', tr'', (exec_cons trivial hrec _).trans hexec, hend, hrecorded⟩

theorem of_run {capacity : Nat} (hcapacity : 0 < capacity)
    (hrun : Run (recorded (MonitorIfDaemon.step ringChannel) Traffic.note) Orderly
      ({ channel := .create capacity }, {}) (m, tr)) : ∃ content, Flow m tr content := by
  refine Run.invariant
    (fun p : MonitorIfDaemon (RingBuffer Nat) Nat × Traffic => ∃ content, Flow p.1 p.2 content)
    ?_ ⟨[], initial hcapacity⟩ hrun
  rintro p q a ⟨content, h⟩ horderly hstep
  obtain ⟨hq, hnote⟩ := Run.of_recorded hstep
  rw [hnote]
  exact h.step horderly hq

end Flow

end MonitorIfDaemon

end LaunchManager
