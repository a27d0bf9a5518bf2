import LaunchManager.Library.Runs
import Mathlib.Data.Finset.Card
import Mathlib.Data.Nat.Bitwise
import Mathlib.Logic.Function.Basic
import Mathlib.Tactic.Linarith

/-!
# The concurrent queue

`MPMCConcurrentQueue` with every access to a shared variable as one step. An
operation that has no ticket yet is one of a number of equal ones, so only their
number matters; an operation that has claimed a ticket is known by it. The
capacity is `2 ^ k`.

The turn of a slot alone keeps the operations on the slot apart, as long as a turn
is not mistaken for one of another lap: the counter has 64 bits. With two slots or
more the turns of fewer than `2 ^ 64` tickets do not wrap; with one slot they do,
and it is the semaphores that keep the tickets within one lap of the turn.
-/

namespace LaunchManager

open Finset Function Option

set_option autoImplicit false

universe u

open Runs

/-- `item` is `none` until the first push replaces the default-constructed item. -/
structure Slot (T : Type u) where
  turn : Nat := 0
  item : Option T := none
deriving DecidableEq

/-- A push that has claimed its slot: it waits for its turn, writes the item, stores the turn and
posts `m_items`. -/
inductive Push (T : Type u) where
  | spinning (item : T)
  | writing (item : T)
  | storing (item : T)
  | posting (item : T)
  | done (item : T) (success : Bool)
deriving DecidableEq

/-- A pop that has claimed its slot: it waits for its turn, moves the item out, stores the turn,
posts `m_spaces` and returns the item, or an error when the post fails. -/
inductive Pop (T : Type u) where
  | spinning
  | reading
  | storing (item : Option T)
  | posting (item : Option T)
  | done (item : Option T)
  | failed
deriving DecidableEq

namespace Push
variable {T : Type u}

def item : Push T → T
  | spinning x | writing x | storing x | posting x | done x _ => x

def Written : Push T → Prop
  | spinning _ | writing _ => False
  | storing _ | posting _ | done _ _ => True

end Push

def Pop.Read {T : Type u} : Pop T → Prop
  | spinning | reading => False
  | storing _ | posting _ | done _ | failed => True

/-- The counters from `pushChecking` to `lateCleared` are the operations that hold a token and no
ticket: before the load of `m_stopped`, after it found the flag clear, and before the token is
given back. A late pop took its token after the flag was set. `stopItems` and `stopSpaces` are the
calls of `stop` before their two posts.

The last five members are history variables: the turns of the slots without a wrap, the tickets
whose token was posted, the results of `pop` and the tickets of late pops. -/
structure MPMCConcurrentQueue (T : Type u) where
  slots : Nat → Slot T := fun _ => {}
  head : Nat := 0
  tail : Nat := 0
  stopped : Bool := false
  items : Nat := 0
  spaces : Nat
  pushChecking : Nat := 0
  pushCleared : Nat := 0
  pushReposting : Nat := 0
  popChecking : Nat := 0
  popCleared : Nat := 0
  popReposting : Nat := 0
  lateChecking : Nat := 0
  lateCleared : Nat := 0
  stopItems : Nat := 0
  stopSpaces : Nat := 0
  pushes : Nat → Option (Push T) := fun _ => none
  pops : Nat → Option (Pop T) := fun _ => none
  turns : Nat → Nat := fun _ => 0
  itemsPosted : Finset Nat := ∅
  spacesPosted : Finset Nat := ∅
  returned : List (Nat × Option T) := []
  lateTickets : List Nat := []

namespace MPMCConcurrentQueue
variable {T : Type u}

def create (k : Nat) : MPMCConcurrentQueue T where
  spaces := 2 ^ k

def wrap (n : Nat) : Nat := n % 2 ^ 64

def index (k ticket : Nat) : Nat := ticket &&& (2 ^ k - 1)

def pushTurn (k ticket : Nat) : Nat := wrap (ticket / 2 ^ k * 2)

def popTurn (k ticket : Nat) : Nat := wrap (wrap (ticket / 2 ^ k * 2) + 1)

/-- `posted` says whether the post of a semaphore succeeds. -/
inductive Act (T : Type u) where
  | pushWait
  | pushCheck
  | pushRepost (posted : Bool)
  | pushClaim (item : T)
  | push (ticket : Nat) (posted : Bool)
  | popWait
  | popCheck
  | lateCheck
  | popRepost (posted : Bool)
  | popClaim
  | lateClaim
  | pop (ticket : Nat) (posted : Bool)
  | stop
  | stopPostItems (posted : Bool)
  | stopPostSpaces (posted : Bool)

section Steps
variable (k : Nat) (moved : T → T) (q : MPMCConcurrentQueue T)

def setPush (ticket : Nat) (p : Push T) : MPMCConcurrentQueue T :=
  { q with pushes := Function.update q.pushes ticket (some p) }

def setPop (ticket : Nat) (p : Pop T) : MPMCConcurrentQueue T :=
  { q with pops := Function.update q.pops ticket (some p) }

def setItem (i : Nat) (x : Option T) : MPMCConcurrentQueue T :=
  { q with slots := Function.update q.slots i { q.slots i with item := x } }

def setTurn (i turn : Nat) : MPMCConcurrentQueue T :=
  { q with
    slots := Function.update q.slots i { q.slots i with turn := turn }
    turns := Function.update q.turns i (q.turns i + 1) }

def stepPush (ticket : Nat) (posted : Bool) : Push T → Option (MPMCConcurrentQueue T)
  | .spinning x =>
    if (q.slots (index k ticket)).turn = pushTurn k ticket then
      some (q.setPush ticket (.writing x))
    else some q
  | .writing x => some ((q.setItem (index k ticket) (some x)).setPush ticket (.storing x))
  | .storing x =>
    some ((q.setTurn (index k ticket) (wrap (pushTurn k ticket + 1))).setPush ticket (.posting x))
  | .posting x =>
    if posted then
      some { q.setPush ticket (.done x true) with
        items := q.items + 1
        itemsPosted := insert ticket q.itemsPosted }
    else some (q.setPush ticket (.done x false))
  | .done _ _ => none

def stepPop (ticket : Nat) (posted : Bool) : Pop T → Option (MPMCConcurrentQueue T)
  | .spinning =>
    if (q.slots (index k ticket)).turn = popTurn k ticket then some (q.setPop ticket .reading)
    else some q
  | .reading =>
    let item := (q.slots (index k ticket)).item
    some ((q.setItem (index k ticket) (item.map moved)).setPop ticket (.storing item))
  | .storing x =>
    some ((q.setTurn (index k ticket) (wrap (popTurn k ticket + 1))).setPop ticket (.posting x))
  | .posting x =>
    if posted then
      some { q.setPop ticket (.done x) with
        spaces := q.spaces + 1
        spacesPosted := insert ticket q.spacesPosted
        returned := (ticket, x) :: q.returned }
    else some (q.setPop ticket .failed)
  | .done _ | .failed => none

def claimTail (x : T) : MPMCConcurrentQueue T :=
  { q.setPush q.tail (.spinning x) with tail := wrap (q.tail + 1) }

def claimHead : MPMCConcurrentQueue T :=
  { q.setPop q.head .spinning with head := wrap (q.head + 1) }

def step : Act T → Option (MPMCConcurrentQueue T)
  | .pushWait =>
    if 0 < q.spaces then
      some { q with spaces := q.spaces - 1, pushChecking := q.pushChecking + 1 }
    else none
  | .pushCheck =>
    if 0 < q.pushChecking then
      if q.stopped then
        some { q with
          pushChecking := q.pushChecking - 1
          pushReposting := q.pushReposting + 1 }
      else some { q with pushChecking := q.pushChecking - 1, pushCleared := q.pushCleared + 1 }
    else none
  | .pushRepost posted =>
    if 0 < q.pushReposting then
      some { q with
        pushReposting := q.pushReposting - 1
        spaces := if posted then q.spaces + 1 else q.spaces }
    else none
  | .pushClaim x =>
    if 0 < q.pushCleared then some { q.claimTail x with pushCleared := q.pushCleared - 1 }
    else none
  | .push ticket posted => (q.pushes ticket).bind (q.stepPush k ticket posted)
  | .popWait =>
    if 0 < q.items then
      if q.stopped then
        some { q with items := q.items - 1, lateChecking := q.lateChecking + 1 }
      else some { q with items := q.items - 1, popChecking := q.popChecking + 1 }
    else none
  | .popCheck =>
    if 0 < q.popChecking then
      if q.stopped then
        some { q with popChecking := q.popChecking - 1, popReposting := q.popReposting + 1 }
      else some { q with popChecking := q.popChecking - 1, popCleared := q.popCleared + 1 }
    else none
  | .lateCheck =>
    if 0 < q.lateChecking then
      if q.stopped then
        some { q with lateChecking := q.lateChecking - 1, popReposting := q.popReposting + 1 }
      else some { q with lateChecking := q.lateChecking - 1, lateCleared := q.lateCleared + 1 }
    else none
  | .popRepost posted =>
    if 0 < q.popReposting then
      some { q with
        popReposting := q.popReposting - 1
        items := if posted then q.items + 1 else q.items }
    else none
  | .popClaim =>
    if 0 < q.popCleared then some { q.claimHead with popCleared := q.popCleared - 1 }
    else none
  | .lateClaim =>
    if 0 < q.lateCleared then
      some { q.claimHead with
        lateCleared := q.lateCleared - 1
        lateTickets := q.head :: q.lateTickets }
    else none
  | .pop ticket posted => (q.pops ticket).bind (q.stepPop k moved ticket posted)
  | .stop => some { q with stopped := true, stopItems := q.stopItems + 1 }
  | .stopPostItems posted =>
    if 0 < q.stopItems then
      if posted then
        some { q with
          stopItems := q.stopItems - 1
          items := q.items + 1
          stopSpaces := q.stopSpaces + 1 }
      else some { q with stopItems := q.stopItems - 1 }
    else none
  | .stopPostSpaces posted =>
    if 0 < q.stopSpaces then
      some { q with
        stopSpaces := q.stopSpaces - 1
        spaces := if posted then q.spaces + 1 else q.spaces }
    else none

end Steps

def fewTickets (q : MPMCConcurrentQueue T) : Act T → Prop
  | .pushClaim _ => q.tail + 1 < 2 ^ 64
  | .popClaim | .lateClaim => q.head + 1 < 2 ^ 64
  | _ => True

instance (q : MPMCConcurrentQueue T) (act : Act T) : Decidable (fewTickets q act) :=
  match act with
  | .pushClaim _ => inferInstanceAs (Decidable (q.tail + 1 < 2 ^ 64))
  | .popClaim | .lateClaim => inferInstanceAs (Decidable (q.head + 1 < 2 ^ 64))
  | .pushWait | .pushCheck | .pushRepost _ | .push _ _ | .popWait | .popCheck | .lateCheck
  | .popRepost _ | .pop _ _ | .stop | .stopPostItems _ | .stopPostSpaces _ => isTrue trivial

theorem index_eq (k t : Nat) : index k t = t % 2 ^ k := Nat.and_two_pow_sub_one_eq_mod t k

theorem eq_of_index_eq {k t t' : Nat} (hi : index k t = index k t')
    (hlap : t / 2 ^ k = t' / 2 ^ k) : t = t' := by
  rw [index_eq, index_eq] at hi
  rw [← Nat.div_add_mod t (2 ^ k), ← Nat.div_add_mod t' (2 ^ k), hi, hlap]

/-! ## Turns -/

/-- What a push can be doing when its slot has the given turn. -/
def PushAt (turn lap : Nat) (item : Option T) : Option (Push T) → Prop
  | none | some (.spinning _) => turn ≤ 2 * lap
  | some (.writing _) => turn = 2 * lap
  | some (.storing x) => turn = 2 * lap ∧ item = some x
  | some (.posting _) | some (.done _ _) => 2 * lap < turn

/-- What a pop can be doing when its slot has the given turn, and what it has read. -/
def PopAt (turn lap : Nat) (item pushed : Option T) : Option (Pop T) → Prop
  | none | some .spinning => turn ≤ 2 * lap + 1 ∧ (turn = 2 * lap + 1 → item = pushed)
  | some .reading => turn = 2 * lap + 1 ∧ item = pushed
  | some (.storing x) => turn = 2 * lap + 1 ∧ x = pushed
  | some (.posting x) | some (.done x) => 2 * lap + 1 < turn ∧ x = pushed
  | some .failed => 2 * lap + 1 < turn

section At
variable {turn lap : Nat} {item item' pushed pushed' : Option T}
variable {push : Option (Push T)} {pop : Option (Pop T)}

theorem PushAt.congr_item (hturn : turn ≠ 2 * lap) (h : PushAt turn lap item push) :
    PushAt turn lap item' push := by
  rcases push with _ | _ | _ | _ | _ | _ <;> simp only [PushAt] at h ⊢ <;> omega

theorem PopAt.congr_item (hturn : turn ≠ 2 * lap + 1) (h : PopAt turn lap item pushed pop) :
    PopAt turn lap item' pushed pop := by
  rcases pop with _ | _ | _ | _ | _ | _ | _ <;> simp only [PopAt] at h ⊢
  case none | some.spinning => exact ⟨h.1, fun heq => by omega⟩
  case some.reading => omega
  all_goals exact h

theorem PushAt.succ (hturn : turn ≠ 2 * lap) (h : PushAt turn lap item push) :
    PushAt (turn + 1) lap item push := by
  rcases push with _ | _ | _ | _ | _ | _ <;> simp only [PushAt] at h ⊢ <;> omega

theorem PopAt.succ (hlap : turn / 2 ≠ lap) (h : PopAt turn lap item pushed pop) :
    PopAt (turn + 1) lap item pushed pop := by
  rcases pop with _ | _ | _ | _ | _ | _ | _ <;> simp only [PopAt] at h ⊢
  case none | some.spinning => exact ⟨by omega, fun heq => by omega⟩
  case some.reading | some.storing => omega
  case some.posting | some.done => exact ⟨by omega, h.2⟩
  case some.failed => omega

theorem PopAt.of_le (hturn : turn ≤ 2 * lap) (h : PopAt turn lap item pushed pop) :
    PopAt turn lap item' pushed' pop := by
  rcases pop with _ | _ | _ | _ | _ | _ | _ <;> simp only [PopAt] at h ⊢
  case none | some.spinning => exact ⟨h.1, fun heq => by omega⟩
  all_goals omega

theorem PopAt.of_store (hturn : turn = 2 * lap) (hitem : item = pushed)
    (h : PopAt turn lap item' pushed' pop) : PopAt (turn + 1) lap item pushed pop := by
  rcases pop with _ | _ | _ | _ | _ | _ | _ <;> simp only [PopAt] at h ⊢
  case none | some.spinning => exact ⟨by omega, fun _ => hitem⟩
  all_goals omega

theorem PushAt.lap_le_of_written {p : Push T} (h : PushAt turn lap item (some p))
    (hp : p.Written) : 2 * lap ≤ turn := by
  cases p <;> simp only [PushAt, Push.Written] at h hp <;> omega

theorem PopAt.read_of_lt (h : PopAt turn lap item pushed pop) (hturn : 2 * lap + 1 < turn) :
    ∃ p, pop = some p ∧ p.Read := by
  rcases pop with _ | _ | _ | _ | _ | _ | _ <;> simp only [PopAt] at h <;>
    first | omega | exact ⟨_, rfl, trivial⟩

theorem PopAt.not_lt_of_not_read (h : PopAt turn lap item pushed pop)
    (hp : ∀ p, pop = some p → ¬ p.Read) : turn ≤ 2 * lap + 1 := by
  by_contra hlt
  obtain ⟨p, hpop, hread⟩ := h.read_of_lt (by omega)
  exact hp p hpop hread

end At

structure Turns (k : Nat) (q : MPMCConcurrentQueue T) : Prop where
  wrapped : ∀ i, (q.slots i).turn = wrap (q.turns i)
  push : ∀ t, PushAt (q.turns (index k t)) (t / 2 ^ k) (q.slots (index k t)).item (q.pushes t)
  pop : ∀ t, PopAt (q.turns (index k t)) (t / 2 ^ k) (q.slots (index k t)).item
    ((q.pushes t).map Push.item) (q.pops t)

section Turns
variable {k : Nat} {q q' : MPMCConcurrentQueue T}

theorem Turns.of_slots_eq (h : Turns k q) (t : Nat) (hslots : q'.slots = q.slots)
    (hturns : q'.turns = q.turns) (hpushes : ∀ t' ≠ t, q'.pushes t' = q.pushes t')
    (hpops : ∀ t' ≠ t, q'.pops t' = q.pops t')
    (hpush : PushAt (q.turns (index k t)) (t / 2 ^ k) (q.slots (index k t)).item (q'.pushes t))
    (hpop : PopAt (q.turns (index k t)) (t / 2 ^ k) (q.slots (index k t)).item
      ((q'.pushes t).map Push.item) (q'.pops t)) : Turns k q' := by
  refine ⟨fun i => ?_, fun t' => ?_, fun t' => ?_⟩
  · rw [hslots, hturns]
    exact h.wrapped i
  · rw [hslots, hturns]
    by_cases ht : t' = t
    · subst ht
      exact hpush
    · rw [hpushes t' ht]
      exact h.push t'
  · rw [hslots, hturns]
    by_cases ht : t' = t
    · subst ht
      exact hpop
    · rw [hpushes t' ht, hpops t' ht]
      exact h.pop t'

/-- A step on a slot in the lap of its ticket leaves the operations of the other tickets alone. -/
theorem Turns.of_lap (h : Turns k q) (t : Nat) (hlap : q.turns (index k t) / 2 = t / 2 ^ k)
    (hslots : ∀ i ≠ index k t, q'.slots i = q.slots i)
    (hturns : ∀ i ≠ index k t, q'.turns i = q.turns i)
    (hpushes : ∀ t' ≠ t, q'.pushes t' = q.pushes t') (hpops : ∀ t' ≠ t, q'.pops t' = q.pops t')
    (hturn : q'.turns (index k t) = q.turns (index k t) ∨
      q'.turns (index k t) = q.turns (index k t) + 1)
    (hwrapped : (q'.slots (index k t)).turn = wrap (q'.turns (index k t)))
    (hpush : PushAt (q'.turns (index k t)) (t / 2 ^ k) (q'.slots (index k t)).item (q'.pushes t))
    (hpop : PopAt (q'.turns (index k t)) (t / 2 ^ k) (q'.slots (index k t)).item
      ((q'.pushes t).map Push.item) (q'.pops t)) : Turns k q' := by
  have other : ∀ t' ≠ t, index k t' = index k t → q.turns (index k t) / 2 ≠ t' / 2 ^ k :=
    fun t' ht hi heq => ht (eq_of_index_eq hi (by rw [← heq, hlap]))
  refine ⟨fun i => ?_, fun t' => ?_, fun t' => ?_⟩
  · by_cases hi : i = index k t
    · rw [hi]
      exact hwrapped
    · rw [hslots i hi, hturns i hi]
      exact h.wrapped i
  · by_cases ht : t' = t
    · subst ht
      exact hpush
    · have := h.push t'
      rw [hpushes t' ht]
      by_cases hi : index k t' = index k t
      · rw [hi] at this ⊢
        have hne := other t' ht hi
        rcases hturn with hturn | hturn <;> rw [hturn]
        · exact this.congr_item (by omega)
        · exact PushAt.succ (by omega) (this.congr_item (by omega))
      · rw [hslots _ hi, hturns _ hi]
        exact this
  · by_cases ht : t' = t
    · subst ht
      exact hpop
    · have := h.pop t'
      rw [hpushes t' ht, hpops t' ht]
      by_cases hi : index k t' = index k t
      · rw [hi] at this ⊢
        have hne := other t' ht hi
        rcases hturn with hturn | hturn <;> rw [hturn]
        · exact this.congr_item (by omega)
        · exact PopAt.succ hne (this.congr_item (by omega))
      · rw [hslots _ hi, hturns _ hi]
        exact this

end Turns

/-! ## Tickets and tokens -/

structure Tickets (q : MPMCConcurrentQueue T) : Prop where
  tail_lt : q.tail < 2 ^ 64
  head_lt : q.head < 2 ^ 64
  pushes : ∀ t, q.pushes t = none ↔ q.tail ≤ t
  pops : ∀ t, q.pops t = none ↔ q.head ≤ t
  itemsPosted : ∀ t ∈ q.itemsPosted, ∃ x, q.pushes t = some (.done x true)
  spacesPosted : ∀ t ∈ q.spacesPosted, ∃ x, q.pops t = some (.done x)
  returned : ∀ r ∈ q.returned, q.pops r.1 = some (.done r.2)
  nodup : (q.returned.map Prod.fst).Nodup

/-- Every ticket has had a token. The tokens that `stop` adds, and those that come back after it,
are taken only by operations that find the flag set. -/
structure Tokens (k : Nat) (q : MPMCConcurrentQueue T) : Prop where
  tail_le : q.tail + q.pushCleared ≤ 2 ^ k + q.spacesPosted.card
  head_le : q.head + q.popCleared ≤ q.itemsPosted.card
  spaces_le : q.stopped = false →
    q.spaces + q.pushChecking + q.pushCleared + q.pushReposting + q.stopItems + q.stopSpaces +
      q.tail ≤ 2 ^ k + q.spacesPosted.card
  items_le : q.stopped = false →
    q.items + q.popChecking + q.popCleared + q.popReposting + q.stopItems + q.head ≤
      q.itemsPosted.card
  lateChecking : q.stopped = false → q.lateChecking = 0
  lateCleared : q.lateCleared = 0
  lateTickets : q.lateTickets = []

structure Consistent (k : Nat) (q : MPMCConcurrentQueue T) : Prop where
  turns : Turns k q
  tickets : Tickets q
  tokens : Tokens k q

theorem consistent_create (k : Nat) : Consistent k (create k : MPMCConcurrentQueue T) where
  turns := ⟨fun _ => rfl, fun _ => Nat.zero_le _, fun _ => ⟨Nat.zero_le _, fun h => by
    simp [create] at h⟩⟩
  tickets :=
    { tail_lt := Nat.two_pow_pos 64
      head_lt := Nat.two_pow_pos 64
      pushes := fun _ => ⟨fun _ => Nat.zero_le _, fun _ => rfl⟩
      pops := fun _ => ⟨fun _ => Nat.zero_le _, fun _ => rfl⟩
      itemsPosted := fun _ h => by simp [create] at h
      spacesPosted := fun _ h => by simp [create] at h
      returned := fun _ h => by simp [create] at h
      nodup := List.nodup_nil }
  tokens := ⟨by simp [create], by simp [create], by simp [create], by simp [create],
    fun _ => rfl, rfl, rfl⟩

section Claims
variable {k : Nat} {q q' : MPMCConcurrentQueue T}

theorem Turns.setPush (h : Turns k q) {t : Nat} {p : Push T}
    (hpush : PushAt (q.turns (index k t)) (t / 2 ^ k) (q.slots (index k t)).item (some p))
    (hitem : (q.pushes t).map Push.item = some p.item ∨ q.turns (index k t) ≤ 2 * (t / 2 ^ k)) :
    Turns k (q.setPush t p) := by
  refine h.of_slots_eq t rfl rfl (fun t' ht => update_of_ne ht _ _) (fun _ _ => rfl) ?_ ?_
  · simpa only [MPMCConcurrentQueue.setPush, update_self] using hpush
  · simp only [MPMCConcurrentQueue.setPush, update_self, map_some]
    rcases hitem with hitem | hle
    · rw [← hitem]
      exact h.pop t
    · exact (h.pop t).of_le hle

theorem Turns.setPop (h : Turns k q) {t : Nat} {p : Pop T}
    (hpop : PopAt (q.turns (index k t)) (t / 2 ^ k) (q.slots (index k t)).item
      ((q.pushes t).map Push.item) (some p)) : Turns k (q.setPop t p) := by
  refine h.of_slots_eq t rfl rfl (fun _ _ => rfl) (fun t' ht => update_of_ne ht _ _)
    (h.push t) ?_
  simpa only [MPMCConcurrentQueue.setPop, update_self] using hpop

theorem Tickets.setPush (h : Tickets q) {t : Nat} {p p' : Push T} (hp : q.pushes t = some p)
    (hdone : p ≠ .done p.item true) : Tickets (q.setPush t p') where
  tail_lt := h.tail_lt
  head_lt := h.head_lt
  pushes := fun t' => by
    by_cases ht : t' = t
    · subst ht
      simp [MPMCConcurrentQueue.setPush, ← h.pushes, hp]
    · simp [MPMCConcurrentQueue.setPush, update_of_ne ht, h.pushes]
  pops := h.pops
  itemsPosted := fun t' ht' => by
    obtain ⟨x, hx⟩ := h.itemsPosted t' ht'
    have ht : t' ≠ t := by
      rintro rfl
      cases hp.symm.trans hx
      exact hdone rfl
    exact ⟨x, by simpa [MPMCConcurrentQueue.setPush, update_of_ne ht] using hx⟩
  spacesPosted := h.spacesPosted
  returned := h.returned
  nodup := h.nodup

theorem Tickets.setPop (h : Tickets q) {t : Nat} {p p' : Pop T} (hp : q.pops t = some p)
    (hdone : ∀ x, p ≠ .done x) : Tickets (q.setPop t p') := by
  have other : ∀ {t' x}, q.pops t' = some (.done x) →
      (q.setPop t p').pops t' = some (.done x) := by
    intro t' x hx
    have ht : t' ≠ t := by
      rintro rfl
      cases hp.symm.trans hx
      exact hdone x rfl
    simpa [MPMCConcurrentQueue.setPop, update_of_ne ht] using hx
  refine { h with
    pops := fun t' => ?_, spacesPosted := fun t' ht' => ?_
    returned := fun r hr => other (h.returned r hr) }
  · by_cases ht : t' = t
    · subst ht
      simp [MPMCConcurrentQueue.setPop, ← h.pops, hp]
    · simp [MPMCConcurrentQueue.setPop, update_of_ne ht, h.pops]
  · obtain ⟨x, hx⟩ := h.spacesPosted t' ht'
    exact ⟨x, other hx⟩

theorem Tickets.claimTail (h : Tickets q) (hfew : q.tail + 1 < 2 ^ 64) (x : T) :
    Tickets (q.claimTail x) := by
  have hwrap : wrap (q.tail + 1) = q.tail + 1 := Nat.mod_eq_of_lt hfew
  refine { h with tail_lt := ?_, pushes := fun t => ?_, itemsPosted := fun t ht => ?_ }
  · simpa [MPMCConcurrentQueue.claimTail, hwrap] using hfew
  · by_cases ht : t = q.tail
    · simp [MPMCConcurrentQueue.claimTail, MPMCConcurrentQueue.setPush, hwrap, ht]
    · simp only [MPMCConcurrentQueue.claimTail, MPMCConcurrentQueue.setPush,
        update_of_ne ht, h.pushes, hwrap]
      omega
  · obtain ⟨y, hy⟩ := h.itemsPosted t ht
    have hne : t ≠ q.tail := by
      rintro rfl
      cases hy.symm.trans ((h.pushes _).mpr le_rfl)
    exact ⟨y, by
      simpa [MPMCConcurrentQueue.claimTail, MPMCConcurrentQueue.setPush,
        update_of_ne hne] using hy⟩

theorem Tickets.claimHead (h : Tickets q) (hfew : q.head + 1 < 2 ^ 64) : Tickets q.claimHead := by
  have hwrap : wrap (q.head + 1) = q.head + 1 := Nat.mod_eq_of_lt hfew
  have other : ∀ {t x}, q.pops t = some (.done x) → q.claimHead.pops t = some (.done x) := by
    intro t x hx
    have hne : t ≠ q.head := by
      rintro rfl
      cases hx.symm.trans ((h.pops _).mpr le_rfl)
    simpa [MPMCConcurrentQueue.claimHead, MPMCConcurrentQueue.setPop,
      update_of_ne hne] using hx
  refine { h with
    head_lt := ?_, pops := fun t => ?_, spacesPosted := fun t ht => ?_
    returned := fun r hr => other (h.returned r hr) }
  · simpa [MPMCConcurrentQueue.claimHead, hwrap] using hfew
  · by_cases ht : t = q.head
    · simp [MPMCConcurrentQueue.claimHead, MPMCConcurrentQueue.setPop, hwrap, ht]
    · simp only [MPMCConcurrentQueue.claimHead, MPMCConcurrentQueue.setPop,
        update_of_ne ht, h.pops, hwrap]
      omega
  · obtain ⟨y, hy⟩ := h.spacesPosted t ht
    exact ⟨y, other hy⟩

theorem Turns.claimTail (h : Turns k q) (ht : Tickets q) (x : T) : Turns k (q.claimTail x) := by
  have hnone := (ht.pushes q.tail).mpr le_rfl
  have hle : q.turns (index k q.tail) ≤ 2 * (q.tail / 2 ^ k) := by
    have := h.push q.tail
    rwa [hnone] at this
  have := h.setPush (t := q.tail) (p := .spinning x) hle (.inr hle)
  exact ⟨this.wrapped, this.push, this.pop⟩

theorem Turns.claimHead (h : Turns k q) (ht : Tickets q) : Turns k q.claimHead := by
  have hpop := h.pop q.head
  rw [(ht.pops q.head).mpr le_rfl] at hpop
  have := h.setPop (t := q.head) (p := .spinning) hpop
  exact ⟨this.wrapped, this.push, this.pop⟩

end Claims

/-! ## The load of a turn -/

section Load
variable {k : Nat} {q : MPMCConcurrentQueue T}
variable {t : Nat}

theorem lap_lt (ht : t < 2 ^ 64) (hk : k ≠ 0) : 2 * (t / 2 ^ k) + 1 < 2 ^ 64 := by
  have hpow : 2 ^ 1 ≤ 2 ^ k := Nat.pow_le_pow_right (by decide) (by omega)
  have hdiv : t / 2 ^ k ≤ t / 2 ^ 1 := Nat.div_le_div_left hpow (by decide)
  omega

theorem eq_of_wrap_eq {m n : Nat} (hle : m ≤ n) (hn : n < 2 ^ 64) (h : wrap m = wrap n) :
    m = n := by
  unfold wrap at h
  omega

theorem Consistent.tail_le_of_one_slot (h : Consistent 0 q) : q.tail ≤ 1 + q.turns 0 / 2 := by
  have hsub : q.spacesPosted ⊆ Finset.range (q.turns 0 / 2) := fun t ht => by
    obtain ⟨x, hx⟩ := h.tickets.spacesPosted t ht
    have hpop := h.turns.pop t
    simp only [hx, PopAt, index_eq, pow_zero, Nat.mod_one, Nat.div_one] at hpop
    rw [mem_range]
    omega
  have hcard := card_le_card hsub
  have htail := h.tokens.tail_le
  rw [card_range] at hcard
  omega

theorem Consistent.head_le_of_one_slot (h : Consistent 0 q) : q.head ≤ (q.turns 0 + 1) / 2 := by
  have hsub : q.itemsPosted ⊆ Finset.range ((q.turns 0 + 1) / 2) := fun t ht => by
    obtain ⟨x, hx⟩ := h.tickets.itemsPosted t ht
    have hpush := h.turns.push t
    simp only [hx, PushAt, index_eq, pow_zero, Nat.mod_one, Nat.div_one] at hpush
    rw [mem_range]
    omega
  have hcard := card_le_card hsub
  have hhead := h.tokens.head_le
  rw [card_range] at hcard
  omega

theorem Tickets.push_lt (h : Tickets q) {p : Push T} (hp : q.pushes t = some p) : t < q.tail := by
  by_contra hle
  cases hp.symm.trans ((h.pushes t).mpr (by omega))

theorem Tickets.pop_lt (h : Tickets q) {p : Pop T} (hp : q.pops t = some p) : t < q.head := by
  by_contra hle
  cases hp.symm.trans ((h.pops t).mpr (by omega))

theorem Consistent.turn_of_push (h : Consistent k q) {x : T}
    (hp : q.pushes t = some (.spinning x)) (hturn : (q.slots (index k t)).turn = pushTurn k t) :
    q.turns (index k t) = 2 * (t / 2 ^ k) := by
  have hlt := h.tickets.push_lt hp
  have hle := h.turns.push t
  rw [hp, PushAt] at hle
  by_cases hk : k = 0
  · subst hk
    have htail := h.tail_le_of_one_slot
    simp only [index_eq, pow_zero, Nat.mod_one, Nat.div_one] at hle ⊢
    omega
  · have hlap := lap_lt (hlt.trans h.tickets.tail_lt) hk
    rw [h.turns.wrapped, pushTurn, Nat.mul_comm] at hturn
    exact eq_of_wrap_eq hle (by omega) hturn

theorem Consistent.turn_of_pop (h : Consistent k q) (hp : q.pops t = some .spinning)
    (hturn : (q.slots (index k t)).turn = popTurn k t) :
    q.turns (index k t) = 2 * (t / 2 ^ k) + 1 := by
  have hlt := h.tickets.pop_lt hp
  have hle := h.turns.pop t
  rw [hp, PopAt] at hle
  by_cases hk : k = 0
  · subst hk
    have hhead := h.head_le_of_one_slot
    simp only [index_eq, pow_zero, Nat.mod_one, Nat.div_one] at hle ⊢
    omega
  · have hlap := lap_lt (hlt.trans h.tickets.head_lt) hk
    rw [h.turns.wrapped, popTurn, Nat.mul_comm, wrap, wrap, wrap, Nat.mod_add_mod] at hturn
    exact eq_of_wrap_eq hle.1 hlap hturn

end Load

/-! ## Steps -/

section Steps
variable {k : Nat} {moved : T → T} {q q' : MPMCConcurrentQueue T}

theorem wrap_pushTurn_succ (k t : Nat) : wrap (pushTurn k t + 1) = wrap (2 * (t / 2 ^ k) + 1) := by
  unfold pushTurn wrap
  omega

theorem wrap_popTurn_succ (k t : Nat) : wrap (popTurn k t + 1) = wrap (2 * (t / 2 ^ k) + 2) := by
  unfold popTurn wrap
  omega

variable {t : Nat}

theorem Turns.writePush (h : Turns k q) {x : T} (hp : q.pushes t = some (.writing x)) :
    Turns k ((q.setItem (index k t) (some x)).setPush t (.storing x)) := by
  have hturn := h.push t
  rw [hp, PushAt] at hturn
  refine h.of_lap t (by omega) (fun i hi => update_of_ne hi _ _) (fun _ _ => rfl)
    (fun t' ht => update_of_ne ht _ _) (fun _ _ => rfl) (.inl rfl) ?_ ?_ ?_
  · simpa [MPMCConcurrentQueue.setPush, setItem] using h.wrapped (index k t)
  · simpa [MPMCConcurrentQueue.setPush, setItem, PushAt] using hturn
  · exact (h.pop t).of_le hturn.le

theorem Turns.storePush (h : Turns k q) {x : T} (hp : q.pushes t = some (.storing x)) :
    Turns k ((q.setTurn (index k t) (wrap (pushTurn k t + 1))).setPush t (.posting x)) := by
  have hturn := h.push t
  rw [hp, PushAt] at hturn
  refine h.of_lap t (by omega) (fun i hi => update_of_ne hi _ _)
    (fun i hi => update_of_ne hi _ _) (fun t' ht => update_of_ne ht _ _)
    (fun _ _ => rfl) (.inr (update_self _ _ _)) ?_ ?_ ?_
  · simp [MPMCConcurrentQueue.setPush, setTurn, wrap_pushTurn_succ, ← hturn.1]
  · simp [MPMCConcurrentQueue.setPush, setTurn, PushAt, ← hturn.1]
  · have hpop : PopAt (q.turns (index k t) + 1) (t / 2 ^ k) (some x) (some x) (q.pops t) :=
      (h.pop t).of_store hturn.1 rfl
    simpa [MPMCConcurrentQueue.setPush, setTurn, Push.item, hturn.2] using hpop

theorem Turns.readPop (h : Turns k q) (hp : q.pops t = some .reading) :
    Turns k ((q.setItem (index k t) ((q.slots (index k t)).item.map moved)).setPop t
      (.storing (q.slots (index k t)).item)) := by
  have hpop := h.pop t
  rw [hp, PopAt] at hpop
  refine h.of_lap t (by omega) (fun i hi => update_of_ne hi _ _) (fun _ _ => rfl)
    (fun _ _ => rfl) (fun t' ht => update_of_ne ht _ _) (.inl rfl) ?_ ?_ ?_
  · simpa [MPMCConcurrentQueue.setPop, setItem] using h.wrapped (index k t)
  · exact (h.push t).congr_item (by change q.turns (index k t) ≠ _; omega)
  · simpa [MPMCConcurrentQueue.setPop, setItem, PopAt] using hpop

theorem Turns.storePop (h : Turns k q) {x : Option T} (hp : q.pops t = some (.storing x)) :
    Turns k ((q.setTurn (index k t) (wrap (popTurn k t + 1))).setPop t (.posting x)) := by
  have hpop := h.pop t
  rw [hp, PopAt] at hpop
  refine h.of_lap t (by omega) (fun i hi => update_of_ne hi _ _)
    (fun i hi => update_of_ne hi _ _) (fun _ _ => rfl)
    (fun t' ht => update_of_ne ht _ _) (.inr (update_self _ _ _)) ?_ ?_ ?_
  · simp [MPMCConcurrentQueue.setPop, setTurn, wrap_popTurn_succ, hpop.1]
  · have hpush := PushAt.succ (by omega) (h.push t)
    simpa [MPMCConcurrentQueue.setPop, setTurn] using hpush
  · simpa [MPMCConcurrentQueue.setPop, setTurn, PopAt, hpop.1] using hpop.2

theorem Consistent.stepPush (h : Consistent k q) {t : Nat} {posted : Bool} {p : Push T}
    (hp : q.pushes t = some p) (hstep : q.stepPush k t posted p = some q') : Consistent k q' := by
  have hitem : (q.pushes t).map Push.item = some p.item := by rw [hp, map_some]
  have hpush := h.turns.push t
  rw [hp] at hpush
  cases p with
  | spinning x =>
    simp only [MPMCConcurrentQueue.stepPush] at hstep
    split at hstep <;> cases hstep
    · rename_i hturn
      exact ⟨h.turns.setPush (h.turn_of_push hp hturn) (.inl hitem),
        h.tickets.setPush hp nofun, { h.tokens with }⟩
    · exact h
  | writing x =>
    cases hstep
    have htickets : Tickets (q.setItem (index k t) (some x)) := { h.tickets with }
    exact ⟨h.turns.writePush hp, htickets.setPush hp nofun, { h.tokens with }⟩
  | storing x =>
    cases hstep
    have htickets : Tickets (q.setTurn (index k t) (wrap (pushTurn k t + 1))) :=
      { h.tickets with }
    exact ⟨h.turns.storePush hp, htickets.setPush hp nofun, { h.tokens with }⟩
  | posting x =>
    simp only [MPMCConcurrentQueue.stepPush] at hstep
    split at hstep <;> cases hstep
    · have hturns := h.turns.setPush (p := .done x true) hpush (.inl hitem)
      have htickets : Tickets (q.setPush t (.done x true)) := h.tickets.setPush hp nofun
      have hnew : t ∉ q.itemsPosted := fun hmem => by
        obtain ⟨y, hy⟩ := h.tickets.itemsPosted t hmem
        cases hp.symm.trans hy
      have hcard := card_insert_of_notMem hnew
      refine ⟨{ hturns with }, { htickets with itemsPosted := fun t' ht' => ?_ },
        { h.tokens with head_le := ?_, items_le := fun hstop => ?_ }⟩
      · rcases mem_insert.mp ht' with rfl | ht'
        · exact ⟨x, update_self _ _ _⟩
        · exact htickets.itemsPosted t' ht'
      · have := h.tokens.head_le
        change q.head + q.popCleared ≤ (insert t q.itemsPosted).card
        omega
      · have := h.tokens.items_le hstop
        change q.items + 1 + q.popChecking + q.popCleared + q.popReposting + q.stopItems + q.head ≤
          (insert t q.itemsPosted).card
        omega
    · exact ⟨h.turns.setPush hpush (.inl hitem), h.tickets.setPush hp nofun, { h.tokens with }⟩
  | done => cases hstep

theorem Consistent.stepPop (h : Consistent k q) {t : Nat} {posted : Bool} {p : Pop T}
    (hp : q.pops t = some p) (hstep : q.stepPop k moved t posted p = some q') :
    Consistent k q' := by
  have hpop := h.turns.pop t
  rw [hp] at hpop
  cases p with
  | spinning =>
    simp only [MPMCConcurrentQueue.stepPop] at hstep
    split at hstep <;> cases hstep
    · rename_i hturn
      have hlap := h.turn_of_pop hp hturn
      exact ⟨h.turns.setPop ⟨hlap, hpop.2 hlap⟩, h.tickets.setPop hp nofun, { h.tokens with }⟩
    · exact h
  | reading =>
    cases hstep
    have htickets : Tickets (q.setItem (index k t) ((q.slots (index k t)).item.map moved)) :=
      { h.tickets with }
    exact ⟨h.turns.readPop hp, htickets.setPop hp nofun, { h.tokens with }⟩
  | storing x =>
    cases hstep
    have htickets : Tickets (q.setTurn (index k t) (wrap (popTurn k t + 1))) :=
      { h.tickets with }
    exact ⟨h.turns.storePop hp, htickets.setPop hp nofun, { h.tokens with }⟩
  | posting x =>
    simp only [MPMCConcurrentQueue.stepPop] at hstep
    split at hstep <;> cases hstep
    · have hturns := h.turns.setPop (p := .done x) hpop
      have htickets : Tickets (q.setPop t (.done x)) := h.tickets.setPop hp nofun
      have hnew : t ∉ q.spacesPosted := fun hmem => by
        obtain ⟨y, hy⟩ := h.tickets.spacesPosted t hmem
        cases hp.symm.trans hy
      have hreturned : t ∉ q.returned.map Prod.fst := fun hmem => by
        obtain ⟨r, hr, rfl⟩ := List.mem_map.mp hmem
        cases hp.symm.trans (h.tickets.returned r hr)
      have hcard := card_insert_of_notMem hnew
      refine ⟨{ hturns with }, { htickets with
          spacesPosted := fun t' ht' => ?_
          returned := fun r hr => ?_
          nodup := List.nodup_cons.mpr ⟨hreturned, h.tickets.nodup⟩ },
        { h.tokens with tail_le := ?_, spaces_le := fun hstop => ?_ }⟩
      · rcases mem_insert.mp ht' with rfl | ht'
        · exact ⟨x, update_self _ _ _⟩
        · exact htickets.spacesPosted t' ht'
      · rcases List.mem_cons.mp hr with rfl | hr
        · exact update_self _ _ _
        · exact htickets.returned r hr
      · have := h.tokens.tail_le
        change q.tail + q.pushCleared ≤ 2 ^ k + (insert t q.spacesPosted).card
        omega
      · have := h.tokens.spaces_le hstop
        change q.spaces + 1 + q.pushChecking + q.pushCleared + q.pushReposting + q.stopItems +
          q.stopSpaces + q.tail ≤ 2 ^ k + (insert t q.spacesPosted).card
        omega
    · exact ⟨h.turns.setPop hpop.1, h.tickets.setPop hp nofun, { h.tokens with }⟩
  | done | failed => cases hstep

theorem Consistent.claimTail (h : Consistent k q) (hfew : q.tail + 1 < 2 ^ 64)
    (hcleared : 0 < q.pushCleared) (x : T) :
    Consistent k { q.claimTail x with pushCleared := q.pushCleared - 1 } := by
  have hwrap : wrap (q.tail + 1) = q.tail + 1 := Nat.mod_eq_of_lt hfew
  refine ⟨{ h.turns.claimTail h.tickets x with }, { h.tickets.claimTail hfew x with },
    { h.tokens with tail_le := ?_, spaces_le := fun hstop => ?_ }⟩
  · have := h.tokens.tail_le
    change wrap (q.tail + 1) + (q.pushCleared - 1) ≤ 2 ^ k + q.spacesPosted.card
    omega
  · have := h.tokens.spaces_le hstop
    change q.spaces + q.pushChecking + (q.pushCleared - 1) + q.pushReposting + q.stopItems +
      q.stopSpaces + wrap (q.tail + 1) ≤ 2 ^ k + q.spacesPosted.card
    omega

theorem Consistent.claimHead (h : Consistent k q) (hfew : q.head + 1 < 2 ^ 64)
    (hcleared : 0 < q.popCleared) :
    Consistent k { q.claimHead with popCleared := q.popCleared - 1 } := by
  have hwrap : wrap (q.head + 1) = q.head + 1 := Nat.mod_eq_of_lt hfew
  refine ⟨{ h.turns.claimHead h.tickets with }, { h.tickets.claimHead hfew with },
    { h.tokens with head_le := ?_, items_le := fun hstop => ?_ }⟩
  · have := h.tokens.head_le
    change wrap (q.head + 1) + (q.popCleared - 1) ≤ q.itemsPosted.card
    omega
  · have := h.tokens.items_le hstop
    change q.items + q.popChecking + (q.popCleared - 1) + q.popReposting + q.stopItems +
      wrap (q.head + 1) ≤ q.itemsPosted.card
    omega

def Act.Unticketed : Act T → Prop
  | .push _ _ | .pop _ _ | .pushClaim _ | .popClaim | .lateClaim => False
  | _ => True

/-- Before `stop` a step without a ticket moves a token or loses one. Afterwards it clears
nobody. -/
theorem Tokens.step {act : Act T} (h : Tokens k q) (hact : act.Unticketed)
    (hstep : q.step k moved act = some q') : Tokens k q' := by
  cases act with
  | push t posted | pop t posted | pushClaim x | popClaim | lateClaim => exact hact.elim
  | pushWait =>
    obtain ⟨hpos, hq⟩ := ite_none_right_eq_some.mp hstep
    cases hq
    refine { h with spaces_le := fun hstop => ?_ }
    have := h.spaces_le hstop
    dsimp only
    omega
  | pushCheck =>
    obtain ⟨hpos, hq⟩ := ite_none_right_eq_some.mp hstep
    split at hq <;> cases hq
    · refine { h with spaces_le := fun hstop => ?_ }
      have := h.spaces_le hstop
      dsimp only
      omega
    · next hstop =>
      -- the token of a push that is cleared was counted before `stop`
      have := h.spaces_le (Bool.eq_false_iff.mpr hstop)
      refine { h with tail_le := ?_, spaces_le := fun _ => ?_ } <;> dsimp only <;> omega
  | pushRepost posted | stopPostSpaces posted =>
    obtain ⟨hpos, hq⟩ := ite_none_right_eq_some.mp hstep
    cases hq
    refine { h with spaces_le := fun hstop => ?_ }
    have := h.spaces_le hstop
    dsimp only
    split <;> omega
  | popWait =>
    obtain ⟨hpos, hq⟩ := ite_none_right_eq_some.mp hstep
    split at hq <;> cases hq
    · next hstopped =>
      exact { h with
        items_le := fun hstop => absurd hstopped (Bool.eq_false_iff.mp hstop)
        lateChecking := fun hstop => absurd hstopped (Bool.eq_false_iff.mp hstop) }
    · refine { h with items_le := fun hstop => ?_ }
      have := h.items_le hstop
      dsimp only
      omega
  | popCheck =>
    obtain ⟨hpos, hq⟩ := ite_none_right_eq_some.mp hstep
    split at hq <;> cases hq
    · refine { h with items_le := fun hstop => ?_ }
      have := h.items_le hstop
      dsimp only
      omega
    · next hstop =>
      have := h.items_le (Bool.eq_false_iff.mpr hstop)
      refine { h with head_le := ?_, items_le := fun _ => ?_ } <;> dsimp only <;> omega
  | lateCheck =>
    obtain ⟨hpos, hq⟩ := ite_none_right_eq_some.mp hstep
    split at hq <;> cases hq
    · next hstopped =>
      exact { h with
        items_le := fun hstop => absurd hstopped (Bool.eq_false_iff.mp hstop)
        lateChecking := fun hstop => absurd hstopped (Bool.eq_false_iff.mp hstop) }
    · next hstop => exact absurd (h.lateChecking (Bool.eq_false_iff.mpr hstop)) hpos.ne'
  | popRepost posted =>
    obtain ⟨hpos, hq⟩ := ite_none_right_eq_some.mp hstep
    cases hq
    refine { h with items_le := fun hstop => ?_ }
    have := h.items_le hstop
    dsimp only
    split <;> omega
  | stop =>
    cases hstep
    exact { h with spaces_le := nofun, items_le := nofun, lateChecking := nofun }
  | stopPostItems posted =>
    obtain ⟨hpos, hq⟩ := ite_none_right_eq_some.mp hstep
    split at hq <;> cases hq <;>
      refine { h with spaces_le := fun hstop => ?_, items_le := fun hstop => ?_ }
    all_goals
      have := h.spaces_le hstop
      have := h.items_le hstop
      dsimp only
      omega

theorem Consistent.stepUnticketed {act : Act T} (h : Consistent k q) (hact : act.Unticketed)
    (hstep : q.step k moved act = some q') : Consistent k q' := by
  have htokens := h.tokens.step hact hstep
  cases act <;> simp only [MPMCConcurrentQueue.step] at hstep <;> try exact hact.elim
  case stop =>
    cases hstep
    exact ⟨{ h.turns with }, { h.tickets with }, htokens⟩
  all_goals
    split_ifs at hstep <;> cases hstep <;>
      exact ⟨{ h.turns with }, { h.tickets with }, htokens⟩

theorem Consistent.step {act : Act T} (h : Consistent k q) (hfew : fewTickets q act)
    (hstep : q.step k moved act = some q') : Consistent k q' := by
  cases act with
  | push t posted =>
    obtain ⟨p, hp, hstep⟩ := bind_eq_some_iff.mp hstep
    exact h.stepPush hp hstep
  | pop t posted =>
    obtain ⟨p, hp, hstep⟩ := bind_eq_some_iff.mp hstep
    exact h.stepPop hp hstep
  | pushClaim x =>
    simp only [MPMCConcurrentQueue.step] at hstep
    split at hstep <;> cases hstep
    exact h.claimTail hfew ‹_› x
  | popClaim =>
    simp only [MPMCConcurrentQueue.step] at hstep
    split at hstep <;> cases hstep
    exact h.claimHead hfew ‹_›
  | lateClaim =>
    -- no late pop is cleared
    simp [MPMCConcurrentQueue.step, h.tokens.lateCleared] at hstep
  | _ =>
    refine h.stepUnticketed ?_ hstep
    trivial

theorem Consistent.of_run (run : Run (MPMCConcurrentQueue.step k moved) fewTickets (create k) q) :
    Consistent k q :=
  run.invariant (Consistent k) (fun h hfew hstep => h.step hfew hstep) (consistent_create k)

end Steps

/-! ## The queue -/

section Results
variable {k : Nat} {q : MPMCConcurrentQueue T}

def Written (q : MPMCConcurrentQueue T) (t : Nat) : Prop := ∃ p, q.pushes t = some p ∧ p.Written

def Read (q : MPMCConcurrentQueue T) (t : Nat) : Prop := ∃ p, q.pops t = some p ∧ p.Read

variable {t : Nat}

theorem Consistent.returned_pushed (h : Consistent k q) {y : Option T}
    (hr : (t, y) ∈ q.returned) : ∃ p, q.pushes t = some p ∧ y = some p.item := by
  have hpop := h.turns.pop t
  have hpush := h.turns.push t
  rw [h.tickets.returned _ hr, PopAt] at hpop
  obtain ⟨hlt, hitem⟩ := hpop
  cases hp : q.pushes t with
  | none =>
    rw [hp, PushAt] at hpush
    omega
  | some p => exact ⟨p, rfl, hitem.trans (by rw [hp, map_some])⟩

theorem Consistent.lap_of_stored (h : Consistent k q) (hw : q.Written t)
    (hr : ¬ q.Read t) : q.turns (index k t) / 2 = t / 2 ^ k := by
  obtain ⟨p, hp, hwritten⟩ := hw
  have hpush := h.turns.push t
  rw [hp] at hpush
  have hle := hpush.lap_le_of_written hwritten
  have hge := (h.turns.pop t).not_lt_of_not_read fun p hp hread => hr ⟨p, hp, hread⟩
  omega

theorem Consistent.read_before_write (h : Consistent k q) {t' : Nat} {x : T}
    (hp : q.pushes t = some (.writing x)) (hne : t' ≠ t) (hi : index k t' = index k t)
    (hw : q.Written t') : q.Read t' := by
  by_contra hr
  have hlap := h.lap_of_stored hw hr
  have hturn := h.turns.push t
  rw [hp, PushAt] at hturn
  exact hne (eq_of_index_eq hi (by rw [← hlap, hi]; omega))

theorem Consistent.write_before_read (h : Consistent k q) (hp : q.pops t = some .reading) :
    ∃ p, q.pushes t = some p ∧ p.Written ∧ (q.slots (index k t)).item = some p.item := by
  have hpop := h.turns.pop t
  have hpush := h.turns.push t
  rw [hp, PopAt] at hpop
  obtain ⟨hturn, hitem⟩ := hpop
  rcases hq : q.pushes t with _ | p
  · rw [hq, PushAt] at hpush
    omega
  · refine ⟨p, rfl, ?_, by rw [hitem, hq, map_some]⟩
    rw [hq] at hpush
    cases p <;> simp only [PushAt] at hpush <;> first | omega | trivial

theorem Consistent.card_stored_le (h : Consistent k q) {s : Finset Nat}
    (hs : ∀ t ∈ s, q.Written t ∧ ¬ q.Read t) : s.card ≤ 2 ^ k := by
  have hmaps : ∀ t ∈ s, index k t ∈ Finset.range (2 ^ k) := fun t _ => by
    rw [index_eq, mem_range]
    exact Nat.mod_lt _ (Nat.two_pow_pos k)
  have hinj : ∀ t ∈ s, ∀ t' ∈ s, index k t = index k t' → t = t' := fun t ht t' ht' hi => by
    have hlap := h.lap_of_stored (hs t ht).1 (hs t ht).2
    have hlap' := h.lap_of_stored (hs t' ht').1 (hs t' ht').2
    exact eq_of_index_eq hi (by rw [← hlap, ← hlap', hi])
  simpa using card_le_card_of_injOn (index k) hmaps hinj

/-- Items are returned by ticket and once, slots are written and read in turns, before and after
`stop`. -/
theorem items_returned_by_ticket {moved : T → T}
    (run : Run (step k moved) fewTickets (create k) q) :
    (∀ t y, (t, y) ∈ q.returned → ∃ p, q.pushes t = some p ∧ y = some p.item) ∧
      (q.returned.map Prod.fst).Nodup ∧
      (∀ t x, q.pushes t = some (.writing x) →
        ∀ t' ≠ t, index k t' = index k t → q.Written t' → q.Read t') ∧
      (∀ t, q.pops t = some .reading →
        ∃ p, q.pushes t = some p ∧ p.Written ∧ (q.slots (index k t)).item = some p.item) ∧
      (∀ s : Finset Nat, (∀ t ∈ s, q.Written t ∧ ¬ q.Read t) → s.card ≤ 2 ^ k) ∧
      q.lateTickets = [] := by
  have h := Consistent.of_run run
  exact ⟨fun t y => h.returned_pushed, h.tickets.nodup,
    fun t x hp t' hne hi hw => h.read_before_write hp hne hi hw, fun t => h.write_before_read,
    fun s => h.card_stored_le, h.tokens.lateTickets⟩

theorem items_returned_by_ticket_one_slot :
    ∃ q : MPMCConcurrentQueue Nat, q.returned = [(0, some 7)] ∧ q.slots 0 = ⟨3, some 8⟩ ∧
      q.popReposting = 1 ∧ (∃ p, q.pushes 0 = some p ∧ some 7 = some p.item) ∧
      q.lateTickets = [] := by
  obtain ⟨q, run, hreturned, hslot, hlate⟩ := Run.exists_of_exec (step 0 id) fewTickets (create 0)
    (fun q : MPMCConcurrentQueue Nat =>
      q.returned = [(0, some 7)] ∧ q.slots 0 = ⟨3, some 8⟩ ∧ q.popReposting = 1)
    [.pushWait, .pushCheck, .pushClaim 7, .push 0 true, .push 0 true, .push 0 true, .push 0 true,
      .popWait, .popCheck, .popClaim, .pop 0 true, .pop 0 true, .pop 0 true, .pop 0 true,
      .pushWait, .pushCheck, .pushClaim 8, .push 1 true, .push 1 true, .push 1 true, .push 1 true,
      .stop, .popWait, .lateCheck] (by decide +kernel)
  have h := items_returned_by_ticket run
  exact ⟨q, hreturned, hslot, hlate, h.1 0 (some 7) (by simp [hreturned]), h.2.2.2.2.2⟩

end Results

end MPMCConcurrentQueue

end LaunchManager
