import Mathlib.Data.List.Nodup
import Mathlib.Tactic.SplitIfs

/-!
# The fixed-size FIFO queue

The ring buffer of `fixed_size_queue.hpp`: a vector of optional slots with a
read index, a write index and a count. The invariant of the ring is carried by
the structure, and `toList` is the content in FIFO order. Every later proof
uses the queue only through `toList`.
-/

namespace LaunchManager

open List

set_option autoImplicit false

universe u

def ringIndex (head capacity i : Nat) : Nat := (head + i) % capacity

variable {head capacity i : Nat}

theorem ringIndex_eq (hh : head < capacity) (hi : i < capacity) : ringIndex head capacity i =
      if head + i < capacity then head + i else head + i - capacity := by
  unfold ringIndex
  split
  · exact Nat.mod_eq_of_lt (by assumption)
  · rw [Nat.mod_eq_sub_mod (by omega), Nat.mod_eq_of_lt (by omega)]

theorem ringIndex_lt (hh : head < capacity) :
    ringIndex head capacity i < capacity := Nat.mod_lt _ (by omega)

theorem ringIndex_inj {j : Nat} (hh : head < capacity) (hi : i < capacity) (hj : j < capacity)
    (h : ringIndex head capacity i = ringIndex head capacity j) : i = j := by
  rw [ringIndex_eq hh hi, ringIndex_eq hh hj] at h
  split_ifs at h <;> omega

theorem ringIndex_succ (i : Nat) :
    ringIndex ((head + 1) % capacity) capacity i = ringIndex head capacity (i + 1) := by
  unfold ringIndex
  rw [Nat.mod_add_mod]
  congr 1
  omega

theorem ringIndex_zero (hh : head < capacity) :
    ringIndex head capacity 0 = head := Nat.mod_eq_of_lt hh

/-- `slots` holds exactly the `count` elements from `head` on, modulo the capacity. -/
structure FixedSizeQueue (T : Type u) where
  head : Nat
  tail : Nat
  count : Nat
  capacity : Nat
  slots : List (Option T)
  slots_length : slots.length = capacity
  count_le : count ≤ capacity
  head_lt : 0 < capacity → head < capacity
  tail_eq : tail = ringIndex head capacity count
  stored : ∀ i, i < count → ∃ x, slots[ringIndex head capacity i]? = some (some x)
  vacant : ∀ i, count ≤ i → i < capacity → slots[ringIndex head capacity i]? = some none

namespace FixedSizeQueue
variable {T : Type u}

/-- The sized constructor; the default constructor is the case `size = 0`. -/
def new (size : Nat) : FixedSizeQueue T where
  head := 0
  tail := 0
  count := 0
  capacity := size
  slots := List.replicate size none
  slots_length := List.length_replicate
  count_le := Nat.zero_le size
  head_lt := id
  tail_eq := (Nat.zero_mod size).symm
  stored := fun i hi => absurd hi (Nat.not_lt_zero i)
  vacant := by
    intro i _ hi
    have hlt : ringIndex 0 size i < size := ringIndex_lt (Nat.zero_lt_of_lt hi)
    simp [hlt]

def empty (q : FixedSizeQueue T) : Bool := q.count == 0

def full (q : FixedSizeQueue T) : Bool := decide (q.capacity ≤ q.count)

def size (q : FixedSizeQueue T) : Nat := q.count

variable {q : FixedSizeQueue T}

theorem head_lt_of_not_full (h : q.count < q.capacity) : q.head < q.capacity := q.head_lt (by omega)

def push (q : FixedSizeQueue T) (x : T) : Bool × FixedSizeQueue T :=
  if h : q.count < q.capacity then
    (true,
      { head := q.head
        tail := (q.tail + 1) % q.capacity
        count := q.count + 1
        capacity := q.capacity
        slots := q.slots.set q.tail (some x)
        slots_length := by rw [List.length_set, q.slots_length]
        count_le := h
        head_lt := q.head_lt
        tail_eq := by
          rw [q.tail_eq]
          unfold ringIndex
          rw [Nat.mod_add_mod, Nat.add_assoc]
        stored := by
          intro i hi
          have hh := head_lt_of_not_full h
          by_cases he : i = q.count
          · subst i
            refine ⟨x, ?_⟩
            rw [q.tail_eq, List.getElem?_set_self (by rw [q.slots_length]; exact ringIndex_lt hh)]
          · obtain ⟨y, hy⟩ := q.stored i (by omega)
            refine ⟨y, ?_⟩
            rw [List.getElem?_set_ne, hy]
            intro heq
            rw [q.tail_eq] at heq
            exact he (ringIndex_inj hh (by omega) h heq.symm)
        vacant := by
          intro i hlo hhi
          have hh := head_lt_of_not_full h
          rw [List.getElem?_set_ne, q.vacant i (by omega) hhi]
          intro heq
          rw [q.tail_eq] at heq
          have := ringIndex_inj hh h hhi heq
          omega })
  else (false, q)

def tryPop (q : FixedSizeQueue T) : Option T × FixedSizeQueue T :=
  if h : q.count = 0 then (none, q)
  else
    ((q.slots[q.head]?).join,
      { head := (q.head + 1) % q.capacity
        tail := q.tail
        count := q.count - 1
        capacity := q.capacity
        slots := q.slots.set q.head none
        slots_length := by rw [List.length_set, q.slots_length]
        count_le := by have := q.count_le; omega
        head_lt := fun hc => Nat.mod_lt _ hc
        tail_eq := by
          rw [ringIndex_succ, q.tail_eq]
          congr 1
          omega
        stored := by
          intro i hi
          have hc := q.count_le
          have hh := q.head_lt (by omega)
          obtain ⟨y, hy⟩ := q.stored (i + 1) (by omega)
          refine ⟨y, ?_⟩
          rw [ringIndex_succ, List.getElem?_set_ne, hy]
          intro heq
          have := ringIndex_inj hh (by omega) (by omega) ((ringIndex_zero hh).trans heq)
          omega
        vacant := by
          intro i hlo hhi
          have hc := q.count_le
          have hh := q.head_lt (by omega)
          rw [ringIndex_succ]
          by_cases hw : i + 1 < q.capacity
          · rw [List.getElem?_set_ne, q.vacant (i + 1) (by omega) hw]
            intro heq
            have := ringIndex_inj hh (by omega) hw ((ringIndex_zero hh).trans heq)
            omega
          · have hi : i + 1 = q.capacity := by omega
            have hz : ringIndex q.head q.capacity (i + 1) = q.head := by
              unfold ringIndex
              rw [hi, Nat.add_mod_right, Nat.mod_eq_of_lt hh]
            rw [hz, List.getElem?_set_self (by rw [q.slots_length]; exact hh)] })

def toList (q : FixedSizeQueue T) : List T :=
  (List.range q.count).filterMap fun i => (q.slots[ringIndex q.head q.capacity i]?).join

theorem window_length {slots : List (Option T)} {index : Nat → Nat} :
    ∀ n, (∀ i, i < n → ∃ x, slots[index i]? = some (some x)) →
      ((List.range n).filterMap fun i => (slots[index i]?).join).length = n := by
  intro n
  induction n with
  | zero => simp
  | succ n ih =>
    intro h
    obtain ⟨x, hx⟩ := h n (by omega)
    rw [range_succ, filterMap_append, length_append, ih fun i hi => h i (by omega)]
    simp [hx]

@[simp] theorem toList_length (q : FixedSizeQueue T) : q.toList.length = q.count :=
  window_length q.count q.stored

@[simp] theorem capacity_new (size : Nat) : (new size : FixedSizeQueue T).capacity = size := rfl

theorem empty_iff (q : FixedSizeQueue T) : q.empty = true ↔ q.toList = [] := by
  rw [← length_eq_zero_iff, toList_length]
  simp [empty]

theorem push_refused (h : q.capacity ≤ q.toList.length) (x : T) : q.push x = (false, q) := by
  rw [toList_length] at h
  simp [push, Nat.not_lt.mpr h]

theorem push_accepted (h : q.toList.length < q.capacity) (x : T) : (q.push x).1 = true := by
  rw [toList_length] at h
  simp [push, h]

@[simp] theorem capacity_push (q : FixedSizeQueue T) (x : T) :
    (q.push x).2.capacity = q.capacity := by
  unfold push
  split <;> rfl

@[simp] theorem capacity_tryPop (q : FixedSizeQueue T) : q.tryPop.2.capacity = q.capacity := by
  unfold tryPop
  split <;> rfl

theorem toList_push (h : q.toList.length < q.capacity) (x : T) :
    (q.push x).2.toList = q.toList ++ [x] := by
  rw [toList_length] at h
  have hh := head_lt_of_not_full h
  have hlt : q.tail < q.slots.length := by
    rw [q.slots_length, q.tail_eq]
    exact ringIndex_lt hh
  have hlast : (q.slots.set q.tail (some x))[ringIndex q.head q.capacity q.count]? =
      some (some x) := by
    rw [← q.tail_eq, List.getElem?_set_self hlt]
  have hold : ∀ i ∈ List.range q.count,
      ((q.slots.set q.tail (some x))[ringIndex q.head q.capacity i]?).join =
        (q.slots[ringIndex q.head q.capacity i]?).join := by
    intro i hi
    have hi' := mem_range.mp hi
    rw [List.getElem?_set_ne]
    intro heq
    rw [q.tail_eq] at heq
    have := ringIndex_inj hh h (by omega) heq
    omega
  simp only [push, h, dite_true, toList, range_succ, filterMap_append]
  rw [filterMap_congr hold]
  simp [hlast]

theorem tryPop_cons {x : T} {xs : List T} (h : q.toList = x :: xs) :
    q.tryPop.1 = some x ∧ q.tryPop.2.toList = xs := by
  have hcount : q.count = xs.length + 1 := by rw [← toList_length, h, length_cons]
  have hh := q.head_lt (by have := q.count_le; omega)
  obtain ⟨y, hy⟩ := q.stored 0 (by omega)
  have hread : ∀ i ∈ List.range xs.length,
      ((q.slots.set q.head none)[ringIndex ((q.head + 1) % q.capacity) q.capacity i]?).join =
        (q.slots[ringIndex q.head q.capacity (i + 1)]?).join := by
    intro i hi
    have hi' := mem_range.mp hi
    have hc := q.count_le
    rw [ringIndex_succ, List.getElem?_set_ne]
    intro heq
    have := ringIndex_inj hh (by omega) (by omega) ((ringIndex_zero hh).trans heq)
    omega
  have hlist : q.toList = y :: (List.range xs.length).filterMap
      (fun i => (q.slots[ringIndex q.head q.capacity (i + 1)]?).join) := by
    rw [toList, hcount, range_succ_eq_map, filterMap_cons, hy]
    simp [filterMap_map]
  rw [h] at hlist
  obtain ⟨rfl, hrest⟩ := List.cons.inj hlist
  rw [ringIndex_zero hh] at hy
  have hne : ¬ q.count = 0 := by omega
  refine ⟨by simp [tryPop, hne, hy], ?_⟩
  simp only [tryPop, hne, dite_false, toList]
  rw [hcount, Nat.add_sub_cancel, filterMap_congr hread]
  exact hrest.symm

end FixedSizeQueue

end LaunchManager
