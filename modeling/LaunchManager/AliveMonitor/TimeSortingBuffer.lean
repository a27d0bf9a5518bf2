import Mathlib.Data.List.Induction
import Mathlib.Data.List.Sort
import LaunchManager.Library.DoublyLinked

/-!
# The time sorting buffer

The class template of `TimeSortingBuffer.hpp`: a vector of fixed capacity whose
elements are chained by two pointers in the order of their timestamps. A pointer
is an index of the vector, `none` the null pointer. A new element is sorted in
from the end of the chain, behind every element that is not younger.
-/

namespace LaunchManager

open List

set_option autoImplicit false

universe u

structure SortChainElement (α : Type u) (τ : Type) where
  previous : Option Nat := none
  next : Option Nat := none
  element : α
  timestamp : τ
  deriving DecidableEq, Repr

/-- The code only compares timestamps. -/
structure TimeSortingBuffer (α : Type u) (τ : Type := Nat) where
  capacity : Nat
  timeSortedBuffer : List (SortChainElement α τ) := []
  sortChainStart : Option Nat := none
  sortChainEnd : Option Nat := none
  lastReportedElement : Option Nat := none
  deriving DecidableEq, Repr

namespace TimeSortingBuffer
variable {α : Type u} {τ : Type}

def setPrevious (b : TimeSortingBuffer α τ) (i : Nat) (p : Option Nat) : TimeSortingBuffer α τ :=
  { b with timeSortedBuffer := b.timeSortedBuffer.modify i fun c => { c with previous := p } }

def setNext (b : TimeSortingBuffer α τ) (i : Nat) (n : Option Nat) : TimeSortingBuffer α τ :=
  { b with timeSortedBuffer := b.timeSortedBuffer.modify i fun c => { c with next := n } }

def next (b : TimeSortingBuffer α τ) (i : Nat) : Option Nat :=
  b.timeSortedBuffer[i]?.bind (·.next)

def previous (b : TimeSortingBuffer α τ) (i : Nat) : Option Nat :=
  b.timeSortedBuffer[i]?.bind (·.previous)

def item (b : TimeSortingBuffer α τ) (i : Nat) : Option (α × τ) :=
  b.timeSortedBuffer[i]?.map fun c => (c.element, c.timestamp)

/-- A write through a pointer that may be null. -/
def setPreviousOf (b : TimeSortingBuffer α τ) (f : Option Nat) (p : Option Nat) :
    TimeSortingBuffer α τ :=
  match f with
  | some i => b.setPrevious i p
  | none => b

def pushFront (b : TimeSortingBuffer α τ) (new : Nat) (first : Option Nat) :
    TimeSortingBuffer α τ :=
  { ((b.setPrevious new none).setNext new first).setPreviousOf first (some new) with
    sortChainStart := some new }

def pushAfter (b : TimeSortingBuffer α τ) (new current : Nat) : TimeSortingBuffer α τ :=
  let following := b.next current
  { (((b.setNext new following).setPreviousOf following (some new)).setNext current
      (some new)).setPrevious new (some current) with
    sortChainEnd := if some current = b.sortChainEnd then some new else b.sortChainEnd }

/-- The loop of `sort`, which goes back from `current`. The chain has no more elements than the
vector, which is what `fuel` stands for. -/
def sortFrom [LE τ] [DecidableLE τ] (b : TimeSortingBuffer α τ) (new : Nat) (timestamp : τ) :
    Nat → Nat → TimeSortingBuffer α τ
  | 0, _ => b
  | fuel + 1, current =>
    match b.timeSortedBuffer[current]? with
    | none => b
    | some c =>
      if c.timestamp ≤ timestamp then b.pushAfter new current
      else match c.previous with
        | none => b.pushFront new (some current)
        | some p => b.sortFrom new timestamp fuel p

def sort [LE τ] [DecidableLE τ] (b : TimeSortingBuffer α τ) (new : Nat) (timestamp : τ) :
    TimeSortingBuffer α τ :=
  match b.sortChainStart, b.sortChainEnd with
  | none, _ => { b.pushFront new none with sortChainEnd := some new }
  | some _, some last => b.sortFrom new timestamp b.timeSortedBuffer.length last
  | some _, none => b

/-- The flag of the result is the return value: whether the vector had room. -/
def push [LE τ] [DecidableLE τ] (b : TimeSortingBuffer α τ) (x : α) (timestamp : τ) :
    TimeSortingBuffer α τ × Bool :=
  if b.timeSortedBuffer.length < b.capacity then
    let new : SortChainElement α τ := { element := x, timestamp }
    (sort { b with timeSortedBuffer := b.timeSortedBuffer ++ [new] }
      b.timeSortedBuffer.length timestamp, true)
  else (b, false)

def getNextElement (b : TimeSortingBuffer α τ) : Option α × TimeSortingBuffer α τ :=
  let report := fun i : Option Nat =>
    (i.bind fun i => (b.item i).map Prod.fst, { b with lastReportedElement := i })
  if b.timeSortedBuffer.length = 0 then (none, b)
  else match b.lastReportedElement with
    | none => report b.sortChainStart
    | some i =>
      match b.next i with
      | none => (none, b)
      | some n => report (some n)

def clear (b : TimeSortingBuffer α τ) : TimeSortingBuffer α τ := { capacity := b.capacity }

theorem item_valid {b : TimeSortingBuffer α τ} {i : Nat} (h : i < b.timeSortedBuffer.length) :
    b.item i = some (b.timeSortedBuffer[i].element, b.timeSortedBuffer[i].timestamp) := by
  rw [item, List.getElem?_eq_getElem h]
  rfl

section Pointers
variable (b : TimeSortingBuffer α τ) (i j : Nat) (p : Option Nat)

@[simp] theorem setPrevious_length :
    (b.setPrevious i p).timeSortedBuffer.length = b.timeSortedBuffer.length := by
  simp [setPrevious]

@[simp] theorem setNext_length :
    (b.setNext i p).timeSortedBuffer.length = b.timeSortedBuffer.length := by
  simp [setNext]

@[simp] theorem setPrevious_item : (b.setPrevious i p).item j = b.item j := by
  by_cases h : i = j <;> simp [item, setPrevious, h, Function.comp_def]

@[simp] theorem setNext_item : (b.setNext i p).item j = b.item j := by
  by_cases h : i = j <;> simp [item, setNext, h, Function.comp_def]

@[simp] theorem setPrevious_next : (b.setPrevious i p).next j = b.next j := by
  by_cases h : i = j <;>
    simp [next, setPrevious, h, Option.bind_map]

@[simp] theorem setNext_previous : (b.setNext i p).previous j = b.previous j := by
  by_cases h : i = j <;>
    simp [previous, setNext, h, Option.bind_map]

variable {b i j}

theorem setPrevious_previous (h : i < b.timeSortedBuffer.length) :
    (b.setPrevious i p).previous j = if j = i then p else b.previous j := by
  by_cases hij : j = i
  · subst hij
    simp [previous, setPrevious, h]
  · simp [previous, setPrevious, hij, Ne.symm hij]

theorem setNext_next (h : i < b.timeSortedBuffer.length) :
    (b.setNext i p).next j = if j = i then p else b.next j := by
  by_cases hij : j = i
  · subst hij
    simp [next, setNext, h]
  · simp [next, setNext, hij, Ne.symm hij]

variable (f : Option Nat)

@[simp] theorem setPreviousOf_length :
    (b.setPreviousOf f p).timeSortedBuffer.length = b.timeSortedBuffer.length := by
  cases f with
  | none => rfl
  | some i => exact setPrevious_length b i p

@[simp] theorem setPreviousOf_item : (b.setPreviousOf f p).item j = b.item j := by
  cases f with
  | none => rfl
  | some i => exact setPrevious_item b i j p

@[simp] theorem setPreviousOf_next : (b.setPreviousOf f p).next j = b.next j := by
  cases f with
  | none => rfl
  | some i => exact setPrevious_next b i j p

variable {f} in
theorem setPreviousOf_previous (h : ∀ i, f = some i → i < b.timeSortedBuffer.length) :
    (b.setPreviousOf f p).previous j = if f = some j then p else b.previous j := by
  cases f with
  | none => rw [if_neg (by simp)]; rfl
  | some i =>
    rw [setPreviousOf, setPrevious_previous p (h i rfl)]
    simp only [Option.some_inj, eq_comm]

end Pointers

/-- The chain visits the indices of `order`, from the oldest element to the latest. -/
structure Chained (b : TimeSortingBuffer α τ) (order : List Nat) : Prop where
  nodup : order.Nodup
  valid : ∀ i ∈ order, i < b.timeSortedBuffer.length
  links : DoublyLinked.Segment b.next b.previous none order none
  start : b.sortChainStart = order.head?
  last : b.sortChainEnd = order.getLast?

section Chained
variable {b : TimeSortingBuffer α τ} {order xs ys : List Nat} {n p : Nat}

@[simp] theorem pushFront_item (first : Option Nat) (i : Nat) :
    (b.pushFront n first).item i = b.item i := by
  change (((b.setPrevious n none).setNext n first).setPreviousOf first (some n)).item i = _
  simp

@[simp] theorem pushFront_length (first : Option Nat) :
    (b.pushFront n first).timeSortedBuffer.length = b.timeSortedBuffer.length := by
  simp [pushFront]

theorem pushFront_next (hn : n < b.timeSortedBuffer.length) (first : Option Nat) (i : Nat) :
    (b.pushFront n first).next i = if i = n then first else b.next i := by
  change (((b.setPrevious n none).setNext n first).setPreviousOf first (some n)).next i = _
  rw [setPreviousOf_next, setNext_next _ (by simpa using hn), setPrevious_next]

theorem pushFront_previous (hn : n < b.timeSortedBuffer.length) {first : Option Nat}
    (hf : ∀ f, first = some f → f < b.timeSortedBuffer.length) (i : Nat) :
    (b.pushFront n first).previous i =
      if first = some i then some n else if i = n then none else b.previous i := by
  change (((b.setPrevious n none).setNext n first).setPreviousOf first (some n)).previous i = _
  rw [setPreviousOf_previous _ (by simpa using hf), setNext_previous, setPrevious_previous _ hn]

theorem Chained.pushFront (h : b.Chained order) (hn : n < b.timeSortedBuffer.length)
    (hfresh : n ∉ order) (hne : order ≠ []) : (b.pushFront n order.head?).Chained (n :: order) := by
  have hother : ∀ i ∈ order, i ≠ n := fun i hi heq => hfresh (heq ▸ hi)
  have hnexts := pushFront_next hn order.head?
  have hpreviouses := pushFront_previous hn 
    fun f hf => h.valid f (mem_of_mem_head? hf)
  refine ⟨nodup_cons.mpr ⟨hfresh, h.nodup⟩, ?_, ?_, rfl, ?_⟩
  · intro i hi
    rw [pushFront_length]
    rcases mem_cons.mp hi with rfl | hi
    · exact hn
    · exact h.valid i hi
  · refine h.links.insert_front h.nodup ?_ ?_ ?_ ?_ ?_
    · rw [hnexts, if_pos rfl]
    · have hhead : order.head? ≠ some n := fun heq => hfresh (mem_of_mem_head? heq)
      rw [hpreviouses, if_neg hhead, if_pos rfl]
    · intro i hi
      rw [hnexts, if_neg (hother i hi)]
    · intro i hi hne
      rw [hpreviouses, if_neg hne, if_neg (hother i hi)]
    · intro i hi
      rw [hpreviouses, if_pos hi]
  · obtain ⟨f, l, rfl⟩ := exists_cons_of_ne_nil hne
    rw [List.getLast?_cons_cons, ← h.last]
    rfl

theorem Chained.pushFront_empty (hn : n < b.timeSortedBuffer.length) :
    Chained { b.pushFront n none with sortChainEnd := some n } [n] := by
  refine ⟨nodup_singleton n, ?_, ⟨?_, ?_, trivial⟩, rfl, rfl⟩
  · intro i hi
    rw [mem_singleton] at hi
    subst hi
    exact (pushFront_length none).symm ▸ hn
  · exact (pushFront_previous hn (by simp) n).trans (by simp)
  · exact (pushFront_next hn none n).trans (by simp)

@[simp] theorem pushAfter_item (i : Nat) : (b.pushAfter n p).item i = b.item i := by
  change ((((b.setNext n (b.next p)).setPreviousOf (b.next p) (some n)).setNext p
    (some n)).setPrevious n (some p)).item i = _
  simp

@[simp] theorem pushAfter_length :
    (b.pushAfter n p).timeSortedBuffer.length = b.timeSortedBuffer.length := by
  simp [pushAfter]

theorem pushAfter_next (hn : n < b.timeSortedBuffer.length) (hp : p < b.timeSortedBuffer.length)
    (i : Nat) : (b.pushAfter n p).next i =
      if i = p then some n else if i = n then b.next p else b.next i := by
  change ((((b.setNext n (b.next p)).setPreviousOf (b.next p) (some n)).setNext p
    (some n)).setPrevious n (some p)).next i = _
  rw [setPrevious_next, setNext_next _ (by simpa using hp), setPreviousOf_next,
    setNext_next _ hn]

theorem pushAfter_previous (hn : n < b.timeSortedBuffer.length)
    (hf : ∀ f, b.next p = some f → f < b.timeSortedBuffer.length) (i : Nat) :
    (b.pushAfter n p).previous i =
      if i = n then some p else if b.next p = some i then some n else b.previous i := by
  change ((((b.setNext n (b.next p)).setPreviousOf (b.next p) (some n)).setNext p
    (some n)).setPrevious n (some p)).previous i = _
  rw [setPrevious_previous _ (by simpa using hn), setNext_previous,
    setPreviousOf_previous _ (by simpa using hf), setNext_previous]

theorem Chained.next_mem (h : b.Chained (xs ++ p :: ys)) : b.next p = ys.head? := by
  obtain ⟨-, -, hnext, -⟩ := DoublyLinked.Segment.append.mp h.links
  rw [hnext, Option.or_none]

theorem Chained.previous_mem (h : b.Chained (xs ++ p :: ys)) : b.previous p = xs.getLast? := by
  obtain ⟨-, hprevious, -⟩ := DoublyLinked.Segment.append.mp h.links
  rw [hprevious, Option.or_none]

theorem Chained.pushAfter (h : b.Chained (xs ++ p :: ys)) (hn : n < b.timeSortedBuffer.length)
    (hfresh : n ∉ xs ++ p :: ys) : (b.pushAfter n p).Chained (xs ++ p :: n :: ys) := by
  have hp := h.valid p (by simp)
  have hnext := h.next_mem
  have hother : ∀ i ∈ xs ++ p :: ys, i ≠ n := fun i hi heq => hfresh (heq ▸ hi)
  have hfollowing : ∀ f, b.next p = some f → f ∈ xs ++ p :: ys := by
    intro f hf
    rw [hnext] at hf
    simp [mem_of_mem_head? hf]
  have hnexts := pushAfter_next hn hp
  have hpreviouses := pushAfter_previous hn fun f hf => h.valid f (hfollowing f hf)
  refine ⟨?_, ?_, ?_, ?_, ?_⟩
  · have hperm : (xs ++ p :: n :: ys).Perm (n :: (xs ++ p :: ys)) :=
      ((List.Perm.swap n p ys).append_left xs).trans perm_middle
    exact hperm.nodup_iff.mpr (nodup_cons.mpr ⟨hfresh, h.nodup⟩)
  · intro i hi
    rw [pushAfter_length]
    by_cases heq : i = n
    · exact heq ▸ hn
    · exact h.valid i (by simpa [heq] using hi)
  · refine h.links.insert_after h.nodup ?_ ?_ ?_ ?_ ?_ ?_
    · rw [hnexts, if_neg (hother p (by simp)).symm, if_pos rfl]
    · rw [hpreviouses, if_pos rfl]
    · rw [hnexts, if_pos rfl]
    · intro i hi hne
      rw [hnexts, if_neg hne, if_neg (hother i hi)]
    · intro i hi hne
      rw [hpreviouses, if_neg (hother i hi), if_neg hne]
    · intro i hi
      rw [hpreviouses, if_neg (hother i (hfollowing i hi)), if_pos hi]
  · have hstart : (b.pushAfter n p).sortChainStart = b.sortChainStart := by
      rw [TimeSortingBuffer.pushAfter]
      cases b.next p <;> rfl
    rw [hstart, h.start]
    cases xs <;> rfl
  · change (if some p = b.sortChainEnd then some n else b.sortChainEnd) = _
    rw [h.last]
    cases ys with
    | nil => simp
    | cons y l =>
      have hlast : ∀ zs : List Nat, (zs ++ y :: l).getLast? = (y :: l).getLast? := by
        simp [List.getLast?_eq_some_getLast]
      have hne : some p ≠ (y :: l).getLast? := fun heq =>
        (nodup_cons.mp (nodup_append'.mp h.nodup).2.1).1 (mem_of_getLast? heq.symm)
      have hold := hlast (xs ++ [p])
      have hnew := hlast (xs ++ [p, n])
      rw [append_assoc] at hold hnew
      exact (if_neg (hold ▸ hne)).trans (hold.trans hnew.symm)

end Chained

def insertByTime [LT τ] [DecidableLT τ] (x : α × τ) (l : List (α × τ)) : List (α × τ) :=
  l.orderedInsert (fun a b => a.2 < b.2) x

variable [LinearOrder τ]

theorem insertByTime_append {x : α × τ} {l r : List (α × τ)} (hl : ∀ y ∈ l, y.2 ≤ x.2)
    (hr : ∀ y ∈ r, x.2 < y.2) : insertByTime x (l ++ r) = l ++ x :: r := by
  induction l with
  | nil =>
    cases r with
    | nil => rfl
    | cons y r => exact orderedInsert_cons_of_le _ r (hr y mem_cons_self)
  | cons y l ih =>
    have hy : ¬ x.2 < y.2 := not_lt.mpr (hl y mem_cons_self)
    rw [cons_append, insertByTime, orderedInsert_cons, if_neg hy]
    exact congrArg (y :: ·) (ih fun z hz => hl z (mem_cons_of_mem y hz))

section Sorting
variable {b : TimeSortingBuffer α τ} {us vs : List Nat} {n p fuel : Nat} {x : α} {t : τ}

@[simp] theorem sortFrom_item (i : Nat) : (b.sortFrom n t fuel p).item i = b.item i := by
  fun_induction sortFrom b n t fuel p <;> simp_all

@[simp] theorem sortFrom_length :
    (b.sortFrom n t fuel p).timeSortedBuffer.length = b.timeSortedBuffer.length := by
  fun_induction sortFrom b n t fuel p <;> simp_all

variable (b n t fuel p) in
theorem sortFrom_frame : (b.sortFrom n t fuel p).capacity = b.capacity ∧
    (b.sortFrom n t fuel p).lastReportedElement = b.lastReportedElement := by
  fun_induction sortFrom b n t fuel p with
  | case1 => exact ⟨rfl, rfl⟩
  | case2 => exact ⟨rfl, rfl⟩
  | case3 =>
    rw [pushAfter]
    cases b.next _ <;> exact ⟨rfl, rfl⟩
  | case4 => exact ⟨rfl, rfl⟩
  | case5 _ _ _ _ _ _ _ ih => exact ih

theorem Chained.sortFrom (h : b.Chained (us ++ p :: vs)) (hn : n < b.timeSortedBuffer.length)
    (hfresh : n ∉ us ++ p :: vs) (hx : b.item n = some (x, t))
    (hsorted : ((us ++ p :: vs).filterMap b.item).Pairwise (·.2 ≤ ·.2))
    (hvs : ∀ y ∈ vs.filterMap b.item, t < y.2) (hfuel : us.length < fuel) :
    ∃ order, (b.sortFrom n t fuel p).Chained order ∧
      order.Perm (n :: (us ++ p :: vs)) ∧
      order.filterMap b.item = insertByTime (x, t) ((us ++ p :: vs).filterMap b.item) := by
  induction fuel generalizing us p vs with
  | zero => exact absurd hfuel (Nat.not_lt_zero _)
  | succ fuel ih =>
    have hp := h.valid p (by simp)
    have hget := List.getElem?_eq_getElem hp
    have hitem := item_valid hp
    have hprevious : b.timeSortedBuffer[p].previous = us.getLast? := by
      rw [← h.previous_mem, TimeSortingBuffer.previous, hget]
      rfl
    rw [TimeSortingBuffer.sortFrom]
    simp only [hget]
    by_cases hle : b.timeSortedBuffer[p].timestamp ≤ t
    · -- the first element from the end that is not younger
      rw [if_pos hle]
      refine ⟨us ++ p :: n :: vs, h.pushAfter hn hfresh, ?_, ?_⟩
      · exact ((List.Perm.swap n p vs).append_left us).trans perm_middle
      · have hcut : (us ++ p :: vs).filterMap b.item =
            (us ++ [p]).filterMap b.item ++ vs.filterMap b.item := by
          rw [← filterMap_append, append_assoc, singleton_append]
        have hnew : (us ++ p :: n :: vs).filterMap b.item =
            (us ++ [p]).filterMap b.item ++ (x, t) :: vs.filterMap b.item := by
          simp [hx, hitem]
        rw [hcut, hnew, insertByTime_append _ hvs]
        intro y hy
        rw [filterMap_append, mem_append] at hy
        rcases hy with hy | hy
        · rw [filterMap_append] at hsorted
          have hyp := (pairwise_append.mp hsorted).2.2 y hy
            (b.timeSortedBuffer[p].element, b.timeSortedBuffer[p].timestamp)
            (by simp [hitem])
          exact le_trans hyp hle
        · simp only [filterMap_cons, hitem, filterMap_nil, mem_singleton] at hy
          exact hy ▸ hle
    · rw [if_neg hle]
      have hyounger : ∀ y ∈ (p :: vs).filterMap b.item, t < y.2 := by
        intro y hy
        simp only [filterMap_cons, hitem, mem_cons] at hy
        rcases hy with rfl | hy
        · exact lt_of_not_ge hle
        · exact hvs y hy
      rcases eq_nil_or_concat us with rfl | ⟨ws, q, rfl⟩
      · -- every element is younger
        simp only [hprevious, List.getLast?_nil]
        refine ⟨n :: p :: vs, h.pushFront hn hfresh (by simp), List.Perm.refl _, ?_⟩
        have hfront := insertByTime_append (x := (x, t)) (l := []) (by simp) hyounger
        rw [nil_append] at hfront
        rw [nil_append, hfront, filterMap_cons, hx]
        rfl
      · simp only [hprevious, concat_eq_append, List.getLast?_concat]
        simp only [concat_eq_append, append_assoc, singleton_append]
          at h hfresh hsorted hfuel ⊢
        exact ih h hfresh hsorted hyounger (by simpa using hfuel)

end Sorting

/-- The chain lists the items `l` in the order of their timestamps, and none was read yet. -/
structure Holds (b : TimeSortingBuffer α τ) (l : List (α × τ)) : Prop where
  chained : ∃ order, b.Chained order ∧ order.length = b.timeSortedBuffer.length ∧
    order.filterMap b.item = l
  sorted : l.Pairwise (·.2 ≤ ·.2)
  unread : b.lastReportedElement = none

theorem sorted_insertByTime (x : α × τ) {l : List (α × τ)} (h : l.Pairwise (·.2 ≤ ·.2)) :
    (insertByTime x l).Pairwise (·.2 ≤ ·.2) := by
  induction l with
  | nil => exact pairwise_singleton _ x
  | cons y l ih =>
    obtain ⟨hy, hl⟩ := pairwise_cons.mp h
    rw [insertByTime, orderedInsert_cons]
    split
    · rename_i hlt
      refine pairwise_cons.mpr ⟨fun z hz => ?_, h⟩
      rcases mem_cons.mp hz with rfl | hz
      · exact le_of_lt hlt
      · exact le_trans (le_of_lt hlt) (hy z hz)
    · rename_i hle
      refine pairwise_cons.mpr ⟨fun z hz => ?_, ih hl⟩
      rcases (mem_orderedInsert _).mp hz with rfl | hz
      · exact le_of_not_gt hle
      · exact hy z hz

section Holds
variable {b : TimeSortingBuffer α τ} {l : List (α × τ)} {x : α} {t : τ}

omit [LinearOrder τ] in
theorem filterMap_item_length {order : List Nat}
    (hvalid : ∀ i ∈ order, i < b.timeSortedBuffer.length) :
    (order.filterMap b.item).length = order.length := by
  induction order with
  | nil => rfl
  | cons i order ih =>
    rw [filterMap_cons, item_valid (hvalid i mem_cons_self), length_cons,
      length_cons, ih fun j hj => hvalid j (mem_cons_of_mem i hj)]

theorem Holds.length_eq (h : b.Holds l) : l.length = b.timeSortedBuffer.length := by
  obtain ⟨order, hchain, hlength, rfl⟩ := h.chained
  rw [filterMap_item_length hchain.valid, hlength]

theorem Holds.mem (h : b.Holds l) {x : α × τ} (hx : x ∈ l) :
    ∃ c ∈ b.timeSortedBuffer, x = (c.element, c.timestamp) := by
  obtain ⟨order, -, -, rfl⟩ := h.chained
  obtain ⟨i, -, hitem⟩ := mem_filterMap.mp hx
  obtain ⟨c, hc, rfl⟩ := Option.map_eq_some_iff.mp hitem
  exact ⟨c, mem_of_getElem? hc, rfl⟩

theorem holds_empty (capacity : Nat) : ({ capacity } : TimeSortingBuffer α τ).Holds [] :=
  ⟨⟨[], ⟨nodup_nil, by simp, trivial, rfl, rfl⟩, rfl, rfl⟩, List.Pairwise.nil, rfl⟩

theorem holds_clear (b : TimeSortingBuffer α τ) : b.clear.Holds [] := holds_empty b.capacity

theorem push_full (h : b.Holds l) (hfull : b.capacity ≤ l.length) : b.push x t = (b, false) := by
  rw [push, if_neg (Nat.not_lt.mpr (h.length_eq ▸ hfull))]

omit [LinearOrder τ] in
theorem Chained.extend {order : List Nat} (h : b.Chained order) (c : SortChainElement α τ) :
    Chained { b with timeSortedBuffer := b.timeSortedBuffer ++ [c] } order := by
  have hget : ∀ i ∈ order, (b.timeSortedBuffer ++ [c])[i]? = b.timeSortedBuffer[i]? :=
    fun i hi => List.getElem?_append_left (h.valid i hi)
  refine ⟨h.nodup, fun i hi => ?_, h.links.congr (fun i hi => ?_) fun i hi => ?_, h.start, h.last⟩
  · have hi := h.valid i hi
    simp only [length_append, length_singleton]
    omega
  · simp only [next, hget i hi]
  · simp only [previous, hget i hi]

theorem Holds.push (h : b.Holds l) (x : α) (t : τ) (hroom : l.length < b.capacity) :
    ∃ b', b.push x t = (b', true) ∧ b'.Holds (insertByTime (x, t) l) ∧
      b'.capacity = b.capacity := by
  obtain ⟨order, hchain, hlength, rfl⟩ := h.chained
  have hfree : b.timeSortedBuffer.length < b.capacity := h.length_eq ▸ hroom
  let new : SortChainElement α τ := { element := x, timestamp := t }
  let b₀ : TimeSortingBuffer α τ := { b with timeSortedBuffer := b.timeSortedBuffer ++ [new] }
  have hchain₀ : b₀.Chained order := hchain.extend new
  have hn : b.timeSortedBuffer.length < b₀.timeSortedBuffer.length := by simp [b₀]
  have hfresh : b.timeSortedBuffer.length ∉ order := fun hmem =>
    Nat.lt_irrefl _ (hchain.valid _ hmem)
  have hnew : b₀.item b.timeSortedBuffer.length = some (x, t) := by simp [item, b₀, new]
  have hold : order.filterMap b₀.item = order.filterMap b.item := by
    refine filterMap_congr fun i hi => ?_
    simp only [item, b₀, List.getElem?_append_left (hchain.valid i hi)]
  refine ⟨b₀.sort b.timeSortedBuffer.length t, by rw [TimeSortingBuffer.push, if_pos hfree], ?_⟩
  rcases eq_nil_or_concat order with rfl | ⟨us, p, rfl⟩
  · have hsort : b₀.sort b.timeSortedBuffer.length t =
        { b₀.pushFront b.timeSortedBuffer.length none with
          sortChainEnd := some b.timeSortedBuffer.length } := by
      rw [TimeSortingBuffer.sort, hchain₀.start]
      rfl
    rw [hsort]
    refine ⟨⟨⟨_, Chained.pushFront_empty hn, ?_, ?_⟩, pairwise_singleton _ _, h.unread⟩, rfl⟩
    · have hzero : b.timeSortedBuffer.length = 0 := hlength.symm
      exact (by simp [hzero, b₀] : 1 = b₀.timeSortedBuffer.length).trans
        (pushFront_length none).symm
    · have hitem := (pushFront_item (b := b₀) (n := b.timeSortedBuffer.length) none
        b.timeSortedBuffer.length).trans hnew
      exact filterMap_cons_some hitem
  · rw [concat_eq_append] at *
    have hsort : b₀.sort b.timeSortedBuffer.length t =
        b₀.sortFrom b.timeSortedBuffer.length t b₀.timeSortedBuffer.length p := by
      have hstart : ∃ q, b₀.sortChainStart = some q := by
        rw [hchain₀.start]
        cases us <;> exact ⟨_, rfl⟩
      obtain ⟨q, hq⟩ := hstart
      rw [TimeSortingBuffer.sort, hq, hchain₀.last, List.getLast?_concat]
    have hlen : us.length < b₀.timeSortedBuffer.length := by
      rw [length_append, length_singleton] at hlength
      omega
    have hsorted := h.sorted
    rw [← hold] at hsorted
    obtain ⟨order', hchain', hperm, hitems⟩ :=
      hchain₀.sortFrom hn hfresh hnew hsorted (by simp) hlen
    obtain ⟨hcapacity, hread⟩ := sortFrom_frame b₀ b.timeSortedBuffer.length p
      b₀.timeSortedBuffer.length t
    rw [hsort]
    refine ⟨⟨⟨order', hchain', ?_, ?_⟩, sorted_insertByTime _ h.sorted, ?_⟩, hcapacity⟩
    · rw [hperm.length_eq, sortFrom_length, length_cons, hlength]
      simp [b₀]
    · rw [← hold, ← hitems]
      exact filterMap_congr fun i _ => sortFrom_item i
    · exact hread.trans h.unread

/-- The elements that the calls of `getNextElement` still have to return. -/
def Remaining (b : TimeSortingBuffer α τ) (rest : List α) : Prop :=
  ∃ order, b.Chained order ∧ order.length = b.timeSortedBuffer.length ∧
    ((b.lastReportedElement = none ∧ (order.filterMap b.item).map Prod.fst = rest) ∨
      ∃ us i vs, order = us ++ i :: vs ∧ b.lastReportedElement = some i ∧
        (vs.filterMap b.item).map Prod.fst = rest)

theorem Holds.remaining (h : b.Holds l) : b.Remaining (l.map Prod.fst) := by
  obtain ⟨order, hchain, hlength, rfl⟩ := h.chained
  exact ⟨order, hchain, hlength, .inl ⟨h.unread, rfl⟩⟩

omit [LinearOrder τ] in
theorem Remaining.report (us : List Nat) {vs : List Nat} {i : Nat} (h : b.Chained (us ++ i :: vs))
    (hlength : (us ++ i :: vs).length = b.timeSortedBuffer.length) :
    ∃ x, (((i :: vs).filterMap b.item).map Prod.fst) = x :: (vs.filterMap b.item).map Prod.fst ∧
      (b.item i).map Prod.fst = some x ∧
      Remaining { b with lastReportedElement := some i } ((vs.filterMap b.item).map Prod.fst) := by
  have hi := h.valid i (by simp)
  have hitem := item_valid hi
  refine ⟨b.timeSortedBuffer[i].element, ?_, ?_, ?_⟩
  · rw [filterMap_cons, hitem]
    rfl
  · rw [hitem]
    rfl
  · exact ⟨_, { h with }, hlength, .inr ⟨us, i, vs, rfl, rfl, rfl⟩⟩

omit [LinearOrder τ] in
theorem Remaining.getNextElement_nil (h : b.Remaining []) : b.getNextElement = (none, b) := by
  obtain ⟨order, hchain, hlength, ⟨hread, hrest⟩ | ⟨us, i, vs, rfl, hread, hrest⟩⟩ := h
  · have hempty : b.timeSortedBuffer.length = 0 := by
      have := congrArg List.length hrest
      rw [length_map, filterMap_item_length hchain.valid, hlength] at this
      exact this
    simp only [getNextElement, hempty, if_true]
  · have hvs : vs = [] := by
      have := congrArg List.length hrest
      rw [length_map, filterMap_item_length fun j hj => hchain.valid j (by simp [hj])] at this
      exact length_eq_zero_iff.mp this
    subst hvs
    have hne : b.timeSortedBuffer.length ≠ 0 := by
      rw [← hlength]
      simp
    have hnext := hchain.next_mem
    rw [getNextElement, if_neg hne, hread]
    simp only [hnext, List.head?_nil]

omit [LinearOrder τ] in
theorem Remaining.getNextElement_cons {x : α} {rest : List α} (h : b.Remaining (x :: rest)) :
    ∃ b', b.getNextElement = (some x, b') ∧ b'.Remaining rest ∧ b'.capacity = b.capacity := by
  obtain ⟨order, hchain, hlength, ⟨hread, hrest⟩ | ⟨us, i, vs, rfl, hread, hrest⟩⟩ := h
  · cases order with
    | nil => cases hrest
    | cons i vs =>
      obtain ⟨y, hy, hitem, hremaining⟩ := Remaining.report [] hchain hlength
      obtain ⟨rfl, rfl⟩ := List.cons.inj (hy.symm.trans hrest)
      refine ⟨_, ?_, hremaining, rfl⟩
      have hne : b.timeSortedBuffer.length ≠ 0 := by rw [← hlength]; simp
      rw [getNextElement, if_neg hne, hread, hchain.start, ← hitem]
      rfl
  · cases vs with
    | nil => cases hrest
    | cons j vs =>
      have hnext := hchain.next_mem
      have hcut : us ++ i :: j :: vs = (us ++ [i]) ++ j :: vs := by simp
      rw [hcut] at hchain hlength
      obtain ⟨y, hy, hitem, hremaining⟩ := Remaining.report _ hchain hlength
      obtain ⟨rfl, rfl⟩ := List.cons.inj (hy.symm.trans hrest)
      refine ⟨_, ?_, hremaining, rfl⟩
      have hne : b.timeSortedBuffer.length ≠ 0 := by rw [← hlength]; simp
      rw [getNextElement, if_neg hne, hread]
      simp only [hnext, List.head?_cons, ← hitem]
      rfl

/-! ### What is pushed and what is read -/

def pushAll (b : TimeSortingBuffer α τ) :
    List (α × τ) → TimeSortingBuffer α τ × List Bool
  | [] => (b, [])
  | (x, t) :: items =>
    let (b', ok) := b.push x t
    let (b'', oks) := b'.pushAll items
    (b'', ok :: oks)

def read (b : TimeSortingBuffer α τ) : Nat → Option α
  | 0 => b.getNextElement.1
  | n + 1 => b.getNextElement.2.read n

def accepted (items : List (α × τ)) (oks : List Bool) : List (α × τ) :=
  ((items.zip oks).filter Prod.snd).map Prod.fst

/-- In the order of the timestamps, and of the list itself where they are equal. -/
structure StablySorted (items sorted : List (α × τ)) : Prop where
  perm : sorted.Perm items
  ordered : sorted.Pairwise (·.2 ≤ ·.2)
  stable : ∀ t, sorted.filter (·.2 = t) = items.filter (·.2 = t)

theorem filter_insertByTime {l : List (α × τ)} (hl : l.Pairwise (·.2 ≤ ·.2)) (e : α × τ) (t : τ) :
    (insertByTime e l).filter (·.2 = t) = l.filter (·.2 = t) ++ [e].filter (·.2 = t) := by
  induction l with
  | nil => rfl
  | cons y l ih =>
    obtain ⟨hy, hl⟩ := pairwise_cons.mp hl
    rw [TimeSortingBuffer.insertByTime, orderedInsert_cons]
    split
    · next hlt =>
      -- every element from `y` on is younger, so none has the timestamp of `e`
      by_cases heq : e.2 = t
      · have hnone : (y :: l).filter (·.2 = t) = [] := by
          rw [filter_eq_nil_iff]
          intro z hz
          have hlt' : e.2 < z.2 := by
            rcases mem_cons.mp hz with rfl | hz
            · exact hlt
            · exact lt_of_lt_of_le hlt (hy z hz)
          simpa [← heq] using hlt'.ne'
        rw [filter_cons, hnone]
        simp [heq]
      · simp [heq]
    · rw [filter_cons, filter_cons]
      split
      · exact congrArg (y :: ·) (ih hl)
      · exact ih hl

theorem StablySorted.insertByTime {items sorted : List (α × τ)} (h : StablySorted items sorted)
    (e : α × τ) : StablySorted (items ++ [e]) (insertByTime e sorted) where
  perm := (perm_orderedInsert _ e sorted).trans
    ((h.perm.cons e).trans (perm_append_singleton e items).symm)
  ordered := sorted_insertByTime e h.ordered
  stable t := by rw [filter_insertByTime h.ordered, h.stable t, filter_append]

theorem stablySorted_foldl_insertByTime (items : List (α × τ)) :
    StablySorted items (items.foldl (fun l e => insertByTime e l) []) := by
  induction items using List.reverseRecOn with
  | nil => exact ⟨List.Perm.nil, List.Pairwise.nil, fun _ => rfl⟩
  | append_singleton items e ih =>
    rw [foldl_append]
    exact ih.insertByTime e

theorem Holds.pushAll (h : b.Holds l) (hle : l.length ≤ b.capacity) (items : List (α × τ)) :
    (b.pushAll items).1.Holds ((accepted items (b.pushAll items).2).foldl
        (fun l e => insertByTime e l) l) ∧
      (b.pushAll items).1.capacity = b.capacity ∧
      l.length + (accepted items (b.pushAll items).2).length ≤ b.capacity := by
  induction items generalizing b l with
  | nil => exact ⟨h, rfl, hle⟩
  | cons e items ih =>
    obtain ⟨x, t⟩ := e
    rcases Nat.lt_or_eq_of_le hle with hroom | hfull
    · obtain ⟨b', hpush, hholds, hcapacity⟩ := h.push x t hroom
      have hlength : (insertByTime (x, t) l).length = l.length + 1 :=
        orderedInsert_length _ _ _
      obtain ⟨hrest, hcapacity', hcount⟩ := ih hholds (by omega)
      simp only [TimeSortingBuffer.pushAll, hpush]
      refine ⟨hrest, hcapacity'.trans hcapacity, ?_⟩
      simp only [accepted, zip_cons_cons, filter_cons_of_pos, map_cons,
        length_cons] at hcount ⊢
      omega
    · have hpush : b.push x t = (b, false) := push_full h hfull.ge
      simp only [TimeSortingBuffer.pushAll, hpush]
      exact ih h hle

omit [LinearOrder τ] in
theorem Remaining.read {rest : List α} (h : b.Remaining rest) (n : Nat) : b.read n = rest[n]? := by
  induction n generalizing b rest with
  | zero =>
    cases rest with
    | nil => simp [TimeSortingBuffer.read, h.getNextElement_nil]
    | cons x rest =>
      obtain ⟨b', hnext, -⟩ := h.getNextElement_cons
      simp [TimeSortingBuffer.read, hnext]
  | succ n ih =>
    cases rest with
    | nil => simpa [TimeSortingBuffer.read, h.getNextElement_nil] using ih h
    | cons x rest =>
      obtain ⟨b', hnext, hrest, -⟩ := h.getNextElement_cons
      simpa [TimeSortingBuffer.read, hnext] using ih hrest

/-- The calls of `getNextElement` return the accepted elements in a stable order of time, then null.
-/
theorem getNextElement_sorts_stably (b : TimeSortingBuffer α τ) (items : List (α × τ)) :
    ∃ sorted, StablySorted (accepted items (b.clear.pushAll items).2) sorted ∧
      (∀ n, (b.clear.pushAll items).1.read n = sorted[n]?.map Prod.fst) ∧
      ∀ x t, (((b.clear.pushAll items).1.push x t).2 = false ↔ sorted.length = b.capacity) ∧
        (((b.clear.pushAll items).1.push x t).2 = false →
          ((b.clear.pushAll items).1.push x t).1 = (b.clear.pushAll items).1) := by
  obtain ⟨hholds, hcapacity, hcount⟩ := (holds_clear b).pushAll (Nat.zero_le _) items
  have hsorted := stablySorted_foldl_insertByTime (accepted items (b.clear.pushAll items).2)
  refine ⟨_, hsorted, fun n => ?_, fun x t => ?_⟩
  · rw [hholds.remaining.read n, List.getElem?_map]
  · rw [length_nil, Nat.zero_add, ← hsorted.perm.length_eq] at hcount
    rcases Nat.lt_or_eq_of_le hcount with hroom | hfull
    · obtain ⟨b', hpush, -⟩ := hholds.push x t (hcapacity.symm ▸ hroom)
      rw [hpush]
      exact ⟨⟨nofun, fun heq => absurd heq hroom.ne⟩, nofun⟩
    · rw [push_full hholds (hcapacity.trans hfull.symm).le]
      exact ⟨⟨fun _ => hfull, fun _ => rfl⟩, fun _ => rfl⟩

end Holds

end TimeSortingBuffer

end LaunchManager
