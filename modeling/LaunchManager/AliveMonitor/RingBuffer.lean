import LaunchManager.FixedSizeQueue

/-!
# The ring buffer of the shared memory

`RingBuffer` of `ringbuffer.hpp`: nodes with a read head, a write head and a size,
and a flag that stays set once an element was refused. Every operation holds the
mutex of the buffer, so it is one step. `Holds` relates a buffer to its content in
FIFO order; later modules use the buffer through it only.
-/

namespace LaunchManager

open List

set_option autoImplicit false

universe u

/-- A node that was never written is `none`. -/
structure RingBuffer (T : Type u) where
  capacity : Nat
  nodes : List (Option T)
  writeHead : Nat := 0
  readHead : Nat := 0
  size : Nat := 0
  overflowFlag : Bool := false
  deriving DecidableEq, Repr

namespace RingBuffer
variable {T : Type u}

def create (capacity : Nat) : RingBuffer T where
  capacity := capacity
  nodes := List.replicate capacity none

def full (b : RingBuffer T) : Bool := b.size == b.capacity

def empty (b : RingBuffer T) : Bool := b.size == 0

/-- An element that does not fit is refused and sets the overflow flag. -/
def tryEnqueue (b : RingBuffer T) (value : T) : RingBuffer T × Bool :=
  if b.full then ({ b with overflowFlag := true }, false)
  else
    ({ b with
       nodes := b.nodes.set b.writeHead (some value)
       writeHead := (b.writeHead + 1) % b.capacity
       size := b.size + 1 }, true)

def tryPeek (b : RingBuffer T) : Option T :=
  if b.empty then none else (b.nodes[b.readHead]?).join

def tryPop (b : RingBuffer T) : RingBuffer T × Bool :=
  if b.empty then (b, false)
  else ({ b with readHead := (b.readHead + 1) % b.capacity, size := b.size - 1 }, true)

def tryDequeue (b : RingBuffer T) : RingBuffer T × Option T :=
  match b.tryPeek with
  | none => (b, none)
  | some value => (b.tryPop.1, some value)

/-- The buffer stores the elements of the list, the oldest first. -/
structure Holds (b : RingBuffer T) (l : List T) : Prop where
  length : b.nodes.length = b.capacity
  readHead_lt : b.readHead < b.capacity
  size : b.size = l.length
  size_le : l.length ≤ b.capacity
  writeHead : b.writeHead = ringIndex b.readHead b.capacity l.length
  stored : ∀ i, i < l.length →
    b.nodes[ringIndex b.readHead b.capacity i]? = some l[i]?

section
variable {b : RingBuffer T} {l : List T} {x : T}

theorem holds_create {capacity : Nat} (h : 0 < capacity) :
    (create capacity : RingBuffer T).Holds [] where
  length := length_replicate
  readHead_lt := h
  size := rfl
  size_le := Nat.zero_le _
  writeHead := (ringIndex_zero h).symm
  stored := fun i hi => absurd hi (Nat.not_lt_zero i)

theorem tryEnqueue_full (h : b.size = b.capacity) :
    b.tryEnqueue x = ({ b with overflowFlag := true }, false) := by
  rw [tryEnqueue, full, h, beq_self_eq_true, if_pos rfl]

theorem tryEnqueue_of_lt (h : b.size < b.capacity) : b.tryEnqueue x = ({ b with
       nodes := b.nodes.set b.writeHead (some x)
       writeHead := (b.writeHead + 1) % b.capacity
       size := b.size + 1 }, true) := by
  have hfull : b.full = false := beq_false_of_ne (Nat.ne_of_lt h)
  rw [tryEnqueue, hfull, if_neg Bool.false_ne_true]

theorem Holds.unique {l' : List T} (h : b.Holds l) (h' : b.Holds l') : l = l' := by
  have hlength : l.length = l'.length := h.size.symm.trans h'.size
  refine ext_getElem? fun i => ?_
  rcases Nat.lt_or_ge i l.length with hi | hi
  · exact Option.some.inj ((h.stored i hi).symm.trans (h'.stored i (hlength ▸ hi)))
  · rw [List.getElem?_eq_none hi, List.getElem?_eq_none (hlength ▸ hi)]

theorem Holds.tryEnqueue (h : b.Holds l) (hroom : b.size < b.capacity) :
    (b.tryEnqueue x).1.Holds (l ++ [x]) := by
  have hlt : l.length < b.capacity := h.size ▸ hroom
  rw [tryEnqueue_of_lt hroom]
  refine ⟨?_, h.readHead_lt, ?_, ?_, ?_, ?_⟩
  · exact length_set.trans h.length
  · simpa using h.size
  · simpa using Nat.succ_le_of_lt hlt
  · change (b.writeHead + 1) % b.capacity = _
    rw [h.writeHead, length_append]
    unfold ringIndex
    rw [Nat.mod_add_mod, Nat.add_assoc]
    rfl
  · intro i hi
    change (b.nodes.set b.writeHead (some x))[ringIndex b.readHead b.capacity i]? = _
    rw [h.writeHead]
    rw [length_append, length_singleton] at hi
    rcases Nat.lt_or_ge i l.length with hold | hnew
    · rw [List.getElem?_set_ne, h.stored i hold, List.getElem?_append_left hold]
      intro heq
      exact Nat.ne_of_gt hold (ringIndex_inj h.readHead_lt hlt (by omega) heq)
    · obtain rfl : i = l.length := by omega
      have hin : ringIndex b.readHead b.capacity l.length < b.nodes.length := by
        rw [h.length]
        exact ringIndex_lt h.readHead_lt
      rw [List.getElem?_set_self hin]
      simp

theorem Holds.not_empty (h : b.Holds (x :: l)) : b.empty = false :=
  beq_false_of_ne (h.size ▸ Nat.succ_ne_zero _)

theorem Holds.tryPeek_cons (h : b.Holds (x :: l)) : b.tryPeek = some x := by
  have hfirst := h.stored 0 (Nat.succ_pos _)
  rw [ringIndex_zero h.readHead_lt] at hfirst
  rw [tryPeek, h.not_empty, if_neg Bool.false_ne_true, hfirst]
  rfl

theorem Holds.tryPop_cons (h : b.Holds (x :: l)) : b.tryPop.2 = true ∧ b.tryPop.1.Holds l := by
  rw [tryPop, h.not_empty, if_neg Bool.false_ne_true]
  have hle : l.length + 1 ≤ b.capacity := h.size_le
  refine ⟨rfl, h.length, Nat.mod_lt _ (Nat.zero_lt_of_lt h.readHead_lt), ?_, ?_, ?_, ?_⟩
  · change b.size - 1 = l.length
    rw [h.size, length_cons, Nat.add_sub_cancel]
  · exact Nat.le_of_succ_le hle
  · exact h.writeHead.trans (ringIndex_succ l.length).symm
  · intro i hi
    have hstored := h.stored (i + 1) (Nat.succ_lt_succ hi)
    rw [List.getElem?_cons_succ] at hstored
    exact (congrArg _ (ringIndex_succ i)).trans hstored

theorem Holds.tryDequeue_cons (h : b.Holds (x :: l)) :
    b.tryDequeue.2 = some x ∧ b.tryDequeue.1.Holds l := by
  rw [tryDequeue, h.tryPeek_cons]
  exact ⟨rfl, h.tryPop_cons.2⟩

theorem overflowFlag_tryDequeue (b : RingBuffer T) :
    b.tryDequeue.1.overflowFlag = b.overflowFlag := by
  unfold tryDequeue tryPop
  split
  · rfl
  · split <;> rfl

end

end RingBuffer

end LaunchManager
