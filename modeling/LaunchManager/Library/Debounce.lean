import Mathlib.Data.List.Basic

/-!
# Cycles of fixed length and a debounce counter

Time is tiled from `start` in cycles of length `k`. A cycle owns the instants
after its start up to and including its end; the first one owns its start as
well. The counter goes up by one for a bad cycle and down by one for a good one,
but not below zero.
-/

namespace Debounce

set_option autoImplicit false

variable {bad bad' : Nat → Bool} {start k i j m n t τ : Nat} {l : List Nat}

def counter (bad : Nat → Bool) : Nat → Nat
  | 0 => 0
  | n + 1 => if bad n then counter bad n + 1 else counter bad n - 1

theorem counter_congr (h : ∀ i < n, bad i = bad' i) : counter bad n = counter bad' n := by
  induction n with
  | zero => rfl
  | succ n ih =>
    rw [counter, counter, h n (Nat.lt_succ_self n), ih fun i hi => h i (Nat.lt_succ_of_lt hi)]

def cycleEnd (start k i : Nat) : Nat := start + (i + 1) * k

def inCycle (start k i t : Nat) : Bool :=
  (decide (start + i * k < t) || (i == 0 && t == start)) && decide (t ≤ cycleEnd start k i)

theorem cycleEnd_succ (start k i : Nat) : cycleEnd start k (i + 1) = cycleEnd start k i + k := by
  rw [cycleEnd, cycleEnd, Nat.succ_mul (i + 1), Nat.add_assoc]

def count (start k : Nat) (l : List Nat) (i : Nat) : Nat := l.countP (inCycle start k i)

/-- All instants from `τ` on belong to cycle `n` or a later one. -/
def Reached (start k τ n : Nat) : Prop := start + n * k + (if n = 0 then 0 else 1) ≤ τ

theorem Reached.mono (h : Reached start k t n) (hle : t ≤ τ) : Reached start k τ n :=
  Nat.le_trans h hle

theorem reached_zero (h : start ≤ t) : Reached start k t 0 := by
  simpa [Reached] using h

theorem reached_succ (h : cycleEnd start k n < t) : Reached start k t (n + 1) := by
  rw [cycleEnd] at h
  rw [Reached, if_neg (Nat.succ_ne_zero n)]
  exact h

theorem inCycle_of_reached (h : Reached start k t n) (hle : t ≤ cycleEnd start k n) :
    inCycle start k n t = true := by
  have hlow : start + n * k < t ∨ (n = 0 ∧ t = start) := by
    rw [Reached] at h
    split at h
    · rename_i hn
      subst hn
      rw [Nat.zero_mul] at h ⊢
      omega
    · omega
  rcases hlow with hlow | ⟨rfl, rfl⟩
  · simp [inCycle, hlow, hle]
  · simp [inCycle, cycleEnd]

theorem inCycle_of_lt (h : Reached start k t n) (hi : i < n) : inCycle start k i t = false := by
  have hmul : (i + 1) * k ≤ n * k := Nat.mul_le_mul_right k hi
  rw [Reached, if_neg (by omega)] at h
  have hlt : ¬ t ≤ cycleEnd start k i := by
    rw [cycleEnd]
    omega
  simp [inCycle, hlt]

theorem inCycle_of_gt (h : t ≤ cycleEnd start k n) (hi : n < i) : inCycle start k i t = false := by
  rw [cycleEnd] at h
  have hmul : (n + 1) * k ≤ i * k := Nat.mul_le_mul_right k hi
  have hlow : ¬ start + i * k < t := by omega
  have hne : i ≠ 0 := by omega
  simp [inCycle, hlow, hne]

theorem count_append (l l' : List Nat) :
    count start k (l ++ l') i = count start k l i + count start k l' i :=
  List.countP_append

theorem count_concat_of_lt (h : Reached start k t n) (hi : i < n) :
    count start k (l ++ [t]) i = count start k l i := by
  rw [count_append]
  simp [count, inCycle_of_lt h hi]

theorem count_concat_self (h : Reached start k t n) (hle : t ≤ cycleEnd start k n) :
    count start k (l ++ [t]) n = count start k l n + 1 := by
  rw [count_append]
  simp [count, inCycle_of_reached h hle]

theorem count_eq_zero (h : ∀ t ∈ l, t ≤ cycleEnd start k n) (hi : n < i) :
    count start k l i = 0 := by
  rw [count, List.countP_eq_zero]
  intro t ht
  simp [inCycle_of_gt (h t ht) hi]

theorem div_eq_of_reached (hk : 0 < k) (h : Reached start k (t + 1) n)
    (hlt : t < cycleEnd start k n) : (t - start) / k = n := by
  rw [cycleEnd] at hlt
  have hpos : 0 < (n + 1) * k := Nat.mul_pos n.succ_pos hk
  rw [Reached] at h
  refine Nat.div_eq_of_lt_le ?_ ?_
  · split at h
    · rename_i hn
      simp [hn]
    · omega
  · omega

theorem le_div_of_reached (hk : 0 < k) (h : Reached start k (t + 1) n) : n ≤ (t - start) / k := by
  rw [Reached] at h
  refine (Nat.le_div_iff_mul_le hk).mpr ?_
  split at h
  · rename_i hn
    simp [hn]
  · omega

end Debounce
