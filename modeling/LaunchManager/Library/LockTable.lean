import Mathlib.Logic.Function.Basic
import Mathlib.Logic.Relation

/-!
# Which thread holds which mutex

A table of the holders of non-recursive mutexes, compared with what the program of each
thread says that the thread holds, and the rule that mutexes taken in the order of a rank
are never taken in a cyclic order.
-/

namespace LockTable

set_option autoImplicit false

universe u v

variable {Mutex : Type u} {Thread : Type v}
variable {holder : Mutex → Option Thread} {held held' : Thread → List Mutex}
variable {t : Thread} {m : Mutex}

theorem acyclic_of_rank {r : Mutex → Mutex → Prop} (rank : Mutex → Nat)
    (h : ∀ a b, r a b → rank a < rank b) (m : Mutex) : ¬ Relation.TransGen r m m := by
  have hlt : ∀ {a b}, Relation.TransGen r a b → rank a < rank b := by
    intro a b hab
    induction hab with
    | single hstep => exact h _ _ hstep
    | tail _ hstep ih => exact Nat.lt_trans ih (h _ _ hstep)
  intro hcycle
  exact Nat.lt_irrefl _ (hlt hcycle)

/-- The table agrees with what the programs hold. -/
def Agrees (holder : Mutex → Option Thread) (held : Thread → List Mutex) : Prop :=
  ∀ m t, holder m = some t ↔ m ∈ held t

theorem Agrees.keep (h : Agrees holder held) (hheld : ∀ u, held' u = held u) :
    Agrees holder held' := by
  intro n u
  rw [hheld, h n u]

variable [DecidableEq Mutex]

theorem Agrees.acquire (h : Agrees holder held) (hfree : holder m = none)
    (hother : ∀ u, u ≠ t → held' u = held u) (hself : held' t = m :: held t) :
    Agrees (Function.update holder m (some t)) held' := by
  intro n u
  by_cases hu : u = t
  · subst hu
    rw [hself, List.mem_cons, ← h n u]
    by_cases hn : n = m
    · subst hn
      simp
    · rw [Function.update_of_ne hn]
      simp [hn]
  · rw [hother u hu, ← h n u]
    by_cases hn : n = m
    · subst hn
      rw [Function.update_self, hfree]
      simp [Ne.symm hu]
    · rw [Function.update_of_ne hn]

theorem Agrees.release (h : Agrees holder held) (hnodup : (held t).Nodup)
    (hother : ∀ u, u ≠ t → held' u = held u) (hself : held t = m :: held' t) :
    Agrees (Function.update holder m none) held' := by
  obtain ⟨hnot, -⟩ := List.nodup_cons.mp (hself ▸ hnodup)
  have hholder : holder m = some t := (h m t).mpr (hself ▸ List.mem_cons_self)
  intro n u
  by_cases hn : n = m
  · subst hn
    rw [Function.update_self]
    by_cases hu : u = t
    · subst hu
      simp [hnot]
    · rw [hother u hu, ← h n u, hholder]
      simp [Ne.symm hu]
  · rw [Function.update_of_ne hn, h n u]
    by_cases hu : u = t
    · subst hu
      rw [hself]
      simp [hn]
    · rw [hother u hu]

end LockTable
