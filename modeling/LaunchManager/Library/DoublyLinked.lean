import Mathlib.Data.List.Nodup

/-!
# Doubly linked lists in a store

Every reference has a link to the next and one to the previous reference, `none`
at the ends. `Segment` says that the links spell out a list of references
between two given neighbours, so that a list is cut and joined like its links.
-/

namespace DoublyLinked

open List

set_option autoImplicit false

universe u
variable {Ref : Type u}

/-- The links spell out the list, which has `before` in front of it and `after` behind it. -/
def Segment (next previous : Ref → Option Ref) :
    Option Ref → List Ref → Option Ref → Prop
  | _, [], _ => True
  | before, i :: l, after =>
    previous i = before ∧ next i = l.head?.or after ∧ Segment next previous (some i) l after

variable {next previous next' previous' : Ref → Option Ref} {before after : Option Ref}
  {xs ys : List Ref} {n p : Ref}

theorem Segment.append : Segment next previous before (xs ++ ys) after ↔
    Segment next previous before xs (ys.head?.or after) ∧
      Segment next previous (xs.getLast?.or before) ys after := by
  induction xs generalizing before with
  | nil => simp [Segment]
  | cons i l ih =>
    have hhead : (l ++ ys).head?.or after = l.head?.or (ys.head?.or after) := by
      rw [List.head?_append, Option.or_assoc]
    have hlast : (i :: l).getLast?.or before = l.getLast?.or (some i) := by
      cases l with
      | nil => rfl
      | cons j l => simp [List.getLast?_eq_some_getLast]
    simp only [cons_append, Segment, ih, hhead, hlast, and_assoc]

theorem Segment.congr (h : Segment next previous before xs after)
    (hnext : ∀ i ∈ xs, next' i = next i) (hprevious : ∀ i ∈ xs, previous' i = previous i) :
    Segment next' previous' before xs after := by
  induction xs generalizing before with
  | nil => trivial
  | cons i l ih =>
    obtain ⟨hp, hn, hl⟩ := h
    refine ⟨?_, ?_, ?_⟩
    · rw [hprevious i mem_cons_self, hp]
    · rw [hnext i mem_cons_self, hn]
    · exact ih hl (fun j hj => hnext j (mem_cons_of_mem i hj))
        fun j hj => hprevious j (mem_cons_of_mem i hj)

theorem Segment.relink_front {before' : Option Ref} (h : Segment next previous before ys after)
    (hnd : ys.Nodup) (hnext : ∀ i ∈ ys, next' i = next i)
    (hprevious : ∀ i ∈ ys, ys.head? ≠ some i → previous' i = previous i)
    (hfirst : ∀ i, ys.head? = some i → previous' i = before') :
    Segment next' previous' before' ys after := by
  cases ys with
  | nil => trivial
  | cons q l =>
    obtain ⟨-, hn, hl⟩ := h
    refine ⟨hfirst q rfl, ?_, ?_⟩
    · rw [hnext q mem_cons_self, hn]
    · refine hl.congr (fun i hi => hnext i (mem_cons_of_mem q hi)) fun i hi => ?_
      refine hprevious i (mem_cons_of_mem q hi) fun heq => ?_
      rw [List.head?_cons, Option.some_inj] at heq
      exact (nodup_cons.mp hnd).1 (heq ▸ hi)

theorem Segment.insert_front (h : Segment next previous none ys none) (hnd : ys.Nodup)
    (hn : next' n = ys.head?) (hp : previous' n = none) (hnext : ∀ i ∈ ys, next' i = next i)
    (hprevious : ∀ i ∈ ys, ys.head? ≠ some i → previous' i = previous i)
    (hfirst : ∀ i, ys.head? = some i → previous' i = some n) :
    Segment next' previous' none (n :: ys) none := by
  refine ⟨hp, ?_, h.relink_front hnd hnext hprevious hfirst⟩
  rw [hn, Option.or_none]

theorem Segment.insert_after (h : Segment next previous none (xs ++ p :: ys) none)
    (hnd : (xs ++ p :: ys).Nodup) (hn : next' n = next p) (hp : previous' n = some p)
    (hpn : next' p = some n) (hnext : ∀ i ∈ xs ++ p :: ys, i ≠ p → next' i = next i)
    (hprevious : ∀ i ∈ xs ++ p :: ys, next p ≠ some i → previous' i = previous i)
    (hfirst : ∀ i, next p = some i → previous' i = some n) :
    Segment next' previous' none (xs ++ p :: n :: ys) none := by
  obtain ⟨hxs, hpp, hnp, hys⟩ := Segment.append.mp h
  rw [Option.or_none] at hnp
  have hnext_ne : ∀ i ∈ xs ++ [p], next p ≠ some i := by
    intro i hi heq
    rw [hnp] at heq
    have hmem : i ∈ ys := mem_of_mem_head? heq
    have hdis := nodup_append'.mp (by simpa using hnd : ((xs ++ [p]) ++ ys).Nodup)
    exact hdis.2.2 hi hmem
  have hpys : ∀ i ∈ ys, i ≠ p := by
    rintro i hi rfl
    exact (nodup_cons.mp (nodup_append'.mp hnd).2.1).1 hi
  have hpxs : ∀ i ∈ xs, i ≠ p := by
    rintro i hi rfl
    exact (nodup_append'.mp hnd).2.2 hi mem_cons_self
  refine Segment.append.mpr ⟨?_, ?_, ?_, ?_, ?_, ?_⟩
  · refine hxs.congr (fun i hi => ?_) fun i hi => ?_
    · exact hnext i (mem_append_left _ hi) (hpxs i hi)
    · exact hprevious i (mem_append_left _ hi) (hnext_ne i (mem_append_left _ hi))
  · rw [hprevious p (by simp) (hnext_ne p (by simp)), hpp]
  · rw [hpn]
    rfl
  · exact hp
  · rw [hn, hnp, Option.or_none]
  · refine hys.relink_front (nodup_cons.mp (nodup_append'.mp hnd).2.1).2 ?_ ?_ ?_
    · exact fun i hi => hnext i (by simp [hi]) (hpys i hi)
    · exact fun i hi hne => hprevious i (by simp [hi]) (hnp ▸ hne)
    · exact fun i hi => hfirst i (hnp ▸ hi)

end DoublyLinked
