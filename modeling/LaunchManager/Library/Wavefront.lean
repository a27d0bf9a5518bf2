import Mathlib.Data.List.Perm.Subperm
import Mathlib.Data.Finite.Prod
import Mathlib.Order.WellFoundedSet

/-!
# Waves over an acyclic relation

A wave works through a finite set of members. `before k` are the elements that
must be done before `k` may be queued, and `todo` is a live flag which an
element in flight clears for itself, possibly long before it is reported as
finished. Finishing an element queues those that now have nothing left to wait
for and are not marked yet; the first elements of a wave are queued unmarked.

The rules below say that the bookkeeping is sound under every order of pops,
flag changes and reports. Nothing here depends on what the elements are.
-/

namespace Wavefront

open List

set_option autoImplicit false

universe u
variable {α : Type u}

theorem wellFounded_of_acyclic {r : α → α → Prop} (elems : List α)
    (inside : ∀ a b, r a b → a ∈ elems ∧ b ∈ elems)
    (acyclic : ∀ a, ¬ Relation.TransGen r a a) : WellFounded r := by
  have hstrict : IsStrictOrder α (Relation.TransGen r) :=
    { irrefl := acyclic
      trans := fun _ _ _ => Relation.TransGen.trans }
  have hon := Set.Finite.wellFoundedOn (r := Relation.TransGen r) elems.finite_toSet
  apply Subrelation.wf _ (Set.wellFoundedOn_iff.mp hon)
  intro a b hab
  exact ⟨.single hab, inside a b hab⟩

structure Wave (α : Type u) where
  members : List α
  queue : List α
  inFlight : List α
  finished : List α
  marked : α → Bool
  todo : α → Bool

namespace Wave

def touched (w : Wave α) : List α := w.queue ++ (w.inFlight ++ w.finished)

theorem mem_touched (w : Wave α) (k : α) :
    k ∈ w.touched ↔ k ∈ w.queue ∨ k ∈ w.inFlight ∨ k ∈ w.finished := by
  simp [touched]

/-- The invariant of a wave. An unmarked element of the queue is a first element: no member
has to be done before it, so no report can queue it again. -/
structure Sound (before : α → List α) (w : Wave α) : Prop where
  members_nodup : w.members.Nodup
  distinct : w.touched.Nodup
  subset : ∀ k ∈ w.touched, k ∈ w.members
  waiting_todo : ∀ k ∈ w.members, k ∉ w.inFlight → k ∉ w.finished → w.todo k = true
  finished_done : ∀ k ∈ w.finished, w.todo k = false
  within : ∀ k ∈ w.members, ∀ p ∈ before k, w.todo p = true → p ∈ w.members
  blocked : ∀ k ∈ w.members, k ∉ w.touched → ∃ p ∈ before k, p ∈ w.members ∧ p ∉ w.finished
  marks : ∀ k ∈ w.members, w.marked k = true → k ∈ w.touched
  heads : ∀ k ∈ w.touched, w.marked k = true ∨ ∀ p ∈ before k, p ∉ w.members
  cleared : ∀ k ∈ w.touched, ∀ p ∈ before k, w.todo p = false

namespace Sound
variable {before : α → List α} {w : Wave α}
variable {queue inFlight rest flying : List α} {k : α}

theorem start {members : List α} {marked todo : α → Bool} (hm : members.Nodup)
    (hq : queue.Nodup) (htodo : ∀ k ∈ members, todo k = true)
    (hwithin : ∀ k ∈ members, ∀ p ∈ before k, todo p = true → p ∈ members)
    (hmarked : ∀ k ∈ members, marked k = false)
    (hqueue : ∀ k, k ∈ queue ↔ k ∈ members ∧ ∀ p ∈ before k, todo p = false) :
    Sound before ⟨members, queue, [], [], marked, todo⟩ where
  members_nodup := hm
  distinct := by simpa [touched] using hq
  subset k hk := by
    simp only [touched, append_nil] at hk
    exact ((hqueue k).mp hk).1
  waiting_todo k hk _ _ := htodo k hk
  finished_done := by simp
  within := hwithin
  blocked := by
    intro k hk hnot
    simp only [touched, append_nil, hqueue, not_and, not_forall] at hnot
    obtain ⟨p, hp, htodop⟩ := hnot hk
    have hp' : todo p = true := by simpa using htodop
    exact ⟨p, hp, hwithin k hk p hp hp', by simp⟩
  marks k hk hmk := by simp [hmarked k hk] at hmk
  heads := by
    intro k hk
    simp only [touched, append_nil, hqueue] at hk
    refine .inr fun p hp hpm => ?_
    have hdone := hk.2 p hp
    rw [htodo p hpm] at hdone
    cases hdone
  cleared := by
    intro k hk p hp
    simp only [touched, append_nil, hqueue] at hk
    exact hk.2 p hp

theorem mem_of_inFlight (h : Sound before w) (hk : k ∈ w.inFlight) : k ∈ w.members :=
  h.subset k ((w.mem_touched k).mpr (.inr (.inl hk)))

theorem move (h : Sound before w) (hperm : (Wave.touched { w with queue, inFlight }).Perm w.touched)
    (hsub : w.inFlight ⊆ inFlight) : Sound before { w with queue, inFlight } where
  members_nodup := h.members_nodup
  distinct := hperm.nodup_iff.mpr h.distinct
  subset k hk := h.subset k (hperm.mem_iff.mp hk)
  waiting_todo k hk hni := h.waiting_todo k hk fun hm => hni (hsub hm)
  finished_done := h.finished_done
  within := h.within
  blocked k hk hnot := h.blocked k hk fun hm => hnot (hperm.mem_iff.mpr hm)
  marks k hk hmk := hperm.mem_iff.mpr (h.marks k hk hmk)
  heads k hk := h.heads k (hperm.mem_iff.mp hk)
  cleared k hk := h.cleared k (hperm.mem_iff.mp hk)

theorem reorder (h : Sound before w) (hi : inFlight.Perm w.inFlight) :
    Sound before { w with inFlight } :=
  h.move (List.Perm.append_left _ (hi.append_right _)) hi.symm.subset

theorem pop (h : Sound before w) (hq : w.queue = k :: rest) :
    Sound before { w with queue := rest, inFlight := k :: w.inFlight } := by
  refine h.move ?_ (subset_cons_self k _)
  simp only [touched, hq, cons_append]
  exact perm_middle

theorem act (h : Sound before w) (hk : k ∈ w.inFlight) {todo : α → Bool}
    (hself : todo k = false) (hother : ∀ j, j ≠ k → todo j = w.todo j) :
    Sound before { w with todo := todo } := by
  have hmono : ∀ j, todo j = true → w.todo j = true := by
    intro j hj
    by_cases hjk : j = k
    · rw [hjk, hself] at hj
      cases hj
    · rwa [← hother j hjk]
  have hkeep : ∀ j, w.todo j = false → todo j = false := by
    intro j hj
    by_cases hjk : j = k
    · rw [hjk, hself]
    · rw [hother j hjk, hj]
  constructor
  · exact h.members_nodup
  · exact h.distinct
  · exact h.subset
  · intro j hj hni hnf
    have hjk : j ≠ k := fun he => hni (he ▸ hk)
    exact (hother j hjk).trans (h.waiting_todo j hj hni hnf)
  · exact fun j hj => hkeep j (h.finished_done j hj)
  · exact fun j hj p hp htodo => h.within j hj p hp (hmono p htodo)
  · exact h.blocked
  · exact h.marks
  · exact h.heads
  · exact fun j hj p hp => hkeep p (h.cleared j hj p hp)

/-- A report queues `fresh`, the unmarked members that waited for `k` and now wait for
nothing. Whoever still waits, waits for an element that is not finished. -/
theorem finish (h : Sound before w) {fresh : List α} (marked : α → Bool)
    (hfly : w.inFlight.Perm (k :: flying)) (hdone : w.todo k = false) (hnodup : fresh.Nodup)
    (hfresh : ∀ s ∈ fresh, s ∈ w.members ∧ w.marked s = false ∧ k ∈ before s ∧
      ∀ p ∈ before s, w.todo p = false)
    (hcomplete : ∀ s ∈ w.members, k ∈ before s → w.todo s = true →
      (∀ p ∈ before s, w.todo p = false) → w.marked s = true ∨ s ∈ fresh)
    (hmarked : ∀ s, marked s = true ↔ w.marked s = true ∨ s ∈ fresh) :
    Sound before { w with
      queue := w.queue ++ fresh, inFlight := flying, finished := k :: w.finished,
      marked := marked } := by
  have hkm : k ∈ w.members := h.mem_of_inFlight (hfly.mem_iff.mpr mem_cons_self)
  have hperm : (Wave.touched { w with
      queue := w.queue ++ fresh, inFlight := flying, finished := k :: w.finished,
      marked := marked }).Perm (fresh ++ w.touched) := by
    simp only [touched]
    have hmid : (flying ++ k :: w.finished).Perm (w.inFlight ++ w.finished) :=
      perm_middle.trans ((List.Perm.append_right w.finished hfly).symm)
    have hfront : (w.queue ++ fresh ++ (w.inFlight ++ w.finished)).Perm
        (fresh ++ (w.queue ++ (w.inFlight ++ w.finished))) := by
      rw [← append_assoc fresh]
      exact List.Perm.append_right _ perm_append_comm
    exact (List.Perm.append_left _ hmid).trans hfront
  have hmem : ∀ j, j ∈ Wave.touched { w with
      queue := w.queue ++ fresh, inFlight := flying, finished := k :: w.finished,
      marked := marked } ↔ j ∈ fresh ∨ j ∈ w.touched := by
    intro j
    rw [hperm.mem_iff, mem_append]
  have hdisjoint : ∀ s ∈ fresh, s ∉ w.touched := by
    intro s hs ht
    obtain ⟨_, hunmarked, hks, _⟩ := hfresh s hs
    rcases h.heads s ht with hm | hm
    · rw [hunmarked] at hm
      cases hm
    · exact hm k hks hkm
  constructor
  · exact h.members_nodup
  · rw [hperm.nodup_iff, nodup_append]
    exact ⟨hnodup, h.distinct, fun a ha b hb hab => hdisjoint a ha (hab ▸ hb)⟩
  · intro j hj
    rcases (hmem j).mp hj with hj | hj
    · exact (hfresh j hj).1
    · exact h.subset j hj
  · intro j hj hni hnf
    have hjk : j ≠ k := fun he => hnf (he ▸ mem_cons_self)
    refine h.waiting_todo j hj (fun hm => ?_) fun hm => hnf (mem_cons_of_mem k hm)
    rcases mem_cons.mp (hfly.mem_iff.mp hm) with he | hm
    · exact hjk he
    · exact hni hm
  · intro j hj
    rcases mem_cons.mp hj with rfl | hj
    · exact hdone
    · exact h.finished_done j hj
  · exact h.within
  · intro j hj hnot
    have hold : j ∉ w.touched := fun hm => hnot ((hmem j).mpr (.inr hm))
    obtain ⟨p, hp, hpm, hpf⟩ := h.blocked j hj hold
    by_cases hpk : p = k
    · subst p
      have htodo : w.todo j = true := h.waiting_todo j hj
        (fun hm => hold ((w.mem_touched j).mpr (.inr (.inl hm))))
        (fun hm => hold ((w.mem_touched j).mpr (.inr (.inr hm))))
      -- The report of `k` did not queue `j`, so something else before `j` is still to do.
      have hother : ¬ ∀ q ∈ before j, w.todo q = false := by
        intro hall
        rcases hcomplete j hj hp htodo hall with hm | hm
        · exact hold (h.marks j hj hm)
        · exact hnot ((hmem j).mpr (.inl hm))
      simp only [not_forall] at hother
      obtain ⟨q, hq, hqtodo⟩ := hother
      have hq' : w.todo q = true := by simpa using hqtodo
      refine ⟨q, hq, h.within j hj q hq hq', fun hm => ?_⟩
      rcases mem_cons.mp hm with rfl | hm
      · rw [hdone] at hq'
        cases hq'
      · rw [h.finished_done q hm] at hq'
        cases hq'
    · exact ⟨p, hp, hpm, fun hm => (mem_cons.mp hm).elim hpk hpf⟩
  · intro j hj hmj
    rcases (hmarked j).mp hmj with hm | hm
    · exact (hmem j).mpr (.inr (h.marks j hj hm))
    · exact (hmem j).mpr (.inl hm)
  · intro j hj
    rcases (hmem j).mp hj with hj | hj
    · exact .inl ((hmarked j).mpr (.inr hj))
    · exact (h.heads j hj).imp (fun hm => (hmarked j).mpr (.inl hm)) id
  · intro j hj
    rcases (hmem j).mp hj with hj | hj
    · exact (hfresh j hj).2.2.2
    · exact h.cleared j hj

theorem length_le (h : Sound before w) :
    w.queue.length + w.inFlight.length + w.finished.length ≤ w.members.length := by
  have hsub := (h.distinct.subperm h.subset).length_le
  simp only [touched, length_append] at hsub
  omega

theorem nodup_parts (h : Sound before w) : w.inFlight.Nodup ∧ w.finished.Nodup := by
  have hdistinct := h.distinct
  rw [touched, nodup_append, nodup_append] at hdistinct
  exact ⟨hdistinct.2.1.1, hdistinct.2.1.2.1⟩

theorem head (h : Sound before w) (hq : w.queue = k :: rest) :
    k ∈ w.members ∧ (k ∉ w.inFlight ∧ k ∉ w.finished) ∧ w.todo k = true ∧
      ∀ p ∈ before k, w.todo p = false := by
  have hkq : k ∈ w.touched := (w.mem_touched k).mpr (.inl (hq ▸ mem_cons_self))
  have hdistinct := h.distinct
  simp only [touched, hq, cons_append, nodup_cons, mem_append, not_or] at hdistinct
  have hfresh := hdistinct.1.2
  have hmem := h.subset k hkq
  exact ⟨hmem, hfresh, h.waiting_todo k hmem hfresh.1 hfresh.2, h.cleared k hkq⟩

theorem length_unfinished [DecidableEq α] (h : Sound before w) :
    (w.members.filter (· ∉ w.finished)).length + w.finished.length = w.members.length := by
  have hin : (w.members.filter (· ∈ w.finished)).Perm w.finished := by
    apply (perm_ext_iff_of_nodup (h.members_nodup.filter _) h.nodup_parts.2).mpr
    intro k
    simp only [mem_filter, decide_eq_true_eq]
    exact ⟨And.right, fun hk => ⟨h.subset k ((w.mem_touched k).mpr (.inr (.inr hk))), hk⟩⟩
  have hsplit := length_eq_length_filter_add (l := w.members) (· ∈ w.finished)
  rw [hin.length_eq] at hsplit
  simp only [decide_not]
  omega

theorem all_finished (wf : WellFounded fun p k => p ∈ before k ∧ p ∈ w.members) (h : Sound before w)
    (hq : w.queue = []) (hi : w.inFlight = []) : ∀ k ∈ w.members, k ∈ w.finished := by
  intro k
  induction k using wf.induction with
  | _ k ih =>
    intro hk
    by_contra hnf
    have hnot : k ∉ w.touched := by simp [touched, hq, hi, hnf]
    obtain ⟨p, hp, hpm, hpf⟩ := h.blocked k hk hnot
    exact hpf (ih p ⟨hp, hpm⟩ hpm)

theorem last (h : Sound before w)
    (hfly : w.inFlight.Perm (k :: flying)) (hlen : w.finished.length + 1 = w.members.length) :
    w.queue = [] ∧ flying = [] ∧ ∀ j, j ∈ k :: w.finished ↔ j ∈ w.members := by
  have hle := h.length_le
  have hcount := hfly.length_eq
  rw [length_cons] at hcount
  have hq : w.queue = [] := length_eq_zero_iff.mp (by omega)
  have hf : flying = [] := length_eq_zero_iff.mp (by omega)
  have htouched : w.touched.Perm (k :: w.finished) := by
    rw [touched, hq, nil_append]
    rw [hf] at hfly
    exact List.Perm.append_right w.finished hfly
  have hperm := (h.distinct.subperm h.subset).perm_of_length_le
    (by rw [htouched.length_eq, length_cons]; omega)
  exact ⟨hq, hf, fun j => htouched.symm.mem_iff.trans hperm.mem_iff⟩

/-- Deadlock freedom: an unfinished wave has something to pop or something to wait for. -/
theorem progress (wf : WellFounded fun p k => p ∈ before k ∧ p ∈ w.members) (h : Sound before w)
    (hlen : w.finished.length < w.members.length) : w.queue ≠ [] ∨ w.inFlight ≠ [] := by
  by_contra hnone
  simp only [not_or, not_not] at hnone
  have hall := h.all_finished wf hnone.1 hnone.2
  have hle := (h.members_nodup.subperm hall).length_le
  omega

end Sound

end Wave

section Enqueue
variable [DecidableEq α]

def mark (marked : α → Bool) (k : α) : α → Bool := fun j => decide (j = k) || marked j

/-- Queue the ready elements of a list that are not marked yet, marking each. -/
def enqueueReady (ready : α → Bool) : List α → (α → Bool) → List α
  | [], _ => []
  | s :: ss, marked =>
    if ready s && !marked s then s :: enqueueReady ready ss (mark marked s)
    else enqueueReady ready ss marked

theorem mem_enqueueReady (ready : α → Bool) (ss : List α) (marked : α → Bool) (k : α) :
    k ∈ enqueueReady ready ss marked ↔ k ∈ ss ∧ ready k = true ∧ marked k = false := by
  induction ss generalizing marked with
  | nil => simp [enqueueReady]
  | cons s ss ih =>
    simp only [enqueueReady]
    split
    · rename_i hs
      simp only [Bool.and_eq_true, Bool.not_eq_true'] at hs
      rw [mem_cons, ih]
      by_cases hk : k = s
      · subst k
        simp [hs]
      · simp [hk, mark]
    · rename_i hs
      simp only [Bool.and_eq_true, Bool.not_eq_true', not_and] at hs
      rw [ih, mem_cons]
      constructor
      · rintro ⟨hm, hr⟩
        exact ⟨.inr hm, hr⟩
      · rintro ⟨rfl | hm, hr, hn⟩
        · exact absurd hn (hs hr)
        · exact ⟨hm, hr, hn⟩

theorem enqueueReady_nodup (ready : α → Bool) (ss : List α) (marked : α → Bool) :
    (enqueueReady ready ss marked).Nodup := by
  induction ss generalizing marked with
  | nil => simp [enqueueReady]
  | cons s ss ih =>
    simp only [enqueueReady]
    split
    · rw [nodup_cons]
      refine ⟨?_, ih _⟩
      simp [mem_enqueueReady, mark]
    · exact ih _

end Enqueue

end Wavefront
