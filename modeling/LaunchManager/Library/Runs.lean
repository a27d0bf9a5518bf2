import Mathlib.Logic.Relation

/-!
# Runs of executable labelled systems

`step s a` is the state after action `a`, or `none` when the action is not
enabled in `s`. A run carries a side condition on the state before each step,
so that "every run" and "every run that avoids some step" are the same notion.
-/

namespace Runs

set_option autoImplicit false

universe u v w
variable {State : Type u} {Act : Type v}

/-- Finite runs all of whose steps meet `ok` in the state before the step. -/
inductive Run (step : State → Act → Option State) (ok : State → Act → Prop) :
    State → State → Prop where
  | refl (s : State) : Run step ok s s
  | tail {s t u : State} {a : Act} :
      Run step ok s t → ok t a → step t a = some u → Run step ok s u

/-- The side condition of an unrestricted run. -/
def anyStep (_ : State) (_ : Act) : Prop := True

instance (s : State) (a : Act) : Decidable (anyStep s a) := isTrue trivial

/-- The executable counterpart of a run: follow a schedule as long as its steps are admissible
and enabled. -/
def exec (step : State → Act → Option State) (ok : State → Act → Prop)
    [∀ s a, Decidable (ok s a)] : State → List Act → Option State
  | s, [] => some s
  | s, a :: as => if ok s a then (step s a).bind fun t => exec step ok t as else none

theorem exec_cons {step : State → Act → Option State} {ok : State → Act → Prop}
    [∀ s a, Decidable (ok s a)] {s t : State} {a : Act} (hok : ok s a) (h : step s a = some t)
    (as : List Act) : exec step ok s (a :: as) = exec step ok t as := by
  rw [exec, if_pos hok, h, Option.bind_some]

theorem exec_append (step : State → Act → Option State) (ok : State → Act → Prop)
    [∀ s a, Decidable (ok s a)] (s : State) (as bs : List Act) :
    exec step ok s (as ++ bs) = (exec step ok s as).bind fun t => exec step ok t bs := by
  induction as generalizing s with
  | nil => rfl
  | cons a as ih =>
    rw [List.cons_append, exec, exec]
    split
    · rw [Option.bind_assoc]
      exact Option.bind_congr fun t _ => ih t
    · rfl

/-- The system together with a record that every step may extend. -/
def recorded {Record : Type w} (step : State → Act → Option State)
    (note : State → Act → State → Record → Record) (p : State × Record) (a : Act) :
    Option (State × Record) :=
  (step p.1 a).map fun t => (t, note p.1 a t p.2)

namespace Run
variable {step : State → Act → Option State} {ok ok' : State → Act → Prop} {s t u : State}

theorem single {a : Act} (hok : ok s a) (h : step s a = some t) : Run step ok s t :=
  .tail (.refl s) hok h

theorem trans (hst : Run step ok s t) (htu : Run step ok t u) : Run step ok s u := by
  induction htu with
  | refl => exact hst
  | tail _ hok h ih => exact .tail ih hok h

/-- Whatever one admissible step preserves, every run preserves. -/
theorem invariant (Inv : State → Prop)
    (preserved : ∀ {s t a}, Inv s → ok s a → step s a = some t → Inv t)
    (hs : Inv s) (h : Run step ok s t) : Inv t := by
  induction h with
  | refl => exact hs
  | tail _ hok h ih => exact preserved ih hok h

/-- Forward simulation: what one step keeps in step with another system, every run does. -/
theorem simulation {State' : Type w} {step' : State' → Act → Option State'}
    {okay : State' → Act → Prop} (Rel : State → State' → Prop)
    (sim : ∀ {s t a s'}, Rel s s' → ok s a → step s a = some t →
      ∃ t', okay s' a ∧ step' s' a = some t' ∧ Rel t t')
    {s' : State'} (hs : Rel s s') (h : Run step ok s t) :
    ∃ t', Run step' okay s' t' ∧ Rel t t' := by
  induction h with
  | refl => exact ⟨s', .refl s', hs⟩
  | tail _ hok h ih =>
    obtain ⟨m, hrun, hm⟩ := ih
    obtain ⟨t', hok', hstep, ht⟩ := sim hm hok h
    exact ⟨t', .tail hrun hok' hstep, ht⟩

section Record
variable {Record : Type w} {note : State → Act → State → Record → Record}
variable {ok₂ : State × Record → Act → Prop}
variable {p q : State × Record}

theorem of_recorded {a : Act} {t : State} {r : Record}
    (h : recorded step note p a = some (t, r)) : step p.1 a = some t ∧ r = note p.1 a t p.2 := by
  obtain ⟨t', ht, heq⟩ := Option.map_eq_some_iff.mp h
  cases heq
  exact ⟨ht, rfl⟩

theorem forget (himp : ∀ p a, ok₂ p a → ok p.1 a)
    (h : Run (recorded step note) ok₂ p q) : Run step ok p.1 q.1 := by
  induction h with
  | refl => exact .refl _
  | tail _ hok h ih => exact .tail ih (himp _ _ hok) (of_recorded h).1

end Record

theorem of_exec [∀ s a, Decidable (ok s a)] {as : List Act} (h : exec step ok s as = some t) :
    Run step ok s t := by
  induction as generalizing s with
  | nil =>
    simp only [exec, Option.some.injEq] at h
    subst t
    exact .refl s
  | cons a as ih =>
    rw [exec] at h
    split at h
    · rename_i hok
      obtain ⟨m, hm, hrest⟩ := Option.bind_eq_some_iff.mp h
      exact (single hok hm).trans (ih hrest)
    · cases h

theorem exists_of_exec (step : State → Act → Option State) (ok : State → Act → Prop)
    [∀ s a, Decidable (ok s a)] (s : State) (P : State → Prop) [DecidablePred P]
    (as : List Act) (h : (exec step ok s as).any (fun t => decide (P t)) = true) :
    ∃ t, Run step ok s t ∧ P t := by
  cases hexec : exec step ok s as with
  | none =>
    rw [hexec] at h
    cases h
  | some t =>
    rw [hexec] at h
    exact ⟨t, of_exec hexec, by simpa using h⟩

end Run

end Runs
