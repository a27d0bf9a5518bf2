import Mathlib.Algebra.BigOperators.Group.List.Basic
import Mathlib.Algebra.Order.Monoid.Defs
import Mathlib.Algebra.Order.Monoid.Unbundled.Basic
import Mathlib.Data.Finset.Card
import Mathlib.Order.Interval.Finset.Nat
import LaunchManager.Library.DictTree

/-!
# Dictionaries on a heap

Dictionaries as a program shares them: a dictionary is an object, it holds values and
references to other dictionaries, and an update of the object is seen through every reference
to it. `Owns h S c t` says that `c` holds the nested dictionary `t` through objects of `S`
only, none of them met twice; `Changes S h h'` says that a computation has changed no old
object outside `S`. Statements that live on a set of objects form an ordered monoid under the
separating conjunction, and `Spec P x Q` says that from `P` the computation returns with `Q`:
what is held apart from `P` stays (`Spec.frame`), and proofs about computations name no objects.
-/

set_option autoImplicit false

namespace DictHeap

open List

open DictTree (Tree Entries depthAll)

/-- What a dictionary holds under a key: a value, or a reference to a dictionary. -/
inductive Cell (α : Type) where
  | leaf (a : α)
  | ref (r : Nat)
  deriving DecidableEq

abbrev Object (κ α : Type) := List (κ × Cell α)

/-- The objects in the order of their allocation; a reference is a position. -/
abbrev Heap (κ α : Type) := List (Object κ α)

/-- What stops a computation: a missing key, a value where a dictionary is needed, a recursion
without end. -/
inductive Fault (κ : Type) where
  | noKey (k : κ)
  | noDict
  | tooDeep
  deriving DecidableEq

abbrev HeapM (κ α : Type) := StateT (Heap κ α) (Except (Fault κ))

variable {κ α β γ : Type}

section Operations

variable [DecidableEq κ]

def alloc (o : Object κ α) : HeapM κ α (Cell α) := fun h => .ok (.ref h.length, h ++ [o])

def asDict : Cell α → HeapM κ α Nat
  | .leaf _ => throw .noDict
  | .ref r => pure r

def load (r : Nat) : HeapM κ α (Object κ α) := fun h => .ok (h[r]?.getD [], h)

def store (r : Nat) (o : Object κ α) : HeapM κ α Unit := fun h => .ok ((), h.set r o)

def items (c : Cell α) : HeapM κ α (Object κ α) := do
  load (← asDict c)

def getItem? (c : Cell α) (k : κ) : HeapM κ α (Option (Cell α)) := do
  return (← items c).lookup k

def getItem (c : Cell α) (k : κ) : HeapM κ α (Cell α) := do
  match ← getItem? c k with
  | some v => pure v
  | none => throw (.noKey k)

def setItem (c : Cell α) (k : κ) (v : Cell α) : HeapM κ α Unit := do
  let r ← asDict c
  store r (Assoc.set (← load r) k v)

def eraseItem (c : Cell α) (k : κ) : HeapM κ α Unit := do
  let r ← asDict c
  store r (Assoc.erase (← load r) k)

end Operations

/-- A copy that shares no object with the original; `fuel` bounds the depth. -/
def deepcopyWith : Nat → Cell α → HeapM κ α (Cell α)
  | _, .leaf a => pure (.leaf a)
  | 0, .ref _ => throw .tooDeep
  | fuel + 1, .ref r => do
    let copies ← (← load r).mapM fun e => do
      return (e.1, ← deepcopyWith fuel e.2)
    alloc copies

/-- No chain of references in a finite nested dictionary is longer than the heap. -/
def deepcopy (c : Cell α) : HeapM κ α (Cell α) := do
  deepcopyWith (← get).length c

/-! ### What a computation changes -/

/-- `h'` comes from `h` by changes to objects of `S` and by new objects. -/
structure Changes (S : Finset Nat) (h h' : Heap κ α) : Prop where
  length_le : h.length ≤ h'.length
  kept : ∀ r < h.length, r ∉ S → h'[r]? = h[r]?

namespace Changes

variable {S T : Finset Nat} {h h' h'' : Heap κ α}

theorem refl (S : Finset Nat) (h : Heap κ α) : Changes S h h := ⟨le_rfl, fun _ _ _ => rfl⟩

theorem trans (h₁ : Changes S h h') (h₂ : Changes T h' h'')
    (hT : ∀ r ∈ T, r < h.length → r ∈ S) : Changes S h h'' where
  length_le := h₁.length_le.trans h₂.length_le
  kept r hr hrS := by
    rw [h₂.kept r (hr.trans_le h₁.length_le) fun hrT => hrS (hT r hrT hr), h₁.kept r hr hrS]

theorem mono (h₁ : Changes S h h') (hST : S ⊆ T) : Changes T h h' :=
  ⟨h₁.length_le, fun r hr hrT => h₁.kept r hr fun hrS => hrT (hST hrS)⟩

theorem append (S : Finset Nat) (h : Heap κ α) (o : Object κ α) : Changes S h (h ++ [o]) where
  length_le := by simp
  kept r hr _ := List.getElem?_append_left hr

theorem set {r : Nat} (hr : r ∈ S) (h : Heap κ α) (o : Object κ α) : Changes S h (h.set r o) where
  length_le := by simp
  kept r' _ hr' := List.getElem?_set_ne fun heq : r = r' => hr' (heq ▸ hr)

theorem lookup (h₁ : Changes S h h') {r : Nat} {o : Object κ α} (ho : h[r]? = some o)
    (hr : r ∉ S) : h'[r]? = some o := by
  rw [h₁.kept r (List.getElem?_eq_some_iff.mp ho).1 hr, ho]

end Changes

/-! ### Ownership -/

mutual

/-- `c` holds the nested dictionary `t` through objects of `S` only, no object twice. -/
inductive Owns (h : Heap κ α) : Finset Nat → Cell α → Tree κ α → Prop
  | leaf (S : Finset Nat) (a : α) : Owns h S (.leaf a) (.leaf a)
  | dict {S S' : Finset Nat} {r : Nat} {o : Object κ α} {ts : Entries κ α} (mem : r ∈ S)
      (sub : S' ⊆ S) (notMem : r ∉ S') (object : h[r]? = some o) (entries : OwnsAll h S' o ts) :
      Owns h S (.ref r) (.dict ts)

inductive OwnsAll (h : Heap κ α) : Finset Nat → Object κ α → Entries κ α → Prop
  | nil (S : Finset Nat) : OwnsAll h S [] []
  | cons {S S₁ S₂ : Finset Nat} {k : κ} {c : Cell α} {t : Tree κ α} {o : Object κ α}
      {ts : Entries κ α} (sub₁ : S₁ ⊆ S) (sub₂ : S₂ ⊆ S) (disjoint : Disjoint S₁ S₂)
      (head : Owns h S₁ c t) (tail : OwnsAll h S₂ o ts) : OwnsAll h S ((k, c) :: o) ((k, t) :: ts)

end

variable {S T U : Finset Nat} {h h' : Heap κ α} {c : Cell α} {t : Tree κ α} {o : Object κ α}
variable {ts : Entries κ α}

theorem Owns.mono (hc : Owns h S c t) (hST : S ⊆ T) : Owns h T c t := by
  cases hc with
  | leaf _ a => exact .leaf T a
  | dict mem sub notMem object entries =>
    exact .dict (hST mem) (sub.trans hST) notMem object entries

theorem OwnsAll.mono (ho : OwnsAll h S o ts) (hST : S ⊆ T) : OwnsAll h T o ts := by
  cases ho with
  | nil => exact .nil T
  | cons sub₁ sub₂ disjoint head tail =>
    exact .cons (sub₁.trans hST) (sub₂.trans hST) disjoint head tail

mutual

theorem Owns.frame {S : Finset Nat} {c : Cell α} {t : Tree κ α} (hc : Owns h S c t)
    (hch : Changes U h h') (hSU : Disjoint S U) : Owns h' S c t := by
  cases hc with
  | leaf _ a => exact .leaf S a
  | dict mem sub notMem object entries =>
    exact .dict mem sub notMem (hch.lookup object (Finset.disjoint_left.mp hSU mem))
      (entries.frame hch (hSU.mono_left sub))

theorem OwnsAll.frame {S : Finset Nat} {o : Object κ α} {ts : Entries κ α} (ho : OwnsAll h S o ts)
    (hch : Changes U h h') (hSU : Disjoint S U) : OwnsAll h' S o ts := by
  cases ho with
  | nil => exact .nil S
  | cons sub₁ sub₂ disjoint head tail =>
    exact .cons sub₁ sub₂ disjoint (head.frame hch (hSU.mono_left sub₁))
      (tail.frame hch (hSU.mono_left sub₂))

end

mutual

theorem Owns.unique {S S' : Finset Nat} {c : Cell α} {t t' : Tree κ α} (hc : Owns h S c t)
    (hc' : Owns h S' c t') : t = t' := by
  cases hc with
  | leaf a => cases hc' with | leaf => rfl
  | dict _ _ _ object entries =>
    cases hc' with
    | dict _ _ _ object' entries' =>
      cases object.symm.trans object'
      rw [entries.unique entries']

theorem OwnsAll.unique {S S' : Finset Nat} {o : Object κ α} {ts ts' : Entries κ α}
    (ho : OwnsAll h S o ts) (ho' : OwnsAll h S' o ts') : ts = ts' := by
  cases ho with
  | nil => cases ho' with | nil => rfl
  | cons _ _ _ head tail =>
    cases ho' with
    | cons _ _ _ head' tail' => rw [head.unique head', tail.unique tail']

end

theorem Owns.exists_ref (hc : Owns h S c (.dict ts)) : ∃ r, c = .ref r := by
  cases hc with
  | dict => exact ⟨_, rfl⟩

theorem Owns.eq_leaf {a : α} (hc : Owns h S c (.leaf a)) : c = .leaf a := by
  cases hc with
  | leaf => rfl

theorem OwnsAll.lookup [DecidableEq κ] (ho : OwnsAll h S o ts) (k : κ) :
    Option.Rel (Owns h S) (o.lookup k) (ts.lookup k) := by
  induction o generalizing S ts with
  | nil =>
    cases ho with
    | nil => exact .none
  | cons e o ih =>
    cases ho with
    | @cons _ _ _ k' c t _ ts sub₁ sub₂ _ head tail =>
      by_cases hk : k = k'
      · subst hk
        rw [lookup_cons_self, lookup_cons_self]
        exact .some (head.mono sub₁)
      · rw [Assoc.lookup_cons_of_ne hk, Assoc.lookup_cons_of_ne hk]
        exact ih (tail.mono sub₂)

mutual

/-- A nested dictionary is no deeper than the number of its objects. -/
theorem Owns.depth_le {S : Finset Nat} {c : Cell α} {t : Tree κ α} (hc : Owns h S c t) :
    t.depth ≤ S.card := by
  cases hc with
  | leaf => simp [Tree.depth]
  | dict mem sub notMem _ entries =>
    rw [Tree.depth]
    have hlt := Finset.card_lt_card (Finset.ssubset_iff_of_subset sub |>.mpr ⟨_, mem, notMem⟩)
    have := entries.depth_le
    omega

theorem OwnsAll.depth_le {S : Finset Nat} {o : Object κ α} {ts : Entries κ α}
    (ho : OwnsAll h S o ts) : depthAll ts ≤ S.card := by
  cases ho with
  | nil => simp [depthAll]
  | cons sub₁ sub₂ _ head tail =>
    rw [depthAll]
    exact max_le (head.depth_le.trans (Finset.card_le_card sub₁))
      (tail.depth_le.trans (Finset.card_le_card sub₂))

end

/-! ### Assertions -/

/-- A statement about the heap through objects of a set: it holds through more objects as well,
and changes to other objects do not affect it. -/
@[ext]
structure Assertion (κ α : Type) where
  holds : Heap κ α → Finset Nat → Prop
  mono : ∀ {h S T}, holds h S → S ⊆ T → holds h T
  frame : ∀ {h h' S U}, holds h S → Changes U h h' → Disjoint S U → holds h' S

namespace Assertion

variable {P Q R : Assertion κ α}

/-- Entailment. -/
instance : SemilatticeInf (Assertion κ α) where
  le P Q := ∀ ⦃h S⦄, P.holds h S → Q.holds h S
  le_refl _ _ _ hP := hP
  le_trans _ _ _ hPQ hQR _ _ hP := hQR (hPQ hP)
  le_antisymm _ _ hPQ hQP := by
    ext h S
    exact ⟨@hPQ h S, @hQP h S⟩
  inf P Q :=
    { holds h S := P.holds h S ∧ Q.holds h S
      mono hPQ hST := ⟨P.mono hPQ.1 hST, Q.mono hPQ.2 hST⟩
      frame hPQ hch hSU := ⟨P.frame hPQ.1 hch hSU, Q.frame hPQ.2 hch hSU⟩ }
  inf_le_left _ _ _ _ hPQ := hPQ.1
  inf_le_right _ _ _ _ hPQ := hPQ.2
  le_inf _ _ _ hP hQ _ _ h := ⟨hP h, hQ h⟩

/-- The separating conjunction: both hold, through disjoint sets of objects. -/
instance : Mul (Assertion κ α) where
  mul P Q :=
    { holds h S := ∃ S₁ S₂, S₁ ⊆ S ∧ S₂ ⊆ S ∧ Disjoint S₁ S₂ ∧ P.holds h S₁ ∧ Q.holds h S₂
      mono := by
        rintro h S T ⟨S₁, S₂, hS₁, hS₂, hPQ⟩ hST
        exact ⟨S₁, S₂, hS₁.trans hST, hS₂.trans hST, hPQ⟩
      frame := by
        rintro h h' S U ⟨S₁, S₂, hS₁, hS₂, hdisj, hP, hQ⟩ hch hSU
        exact ⟨S₁, S₂, hS₁, hS₂, hdisj, P.frame hP hch (hSU.mono_left hS₁),
          Q.frame hQ hch (hSU.mono_left hS₂)⟩ }

instance : One (Assertion κ α) := ⟨⟨fun _ _ => True, fun _ _ => trivial, fun _ _ _ => trivial⟩⟩

theorem sep_comm (P Q : Assertion κ α) : P * Q = Q * P := by
  have hle : ∀ P Q : Assertion κ α, P * Q ≤ Q * P := by
    rintro P Q h S ⟨S₁, S₂, hS₁, hS₂, hdisj, hP, hQ⟩
    exact ⟨S₂, S₁, hS₂, hS₁, hdisj.symm, hQ, hP⟩
  exact le_antisymm (hle P Q) (hle Q P)

theorem sep_assoc_le (P Q R : Assertion κ α) : P * Q * R ≤ P * (Q * R) := by
  rintro h S ⟨T, S₃, hT, hS₃, hdisj, ⟨S₁, S₂, hS₁, hS₂, hdisj', hP, hQ⟩, hR⟩
  refine ⟨S₁, S₂ ∪ S₃, hS₁.trans hT, Finset.union_subset (hS₂.trans hT) hS₃, ?_, hP, S₂, S₃,
    Finset.subset_union_left, Finset.subset_union_right, hdisj.mono_left hS₂, hQ, hR⟩
  exact Finset.disjoint_union_right.mpr ⟨hdisj', hdisj.mono_left hS₁⟩

theorem one_sep (P : Assertion κ α) : 1 * P = P := by
  refine le_antisymm ?_ fun h S hP => ?_
  · rintro h S ⟨_, S₂, _, hS₂, _, _, hP⟩
    exact P.mono hP hS₂
  · exact ⟨∅, S, Finset.empty_subset S, subset_rfl, Finset.disjoint_empty_left S, trivial, hP⟩

instance : CommMonoid (Assertion κ α) where
  mul_assoc P Q R := by
    refine le_antisymm (sep_assoc_le P Q R) ?_
    rw [sep_comm P, sep_comm Q, sep_comm _ R, sep_comm P]
    exact sep_assoc_le R Q P
  one_mul := one_sep
  mul_one P := (sep_comm P 1).trans (one_sep P)
  mul_comm := sep_comm

instance : IsOrderedMonoid (Assertion κ α) where
  mul_le_mul_left := by
    rintro P Q hPQ R h S ⟨S₁, S₂, hS₁, hS₂, hdisj, hP, hR⟩
    exact ⟨S₁, S₂, hS₁, hS₂, hdisj, hPQ hP, hR⟩

theorem le_one : P ≤ 1 := fun _ _ _ => trivial

theorem le_of_fact {p : Prop} (hp : ∀ {h S}, P.holds h S → p) (hPQ : p → P ≤ Q) : P ≤ Q :=
  fun _ _ hP => hPQ (hp hP) hP

theorem sep_le_left : P * Q ≤ P := mul_le_of_le_one_right' le_one

theorem sep_le_right : P * Q ≤ Q := mul_le_of_le_one_left' le_one

def cell (c : Cell α) (t : Tree κ α) : Assertion κ α := ⟨(Owns · · c t), .mono, .frame⟩

/-- The entries of an object hold those of a nested dictionary. -/
def entries (o : Object κ α) (ts : Entries κ α) : Assertion κ α :=
  ⟨(OwnsAll · · o ts), .mono, .frame⟩

def object (c : Cell α) (o : Object κ α) : Assertion κ α where
  holds h S := ∃ r ∈ S, c = .ref r ∧ h[r]? = some o
  mono := by
    rintro h S T ⟨r, hr, hc⟩ hST
    exact ⟨r, hST hr, hc⟩
  frame := by
    rintro h h' S U ⟨r, hr, hc, ho⟩ hch hSU
    exact ⟨r, hr, hc, hch.lookup ho (Finset.disjoint_left.mp hSU hr)⟩

/-- What stands under a key, if anything. -/
def held (c : Option (Cell α)) (t : Option (Tree κ α)) : Assertion κ α where
  holds h S := Option.Rel (Owns h S) c t
  mono := by
    rintro h S T hc hST
    cases hc with
    | some hc => exact .some (hc.mono hST)
    | none => exact .none
  frame := by
    rintro h h' S U hc hch hSU
    cases hc with
    | some hc => exact .some (hc.frame hch hSU)
    | none => exact .none

@[simp]
theorem cell_leaf (a : α) : (cell (.leaf a) (.leaf a) : Assertion κ α) = 1 :=
  le_antisymm le_one fun _ S _ => .leaf S a

@[simp]
theorem entries_nil : (entries [] [] : Assertion κ α) = 1 :=
  le_antisymm le_one fun _ S _ => .nil S

theorem entries_cons (k : κ) (c : Cell α) (t : Tree κ α) (o : Object κ α) (ts : Entries κ α) :
    entries ((k, c) :: o) ((k, t) :: ts) = cell c t * entries o ts := by
  refine le_antisymm (fun h S ho => ?_) ?_
  · cases ho with
    | cons sub₁ sub₂ disjoint head tail => exact ⟨_, _, sub₁, sub₂, disjoint, head, tail⟩
  · rintro h S ⟨S₁, S₂, hS₁, hS₂, hdisj, hc, ho⟩
    exact .cons hS₁ hS₂ hdisj hc ho

theorem object_entries_le (c : Cell α) (o : Object κ α) (ts : Entries κ α) :
    object c o * entries o ts ≤ cell c (.dict ts) := by
  rintro h S ⟨S₁, S₂, hS₁, hS₂, hdisj, ⟨r, hr, rfl, hro⟩, hall⟩
  exact .dict (hS₁ hr) hS₂ (Finset.disjoint_left.mp hdisj hr) hro hall

theorem exists_object (hc : (cell c (.dict ts)).holds h S) :
    ∃ o, (object c o * entries o ts).holds h S := by
  cases hc with
  | @dict _ S' r o _ mem sub notMem object entries =>
    refine ⟨o, {r}, S', Finset.singleton_subset_iff.mpr mem, sub, ?_, ?_, entries⟩
    · exact Finset.disjoint_singleton_left.mpr notMem
    · exact ⟨r, Finset.mem_singleton_self r, rfl, object⟩

@[simp]
theorem held_some (c : Cell α) (t : Tree κ α) : held (some c) (some t) = cell c t := by
  refine le_antisymm (fun h S hc => ?_) fun h S hc => .some hc
  cases hc with
  | some hc => exact hc

/-- An object and a nested dictionary with the same keys, one after the other. -/
inductive SameKeys : Object κ α → Entries κ α → Prop
  | nil : SameKeys [] []
  | cons (k : κ) (c : Cell α) (t : Tree κ α) {o : Object κ α} {ts : Entries κ α}
      (tail : SameKeys o ts) : SameKeys ((k, c) :: o) ((k, t) :: ts)

theorem sameKeys_of_entries (ho : (entries o ts).holds h S) : SameKeys o ts := by
  induction o generalizing S ts with
  | nil =>
    cases ho with
    | nil => exact .nil
  | cons e o ih =>
    cases ho with
    | cons _ _ _ _ tail => exact .cons _ _ _ (ih tail)

theorem eq_none_of_held {c : Option (Cell α)} (hc : (held c (none : Option (Tree κ α))).holds h S) :
    c = none := by
  cases hc with
  | none => rfl

theorem exists_of_held {c : Option (Cell α)} (hc : (held c (some t)).holds h S) :
    ∃ d, c = some d := by
  cases hc with
  | some => exact ⟨_, rfl⟩

theorem held_getD (c : Option (Cell α)) (t : Option (Tree κ α)) (a : α) :
    held c t ≤ cell (c.getD (.leaf a)) (t.getD (.leaf a)) := by
  intro h S hc
  cases hc with
  | some hc => exact hc
  | none => exact .leaf S a

section Keys

variable [DecidableEq κ] {k : κ}

theorem entries_le_held (o : Object κ α) (ts : Entries κ α) (k : κ) :
    entries o ts ≤ held (o.lookup k) (ts.lookup k) := fun _ _ ho => ho.lookup k

theorem entries_erase (o : Object κ α) (ts : Entries κ α) (k : κ) :
    entries o ts ≤ entries (Assoc.erase o k) (Assoc.erase ts k) := by
  refine le_of_fact sameKeys_of_entries fun hkeys => ?_
  induction hkeys with
  | nil => exact le_rfl
  | @cons k' c t o ts _ ih =>
    rw [entries_cons]
    by_cases hk : k' = k
    · simpa [Assoc.erase, hk] using sep_le_right.trans ih
    · simp only [Assoc.erase, filter_cons, hk, ne_eq, not_false_eq_true, decide_true,
        if_true] at ih ⊢
      rw [entries_cons]
      gcongr

theorem entries_take (o : Object κ α) (ts : Entries κ α) (k : κ) :
    entries o ts ≤ held (o.lookup k) (ts.lookup k) *
      entries (Assoc.erase o k) (Assoc.erase ts k) := by
  refine le_of_fact sameKeys_of_entries fun hkeys => ?_
  induction hkeys with
  | nil =>
    intro h S _
    exact ⟨∅, ∅, Finset.empty_subset S, Finset.empty_subset S, Finset.disjoint_empty_left _,
      .none, .nil ∅⟩
  | @cons k' c t o ts _ ih =>
    rw [entries_cons]
    by_cases hk : k = k'
    · subst hk
      rw [lookup_cons_self, lookup_cons_self, held_some]
      have herase := entries_erase o ts k
      simp only [Assoc.erase, filter_cons, ne_eq, not_true_eq_false, decide_false,
        Bool.false_eq_true, if_false] at herase ⊢
      gcongr
    · rw [Assoc.lookup_cons_of_ne hk, Assoc.lookup_cons_of_ne hk]
      simp only [Assoc.erase, filter_cons, Ne.symm hk, ne_eq, not_false_eq_true,
        decide_true, if_true] at ih ⊢
      rw [entries_cons, mul_left_comm]
      gcongr

/-- The values under several keys, and something else. -/
def taken (o : Object κ α) (ts : Entries κ α) : List κ → Assertion κ α → Assertion κ α
  | [], F => F
  | k :: ks, F => held (o.lookup k) (ts.lookup k) * taken o ts ks F

theorem taken_eq (o : Object κ α) (ts : Entries κ α) (ks : List κ) (F : Assertion κ α) :
    taken o ts ks F = taken o ts ks 1 * F := by
  induction ks with
  | nil => exact (one_mul F).symm
  | cons k ks ih => rw [taken, taken, ih, mul_assoc]

theorem taken_le {ks : List κ} : taken o ts ks P ≤ P := by
  rw [taken_eq]
  exact sep_le_right

theorem taken_erase {ks : List κ} (hk : k ∉ ks) :
    taken (Assoc.erase o k) (Assoc.erase ts k) ks P = taken o ts ks P := by
  induction ks with
  | nil => rfl
  | cons k' ks ih =>
    rw [mem_cons, not_or] at hk
    have hne : k' ≠ k := Ne.symm hk.1
    rw [taken, taken, ih hk.2, Assoc.lookup_erase, if_neg hne, Assoc.lookup_erase, if_neg hne]

theorem entries_taken (o : Object κ α) (ts : Entries κ α) (ks : List κ) (hks : ks.Nodup)
    (F : Assertion κ α) : entries o ts * F ≤ taken o ts ks F := by
  induction ks generalizing o ts with
  | nil => exact sep_le_right
  | cons k ks ih =>
    rw [nodup_cons] at hks
    have hrest := ih (Assoc.erase o k) (Assoc.erase ts k) hks.2
    rw [taken_erase hks.1] at hrest
    calc entries o ts * F
        ≤ held (o.lookup k) (ts.lookup k) * entries (Assoc.erase o k) (Assoc.erase ts k) * F :=
          mul_le_mul_left (entries_take o ts k) F
      _ ≤ _ := by
          rw [mul_assoc]
          exact mul_le_mul_right hrest _

theorem entries_set (o : Object κ α) (ts : Entries κ α) (k : κ) (c : Cell α) (t : Tree κ α) :
    entries o ts * cell c t ≤ entries (Assoc.set o k c) (Assoc.set ts k t) := by
  refine le_of_fact (fun ho => sameKeys_of_entries (sep_le_left ho)) fun hkeys => ?_
  induction hkeys with
  | nil => simp [Assoc.set, entries_cons]
  | @cons k' c' t' o ts _ ih =>
    simp only [Assoc.set]
    split
    · rw [entries_cons, entries_cons, mul_comm (cell c t)]
      gcongr
      exact sep_le_right
    · rw [entries_cons, entries_cons, mul_assoc]
      gcongr

theorem entries_update (o p : Object κ α) (ts us : Entries κ α) :
    entries o ts * entries p us ≤ entries (Assoc.update o p) (Assoc.update ts us) := by
  refine le_of_fact (fun ho => sameKeys_of_entries (sep_le_right ho)) fun hkeys => ?_
  induction hkeys generalizing o ts with
  | nil => exact sep_le_left
  | @cons k c t p us _ ih =>
    rw [entries_cons, ← mul_assoc]
    exact (mul_le_mul_left (entries_set o ts k c t) _).trans (ih _ _)

theorem entries_focus {c : Cell α} {t : Tree κ α} (hkeys : SameKeys o ts)
    (hc : o.lookup k = some c) (ht : ts.lookup k = some t) : ∃ F, entries o ts ≤ cell c t * F ∧
      ∀ c' t', cell c' t' * F ≤ entries (Assoc.set o k c') (Assoc.set ts k t') := by
  induction hkeys with
  | nil => cases hc
  | @cons k' d s o ts _ ih =>
    by_cases hk : k = k'
    · subst hk
      rw [lookup_cons_self] at hc ht
      cases hc
      cases ht
      refine ⟨entries o ts, (entries_cons ..).le, fun c' t' => ?_⟩
      simp only [Assoc.set, if_true]
      exact (entries_cons ..).ge
    · rw [Assoc.lookup_cons_of_ne hk] at hc ht
      obtain ⟨F, hF, hset⟩ := ih hc ht
      refine ⟨cell d s * F, ?_, fun c' t' => ?_⟩
      · rw [entries_cons, mul_left_comm]
        gcongr
      · simp only [Assoc.set, Ne.symm hk, if_false]
        rw [entries_cons, mul_left_comm]
        gcongr
        exact hset c' t'

end Keys

end Assertion

/-! ### Computations that return -/

/-- From a heap where `P` holds of `S`, the computation returns; it has changed no old object
outside `S`, and `Q` holds of its result through objects of `S` and new ones. -/
def Spec (P : Assertion κ α) (x : HeapM κ α β) (Q : β → Assertion κ α) : Prop :=
  ∀ ⦃h S⦄, S ⊆ Finset.range h.length → P.holds h S →
    ∃ b h', x h = .ok (b, h') ∧ Changes S h h' ∧
      (Q b).holds h' (S ∪ Finset.Ico h.length h'.length)

namespace Spec

open Assertion

variable {P A F : Assertion κ α} {x : HeapM κ α β} {f : β → HeapM κ α γ}
variable {Q Q' : β → Assertion κ α} {R : γ → Assertion κ α}

theorem pure {b : β} (hQ : P ≤ Q b) : Spec P (Pure.pure b) Q := fun h S _ hP =>
  ⟨b, h, rfl, Changes.refl S h, (Q b).mono (hQ hP) Finset.subset_union_left⟩

theorem bind (hx : Spec P x Q) (hf : ∀ b, Spec (Q b) (f b) R) : Spec P (x >>= f) R := by
  intro h S hS hP
  obtain ⟨b, h₁, hb, hch₁, hQ⟩ := hx hS hP
  have hlen₁ := hch₁.length_le
  have hrange : S ∪ Finset.Ico h.length h₁.length ⊆ Finset.range h₁.length := by
    refine Finset.union_subset (hS.trans (Finset.range_mono hlen₁)) fun r hr => ?_
    exact Finset.mem_range.mpr (Finset.mem_Ico.mp hr).2
  obtain ⟨c, h₂, hc, hch₂, hR⟩ := hf b hrange hQ
  refine ⟨c, h₂, ?_, hch₁.trans hch₂ ?_, ?_⟩
  · show (x h >>= fun p => f p.1 p.2) = _
    rw [hb]
    exact hc
  · intro r hr hlt
    simp only [Finset.mem_union, Finset.mem_Ico] at hr
    exact hr.resolve_right (by omega)
  · rwa [Finset.union_assoc, Finset.Ico_union_Ico_eq_Ico hlen₁ hch₂.length_le] at hR

theorem pre (hP : P ≤ A) (hx : Spec A x Q) : Spec P x Q := fun _ _ hS hh => hx hS (hP hh)

theorem post (hx : Spec P x Q) (hQ : ∀ b, Q b ≤ Q' b) : Spec P x Q' := by
  intro h S hS hP
  obtain ⟨b, h', hb, hch, hQb⟩ := hx hS hP
  exact ⟨b, h', hb, hch, hQ b hQb⟩

theorem frame (hx : Spec P x Q) : Spec (P * F) x fun b => Q b * F := by
  rintro h S hS ⟨S₁, S₂, hS₁, hS₂, hdisj, hP, hF⟩
  obtain ⟨b, h', hb, hch, hQ⟩ := hx (hS₁.trans hS) hP
  refine ⟨b, h', hb, hch.mono hS₁, S₁ ∪ Finset.Ico h.length h'.length, S₂,
    Finset.union_subset_union_left hS₁, hS₂.trans Finset.subset_union_left, ?_, hQ,
    F.frame hF hch hdisj.symm⟩
  refine Finset.disjoint_union_left.mpr ⟨hdisj, Finset.disjoint_right.mpr fun r hr hIco => ?_⟩
  have := Finset.mem_range.mp (hS (hS₂ hr))
  exact absurd (Finset.mem_Ico.mp hIco).1 (by omega)

theorem step (hx : Spec A x Q) (hP : P ≤ A * F) (hf : ∀ b, Spec (Q b * F) (f b) R) :
    Spec P (x >>= f) R := bind (pre hP hx.frame) hf

theorem last (hx : Spec A x Q) (hP : P ≤ A * F) (hQ : ∀ b, Q b * F ≤ Q' b) : Spec P x Q' :=
  post (pre hP hx.frame) hQ

theorem fact {p : Prop} (hp : ∀ {h S}, P.holds h S → p) (hx : p → Spec P x Q) : Spec P x Q :=
  fun _ _ hS hP => hx (hp hP) hS hP

theorem of_eval {b : β} (hx : ∀ {h S}, P.holds h S → x h = .ok (b, h)) (hf : Spec P (f b) R) :
    Spec P (x >>= f) R := by
  intro h S hS hP
  obtain ⟨c, h', hc, hpost⟩ := hf hS hP
  refine ⟨c, h', ?_, hpost⟩
  show (x h >>= fun p => f p.1 p.2) = _
  rw [hx hP]
  exact hc

variable {d : Cell α}

theorem open_dict (hx : ∀ o, Spec (object c o * entries o ts * F) x Q) :
    Spec (cell c (.dict ts) * F) x Q := by
  rintro h S hS ⟨S₁, S₂, hS₁, hS₂, hdisj, hc, hF⟩
  obtain ⟨o, ho⟩ := exists_object hc
  exact hx o hS ⟨S₁, S₂, hS₁, hS₂, hdisj, ho, hF⟩

theorem read_dict (hP : P ≤ cell c (.dict ts))
    (hx : ∀ o, Spec (P ⊓ (object c o * entries o ts)) x Q) : Spec P x Q := by
  intro h S hS hh
  obtain ⟨o, ho⟩ := exists_object (hP hh)
  exact hx o hS ⟨hh, ho⟩

theorem load {r : Nat} {f : Object κ α → HeapM κ α γ} (hP : P ≤ object (.ref r) o)
    (hf : Spec P (f o) R) : Spec P (load r >>= f) R := by
  refine of_eval (fun hh => ?_) hf
  obtain ⟨_, -, ⟨⟩, ho⟩ := hP hh
  rw [DictHeap.load, ho]
  rfl

theorem items {f : Object κ α → HeapM κ α γ} (hP : P ≤ object c o) (hf : Spec P (f o) R) :
    Spec P (items c >>= f) R := by
  refine of_eval (fun {h _} hh => ?_) hf
  obtain ⟨r, -, rfl, ho⟩ := hP hh
  show Except.ok (h[r]?.getD [], h) = _
  rw [ho]
  rfl

theorem alloc {f : Cell α → HeapM κ α γ} (hf : ∀ c, Spec (object c o * P) (f c) R) :
    Spec P (alloc o >>= f) R := by
  refine step (A := 1) (Q := fun c => object c o) ?_ (one_mul P).ge hf
  intro h S _ _
  refine ⟨.ref h.length, h ++ [o], rfl, Changes.append S h o, h.length, ?_, rfl, by simp⟩
  simp

theorem update (c : Cell α) (o : Object κ α) (f : Object κ α → Object κ α) :
    Spec (object c o) (asDict c >>= fun r => DictHeap.load r >>= fun o => store r (f o))
      fun _ => object c (f o) := by
  rintro h S hS ⟨r, hr, rfl, ho⟩
  have hlt : r < h.length := Finset.mem_range.mp (hS hr)
  refine ⟨(), h.set r (f o), ?_, Changes.set hr h (f o), r, Finset.mem_union_left _ hr, rfl, ?_⟩
  · show Except.ok ((), h.set r (f (h[r]?.getD []))) = _
    rw [ho]
    rfl
  · simp [hlt]

section Keys

variable [DecidableEq κ] {k : κ}

theorem open_keys (ks : List κ) (hks : ks.Nodup)
    (hx : ∀ o, Spec (taken o ts ks (object c o * P) * F) x Q) :
    Spec (cell c (.dict ts) * P * F) x Q := by
  rw [mul_assoc]
  refine open_dict fun o => pre ?_ (hx o)
  calc object c o * entries o ts * (P * F) = entries o ts * (object c o * P) * F := by ac_rfl
    _ ≤ _ := mul_le_mul_left (entries_taken o ts ks hks _) F

theorem getItem? {f : Option (Cell α) → HeapM κ α γ} (hP : P ≤ object c o)
    (hf : Spec P (f (o.lookup k)) R) : Spec P (getItem? c k >>= f) R := by
  rw [DictHeap.getItem?, bind_assoc]
  refine items hP ?_
  rwa [pure_bind]

theorem getItem {v : Cell α} {f : Cell α → HeapM κ α γ} (hP : P ≤ object c o)
    (hv : o.lookup k = some v) (hf : Spec P (f v) R) : Spec P (getItem c k >>= f) R := by
  rw [DictHeap.getItem, bind_assoc]
  refine getItem? hP ?_
  rw [hv]
  exact hf

theorem lookup_some (hP : P ≤ entries o ts) (hk : ts.lookup k = some t)
    (hx : ∀ c, o.lookup k = some c → entries o ts ≤ cell c t → Spec P x Q) : Spec P x Q := by
  have hheld := entries_le_held o ts k
  rw [hk] at hheld
  refine fact (fun hh => exists_of_held (hheld (hP hh))) ?_
  rintro ⟨c, hc⟩
  rw [hc, held_some] at hheld
  exact hx c hc hheld

/-- What is under a key, read from a dictionary that stays as it is. -/
theorem readItem? {f : Option (Cell α) → HeapM κ α γ} (hP : P ≤ object c o * entries o ts)
    (hnone : ts.lookup k = none → Spec P (f none) R)
    (hsome : ∀ t v, ts.lookup k = some t → o.lookup k = some v → entries o ts ≤ cell v t →
      Spec P (f (some v)) R) : Spec P (DictHeap.getItem? c k >>= f) R := by
  refine getItem? (hP.trans sep_le_left) ?_
  cases hk : ts.lookup k with
  | none =>
    have hheld := entries_le_held o ts k
    rw [hk] at hheld
    refine fact (fun hh => eq_none_of_held (hheld (sep_le_right (hP hh)))) fun hc => ?_
    rw [hc]
    exact hnone hk
  | some t =>
    refine lookup_some (hP.trans sep_le_right) hk fun v hv hle => ?_
    rw [hv]
    exact hsome t v hk hv hle

/-- What is under a key, taken out of its dictionary. -/
theorem takeItem? {v : Option (Tree κ α)} {D : Assertion κ α}
    {f : Option (Cell α) → HeapM κ α γ} (hF : F ≤ object c o)
    (hnone : v = none → Spec (F * D) (f none) R)
    (hsome : ∀ t b, v = some t → Spec (cell b t * F * D) (f (some b)) R) :
    Spec (held (o.lookup k) v * F * D) (DictHeap.getItem? c k >>= f) R := by
  refine getItem? (sep_le_left.trans (sep_le_right.trans hF)) ?_
  cases v with
  | none =>
    refine fact (fun hh => eq_none_of_held (sep_le_left (sep_le_left hh))) fun hc => ?_
    rw [hc]
    exact pre (mul_le_mul_left sep_le_right D) (hnone rfl)
  | some t =>
    refine fact (fun hh => exists_of_held (sep_le_left (sep_le_left hh))) ?_
    rintro ⟨b, hb⟩
    rw [hb, held_some]
    exact hsome t b rfl

theorem setItem (d : Cell α) (ts : Entries κ α) (k : κ) (c : Cell α) (t : Tree κ α) :
    Spec (cell d (.dict ts) * cell c t) (setItem d k c)
      fun _ => cell d (.dict (Assoc.set ts k t)) := by
  refine open_dict fun o => last (update d o (Assoc.set · k c)) (mul_assoc ..).le fun _ => ?_
  refine le_trans ?_ (object_entries_le d (Assoc.set o k c) _)
  gcongr
  exact entries_set o ts k c t

theorem allocItem {g : Cell α → HeapM κ α γ} (hg : ∀ c o, Spec (cell c (.dict []) * F *
      (object d (Assoc.set o k c) * entries o ts)) (g c) R) :
    Spec (cell d (.dict ts) * F) (DictHeap.alloc [] >>= fun c => DictHeap.setItem d k c >>=
      fun _ => g c) R := by
  refine open_dict fun o => alloc fun c => ?_
  refine step (update d o (Assoc.set · k c)) (F := entries o ts * (cell c (.dict []) * F)) ?_
    fun _ => pre (Eq.le (by ac_rfl)) (hg c o)
  have hnew : object c [] ≤ cell c (.dict ([] : Entries κ α)) := by
    simpa using object_entries_le c [] []
  calc object c [] * (object d o * entries o ts * F)
      = object d o * (entries o ts * (object c [] * F)) := by ac_rfl
    _ ≤ _ := by gcongr

theorem setNew {g : Cell α → HeapM κ α PUnit} {G : Assertion κ α}
    (hg : ∀ c, Spec (cell c (.dict []) * F) (g c) fun _ => cell c t * G) :
    Spec (cell d (.dict ts) * F) (DictHeap.alloc [] >>= fun c => DictHeap.setItem d k c >>=
      fun _ => g c) fun _ => cell d (.dict (Assoc.set ts k t)) * G := by
  refine allocItem fun c o => last (hg c) le_rfl fun _ => ?_
  calc cell c t * G * (object d (Assoc.set o k c) * entries o ts)
      = object d (Assoc.set o k c) * (entries o ts * cell c t) * G := by ac_rfl
    _ ≤ object d (Assoc.set o k c) * entries (Assoc.set o k c) (Assoc.set ts k t) * G := by
      gcongr
      exact entries_set o ts k c t
    _ ≤ _ := by
      gcongr
      exact object_entries_le d _ _

theorem eraseItem (d : Cell α) (ts : Entries κ α) (k : κ) :
    Spec (cell d (.dict ts)) (eraseItem d k) fun _ => cell d (.dict (Assoc.erase ts k)) := by
  rw [← mul_one (cell d (.dict ts))]
  refine open_dict fun o => last (update d o (Assoc.erase · k)) (mul_assoc ..).le fun _ => ?_
  refine le_trans ?_ (object_entries_le d (Assoc.erase o k) _)
  rw [mul_one]
  gcongr
  exact entries_erase o ts k

end Keys

theorem forM {σ : Type} (o : Object κ α) (ts : Entries κ α) {I : σ → Assertion κ α}
    {N : σ → κ × Tree κ α → σ} {g : κ × Cell α → HeapM κ α PUnit}
    (hg : ∀ s k c, ∀ t, (k, t) ∈ ts → Spec (I s * cell c t) (g (k, c)) fun _ => I (N s (k, t)))
    (s : σ) : Spec (I s * entries o ts) (o.forM g) fun _ => I (ts.foldl N s) := by
  refine fact (fun hh => sameKeys_of_entries (sep_le_right hh)) fun hkeys => ?_
  induction hkeys generalizing s with
  | nil => exact pure sep_le_left
  | @cons k c t o ts _ ih =>
    rw [entries_cons, ← mul_assoc]
    refine bind (hg s k c t mem_cons_self).frame fun _ => ?_
    exact ih (fun s k c t ht => hg s k c t (mem_cons_of_mem _ ht)) _

theorem mapM_read {g : κ × Cell α → HeapM κ α β} (hP : P ≤ entries o ts)
    (hg : ∀ k c t, (k, t) ∈ ts → P ≤ cell c t → Spec P (g (k, c)) fun _ => P) :
    Spec P (o.mapM g) fun _ => P := by
  refine fact (fun hh => sameKeys_of_entries (hP hh)) fun hkeys => ?_
  induction hkeys with
  | nil => exact pure le_rfl
  | @cons k c t o ts _ ih =>
    rw [entries_cons] at hP
    rw [mapM_cons]
    refine bind (hg k c t mem_cons_self (hP.trans sep_le_left)) fun _ => ?_
    refine bind (ih (hP.trans sep_le_right) fun k c t ht => ?_) fun _ => pure le_rfl
    exact hg k c t (mem_cons_of_mem _ ht)

/-! ### Copies -/

theorem copyEntries {n : Nat}
    (hcopy : ∀ {P : Assertion κ α} {c : Cell α} {t : Tree κ α}, P ≤ cell c t → t.depth ≤ n →
      Spec P (deepcopyWith n c) fun c' => P * cell c' t)
    (hP : P ≤ entries o ts) (hn : depthAll ts ≤ n) :
    Spec P (o.mapM fun e => do return (e.1, ← deepcopyWith n e.2)) fun o' => P * entries o' ts := by
  refine fact (fun hh => sameKeys_of_entries (hP hh)) fun hkeys => ?_
  induction hkeys generalizing P with
  | nil => exact pure (by simp)
  | @cons k c t o ts _ ih =>
    rw [entries_cons] at hP
    rw [depthAll, max_le_iff] at hn
    rw [mapM_cons, bind_assoc]
    refine bind (hcopy (hP.trans sep_le_left) hn.1) fun c' => ?_
    rw [pure_bind]
    refine bind (ih (sep_le_left.trans (hP.trans sep_le_right)) hn.2) fun o' => ?_
    refine pure ?_
    rw [entries_cons, mul_assoc]

/-- A copy shares nothing with what was there. -/
theorem deepcopyWith {n : Nat} (hP : P ≤ cell c t) (hn : t.depth ≤ n) :
    Spec P (deepcopyWith n c) fun c' => P * cell c' t := by
  have hleaf : ∀ {n : Nat} {P : Assertion κ α} {c : Cell α} {a : α}, P ≤ cell c (.leaf a) →
      Spec P (DictHeap.deepcopyWith n c) fun c' => P * cell c' (.leaf a) := by
    intro n P c a hP
    refine fact (fun hh => (hP hh).eq_leaf) ?_
    rintro rfl
    rw [DictHeap.deepcopyWith]
    exact pure (by simp)
  induction n generalizing P c t with
  | zero =>
    cases t with
    | leaf a => exact hleaf hP
    | dict ts => simp [Tree.depth] at hn
  | succ n ih =>
    cases t with
    | leaf a => exact hleaf hP
    | dict ts =>
      rw [Tree.depth, Nat.add_le_add_iff_right] at hn
      refine fact (fun hh => (hP hh).exists_ref) ?_
      rintro ⟨r, rfl⟩
      refine read_dict hP fun o => load (inf_le_right.trans sep_le_left) ?_
      refine bind (copyEntries ih (inf_le_right.trans sep_le_right) hn) fun o' => ?_
      rw [← bind_pure (DictHeap.alloc o')]
      refine alloc fun c' => pure ?_
      rw [mul_left_comm]
      exact mul_le_mul' inf_le_left (object_entries_le c' o' ts)

theorem deepcopy (hP : P ≤ cell c t) : Spec P (deepcopy c) fun c' => P * cell c' t := by
  intro h S hS hh
  have hcard : S.card ≤ h.length := by simpa using Finset.card_le_card hS
  exact deepcopyWith hP ((hP hh).depth_le.trans hcard) hS hh

end Spec

/-! ### Computations that fail -/

/-- Returns, with the heap as it was, where `x` ends with a fault. -/
def failure (x : HeapM κ α β) : HeapM κ α Unit := fun h =>
  match x h with
  | .ok _ => .error .noDict
  | .error _ => .ok ((), h)

variable {x : HeapM κ α β}

theorem failure_eq_ok {h : Heap κ α} {e : Fault κ} (hx : x h = .error e) :
    failure x h = .ok ((), h) := by
  rw [failure, hx]

/-- From a heap where `P` holds, the computation ends with a fault. -/
abbrev Fails (P : Assertion κ α) (x : HeapM κ α β) : Prop := Spec P (failure x) fun _ => 1

namespace Fails

open Assertion

variable {P F : Assertion κ α} {f : β → HeapM κ α γ}

theorem of_error (hx : ∀ h, ∃ e, x h = .error e) : Fails P x := fun h S _ _ =>
  let ⟨_, he⟩ := hx h
  ⟨(), h, failure_eq_ok he, Changes.refl S h, trivial⟩

theorem exists_error (hx : Fails P x) {S : Finset Nat} (hS : S ⊆ Finset.range h.length)
    (hP : P.holds h S) : ∃ e, x h = .error e := by
  obtain ⟨_, _, hret, -⟩ := hx hS hP
  cases he : x h with
  | ok p => simp [failure, he] at hret
  | error e => exact ⟨e, rfl⟩

theorem bind (hx : Fails P x) : Fails P (x >>= f) := by
  intro h S hS hP
  obtain ⟨e, he⟩ := hx.exists_error hS hP
  refine ⟨(), h, failure_eq_ok (e := e) ?_, Changes.refl S h, trivial⟩
  show (x h >>= fun p => f p.1 p.2) = _
  rw [he]
  rfl

/-- What comes after a computation that returns fails. -/
theorem after (hx : Spec P (x >>= fun b => failure (f b)) fun _ => 1) : Fails P (x >>= f) := by
  intro h S hS hP
  obtain ⟨_, _, hret, -⟩ := hx hS hP
  obtain ⟨e, he⟩ : ∃ e, (x >>= f) h = .error e := by
    change (x h >>= fun p => failure (f p.1) p.2) = _ at hret
    show ∃ e, (x h >>= fun p => f p.1 p.2) = .error e
    cases hb : x h with
    | error e => exact ⟨e, rfl⟩
    | ok p =>
      rw [hb] at hret
      change failure (f p.1) p.2 = _ at hret
      cases hf : f p.1 p.2 with
      | error e => exact ⟨e, hf⟩
      | ok q => simp [failure, hf] at hret
  exact ⟨(), h, failure_eq_ok he, Changes.refl S h, trivial⟩

theorem forM {σ : Type} (o : Object κ α) (ts : Entries κ α) {I : σ → Assertion κ α}
    {N : σ → κ × Tree κ α → σ} {g : κ × Cell α → HeapM κ α PUnit} {bad : κ × Tree κ α → Prop}
    (hg : ∀ s k c t, (k, t) ∈ ts → ¬ bad (k, t) →
      Spec (I s * cell c t) (g (k, c)) fun _ => I (N s (k, t)))
    (hbad : ∀ s k c t, (k, t) ∈ ts → bad (k, t) → Fails (I s * cell c t) (g (k, c)))
    (hts : ∃ e ∈ ts, bad e) (s : σ) : Fails (I s * entries o ts) (o.forM g) := by
  refine Spec.fact (fun hh => sameKeys_of_entries (sep_le_right hh)) fun hkeys => ?_
  induction hkeys generalizing s with
  | nil => simp at hts
  | @cons k c t o ts _ ih =>
    rw [entries_cons, ← mul_assoc]
    by_cases hkt : bad (k, t)
    · exact bind (Spec.pre sep_le_left (hbad s k c t mem_cons_self hkt))
    refine after (Spec.bind (hg s k c t mem_cons_self hkt).frame fun _ => ?_)
    refine ih (fun s k c t ht => hg s k c t (mem_cons_of_mem _ ht))
      (fun s k c t ht => hbad s k c t (mem_cons_of_mem _ ht)) ?_ _
    obtain ⟨e, he, hbade⟩ := hts
    exact ⟨e, (mem_cons.mp he).resolve_left fun heq => hkt (heq ▸ hbade), hbade⟩

theorem setNew [DecidableEq κ] {k : κ} {d : Cell α} {g : Cell α → HeapM κ α β}
    (hg : ∀ c, Fails (cell c (.dict []) * F) (g c)) : Fails (cell d (.dict ts) * F)
      (DictHeap.alloc [] >>= fun c => setItem d k c >>= fun _ => g c) := by
  have heq : (DictHeap.alloc [] >>= fun c => setItem d k c >>= fun _ => g c) =
      (DictHeap.alloc [] >>= fun c => setItem d k c >>= fun _ => Pure.pure c) >>= g := by
    simp only [bind_assoc, pure_bind]
  rw [heq]
  refine after ?_
  simp only [bind_assoc, pure_bind]
  exact Spec.allocItem fun c _ => Spec.pre sep_le_left (hg c)

end Fails

/-! ### Documents -/

/-- `c` holds the nested dictionary `t`, through objects of the heap. -/
def Holds (h : Heap κ α) (c : Cell α) (t : Tree κ α) : Prop :=
  ∃ S ⊆ Finset.range h.length, Owns h S c t

theorem Holds.frame (hc : Holds h c t) (hch : Changes ∅ h h') : Holds h' c t := by
  obtain ⟨S, hS, howns⟩ := hc
  refine ⟨S, hS.trans ?_, howns.frame hch (Finset.disjoint_empty_right _)⟩
  simpa using hch.length_le

/-- The objects of `h` are all there, as they were. -/
def snapshot (h : Heap κ α) : Assertion κ α where
  holds h' S := Finset.range h.length ⊆ S ∧ Changes ∅ h h'
  mono hh hST := ⟨hh.1.trans hST, hh.2⟩
  frame := by
    rintro h₁ h₂ S U ⟨hsub, hch₁⟩ hch₂ hSU
    refine ⟨hsub, hch₁.length_le.trans hch₂.length_le, fun r hr hrS => ?_⟩
    rw [hch₂.kept r (hr.trans_le hch₁.length_le), hch₁.kept r hr hrS]
    exact Finset.disjoint_left.mp hSU (hsub (Finset.mem_range.mpr hr))

theorem snapshot_le (hc : Holds h c t) : snapshot h ≤ Assertion.cell c t := by
  rintro h' S ⟨hsub, hch⟩
  obtain ⟨T, hT, howns⟩ := hc
  exact (howns.frame hch (Finset.disjoint_empty_right T)).mono (hT.trans hsub)

/-- A computation that needs no more than the objects there are, and keeps them. -/
theorem Spec.run {Q : β → Assertion κ α} (hx : Spec (snapshot h) x fun b => snapshot h * Q b) :
    ∃ b h', x h = .ok (b, h') ∧ Changes ∅ h h' ∧
      ∃ S ⊆ Finset.range h'.length, (Q b).holds h' S := by
  obtain ⟨b, h', hb, hch, S₁, S₂, -, hS₂, -, hsnap, hQ⟩ :=
    hx subset_rfl ⟨subset_rfl, Changes.refl ∅ h⟩
  refine ⟨b, h', hb, hsnap.2, S₂, hS₂.trans ?_, hQ⟩
  have := hch.length_le
  intro r
  simp only [Finset.mem_union, Finset.mem_range, Finset.mem_Ico]
  omega

mutual

/-- A document put on the heap, every dictionary of it a new object. -/
def allocTree (h : Heap κ α) : Tree κ α → Cell α × Heap κ α
  | .leaf a => (.leaf a, h)
  | .dict ts =>
    let (o, h') := allocEntries h ts
    (.ref h'.length, h' ++ [o])

def allocEntries (h : Heap κ α) : Entries κ α → Object κ α × Heap κ α
  | [] => ([], h)
  | (k, t) :: ts =>
    let (c, h₁) := allocTree h t
    let (o, h₂) := allocEntries h₁ ts
    ((k, c) :: o, h₂)

end

mutual

theorem spec_allocTree (t : Tree κ α) :
    Spec 1 (fun h => .ok (allocTree h t)) fun c => Assertion.cell c t := by
  cases t with
  | leaf a => exact Spec.pure (Assertion.cell_leaf a).ge
  | dict ts =>
    have heq : (fun h => .ok (allocTree h (.dict ts)) : HeapM κ α (Cell α)) =
        ((fun h => .ok (allocEntries h ts)) : HeapM κ α (Object κ α)) >>= fun o =>
          alloc o >>= pure := by
      funext h
      rw [allocTree]
      rfl
    rw [heq]
    refine Spec.bind (spec_allocEntries ts) fun o => Spec.alloc fun c => Spec.pure ?_
    exact Assertion.object_entries_le c o ts

theorem spec_allocEntries (ts : Entries κ α) :
    Spec 1 (fun h => .ok (allocEntries h ts)) fun o => Assertion.entries o ts := by
  cases ts with
  | nil => exact Spec.pure Assertion.entries_nil.ge
  | cons e ts =>
    obtain ⟨k, t⟩ := e
    have heq : (fun h => .ok (allocEntries h ((k, t) :: ts)) : HeapM κ α (Object κ α)) =
        (((fun h => .ok (allocTree h t)) : HeapM κ α (Cell α)) >>= fun c =>
          ((fun h => .ok (allocEntries h ts)) : HeapM κ α (Object κ α)) >>= fun o =>
            pure ((k, c) :: o) : HeapM κ α (Object κ α)) := by
      funext h
      rw [allocEntries]
      rfl
    rw [heq]
    refine Spec.bind (spec_allocTree t) fun c => ?_
    refine Spec.step (spec_allocEntries ts) (one_mul _).ge fun o => Spec.pure ?_
    rw [Assertion.entries_cons, mul_comm]

end

theorem changes_allocTree (h : Heap κ α) (t : Tree κ α) : Changes ∅ h (allocTree h t).2 := by
  obtain ⟨_, _, heq, hch, -⟩ :=
    spec_allocTree t (Finset.empty_subset (Finset.range h.length)) trivial
  rwa [Except.ok.inj heq]

theorem holds_allocTree (h : Heap κ α) (t : Tree κ α) :
    Holds (allocTree h t).2 (allocTree h t).1 t := by
  obtain ⟨_, _, heq, -, howns⟩ :=
    spec_allocTree t (Finset.empty_subset (Finset.range h.length)) trivial
  rw [Except.ok.inj heq]
  refine ⟨_, ?_, howns⟩
  intro r
  simp

end DictHeap
