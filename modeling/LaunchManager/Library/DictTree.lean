import Mathlib.Data.List.Basic

/-!
# Nested dictionaries

A nested dictionary is a tree: its inner nodes are dictionaries, lists of entries in the order
of insertion, and its leaves are values that no operation looks into. Merging lays one
dictionary over another, also below a key that holds a dictionary in both, apart from the keys
whose dictionaries are taken whole. `kindAt_merge` says what a merge has at a path: what the
most specific level has there.
-/

universe u v

set_option autoImplicit false

namespace Assoc

variable {κ : Type u} {β : Type v} [DecidableEq κ] {l m : List (κ × β)} {k k' : κ} {v : β}

/-- The entries with `v` under `k`: in place of the old value, at the end for a new key. -/
def set : List (κ × β) → κ → β → List (κ × β)
  | [], k, v => [(k, v)]
  | e :: l, k, v => if e.1 = k then (k, v) :: l else e :: set l k v

def erase (l : List (κ × β)) (k : κ) : List (κ × β) := l.filter fun e => e.1 ≠ k

/-- The entries of `m` written over those of `l`. -/
def update (l : List (κ × β)) : List (κ × β) → List (κ × β)
  | [] => l
  | e :: m => update (set l e.1 e.2) m

theorem lookup_cons_of_ne (hne : k ≠ k') (v : β) (l : List (κ × β)) :
    ((k', v) :: l).lookup k = l.lookup k := by
  rw [List.lookup_cons, beq_false_of_ne hne]

theorem mem_of_lookup (h : l.lookup k = some v) : (k, v) ∈ l := by
  obtain ⟨l₁, l₂, rfl, -⟩ := List.lookup_eq_some_iff.mp h
  simp

theorem lookup_eq_none_of_not_mem (h : k ∉ l.map Prod.fst) : l.lookup k = none := by
  rw [List.lookup_eq_none_iff]
  intro e he
  have : k ≠ e.1 := fun heq => h (heq ▸ List.mem_map_of_mem he)
  simpa using this

theorem lookup_set (l : List (κ × β)) (k k' : κ) (v : β) :
    (set l k v).lookup k' = if k' = k then some v else l.lookup k' := by
  induction l with
  | nil =>
    by_cases hk : k' = k
    · simp [set, hk]
    · simp only [set, lookup_cons_of_ne hk, if_neg hk]
  | cons e l ih =>
    obtain ⟨key, value⟩ := e
    by_cases hkey : key = k
    · subst hkey
      by_cases hk : k' = key
      · simp [set, hk]
      · simp only [set, if_true, lookup_cons_of_ne hk, if_neg hk]
    · by_cases hk : k' = key
      · subst hk
        simp [set, hkey]
      · simp only [set, if_neg hkey, lookup_cons_of_ne hk, ih]

@[simp] theorem lookup_set_self (l : List (κ × β)) (k : κ) (v : β) :
    (set l k v).lookup k = some v := by simp [lookup_set]

theorem set_of_lookup (h : l.lookup k = some v) : set l k v = l := by
  induction l with
  | nil => simp at h
  | cons e l ih =>
    obtain ⟨key, value⟩ := e
    by_cases hk : key = k
    · subst hk
      simpa [set] using h.symm
    · rw [lookup_cons_of_ne (Ne.symm hk)] at h
      simp [set, hk, ih h]

theorem mem_set {e : κ × β} (he : e ∈ set l k v) : e = (k, v) ∨ e ∈ l := by
  induction l with
  | nil => exact .inl (by simpa [set] using he)
  | cons d l ih =>
    rw [set] at he
    split at he
    · obtain rfl | he := List.mem_cons.mp he
      · exact .inl rfl
      · exact .inr (List.mem_cons_of_mem d he)
    · obtain rfl | he := List.mem_cons.mp he
      · exact .inr List.mem_cons_self
      · exact (ih he).imp_right (List.mem_cons_of_mem d)

theorem nodup_set (hl : (l.map Prod.fst).Nodup) (k : κ) (v : β) :
    ((set l k v).map Prod.fst).Nodup := by
  induction l with
  | nil => simp [set]
  | cons d l ih =>
    rw [List.map_cons, List.nodup_cons] at hl
    rw [set]
    split
    · next hd => simpa [← hd] using hl
    · next hd =>
      rw [List.map_cons, List.nodup_cons]
      refine ⟨fun hmem => ?_, ih hl.2⟩
      obtain ⟨e, he, hed⟩ := List.mem_map.mp hmem
      obtain rfl | he := mem_set he
      · exact hd hed.symm
      · exact hl.1 (hed ▸ List.mem_map_of_mem he)

theorem lookup_set_of_ne (l : List (κ × β)) (h : k' ≠ k) (v : β) :
    (set l k v).lookup k' = l.lookup k' := by simp [lookup_set, h]

theorem lookup_erase (l : List (κ × β)) (k k' : κ) :
    (erase l k).lookup k' = if k' = k then none else l.lookup k' := by
  induction l with
  | nil => simp [erase]
  | cons e l ih =>
    obtain ⟨key, value⟩ := e
    by_cases hkey : key = k
    · have herase : erase ((key, value) :: l) k = erase l k := by simp [erase, hkey]
      rw [herase, ih]
      by_cases hk : k' = k
      · simp [hk]
      · rw [if_neg hk, if_neg hk, lookup_cons_of_ne (hkey ▸ hk)]
    · have herase : erase ((key, value) :: l) k = (key, value) :: erase l k := by
        simp [erase, hkey]
      rw [herase]
      by_cases hk : k' = key
      · subst hk
        simp [hkey]
      · rw [lookup_cons_of_ne hk, lookup_cons_of_ne hk, ih]

theorem lookup_map {γ : Type v} (l : List (κ × β)) (f : β → γ) (k : κ) :
    (l.map fun e => (e.1, f e.2)).lookup k = (l.lookup k).map f := by
  induction l with
  | nil => rfl
  | cons e l ih =>
    obtain ⟨key, value⟩ := e
    by_cases hk : k = key
    · simp [hk]
    · rw [List.map_cons, lookup_cons_of_ne hk, lookup_cons_of_ne hk, ih]

theorem lookup_update (hm : (m.map Prod.fst).Nodup) (k : κ) :
    (update l m).lookup k = (m.lookup k).or (l.lookup k) := by
  induction m generalizing l with
  | nil => simp [update]
  | cons e m ih =>
    obtain ⟨key, value⟩ := e
    rw [List.map_cons, List.nodup_cons] at hm
    rw [update, ih hm.2, lookup_set]
    by_cases hk : k = key
    · subst hk
      simp [lookup_eq_none_of_not_mem hm.1]
    · simp [hk, lookup_cons_of_ne hk]

end Assoc

namespace DictTree

/-- A nested dictionary, or a value that is none. -/
inductive Tree (κ : Type u) (α : Type v) where
  | leaf (a : α)
  | dict (entries : List (κ × Tree κ α))

abbrev Entries (κ : Type u) (α : Type v) := List (κ × Tree κ α)

/-- What a path leads to, without the entries of a dictionary: those are at longer paths. -/
inductive Kind (α : Type v) where
  | leaf (a : α)
  | dict
  deriving DecidableEq

variable {κ : Type u} {α : Type v} {entries a b c : Entries κ α} {s t : Tree κ α} {k : κ}

def Tree.kind : Tree κ α → Kind α
  | .leaf a => .leaf a
  | .dict _ => .dict

instance (t : Tree κ α) : Decidable (t.kind = .dict) :=
  match t with
  | .leaf _ => isFalse nofun
  | .dict _ => isTrue rfl

mutual

/-- The number of dictionaries inside one another. -/
def Tree.depth : Tree κ α → Nat
  | .leaf _ => 0
  | .dict entries => depthAll entries + 1

def depthAll : Entries κ α → Nat
  | [] => 0
  | (_, t) :: entries => max t.depth (depthAll entries)

end

/-- The keys of every dictionary of the tree are distinct. -/
inductive Tree.Distinct : Tree κ α → Prop
  | leaf (a : α) : Distinct (.leaf a)
  | dict {entries : Entries κ α} (keys : (entries.map Prod.fst).Nodup)
      (values : ∀ e ∈ entries, e.2.Distinct) : Distinct (.dict entries)

theorem Tree.Distinct.keys_nodup (h : (Tree.dict entries).Distinct) :
    (entries.map Prod.fst).Nodup := by
  cases h with
  | dict keys _ => exact keys

theorem Tree.Distinct.of_mem (h : (Tree.dict entries).Distinct)
    {e : κ × Tree κ α} (he : e ∈ entries) : e.2.Distinct := by
  cases h with
  | dict _ values => exact values e he

section Path

variable [DecidableEq κ]

mutual
/-- A check for distinct keys that can be run. -/
def Tree.distinctKeys : Tree κ α → Bool
  | .leaf _ => true
  | .dict entries => decide (entries.map Prod.fst).Nodup && distinctKeysAll entries

def distinctKeysAll : Entries κ α → Bool
  | [] => true
  | (_, t) :: entries => t.distinctKeys && distinctKeysAll entries
end

mutual

theorem Tree.distinct_of_distinctKeys (t : Tree κ α) (ht : t.distinctKeys = true) : t.Distinct := by
  cases t with
  | leaf a => exact .leaf a
  | dict entries =>
    rw [Tree.distinctKeys, Bool.and_eq_true, decide_eq_true_eq] at ht
    exact .dict ht.1 (distinct_of_distinctKeysAll entries ht.2)

theorem distinct_of_distinctKeysAll (entries : Entries κ α)
    (h : distinctKeysAll entries = true) : ∀ e ∈ entries, e.2.Distinct := by
  match entries with
  | [] => exact fun e he => absurd he List.not_mem_nil
  | (k, t) :: entries =>
    rw [distinctKeysAll, Bool.and_eq_true] at h
    intro e he
    obtain rfl | he := List.mem_cons.mp he
    · exact t.distinct_of_distinctKeys h.1
    · exact distinct_of_distinctKeysAll entries h.2 e he

end

/-- What stands in the tree at a path of keys. -/
def Tree.atPath : Tree κ α → List κ → Option (Tree κ α)
  | t, [] => some t
  | .leaf _, _ :: _ => none
  | .dict entries, k :: path => (entries.lookup k).bind fun t => t.atPath path

def Tree.kindAt (t : Tree κ α) (path : List κ) : Option (Kind α) := (t.atPath path).map Tree.kind

@[simp] theorem Tree.atPath_nil (t : Tree κ α) : t.atPath [] = some t := by cases t <;> rfl

@[simp] theorem Tree.atPath_leaf_cons (a : α) (k : κ) (path : List κ) :
    (Tree.leaf a : Tree κ α).atPath (k :: path) = none := rfl

theorem Tree.atPath_dict_cons (entries : Entries κ α) (k : κ) (path : List κ) :
    (Tree.dict entries).atPath (k :: path) = (entries.lookup k).bind fun t => t.atPath path := rfl

theorem Tree.atPath_append (t : Tree κ α) (p q : List κ) :
    t.atPath (p ++ q) = (t.atPath p).bind fun s => s.atPath q := by
  induction p generalizing t with
  | nil => simp
  | cons k p ih =>
    cases t with
    | leaf a => rfl
    | dict entries =>
      rw [List.cons_append, atPath_dict_cons, atPath_dict_cons, Option.bind_assoc]
      exact congrArg _ (funext fun s => ih s)

@[simp] theorem Tree.kindAt_nil (t : Tree κ α) : t.kindAt [] = some t.kind := by
  simp [kindAt]

@[simp] theorem Tree.kindAt_leaf_cons (a : α) (k : κ) (path : List κ) :
    (Tree.leaf a : Tree κ α).kindAt (k :: path) = none := rfl

theorem Tree.kindAt_dict_cons (entries : Entries κ α) (k : κ) (path : List κ) :
    (Tree.dict entries).kindAt (k :: path) = (entries.lookup k).bind fun t => t.kindAt path := by
  rw [kindAt, atPath_dict_cons, Option.map_bind]
  rfl

theorem Tree.kindAt_dict_singleton (entries : Entries κ α) (k : κ) :
    (Tree.dict entries).kindAt [k] = (entries.lookup k).map Tree.kind := by
  rw [kindAt_dict_cons]
  cases entries.lookup k <;> simp

theorem Tree.kindAt_append (t : Tree κ α) (p q : List κ) :
    t.kindAt (p ++ q) = (t.atPath p).bind fun s => s.kindAt q := by
  rw [kindAt, atPath_append, Option.map_bind]
  rfl

/-- A key holds a dictionary in both trees or in neither, at every path both of them set. -/
def Consistent (s t : Tree κ α) : Prop :=
  ∀ path x y, s.atPath path = some x → t.atPath path = some y →
    (x.kind = .dict ↔ y.kind = .dict)

theorem Consistent.of_lookup (h : Consistent (.dict a) (.dict b)) (hs : a.lookup k = some s)
    (ht : b.lookup k = some t) : Consistent s t := by
  intro path x y hx hy
  refine h (k :: path) x y ?_ ?_
  · rw [Tree.atPath_dict_cons, hs]
    exact hx
  · rw [Tree.atPath_dict_cons, ht]
    exact hy

theorem Consistent.kind_eq_dict_iff (h : Consistent s t) :
    s.kind = .dict ↔ t.kind = .dict := h [] s t (by simp) (by simp)

mutual
/-- A check for consistency that can be run. -/
def Tree.agrees : Tree κ α → Tree κ α → Bool
  | .leaf _, .leaf _ => true
  | .dict a, .dict b => agreesAll a b
  | _, _ => false

def agreesAll : Entries κ α → Entries κ α → Bool
  | [], _ => true
  | (k, s) :: a, b =>
    (match b.lookup k with
      | some t => s.agrees t
      | none => true) && agreesAll a b
end

mutual

theorem Tree.consistent_of_agrees (s t : Tree κ α) (h : s.agrees t = true) : Consistent s t := by
  intro path x y hx hy
  match s, t with
  | .leaf _, .leaf _ =>
    cases path with
    | nil =>
      cases hx
      cases hy
      simp [Tree.kind]
    | cons k path => cases hx
  | .dict a, .dict b =>
    cases path with
    | nil =>
      cases hx
      cases hy
      rfl
    | cons k path =>
      obtain ⟨u, hu, hx⟩ := Option.bind_eq_some_iff.mp hx
      obtain ⟨v, hv, hy⟩ := Option.bind_eq_some_iff.mp hy
      rw [Tree.agrees] at h
      exact consistent_of_agreesAll a b h hu hv path x y hx hy
  | .leaf _, .dict _ => simp [Tree.agrees] at h
  | .dict _, .leaf _ => simp [Tree.agrees] at h

theorem consistent_of_agreesAll (a b : Entries κ α) (h : agreesAll a b = true) {k : κ}
    {s t : Tree κ α} (hs : a.lookup k = some s) (ht : b.lookup k = some t) : Consistent s t := by
  match a with
  | [] => simp at hs
  | (key, u) :: a =>
    rw [agreesAll, Bool.and_eq_true] at h
    by_cases hk : k = key
    · subst hk
      simp only [List.lookup_cons_self, Option.some.injEq] at hs
      subst hs
      rw [ht] at h
      exact u.consistent_of_agrees t h.1
    · rw [Assoc.lookup_cons_of_ne hk] at hs
      exact consistent_of_agreesAll a b h.2 hs ht

end

end Path

section Merge

variable [DecidableEq κ] (w : κ → Bool)

mutual
/-- What stands under a key once `value` has been laid over `old`. -/
def overlay (k : κ) (old : Option (Tree κ α)) : Tree κ α → Tree κ α
  | .leaf a => .leaf a
  | .dict b =>
    match old with
    | some (.dict a) => if w k then .dict b else .dict (merge a b)
    | _ => .dict b

/-- The entries of the second dictionary laid over those of the first. -/
def merge (a : Entries κ α) : Entries κ α → Entries κ α
  | [] => a
  | (k, value) :: b => merge (Assoc.set a k (overlay k (a.lookup k) value)) b
end

variable {w}

theorem overlay_of_whole (hk : w k = true) (old : Option (Tree κ α))
    (value : Tree κ α) : overlay w k old value = value := by
  cases value with
  | leaf a => rw [overlay]
  | dict b =>
    unfold overlay
    split
    · rw [if_pos hk]
    · rfl

theorem overlay_none (k : κ) (value : Tree κ α) : overlay w k none value = value := by
  cases value with
  | leaf a => rw [overlay]
  | dict b => unfold overlay; rfl

theorem overlay_dict (hk : w k = false) (a b : Entries κ α) :
    overlay w k (some (.dict a)) (.dict b) = .dict (merge w a b) := by
  simp [overlay, hk]

theorem lookup_merge (hb : (b.map Prod.fst).Nodup) (k : κ) : (merge w a b).lookup k =
      ((b.lookup k).map fun value => overlay w k (a.lookup k) value).or (a.lookup k) := by
  induction b generalizing a with
  | nil => simp [merge]
  | cons e b ih =>
    obtain ⟨key, value⟩ := e
    rw [List.map_cons, List.nodup_cons] at hb
    rw [merge, ih hb.2]
    by_cases hk : k = key
    · subst hk
      simp [Assoc.lookup_eq_none_of_not_mem hb.1]
    · simp only [Assoc.lookup_set_of_ne _ hk, Assoc.lookup_cons_of_ne hk]

theorem Tree.Distinct.set (ha : (Tree.dict a).Distinct) (ht : t.Distinct)
    (k : κ) : (Tree.dict (Assoc.set a k t)).Distinct := by
  refine .dict (Assoc.nodup_set ha.keys_nodup k t) ?_
  intro e he
  obtain rfl | he := Assoc.mem_set he
  · exact ht
  · exact ha.of_mem he

mutual

theorem Tree.Distinct.overlay {old : Option (Tree κ α)} (hold : ∀ s ∈ old, s.Distinct) (k : κ)
    (t : Tree κ α) (ht : t.Distinct) : (DictTree.overlay w k old t).Distinct := by
  cases t with
  | leaf a => rw [DictTree.overlay]; exact ht
  | dict b =>
    unfold DictTree.overlay
    split
    · split
      · exact ht
      · exact Tree.Distinct.merge (hold _ rfl) b ht
    · exact ht

theorem Tree.Distinct.merge {a : Entries κ α} (ha : (Tree.dict a).Distinct) (b : Entries κ α)
    (hb : (Tree.dict b).Distinct) : (Tree.dict (DictTree.merge w a b)).Distinct := by
  match b with
  | [] => rw [DictTree.merge]; exact ha
  | (k, t) :: b =>
    have ht : t.Distinct := hb.of_mem List.mem_cons_self
    have hrest : (Tree.dict b).Distinct := by
      cases hb with
      | dict keys values =>
        exact .dict (List.nodup_cons.mp keys).2 fun e he => values e (List.mem_cons_of_mem _ he)
    rw [DictTree.merge]
    refine Tree.Distinct.merge (ha.set (Tree.Distinct.overlay ?_ k t ht) k) b hrest
    exact fun s hs => ha.of_mem (Assoc.mem_of_lookup hs)

end

theorem overlay_isDict (h : t.kind = .dict) (k : κ) : (overlay w k (some s) t).kind = .dict := by
  cases t with
  | leaf a => exact absurd h nofun
  | dict b =>
    unfold overlay
    split
    · split <;> rfl
    · rfl

theorem Consistent.lookup_merge (hb : (b.map Prod.fst).Nodup)
    (hab : Consistent (.dict a) (.dict b)) {d : Entries κ α} (hd : a.lookup k = some (.dict d)) :
    ∃ d', (DictTree.merge w a b).lookup k = some (.dict d') := by
  have hkind : ∃ t, (DictTree.merge w a b).lookup k = some t ∧ t.kind = .dict := by
    rw [DictTree.lookup_merge hb, hd]
    cases ht : b.lookup k with
    | none => exact ⟨_, rfl, rfl⟩
    | some t => exact ⟨_, rfl, overlay_isDict ((hab.of_lookup hd ht).kind_eq_dict_iff.mp rfl) k⟩
  obtain ⟨t, ht, htk⟩ := hkind
  cases t with
  | leaf a => exact absurd htk nofun
  | dict d' => exact ⟨d', ht⟩

/-! ### Precedence -/

variable (w)

/-- The part of a path that decides which level it is taken from: down to the first key that is
taken whole, or all of it. -/
def decisive : List κ → List κ
  | [] => []
  | k :: path => if w k then [k] else k :: decisive path

/-- What the levels say about a path, the most specific level first. -/
def valueAt (levels : List (Tree κ α)) (path : List κ) : Option (Kind α) :=
  (levels.find? fun t => (t.atPath (decisive w path)).isSome).bind fun t => t.kindAt path

variable {w}

omit [DecidableEq κ] in
theorem exists_decisive_append (path : List κ) : ∃ rest, path = decisive w path ++ rest := by
  induction path with
  | nil => exact ⟨[], rfl⟩
  | cons k path ih =>
    obtain ⟨rest, hrest⟩ := ih
    by_cases hk : w k = true
    · exact ⟨path, by simp [decisive, hk]⟩
    · exact ⟨rest, by simpa [decisive, hk] using hrest⟩

theorem kindAt_eq_none_of_decisive {path : List κ}
    (h : t.atPath (decisive w path) = none) : t.kindAt path = none := by
  obtain ⟨rest, hrest⟩ := exists_decisive_append (w := w) path
  rw [hrest, Tree.kindAt_append, h]
  rfl

theorem valueAt_nil (path : List κ) : valueAt w ([] : List (Tree κ α)) path = none := rfl

theorem valueAt_cons (t : Tree κ α) (levels : List (Tree κ α)) (path : List κ) :
    valueAt w (t :: levels) path =
      if (t.atPath (decisive w path)).isSome then t.kindAt path
      else valueAt w levels path := by
  rw [valueAt, valueAt, List.find?_cons]
  split
  · next h => simp [h]
  · next h => simp [h]

theorem valueAt_singleton (t : Tree κ α) (path : List κ) : valueAt w [t] path = t.kindAt path := by
  rw [valueAt_cons, valueAt_nil]
  split
  · rfl
  · next h => exact (kindAt_eq_none_of_decisive (by simpa using h)).symm

theorem valueAt_pair_cons (hk : w k = false) (hs : a.lookup k = some s)
    (ht : b.lookup k = some t) (path : List κ) :
    valueAt w [.dict b, .dict a] (k :: path) = valueAt w [t, s] path := by
  simp [valueAt_cons, valueAt_nil, decisive, hk, Tree.atPath_dict_cons, Tree.kindAt_dict_cons,
    hs, ht]

/-- A merge has at every path what the most specific of the two levels has there. -/
theorem kindAt_merge (hb : (Tree.dict b).Distinct) (hab : Consistent (.dict a) (.dict b))
    (path : List κ) :
    (Tree.dict (merge w a b)).kindAt path = valueAt w [.dict b, .dict a] path := by
  induction path generalizing a b with
  | nil => simp [valueAt_cons, decisive, Tree.kind]
  | cons k path ih =>
    rw [Tree.kindAt_dict_cons, lookup_merge hb.keys_nodup]
    cases ht : b.lookup k with
    | none =>
      -- The key is set below only, or not at all.
      have hnone : (Tree.dict b).atPath (decisive w (k :: path)) = none := by
        rw [decisive]
        split <;> simp [Tree.atPath_dict_cons, ht]
      rw [valueAt_cons, hnone, valueAt_singleton]
      simp [Tree.kindAt_dict_cons]
    | some t =>
      simp only [Option.map_some, Option.some_or, Option.bind_some]
      cases hk : w k with
      | true =>
        rw [overlay_of_whole hk, valueAt_cons]
        simp [decisive, hk, Tree.atPath_dict_cons, Tree.kindAt_dict_cons, ht]
      | false =>
        cases hs : a.lookup k with
        | none =>
          rw [overlay_none, ← valueAt_singleton (w := w)]
          simp [valueAt_cons, valueAt_nil, decisive, hk, Tree.atPath_dict_cons,
            Tree.kindAt_dict_cons, ht, hs]
        | some s =>
          have hst : Consistent s t := hab.of_lookup hs ht
          rw [valueAt_pair_cons hk hs ht]
          cases t with
          | leaf y =>
            cases s with
            | leaf x =>
              rw [overlay]
              cases path with
              | nil => simp [valueAt_cons, decisive]
              | cons k' path =>
                have hnil : ∃ j rest, decisive w (k' :: path) = j :: rest := by
                  rw [decisive]
                  split <;> exact ⟨_, _, rfl⟩
                obtain ⟨j, rest, hj⟩ := hnil
                simp [valueAt_cons, valueAt_nil, hj]
            | dict a' => exact absurd (hst.kind_eq_dict_iff.mp rfl) nofun
          | dict b' =>
            cases s with
            | leaf x => exact absurd (hst.kind_eq_dict_iff.mpr rfl) nofun
            | dict a' =>
              rw [overlay_dict hk]
              exact ih (hb.of_mem (Assoc.mem_of_lookup ht)) hst

theorem Consistent.merge (hb : (Tree.dict b).Distinct)
    (hab : Consistent (.dict a) (.dict b)) (hac : Consistent (.dict a) (.dict c))
    (hbc : Consistent (.dict b) (.dict c)) :
    Consistent (.dict (DictTree.merge w a b)) (.dict c) := by
  intro path x y hx hy
  have hkind := kindAt_merge (w := w) hb hab path
  rw [Tree.kindAt, hx, Option.map_some, valueAt_cons, valueAt_singleton] at hkind
  split at hkind
  · obtain ⟨z, hz, hzx⟩ := Option.map_eq_some_iff.mp hkind.symm
    exact hzx ▸ hbc path z y hz hy
  · obtain ⟨z, hz, hzx⟩ := Option.map_eq_some_iff.mp hkind.symm
    exact hzx ▸ hac path z y hz hy

/-- Three levels laid over one another: the base, the defaults and the values themselves. -/
theorem kindAt_merge_merge (hb : (Tree.dict b).Distinct)
    (hc : (Tree.dict c).Distinct) (hab : Consistent (.dict a) (.dict b))
    (hac : Consistent (.dict a) (.dict c)) (hbc : Consistent (.dict b) (.dict c)) (path : List κ) :
    (Tree.dict (merge w (merge w a b) c)).kindAt path =
      valueAt w [.dict c, .dict b, .dict a] path := by
  rw [kindAt_merge hc (Consistent.merge hb hab hac hbc), valueAt_cons, valueAt_singleton,
    kindAt_merge hb hab]
  exact (valueAt_cons _ _ _).symm

end Merge

end DictTree
