import Mathlib.Data.List.Nodup

/-!
# Finite maps with an iteration order

A finite map is a list of entries with distinct keys. Its iteration order is
the order of the list, which no operation promises anything about: a statement
proved for every map is proved for every iteration order.
-/

universe u v w

/-- Entries in iteration order; the keys are distinct. -/
structure UnorderedMap (K : Type u) (V : Type v) where
  entries : List (K × V)
  distinct : (entries.map Prod.fst).Nodup

namespace UnorderedMap

open List

set_option autoImplicit false

variable {K : Type u} {V : Type v}

def empty : UnorderedMap K V := ⟨[], by simp⟩

def keys (m : UnorderedMap K V) : List K := m.entries.map Prod.fst

def size (m : UnorderedMap K V) : Nat := m.entries.length

def mapValues (f : K → V → V) (m : UnorderedMap K V) : UnorderedMap K V where
  entries := m.entries.map fun e => (e.1, f e.1 e.2)
  distinct := by simpa [List.map_map, Function.comp_def] using m.distinct

variable {m : UnorderedMap K V}

theorem eq_of_entries {n : UnorderedMap K V} (h : m.entries = n.entries) : m = n := by
  cases m
  cases n
  simpa using h

@[simp] theorem mapValues_mapValues (f g : K → V → V) (m : UnorderedMap K V) :
    (m.mapValues f).mapValues g = m.mapValues fun k v => g k (f k v) := by
  apply eq_of_entries
  simp [mapValues, Function.comp_def]

theorem mapValues_congr {f g : K → V → V} (h : ∀ k v, f k v = g k v) (m : UnorderedMap K V) :
    m.mapValues f = m.mapValues g := by
  have : f = g := funext fun k => funext fun v => h k v
  rw [this]

theorem keys_nodup (m : UnorderedMap K V) : m.keys.Nodup := m.distinct

@[simp] theorem keys_length (m : UnorderedMap K V) : m.keys.length = m.size := by
  simp [keys, size]

@[simp] theorem keys_mapValues (f : K → V → V) (m : UnorderedMap K V) :
    (m.mapValues f).keys = m.keys := by
  simp [keys, mapValues, Function.comp_def]

@[simp] theorem size_mapValues (f : K → V → V) (m : UnorderedMap K V) :
    (m.mapValues f).size = m.size := by simp [size, mapValues]

variable [DecidableEq K]

def lookup (k : K) : List (K × V) → Option V
  | [] => none
  | e :: es => if e.1 = k then some e.2 else lookup k es

def find? (m : UnorderedMap K V) (k : K) : Option V := lookup k m.entries

def tryEmplace (m : UnorderedMap K V) (k : K) (v : V) : UnorderedMap K V :=
  if h : k ∈ m.keys then m else
    { entries := m.entries ++ [(k, v)]
      distinct := by
        have hk : ∀ a ∈ m.entries.map Prod.fst, a ≠ k := fun a ha he => h (he ▸ ha)
        simpa [List.nodup_append, m.distinct] using hk }

/-- Change the value under `k`; nothing happens for an absent key. -/
def modify (m : UnorderedMap K V) (k : K) (f : V → V) : UnorderedMap K V :=
  m.mapValues fun j v => if j = k then f v else v

/-- Access that default-constructs an absent value first. -/
def upsert (m : UnorderedMap K V) (k : K) (fresh : V) (f : V → V) : UnorderedMap K V :=
  (m.tryEmplace k fresh).modify k f

theorem lookup_eq_none_iff (k : K) (es : List (K × V)) :
    lookup k es = none ↔ k ∉ es.map Prod.fst := by
  induction es with
  | nil => simp [lookup]
  | cons e es ih =>
    by_cases he : e.1 = k
    · simp [lookup, he]
    · simp only [lookup, if_neg he, ih, map_cons, mem_cons, not_or]
      exact ⟨fun h => ⟨Ne.symm he, h⟩, fun h => h.2⟩

theorem lookup_append (k : K) (es fs : List (K × V)) :
    lookup k (es ++ fs) = (lookup k es).or (lookup k fs) := by
  induction es with
  | nil => simp [lookup]
  | cons e es ih =>
    by_cases he : e.1 = k
    · simp [lookup, he]
    · simp [lookup, he, ih]

theorem lookup_map {W : Type w} (k : K) (f : K → V → W) (es : List (K × V)) :
    lookup k (es.map fun e => (e.1, f e.1 e.2)) = (lookup k es).map (f k) := by
  induction es with
  | nil => rfl
  | cons e es ih =>
    by_cases he : e.1 = k
    · simp [lookup, he]
    · simp [lookup, he, ih]

theorem lookup_rename {J : Type w} [DecidableEq J] (f : K → J) (k : K) (es : List (K × V))
    (hinj : ∀ e ∈ es, f e.1 = f k → e.1 = k) :
    lookup (f k) (es.map fun e => (f e.1, e.2)) = lookup k es := by
  induction es with
  | nil => rfl
  | cons e es ih =>
    have hrest := ih fun e' he' => hinj e' (mem_cons_of_mem e he')
    by_cases he : e.1 = k
    · simp [lookup, he]
    · have hne : f e.1 ≠ f k := fun heq => he (hinj e mem_cons_self heq)
      simp [lookup, he, hne, hrest]

theorem find?_eq_none_iff (m : UnorderedMap K V) (k : K) : m.find? k = none ↔ k ∉ m.keys :=
  lookup_eq_none_iff k m.entries

theorem find?_isSome_iff (m : UnorderedMap K V) (k : K) :
    (m.find? k).isSome = true ↔ k ∈ m.keys := by
  rw [← Option.ne_none_iff_isSome, ne_eq, find?_eq_none_iff, not_not]

variable {k : K} {v : V} {es : List (K × V)}

theorem exists_of_mem (h : k ∈ m.keys) : ∃ v, m.find? k = some v :=
  Option.isSome_iff_exists.mp ((m.find?_isSome_iff k).mpr h)

theorem mem_of_find? (h : m.find? k = some v) : k ∈ m.keys :=
  (m.find?_isSome_iff k).mp (by simp [h])

theorem lookup_of_mem (hn : (es.map Prod.fst).Nodup) (h : (k, v) ∈ es) : lookup k es = some v := by
  induction es with
  | nil => simp at h
  | cons e es ih =>
    rw [map_cons, nodup_cons] at hn
    rcases mem_cons.mp h with rfl | hm
    · simp [lookup]
    · have hne : e.1 ≠ k := by
        intro he
        exact hn.1 (he ▸ mem_map.mpr ⟨(k, v), hm, rfl⟩)
      simp [lookup, hne, ih hn.2 hm]

theorem mem_of_lookup (h : lookup k es = some v) : (k, v) ∈ es := by
  induction es with
  | nil => cases h
  | cons e es ih =>
    rw [lookup] at h
    split at h
    · rename_i he
      cases h
      rw [← he]
      exact mem_cons_self
    · exact mem_cons_of_mem e (ih h)

theorem find?_of_mem_entries (h : (k, v) ∈ m.entries) :
    m.find? k = some v := lookup_of_mem m.distinct h

@[simp] theorem find?_mapValues (f : K → V → V) (m : UnorderedMap K V) (k : K) :
    (m.mapValues f).find? k = (m.find? k).map (f k) := lookup_map k f m.entries

@[simp] theorem keys_modify (m : UnorderedMap K V) (k : K) (f : V → V) :
    (m.modify k f).keys = m.keys := keys_mapValues _ m

@[simp] theorem size_modify (m : UnorderedMap K V) (k : K) (f : V → V) :
    (m.modify k f).size = m.size := size_mapValues _ m

theorem find?_modify (m : UnorderedMap K V) (k j : K) (f : V → V) :
    (m.modify k f).find? j = if j = k then (m.find? j).map f else m.find? j := by
  rw [modify, find?_mapValues]
  split <;> simp_all

theorem modify_congr {f g : V → V}
    (h : ∀ v, m.find? k = some v → f v = g v) : m.modify k f = m.modify k g := by
  apply eq_of_entries
  simp only [modify, mapValues]
  apply map_congr_left
  intro e he
  by_cases hk : e.1 = k
  · subst k
    simp [h e.2 (find?_of_mem_entries he)]
  · simp [hk]

theorem modify_eq_self {f : V → V} (h : ∀ v, m.find? k = some v → f v = v) : m.modify k f = m := by
  rw [modify_congr (g := id) h]
  apply eq_of_entries
  simp [modify, mapValues]

theorem find?_tryEmplace (m : UnorderedMap K V) (k j : K) (v : V) :
    (m.tryEmplace k v).find? j = if j = k ∧ k ∉ m.keys then some v else m.find? j := by
  unfold tryEmplace
  split
  · simp_all
  · rename_i hk
    have hnone := (m.find?_eq_none_iff k).mpr hk
    simp only [find?] at hnone ⊢
    rw [lookup_append]
    by_cases hj : j = k
    · subst j
      simp [lookup, hk, hnone]
    · simp [lookup, hj, Ne.symm hj]

theorem mem_keys_tryEmplace (m : UnorderedMap K V) (k j : K) (v : V) :
    j ∈ (m.tryEmplace k v).keys ↔ j = k ∨ j ∈ m.keys := by
  unfold tryEmplace
  split
  · rename_i hk
    exact ⟨Or.inr, fun h => h.elim (fun he => he ▸ hk) id⟩
  · simp only [keys, map_append, mem_append, map_cons, map_nil,
      mem_singleton]
    exact or_comm

theorem keys_tryEmplace_of_mem (h : k ∈ m.keys) (v : V) :
    m.tryEmplace k v = m := by simp [tryEmplace, h]

theorem mem_keys_upsert (m : UnorderedMap K V) (k j : K) (v : V) (f : V → V) :
    j ∈ (m.upsert k v f).keys ↔ j = k ∨ j ∈ m.keys := by
  rw [upsert, keys_modify, mem_keys_tryEmplace]

theorem upsert_of_mem (h : k ∈ m.keys) (v : V) (f : V → V) :
    m.upsert k v f = m.modify k f := by rw [upsert, keys_tryEmplace_of_mem h]

theorem find?_upsert (m : UnorderedMap K V) (k j : K) (v : V) (f : V → V) :
    (m.upsert k v f).find? j = if j = k then some (f ((m.find? k).getD v)) else m.find? j := by
  rw [upsert, find?_modify, find?_tryEmplace]
  by_cases hj : j = k
  · subst j
    by_cases hk : k ∈ m.keys
    · obtain ⟨x, hx⟩ := exists_of_mem hk
      simp [hk, hx]
    · simp [hk, (m.find?_eq_none_iff k).mpr hk]
  · simp [hj]

theorem size_tryEmplace_of_not_mem (h : k ∉ m.keys) (v : V) :
    (m.tryEmplace k v).size = m.size + 1 := by simp [tryEmplace, h, size]

end UnorderedMap
