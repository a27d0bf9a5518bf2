import LaunchManager.FixedSizeQueue
import LaunchManager.Library.UnorderedMap
import Mathlib.Algebra.Group.Nat.Defs
import Mathlib.Data.List.Perm.Subperm
import Mathlib.Logic.Relation

/-!
# The dependency graph

The graph of `dependency_graph.hpp`: an unordered map of nodes, each with its
dependencies, its dependents and the flag of the running traversal, and one
traversal queue that every traversal reuses. Debug assertions are compiled out,
as in a release build: a refused push of the traversal queue goes unnoticed.
-/

namespace LaunchManager

open List

set_option autoImplicit false

universe u v w

structure GraphNode (Key : Type u) (T : Type v) where
  value : T
  dependsOn : List Key := []
  dependents : List Key := []
  visited : Bool := false

structure DependencyGraph (Key : Type u) (T : Type v) where
  capacity : Nat
  nodes : UnorderedMap Key (GraphNode Key T)
  traversalQueue : FixedSizeQueue Key

namespace DependencyGraph
variable {Key : Type u} {T : Type v}

/-- A graph for `count` nodes; the traversal queue never holds the node being visited. -/
def new (count : Nat) : DependencyGraph Key T :=
  ⟨count, .empty, .new (max count 2 - 1)⟩

def size (g : DependencyGraph Key T) : Nat := g.nodes.size

def keys (g : DependencyGraph Key T) : List Key := g.nodes.keys

def resetVisited (g : DependencyGraph Key T) : DependencyGraph Key T :=
  { g with nodes := g.nodes.mapValues fun _ n => { n with visited := false } }

def pushTraversal (g : DependencyGraph Key T) (key : Key) : DependencyGraph Key T :=
  { g with traversalQueue := (g.traversalQueue.push key).2 }

/-- Equal up to the scratch data of traversals. -/
def SameShape (g h : DependencyGraph Key T) : Prop :=
  g.resetVisited.nodes = h.resetVisited.nodes ∧ g.capacity = h.capacity ∧
    g.traversalQueue.capacity = h.traversalQueue.capacity

theorem SameShape.refl (g : DependencyGraph Key T) : SameShape g g := ⟨rfl, rfl, rfl⟩

theorem SameShape.symm {g h : DependencyGraph Key T} (hgh : SameShape g h) : SameShape h g :=
  ⟨hgh.1.symm, hgh.2.1.symm, hgh.2.2.symm⟩

theorem SameShape.trans {g h i : DependencyGraph Key T} (hgh : SameShape g h)
    (hhi : SameShape h i) : SameShape g i :=
  ⟨hgh.1.trans hhi.1, hgh.2.1.trans hhi.2.1, hgh.2.2.trans hhi.2.2⟩

theorem keys_resetVisited (g : DependencyGraph Key T) : g.resetVisited.keys = g.keys :=
  UnorderedMap.keys_mapValues _ _

theorem SameShape.keys_eq {g h : DependencyGraph Key T} (hgh : SameShape g h) :
    g.keys = h.keys := by
  rw [← keys_resetVisited g, ← keys_resetVisited h]
  exact congrArg UnorderedMap.keys hgh.1

theorem sameShape_resetVisited (g : DependencyGraph Key T) : SameShape g g.resetVisited :=
  ⟨by simp [resetVisited], rfl, rfl⟩

theorem sameShape_queue (g : DependencyGraph Key T) {q : FixedSizeQueue Key}
    (hq : g.traversalQueue.capacity = q.capacity) : SameShape g { g with traversalQueue := q } :=
  ⟨rfl, rfl, hq⟩

theorem sameShape_pushTraversal (g : DependencyGraph Key T) (k : Key) :
    SameShape g (g.pushTraversal k) := ⟨rfl, rfl, by simp [pushTraversal]⟩

variable [DecidableEq Key]

def tryEmplace (g : DependencyGraph Key T) (key : Key) (value : T) : DependencyGraph Key T :=
  { g with nodes := g.nodes.tryEmplace key { value := value } }

/-- `node` depends on `dependency`; `none` where the lookup of one of them throws. -/
def addDependency (g : DependencyGraph Key T) (node dependency : Key) :
    Option (DependencyGraph Key T) :=
  if node ∈ g.keys ∧ dependency ∈ g.keys then
    let linked := g.nodes.modify node fun n => { n with dependsOn := n.dependsOn ++ [dependency] }
    some { g with
      nodes := linked.modify dependency fun n => { n with dependents := n.dependents ++ [node] } }
  else none

def value? (g : DependencyGraph Key T) (key : Key) : Option T := (g.nodes.find? key).map (·.value)

/-- The key must be present; an absent one reads as having no neighbours. -/
def dependsOn (g : DependencyGraph Key T) (key : Key) : List Key :=
  ((g.nodes.find? key).map (·.dependsOn)).getD []

def dependents (g : DependencyGraph Key T) (key : Key) : List Key :=
  ((g.nodes.find? key).map (·.dependents)).getD []

def visited (g : DependencyGraph Key T) (key : Key) : Bool :=
  ((g.nodes.find? key).map (·.visited)).getD false

def setVisited (g : DependencyGraph Key T) (key : Key) : DependencyGraph Key T :=
  { g with nodes := g.nodes.modify key fun n => { n with visited := true } }

def visitNeighbor (g : DependencyGraph Key T) (neighbor : Key) : Option (DependencyGraph Key T) :=
  if neighbor ∈ g.keys then
    if g.visited neighbor then some g else some ((g.pushTraversal neighbor).setVisited neighbor)
  else none

/-- The `while` loop of the traversal. Running out of fuel is an outcome of the
model only; `traverse_spec` shows that it does not occur. -/
def traverseLoop {σ : Type w} (perNode : Key → σ → σ × List Key) :
    Nat → DependencyGraph Key T → σ → Option (DependencyGraph Key T × σ)
  | fuel, g, s =>
    if g.traversalQueue.empty then some (g, s)
    else match fuel with
      | 0 => none
      | fuel + 1 => match g.traversalQueue.tryPop with
        | (none, _) => none
        | (some current, rest) =>
          let (s', neighbors) := perNode current s
          (neighbors.foldlM visitNeighbor { g with traversalQueue := rest }).bind fun g' =>
            traverseLoop perNode fuel g' s'

/-- Breadth-first traversal from `start`; `perNode` acts on the visitor's state and
returns the nodes to go on to. -/
def traverse {σ : Type w} (g : DependencyGraph Key T) (start : Key)
    (perNode : Key → σ → σ × List Key) (s : σ) : Option (DependencyGraph Key T × σ) :=
  if start ∈ g.keys then
    traverseLoop perNode (g.size + g.traversalQueue.size + 1)
      ((g.resetVisited.pushTraversal start).setVisited start) s
  else none

/-- What construction guarantees: both edge lists stay inside the graph and mirror each
other, no more nodes than declared (a `size_t`), and an idle traversal queue. -/
structure WellFormed (g : DependencyGraph Key T) : Prop where
  dependsOn_mem : ∀ k, ∀ d ∈ g.dependsOn k, d ∈ g.keys
  dependents_mem : ∀ k, ∀ d ∈ g.dependents k, d ∈ g.keys
  mirror : ∀ k d, d ∈ g.dependsOn k ↔ k ∈ g.dependents d
  size_le : g.size ≤ g.capacity
  capacity_lt : g.capacity < 2 ^ 64
  queue_capacity : g.traversalQueue.capacity = max g.capacity 2 - 1
  queue_idle : g.traversalQueue.toList = []

/-- `a` depends, directly or not, on `b` (or is `b`). -/
def Reaches (g : DependencyGraph Key T) : Key → Key → Prop :=
  Relation.ReflTransGen fun a b => b ∈ g.dependsOn a

def Acyclic (g : DependencyGraph Key T) : Prop :=
  ∀ k, ¬ Relation.TransGen (fun a b => b ∈ g.dependsOn a) k k

theorem eq_of_reaches {g : DependencyGraph Key T} {a b : Key} (h : g.dependsOn a = [])
    (hab : g.Reaches a b) : b = a := by
  rcases hab.cases_head with heq | ⟨d, hd, -⟩
  · exact heq.symm
  · rw [h] at hd
    cases hd

section Shape
variable {g h : DependencyGraph Key T}

theorem find?_resetVisited (g : DependencyGraph Key T) (k : Key) : g.resetVisited.nodes.find? k =
      (g.nodes.find? k).map fun n => { n with visited := false } :=
  UnorderedMap.find?_mapValues _ _ k

theorem SameShape.find?_eq (hgh : SameShape g h) (k : Key) :
    ((g.nodes.find? k).map fun n => { n with visited := false }) =
      (h.nodes.find? k).map fun n => { n with visited := false } := by
  rw [← find?_resetVisited, ← find?_resetVisited, hgh.1]

theorem SameShape.dependsOn_eq (hgh : SameShape g h) (k : Key) : g.dependsOn k = h.dependsOn k := by
  have hk := congrArg (fun o => (o.map GraphNode.dependsOn).getD []) (hgh.find?_eq k)
  simpa [dependsOn, Function.comp_def] using hk

theorem SameShape.dependents_eq (hgh : SameShape g h) (k : Key) :
    g.dependents k = h.dependents k := by
  have hk := congrArg (fun o => (o.map GraphNode.dependents).getD []) (hgh.find?_eq k)
  simpa [dependents, Function.comp_def] using hk

theorem SameShape.value?_eq (hgh : SameShape g h) (k : Key) : g.value? k = h.value? k := by
  have hk := congrArg (Option.map GraphNode.value) (hgh.find?_eq k)
  simpa [value?, Function.comp_def] using hk

theorem SameShape.reaches_iff (hgh : SameShape g h) (a b : Key) :
    g.Reaches a b ↔ h.Reaches a b := by
  have he : (fun a b => b ∈ g.dependsOn a) = fun a b => b ∈ h.dependsOn a := by
    funext a b
    rw [hgh.dependsOn_eq]
  unfold Reaches
  rw [he]

theorem SameShape.wellFormed (hgh : SameShape g h) (hg : g.WellFormed)
    (idle : h.traversalQueue.toList = []) : h.WellFormed where
  dependsOn_mem k d hd := by
    rw [← hgh.dependsOn_eq] at hd
    rw [← hgh.keys_eq]
    exact hg.dependsOn_mem k d hd
  dependents_mem k d hd := by
    rw [← hgh.dependents_eq] at hd
    rw [← hgh.keys_eq]
    exact hg.dependents_mem k d hd
  mirror k d := by rw [← hgh.dependsOn_eq, ← hgh.dependents_eq, hg.mirror]
  size_le := by
    have hk := congrArg List.length hgh.keys_eq
    simp only [keys, UnorderedMap.keys_length] at hk
    rw [size, ← hk, ← hgh.2.1]
    exact hg.size_le
  capacity_lt := hgh.2.1 ▸ hg.capacity_lt
  queue_capacity := by rw [← hgh.2.2, ← hgh.2.1, hg.queue_capacity]
  queue_idle := idle

theorem sameShape_setVisited (g : DependencyGraph Key T) (k : Key) :
    SameShape g (g.setVisited k) := by
  refine ⟨?_, rfl, rfl⟩
  simp only [resetVisited, setVisited, UnorderedMap.modify, UnorderedMap.mapValues_mapValues]
  apply UnorderedMap.mapValues_congr
  intro j n
  split <;> rfl

end Shape

section Build
variable {g : DependencyGraph Key T}

theorem dependsOn_of_not_mem {k : Key} (h : k ∉ g.keys) : g.dependsOn k = [] := by
  simp [dependsOn, (g.nodes.find?_eq_none_iff k).mpr h]

variable {count : Nat} {node : Key} {edges : List (Key × Key)} {nodes : List (Key × T)}

theorem wellFormed_new (hc : count < 2 ^ 64) : (new count : DependencyGraph Key T).WellFormed where
  dependsOn_mem := by
    simp [dependsOn, new, UnorderedMap.find?, UnorderedMap.empty, UnorderedMap.lookup]
  dependents_mem := by
    simp [dependents, new, UnorderedMap.find?, UnorderedMap.empty, UnorderedMap.lookup]
  mirror := by
    simp [dependsOn, dependents, new, UnorderedMap.find?, UnorderedMap.empty, UnorderedMap.lookup]
  size_le := Nat.zero_le count
  capacity_lt := hc
  queue_capacity := rfl
  queue_idle := rfl

theorem dependsOn_tryEmplace (g : DependencyGraph Key T) (key : Key) (value : T) (k : Key) :
    (g.tryEmplace key value).dependsOn k = g.dependsOn k := by
  simp only [dependsOn, tryEmplace, UnorderedMap.find?_tryEmplace]
  split
  · rename_i h
    rw [h.1, (g.nodes.find?_eq_none_iff key).mpr h.2]
    rfl
  · rfl

theorem dependents_tryEmplace (g : DependencyGraph Key T) (key : Key) (value : T) (k : Key) :
    (g.tryEmplace key value).dependents k = g.dependents k := by
  simp only [dependents, tryEmplace, UnorderedMap.find?_tryEmplace]
  split
  · rename_i h
    rw [h.1, (g.nodes.find?_eq_none_iff key).mpr h.2]
    rfl
  · rfl

theorem mem_keys_tryEmplace (g : DependencyGraph Key T) (key : Key) (value : T) (k : Key) :
    k ∈ (g.tryEmplace key value).keys ↔ k = key ∨ k ∈ g.keys :=
  UnorderedMap.mem_keys_tryEmplace _ _ _ _

theorem WellFormed.tryEmplace (hg : g.WellFormed) {key : Key} (value : T)
    (room : g.size < g.capacity) : (g.tryEmplace key value).WellFormed where
  dependsOn_mem k d hd := by
    rw [dependsOn_tryEmplace] at hd
    exact (mem_keys_tryEmplace g key value d).mpr (.inr (hg.dependsOn_mem k d hd))
  dependents_mem k d hd := by
    rw [dependents_tryEmplace] at hd
    exact (mem_keys_tryEmplace g key value d).mpr (.inr (hg.dependents_mem k d hd))
  mirror k d := by rw [dependsOn_tryEmplace, dependents_tryEmplace, hg.mirror]
  size_le := by
    by_cases h : key ∈ g.nodes.keys
    · simp only [DependencyGraph.tryEmplace, size, UnorderedMap.keys_tryEmplace_of_mem h]
      exact hg.size_le
    · simp only [DependencyGraph.tryEmplace, size, UnorderedMap.size_tryEmplace_of_not_mem h]
      exact room
  capacity_lt := hg.capacity_lt
  queue_capacity := hg.queue_capacity
  queue_idle := hg.queue_idle

variable {h : DependencyGraph Key T} {dependency : Key}

theorem addDependency_keys (hadd : g.addDependency node dependency = some h) :
    node ∈ g.keys ∧ dependency ∈ g.keys ∧ h.keys = g.keys ∧ h.size = g.size ∧
      h.capacity = g.capacity ∧ h.traversalQueue = g.traversalQueue := by
  unfold addDependency at hadd
  split at hadd
  · rename_i hmem
    cases hadd
    exact ⟨hmem.1, hmem.2, by simp [keys], by simp [size], rfl, rfl⟩
  · cases hadd

theorem mem_dependsOn_addDependency (hadd : g.addDependency node dependency = some h) (k d : Key) :
    d ∈ h.dependsOn k ↔ d ∈ g.dependsOn k ∨ (k = node ∧ d = dependency) := by
  obtain ⟨hn, hd, -⟩ := addDependency_keys hadd
  obtain ⟨m, hm⟩ := UnorderedMap.exists_of_mem hn
  unfold addDependency at hadd
  rw [if_pos ⟨hn, hd⟩, Option.some.injEq] at hadd
  subst h
  simp only [dependsOn, UnorderedMap.find?_modify]
  by_cases hk : k = node
  · subst k
    split <;> simp [hm]
  · cases hf : g.nodes.find? k <;> split <;> simp [hk]

theorem mem_dependents_addDependency (hadd : g.addDependency node dependency = some h) (k d : Key) :
    d ∈ h.dependents k ↔ d ∈ g.dependents k ∨ (k = dependency ∧ d = node) := by
  obtain ⟨hn, hd, -⟩ := addDependency_keys hadd
  obtain ⟨m, hm⟩ := UnorderedMap.exists_of_mem hd
  unfold addDependency at hadd
  rw [if_pos ⟨hn, hd⟩, Option.some.injEq] at hadd
  subst h
  simp only [dependents, UnorderedMap.find?_modify]
  by_cases hk : k = dependency
  · subst k
    by_cases hkn : dependency = node
    · subst hkn
      simp [hm]
    · simp [hkn, hm]
  · by_cases hkn : k = node
    · subst hkn
      cases hf : g.nodes.find? k <;> simp [hk]
    · simp [hk, hkn]

theorem WellFormed.addDependency (hg : g.WellFormed)
    (hadd : g.addDependency node dependency = some h) : h.WellFormed := by
  obtain ⟨hn, hd, hkeys, hsize, hcap, hqueue⟩ := addDependency_keys hadd
  refine ⟨?_, ?_, ?_, by rw [hsize, hcap]; exact hg.size_le, hcap ▸ hg.capacity_lt,
    by rw [hqueue, hcap]; exact hg.queue_capacity, hqueue ▸ hg.queue_idle⟩
  · intro k d hdep
    rw [hkeys]
    rcases (mem_dependsOn_addDependency hadd k d).mp hdep with hold | ⟨-, rfl⟩
    · exact hg.dependsOn_mem k d hold
    · exact hd
  · intro k d hdep
    rw [hkeys]
    rcases (mem_dependents_addDependency hadd k d).mp hdep with hold | ⟨-, rfl⟩
    · exact hg.dependents_mem k d hold
    · exact hn
  · intro k d
    rw [mem_dependsOn_addDependency hadd, mem_dependents_addDependency hadd, hg.mirror]
    exact or_congr Iff.rfl And.comm

def build (count : Nat) (nodes : List (Key × T)) (edges : List (Key × Key)) :
    Option (DependencyGraph Key T) :=
  edges.foldlM (fun g e => g.addDependency e.1 e.2)
    (nodes.foldl (fun g n => g.tryEmplace n.1 n.2) (new count))

theorem size_tryEmplace_le (g : DependencyGraph Key T) (key : Key) (value : T) :
    (g.tryEmplace key value).size ≤ g.size + 1 := by
  by_cases h : key ∈ g.nodes.keys
  · simp [tryEmplace, size, UnorderedMap.keys_tryEmplace_of_mem h]
  · simp [tryEmplace, size, UnorderedMap.size_tryEmplace_of_not_mem h]

theorem WellFormed.emplaceAll (hg : g.WellFormed) (nodes : List (Key × T))
    (room : g.size + nodes.length ≤ g.capacity) :
    (nodes.foldl (fun g n => g.tryEmplace n.1 n.2) g).WellFormed := by
  induction nodes generalizing g with
  | nil => exact hg
  | cons n nodes ih =>
    rw [length_cons] at room
    have hsize := size_tryEmplace_le g n.1 n.2
    apply ih (hg.tryEmplace n.2 (by omega))
    change (g.tryEmplace n.1 n.2).size + nodes.length ≤ g.capacity
    omega

theorem WellFormed.addDependencies (hg : g.WellFormed)
    (hadd : edges.foldlM (fun g e => g.addDependency e.1 e.2) g = some h) : h.WellFormed := by
  induction edges generalizing g with
  | nil =>
    cases hadd
    exact hg
  | cons e edges ih =>
    rw [foldlM_cons] at hadd
    obtain ⟨g₁, hone, hrest⟩ := Option.bind_eq_some_iff.mp hadd
    exact ih (hg.addDependency hone) hrest

theorem wellFormed_build
    (hc : count < 2 ^ 64) (hroom : nodes.length ≤ count) (h : build count nodes edges = some g) :
    g.WellFormed := by
  have hnew : (new count : DependencyGraph Key T).WellFormed := wellFormed_new hc
  have hzero : (new count : DependencyGraph Key T).size = 0 := rfl
  exact (hnew.emplaceAll nodes (by rw [hzero, Nat.zero_add]; exact hroom)).addDependencies h

theorem value?_tryEmplace (g : DependencyGraph Key T) (key : Key) (value : T) (k : Key) :
    (g.tryEmplace key value).value? k =
      (g.value? k).or (if k = key then some value else none) := by
  simp only [value?, tryEmplace, UnorderedMap.find?_tryEmplace]
  by_cases hk : k = key
  · subst k
    by_cases hmem : key ∈ g.nodes.keys
    · obtain ⟨n, hn⟩ := UnorderedMap.exists_of_mem hmem
      simp [hmem, hn]
    · simp [hmem, (g.nodes.find?_eq_none_iff key).mpr hmem]
  · simp [hk]

theorem value?_emplaceAll (nodes : List (Key × T)) (g : DependencyGraph Key T) (k : Key) :
    (nodes.foldl (fun g n => g.tryEmplace n.1 n.2) g).value? k =
      (g.value? k).or (UnorderedMap.lookup k nodes) := by
  induction nodes generalizing g with
  | nil => simp [UnorderedMap.lookup]
  | cons n nodes ih =>
    rw [foldl_cons, ih, value?_tryEmplace, Option.or_assoc, UnorderedMap.lookup]
    by_cases hk : n.1 = k
    · simp [hk]
    · simp [hk, Ne.symm hk]

theorem dependsOn_emplaceAll (nodes : List (Key × T)) (g : DependencyGraph Key T) (k : Key) :
    (nodes.foldl (fun g n => g.tryEmplace n.1 n.2) g).dependsOn k = g.dependsOn k := by
  induction nodes generalizing g with
  | nil => rfl
  | cons n nodes ih => rw [foldl_cons, ih, dependsOn_tryEmplace]

theorem mem_keys_iff_value? (g : DependencyGraph Key T) (k : Key) :
    k ∈ g.keys ↔ g.value? k ≠ none := by
  rw [value?, ne_eq, Option.map_eq_none_iff, UnorderedMap.find?_eq_none_iff, not_not]
  rfl

theorem value?_addDependency
    (hadd : g.addDependency node dependency = some h) (k : Key) : h.value? k = g.value? k := by
  unfold addDependency at hadd
  split at hadd
  · cases hadd
    simp only [value?, UnorderedMap.find?_modify]
    split <;> split <;> simp [Function.comp_def]
  · cases hadd

theorem exists_addDependencies (edges : List (Key × Key)) (g : DependencyGraph Key T)
    (hmem : ∀ e ∈ edges, e.1 ∈ g.keys ∧ e.2 ∈ g.keys) :
    ∃ h, edges.foldlM (fun g e => g.addDependency e.1 e.2) g = some h ∧
      ∀ k d, d ∈ h.dependsOn k ↔ d ∈ g.dependsOn k ∨ (k, d) ∈ edges := by
  induction edges generalizing g with
  | nil => exact ⟨g, rfl, by simp⟩
  | cons e edges ih =>
    obtain ⟨hnode, hdependency⟩ := hmem e mem_cons_self
    obtain ⟨g₁, hone⟩ : ∃ g₁, g.addDependency e.1 e.2 = some g₁ := by
      rw [addDependency, if_pos ⟨hnode, hdependency⟩]
      exact ⟨_, rfl⟩
    have hkeys := (addDependency_keys hone).2.2.1
    obtain ⟨h, hrest, hdeps⟩ := ih g₁ fun e' he' => by
      rw [hkeys]
      exact hmem e' (mem_cons_of_mem e he')
    refine ⟨h, ?_, fun k d => ?_⟩
    · rw [foldlM_cons, hone]
      exact hrest
    · rw [hdeps, mem_dependsOn_addDependency hone, mem_cons, or_assoc]
      exact or_congr_right (or_congr_left (by rw [Prod.ext_iff]))

theorem value?_addDependencies
    (hadd : edges.foldlM (fun g e => g.addDependency e.1 e.2) g = some h) (k : Key) :
    h.value? k = g.value? k := by
  induction edges generalizing g with
  | nil =>
    cases hadd
    rfl
  | cons e edges ih =>
    rw [foldlM_cons] at hadd
    obtain ⟨g₁, hone, hrest⟩ := Option.bind_eq_some_iff.mp hadd
    exact (ih hrest).trans (value?_addDependency hone k)

theorem value?_of_build (h : build count nodes edges = some g) (k : Key) :
    g.value? k = UnorderedMap.lookup k nodes := by
  rw [value?_addDependencies h, value?_emplaceAll]
  rfl

/-- `build` makes a graph if every dependency has nodes; then the dependencies are those listed. -/
theorem build_spec (count : Nat) (nodes : List (Key × T)) (edges : List (Key × Key))
    (hmem : ∀ e ∈ edges, e.1 ∈ nodes.map Prod.fst ∧ e.2 ∈ nodes.map Prod.fst) :
    ∃ g, build count nodes edges = some g ∧
      ∀ k d, d ∈ g.dependsOn k ↔ (k, d) ∈ edges := by
  have hkey : ∀ k ∈ nodes.map Prod.fst,
      k ∈ (nodes.foldl (fun g n => g.tryEmplace n.1 n.2) (new count)).keys := fun k hk => by
    rw [mem_keys_iff_value?, value?_emplaceAll, show (new count).value? k = none from rfl,
      Option.none_or, ne_eq, UnorderedMap.lookup_eq_none_iff, not_not]
    exact hk
  obtain ⟨g, hg, hdeps⟩ := exists_addDependencies edges _
    fun e he => ⟨hkey _ (hmem e he).1, hkey _ (hmem e he).2⟩
  refine ⟨g, hg, fun k d => ?_⟩
  rw [hdeps, dependsOn_emplaceAll,
    show (new count : DependencyGraph Key T).dependsOn k = [] from rfl]
  simp

theorem acyclic_of_rank (rank : Key → Nat)
    (h : ∀ a ∈ g.keys, ∀ b ∈ g.dependsOn a, rank b < rank a) : g.Acyclic := by
  have hedge : ∀ a b, b ∈ g.dependsOn a → rank b < rank a := by
    intro a b hab
    by_cases ha : a ∈ g.keys
    · exact h a ha b hab
    · rw [dependsOn_of_not_mem ha] at hab
      cases hab
  have hpath : ∀ a b, Relation.TransGen (fun a b => b ∈ g.dependsOn a) a b → rank b < rank a := by
    intro a b hab
    induction hab with
    | single hab => exact hedge _ _ hab
    | tail _ hbc ih => exact Nat.lt_trans (hedge _ _ hbc) ih
  exact fun k hk => Nat.lt_irrefl _ (hpath k k hk)

end Build

end DependencyGraph

end LaunchManager
