import LaunchManager.DependencyGraph

/-!
# Correctness of the traversal

The traversal visits exactly the nodes that `start` reaches, each once, and
never overflows its queue: the node being visited is not in the queue, so
`max count 2 - 1` slots are enough. Cycles do not matter here. The proof is about
the debug build, where a refused push ends the program; what returns there returns
the same in a release build.
-/

namespace LaunchManager.DependencyGraph

open List

set_option autoImplicit false

universe u v w
variable {Key : Type u} {T : Type v} [DecidableEq Key]
variable {g₀ g : DependencyGraph Key T} {start : Key} {vs : List Key}

/-! ### With debug assertions -/

/-- `none` as well where the assertion on the push fails. -/
def assertedVisitNeighbor (g : DependencyGraph Key T) (neighbor : Key) :
    Option (DependencyGraph Key T) :=
  if neighbor ∈ g.keys then
    if g.visited neighbor then some g
    else if (g.traversalQueue.push neighbor).1 then
      some ((g.pushTraversal neighbor).setVisited neighbor)
    else none
  else none

def assertedLoop {σ : Type w} (perNode : Key → σ → σ × List Key) :
    Nat → DependencyGraph Key T → σ → Option (DependencyGraph Key T × σ)
  | fuel, g, s =>
    if g.traversalQueue.empty then some (g, s)
    else match fuel with
      | 0 => none
      | fuel + 1 => match g.traversalQueue.tryPop with
        | (none, _) => none
        | (some current, rest) =>
          let (s', neighbors) := perNode current s
          (neighbors.foldlM assertedVisitNeighbor { g with traversalQueue := rest }).bind fun g' =>
            assertedLoop perNode fuel g' s'

def assertedTraverse {σ : Type w} (g : DependencyGraph Key T) (start : Key)
    (perNode : Key → σ → σ × List Key) (s : σ) : Option (DependencyGraph Key T × σ) :=
  if start ∈ g.keys ∧ (g.resetVisited.traversalQueue.push start).1 then
    assertedLoop perNode (g.size + g.traversalQueue.size + 1)
      ((g.resetVisited.pushTraversal start).setVisited start) s
  else none

variable {g' : DependencyGraph Key T} {n k : Key} {σ : Type w}

theorem visitNeighbor_of_asserted
    (h : g.assertedVisitNeighbor n = some g') : g.visitNeighbor n = some g' := by
  unfold assertedVisitNeighbor at h
  unfold visitNeighbor
  split at h
  · next hn =>
    rw [if_pos hn]
    split at h
    · next hv => rwa [if_pos hv]
    · next hv =>
      rw [if_neg hv]
      exact (Option.ite_none_right_eq_some.mp h).2
  · cases h

theorem visitNeighbors_of_asserted {ns : List Key}
    (h : ns.foldlM assertedVisitNeighbor g = some g') : ns.foldlM visitNeighbor g = some g' := by
  induction ns generalizing g with
  | nil => exact h
  | cons n ns ih =>
    rw [foldlM_cons] at h
    obtain ⟨g₁, hstep, hrest⟩ := Option.bind_eq_some_iff.mp h
    rw [foldlM_cons, visitNeighbor_of_asserted hstep]
    exact ih hrest

theorem traverseLoop_of_asserted {perNode : Key → σ → σ × List Key} {fuel : Nat}
    {s : σ} {r : DependencyGraph Key T × σ} (h : assertedLoop perNode fuel g s = some r) :
    traverseLoop perNode fuel g s = some r := by
  induction fuel generalizing g s with
  | zero =>
    rw [assertedLoop] at h
    rw [traverseLoop]
    exact h
  | succ fuel ih =>
    rw [assertedLoop] at h
    rw [traverseLoop]
    split at h
    · next he => rwa [if_pos he]
    · next he =>
      rw [if_neg he]
      generalize g.traversalQueue.tryPop = popped at h ⊢
      obtain ⟨_ | current, rest⟩ := popped
      · cases h
      · obtain ⟨g', hfold, hloop⟩ := Option.bind_eq_some_iff.mp h
        simp only [visitNeighbors_of_asserted hfold]
        exact ih hloop

/-- The assertions change nothing but whether the program goes on. -/
theorem traverse_of_asserted {perNode : Key → σ → σ × List Key}
    {s : σ} {r : DependencyGraph Key T × σ} (h : g.assertedTraverse start perNode s = some r) :
    g.traverse start perNode s = some r := by
  obtain ⟨⟨hs, -⟩, hloop⟩ := Option.ite_none_right_eq_some.mp h
  rw [traverse, if_pos hs]
  exact traverseLoop_of_asserted hloop

/-! ### What is visited -/

theorem visited_setVisited (hk : k ∈ g.keys) (j : Key) :
    (g.setVisited k).visited j = (decide (j = k) || g.visited j) := by
  simp only [visited, setVisited, UnorderedMap.find?_modify]
  by_cases hj : j = k
  · subst j
    obtain ⟨n, hn⟩ := UnorderedMap.exists_of_mem hk
    simp [hn]
  · simp [hj]

theorem visited_resetVisited (j : Key) : g.resetVisited.visited j = false := by
  simp only [visited, find?_resetVisited, Option.map_map]
  cases g.nodes.find? j <;> rfl

/-- The loop invariant apart from closure: `vs` are the nodes visited so far, the queue holds
the flagged nodes still to be visited. -/
structure Exploring (g₀ : DependencyGraph Key T) (start : Key)
    (g : DependencyGraph Key T) (vs : List Key) : Prop where
  shape : SameShape g₀ g
  flagged : ∀ k, g.visited k = true ↔ k ∈ vs ++ g.traversalQueue.toList
  distinct : (vs ++ g.traversalQueue.toList).Nodup
  reached : ∀ k ∈ vs ++ g.traversalQueue.toList, g₀.Reaches start k
  source : start ∈ g₀.keys
  started : start ∈ vs ++ g.traversalQueue.toList

theorem mem_keys_of_reaches (hg : g₀.WellFormed) (hs : start ∈ g₀.keys)
    (h : g₀.Reaches start k) : k ∈ g₀.keys := by
  induction h with
  | refl => exact hs
  | tail _ hd _ => exact hg.dependsOn_mem _ _ hd

theorem Exploring.length_le (hg : g₀.WellFormed) (h : Exploring g₀ start g vs) :
    vs.length + g.traversalQueue.toList.length ≤ g₀.size := by
  have hsub := (h.distinct.subperm fun k hk =>
    mem_keys_of_reaches hg h.source (h.reached k hk)).length_le
  rwa [length_append, keys, UnorderedMap.keys_length] at hsub

/-- One neighbour: the push succeeds because a visited node and the neighbour itself
are both outside the queue. -/
theorem Exploring.visitNeighbor (hg : g₀.WellFormed) (h : Exploring g₀ start g vs) (hvs : vs ≠ [])
    (hr : g₀.Reaches start n) :
    ∃ g', g.assertedVisitNeighbor n = some g' ∧ Exploring g₀ start g' vs ∧
      (∃ more, g'.traversalQueue.toList = g.traversalQueue.toList ++ more) ∧
      n ∈ vs ++ g'.traversalQueue.toList := by
  have hng : n ∈ g.keys := h.shape.keys_eq ▸ mem_keys_of_reaches hg h.source hr
  unfold assertedVisitNeighbor
  rw [if_pos hng]
  by_cases hv : g.visited n = true
  · rw [if_pos hv]
    exact ⟨g, rfl, h, ⟨[], by simp⟩, (h.flagged n).mp hv⟩
  rw [if_neg hv]
  have hnew : n ∉ vs ++ g.traversalQueue.toList := fun hm => hv ((h.flagged n).mpr hm)
  have hdistinct : (vs ++ (g.traversalQueue.toList ++ [n])).Nodup := by
    rw [← append_assoc, nodup_append]
    refine ⟨h.distinct, by simp, ?_⟩
    intro a ha b hb hab
    rw [mem_singleton] at hb
    exact hnew (hb ▸ hab ▸ ha)
  have hmem : ∀ k, k ∈ vs ++ (g.traversalQueue.toList ++ [n]) ↔
      k = n ∨ k ∈ vs ++ g.traversalQueue.toList := by
    intro k
    simp only [mem_append, mem_singleton]
    tauto
  have hreached : ∀ k ∈ vs ++ (g.traversalQueue.toList ++ [n]), g₀.Reaches start k := by
    intro k hk
    rcases (hmem k).mp hk with rfl | hk
    · exact hr
    · exact h.reached k hk
  have hroom : g.traversalQueue.toList.length < g.traversalQueue.capacity := by
    have hsub := (hdistinct.subperm fun k hk =>
      mem_keys_of_reaches hg h.source (hreached k hk)).length_le
    simp only [length_append, length_singleton, keys, UnorderedMap.keys_length] at hsub
    have hpos := length_pos_iff.mpr hvs
    have hsize := hg.size_le
    unfold size at hsize
    rw [← h.shape.2.2, hg.queue_capacity]
    omega
  have hqueue : ((g.pushTraversal n).setVisited n).traversalQueue.toList =
      g.traversalQueue.toList ++ [n] := FixedSizeQueue.toList_push hroom n
  rw [if_pos (FixedSizeQueue.push_accepted hroom n)]
  refine ⟨_, rfl, ⟨?_, fun k => ?_, hqueue ▸ hdistinct, hqueue ▸ hreached, h.source, ?_⟩,
    ⟨[n], hqueue⟩, ?_⟩
  · exact (h.shape.trans (sameShape_pushTraversal g n)).trans (sameShape_setVisited _ n)
  · rw [hqueue, hmem, visited_setVisited (by exact hng)]
    simp only [Bool.or_eq_true, decide_eq_true_eq]
    exact or_congr Iff.rfl (h.flagged k)
  · rw [hqueue, hmem]
    exact .inr h.started
  · rw [hqueue, hmem]
    exact .inl rfl

theorem Exploring.visitNeighbors (hg : g₀.WellFormed) (h : Exploring g₀ start g vs) (hvs : vs ≠ [])
    (ns : List Key) (hr : ∀ n ∈ ns, g₀.Reaches start n) :
    ∃ g', ns.foldlM assertedVisitNeighbor g = some g' ∧ Exploring g₀ start g' vs ∧
      (∃ more, g'.traversalQueue.toList = g.traversalQueue.toList ++ more) ∧
      ∀ n ∈ ns, n ∈ vs ++ g'.traversalQueue.toList := by
  induction ns generalizing g with
  | nil => exact ⟨g, rfl, h, ⟨[], by simp⟩, by simp⟩
  | cons n ns ih =>
    obtain ⟨g₁, hstep, h₁, ⟨more₁, hmore₁⟩, hn⟩ := h.visitNeighbor hg hvs (hr n mem_cons_self)
    obtain ⟨g₂, hrest, h₂, ⟨more₂, hmore₂⟩, hall⟩ :=
      ih h₁ fun m hm => hr m (mem_cons_of_mem n hm)
    refine ⟨g₂, ?_, h₂, ⟨more₁ ++ more₂, ?_⟩, ?_⟩
    · rw [foldlM_cons, hstep]
      exact hrest
    · rw [hmore₂, hmore₁, append_assoc]
    · intro m hm
      rcases mem_cons.mp hm with rfl | hm
      · rw [hmore₂, ← append_assoc]
        exact mem_append_left _ hn
      · exact hall m hm

theorem Exploring.complete (h : Exploring g₀ start g vs) (hq : g.traversalQueue.toList = [])
    (hclosed : ∀ k ∈ vs, ∀ d ∈ g₀.dependsOn k, d ∈ vs ++ g.traversalQueue.toList) (k : Key) :
    k ∈ vs ↔ g₀.Reaches start k := by
  constructor
  · intro hk
    exact h.reached k (mem_append_left _ hk)
  · intro hk
    induction hk with
    | refl => simpa [hq] using h.started
    | tail _ hd ih => simpa [hq] using hclosed _ ih _ hd

section Visitor
variable {perNode : Key → σ → σ × List Key}

theorem assertedLoop_spec (hg : g₀.WellFormed) (follows : ∀ k s, (perNode k s).2 = g₀.dependsOn k) :
    ∀ fuel (g : DependencyGraph Key T) (vs : List Key) (s : σ), Exploring g₀ start g vs →
      (∀ k ∈ vs, ∀ d ∈ g₀.dependsOn k, d ∈ vs ++ g.traversalQueue.toList) →
      g₀.size ≤ fuel + vs.length →
      ∃ g' ws, assertedLoop perNode fuel g s =
          some (g', ws.foldl (fun s k => (perNode k s).1) s) ∧
        SameShape g₀ g' ∧ g'.traversalQueue.toList = [] ∧ (vs ++ ws).Nodup ∧
        ∀ k, k ∈ vs ++ ws ↔ g₀.Reaches start k := by
  intro fuel
  induction fuel with
  | zero =>
    intro g vs s h hclosed hfuel
    have hlen := h.length_le hg
    have hq : g.traversalQueue.toList = [] := length_eq_zero_iff.mp (by omega)
    refine ⟨g, [], ?_, h.shape, hq, ?_, ?_⟩
    · rw [assertedLoop, if_pos ((FixedSizeQueue.empty_iff _).mpr hq)]
      rfl
    · simpa [hq] using h.distinct
    · simpa using h.complete hq hclosed
  | succ fuel ih =>
    intro g vs s h hclosed hfuel
    cases hq : g.traversalQueue.toList with
    | nil =>
      refine ⟨g, [], ?_, h.shape, hq, ?_, ?_⟩
      · rw [assertedLoop, if_pos ((FixedSizeQueue.empty_iff _).mpr hq)]
        rfl
      · simpa [hq] using h.distinct
      · simpa using h.complete hq hclosed
    | cons current rest =>
      obtain ⟨hpop, hrest⟩ := FixedSizeQueue.tryPop_cons hq
      have hne : g.traversalQueue.empty ≠ true := by
        intro he
        rw [FixedSizeQueue.empty_iff, hq] at he
        cases he
      have hperm : ∀ k, k ∈ (vs ++ [current]) ++ rest ↔ k ∈ vs ++ g.traversalQueue.toList := by
        intro k
        rw [hq, append_assoc, singleton_append]
      -- The popped node moves from the queue to the visited nodes.
      have hmoved : Exploring g₀ start { g with traversalQueue := g.traversalQueue.tryPop.2 }
          (vs ++ [current]) := by
        constructor
        · exact h.shape.trans (sameShape_queue g (by simp))
        · intro k
          rw [hrest, hperm]
          exact h.flagged k
        · rw [hrest, append_assoc, singleton_append, ← hq]
          exact h.distinct
        · intro k hk
          rw [hrest, hperm] at hk
          exact h.reached k hk
        · exact h.source
        · rw [hrest, hperm]
          exact h.started
      have hcurrent : g₀.Reaches start current := h.reached current (by simp [hq])
      obtain ⟨g₁, hfold, h₁, ⟨more, hmore⟩, hnew⟩ := hmoved.visitNeighbors hg (by simp)
        (g₀.dependsOn current) (fun n hn => hcurrent.tail hn)
      have hclosed₁ : ∀ k ∈ vs ++ [current], ∀ d ∈ g₀.dependsOn k,
          d ∈ (vs ++ [current]) ++ g₁.traversalQueue.toList := by
        intro k hk d hd
        rcases mem_append.mp hk with hk | hk
        · have hold := hclosed k hk d hd
          rw [← hperm] at hold
          rw [hmore]
          simp only [hrest, ← append_assoc]
          exact mem_append_left _ hold
        · rw [mem_singleton] at hk
          exact hnew d (hk ▸ hd)
      obtain ⟨g', ws, hloop, hshape, hidle, hdistinct, hall⟩ :=
        ih g₁ (vs ++ [current]) (perNode current s).1 h₁ hclosed₁ (by simp; omega)
      refine ⟨g', current :: ws, ?_, hshape, hidle, ?_, ?_⟩
      · rw [assertedLoop, if_neg hne]
        have hsplit : g.traversalQueue.tryPop = (some current, g.traversalQueue.tryPop.2) :=
          Prod.ext hpop rfl
        rw [hsplit]
        simp only [follows, foldl_cons]
        rw [hfold]
        exact hloop
      · simpa using hdistinct
      · simpa using hall

/-- The traversal visits every node that `start` reaches exactly once, and no assertion fails. -/
theorem assertedTraverse_spec (perNode : Key → σ → σ × List Key) (hg : g₀.WellFormed)
    (hs : start ∈ g₀.keys) (follows : ∀ k s, (perNode k s).2 = g₀.dependsOn k) (s : σ) :
    ∃ (g' : DependencyGraph Key T) (ws : List Key), g₀.assertedTraverse start perNode s =
        some (g', ws.foldl (fun s k => (perNode k s).1) s) ∧
      SameShape g₀ g' ∧ g'.traversalQueue.toList = [] ∧ ws.Nodup ∧
      ∀ k, k ∈ ws ↔ g₀.Reaches start k := by
  have hroom : g₀.resetVisited.traversalQueue.toList.length <
      g₀.resetVisited.traversalQueue.capacity := by
    change g₀.traversalQueue.toList.length < g₀.traversalQueue.capacity
    rw [hg.queue_idle, hg.queue_capacity]
    simp only [length_nil]
    omega
  have hqueue : ((g₀.resetVisited.pushTraversal start).setVisited start).traversalQueue.toList =
      [start] := by
    have hpush := FixedSizeQueue.toList_push hroom start
    change ((g₀.resetVisited.traversalQueue.push start).2).toList = [start]
    rw [hpush]
    change g₀.traversalQueue.toList ++ [start] = [start]
    rw [hg.queue_idle, nil_append]
  have hinit : Exploring g₀ start ((g₀.resetVisited.pushTraversal start).setVisited start) [] := by
    constructor
    · exact ((sameShape_resetVisited g₀).trans (sameShape_pushTraversal _ start)).trans
        (sameShape_setVisited _ start)
    · intro k
      have hk : start ∈ (g₀.resetVisited.pushTraversal start).keys := by
        change start ∈ g₀.resetVisited.keys
        rwa [keys_resetVisited]
      have hclear : (g₀.resetVisited.pushTraversal start).visited k = false :=
        visited_resetVisited k
      rw [hqueue, visited_setVisited hk, hclear]
      simp
    · simp [hqueue]
    · intro k hk
      rw [hqueue, nil_append, mem_singleton] at hk
      subst k
      exact Relation.ReflTransGen.refl
    · exact hs
    · simp [hqueue]
  obtain ⟨g', ws, hloop, hshape, hidle, hdistinct, hall⟩ :=
    assertedLoop_spec hg follows (g₀.size + g₀.traversalQueue.size + 1) _ [] s hinit
      (by simp) (by simp; omega)
  refine ⟨g', ws, ?_, hshape, hidle, by simpa using hdistinct, by simpa using hall⟩
  rw [assertedTraverse, if_pos ⟨hs, FixedSizeQueue.push_accepted hroom start⟩]
  exact hloop

theorem traverse_spec (perNode : Key → σ → σ × List Key) (hg : g₀.WellFormed) (hs : start ∈ g₀.keys)
    (follows : ∀ k s, (perNode k s).2 = g₀.dependsOn k) (s : σ) :
    ∃ (g' : DependencyGraph Key T) (ws : List Key), g₀.traverse start perNode s =
        some (g', ws.foldl (fun s k => (perNode k s).1) s) ∧
      SameShape g₀ g' ∧ g'.traversalQueue.toList = [] ∧ ws.Nodup ∧
      ∀ k, k ∈ ws ↔ g₀.Reaches start k := by
  obtain ⟨g', ws, hrun, hrest⟩ := assertedTraverse_spec perNode hg hs follows s
  exact ⟨g', ws, traverse_of_asserted hrun, hrest⟩

end Visitor

def subgraph (g : DependencyGraph Key T) (start : Key) : List Key :=
  ((g.traverse start (fun k seen => (k :: seen, g.dependsOn k)) []).map Prod.snd).getD []

theorem mem_subgraph (hg : g₀.WellFormed) (hs : start ∈ g₀.keys) (k : Key) :
    k ∈ g₀.subgraph start ↔ g₀.Reaches start k := by
  obtain ⟨g', ws, heq, _, _, _, hws⟩ := traverse_spec
    (fun k seen => (k :: seen, g₀.dependsOn k)) hg hs (fun _ _ => rfl) []
  have hfold : ∀ ws seen : List Key, ws.foldl (fun s k => k :: s) seen = ws.reverse ++ seen := by
    intro ws
    induction ws with
    | nil => simp
    | cons w ws ih => simp [ih]
  rw [subgraph, heq]
  simp [hfold, hws]

/-! ### One traversal after another -/

variable {h : DependencyGraph Key T}

omit [DecidableEq Key] in
theorem SameShape.size_eq (hgh : SameShape g h) : g.size = h.size := by
  have hkeys := congrArg List.length hgh.keys_eq
  rwa [keys, keys, UnorderedMap.keys_length, UnorderedMap.keys_length] at hkeys

theorem sameShape_visitNeighbor (hstep : g.visitNeighbor n = some h) : SameShape g h := by
  obtain ⟨-, hstep⟩ := Option.ite_none_right_eq_some.mp hstep
  split at hstep
  · cases hstep
    exact SameShape.refl _
  · cases hstep
    exact (sameShape_pushTraversal g n).trans (sameShape_setVisited _ n)

theorem sameShape_visitNeighbors {ns : List Key}
    (hsteps : ns.foldlM visitNeighbor g = some h) : SameShape g h := by
  induction ns generalizing g with
  | nil =>
    cases hsteps
    exact SameShape.refl _
  | cons n ns ih =>
    rw [foldlM_cons] at hsteps
    obtain ⟨g₁, hstep, hrest⟩ := Option.bind_eq_some_iff.mp hsteps
    exact (sameShape_visitNeighbor hstep).trans (ih hrest)

theorem sameShape_traverseLoop {perNode : Key → σ → σ × List Key} {fuel : Nat}
    {s t : σ} (hrun : traverseLoop perNode fuel g s = some (h, t)) : SameShape g h := by
  induction fuel generalizing g s with
  | zero =>
    rw [traverseLoop] at hrun
    split at hrun
    · cases hrun
      exact SameShape.refl _
    · cases hrun
  | succ fuel ih =>
    rw [traverseLoop] at hrun
    split at hrun
    · cases hrun
      exact SameShape.refl _
    · split at hrun
      · cases hrun
      · next current rest hpop =>
        obtain ⟨g₁, hvisits, hrest⟩ := Option.bind_eq_some_iff.mp hrun
        have hcapacity : g.traversalQueue.capacity = rest.capacity := by
          have := FixedSizeQueue.capacity_tryPop g.traversalQueue
          rw [hpop] at this
          exact this.symm
        exact ((sameShape_queue g hcapacity).trans (sameShape_visitNeighbors hvisits)).trans
          (ih hrest)

/-- No traversal changes a node or an edge, whatever its visitor returns. -/
theorem sameShape_traverse {perNode : Key → σ → σ × List Key} {s t : σ}
    (hrun : g.traverse start perNode s = some (h, t)) : start ∈ g.keys ∧ SameShape g h := by
  obtain ⟨hs, hloop⟩ := Option.ite_none_right_eq_some.mp hrun
  exact ⟨hs, (((sameShape_resetVisited g).trans (sameShape_pushTraversal _ start)).trans
    (sameShape_setVisited _ start)).trans (sameShape_traverseLoop hloop)⟩

/-- Two graphs that a traversal cannot tell apart: where the entries of the queue stand in its
ring does not matter. -/
structure Alike (g h : DependencyGraph Key T) : Prop where
  shape : SameShape g h
  flags : ∀ k, g.visited k = h.visited k
  queued : g.traversalQueue.toList = h.traversalQueue.toList

section Alike

theorem Alike.setQueue (hgh : Alike g h) {q r : FixedSizeQueue Key}
    (hq : q.capacity = g.traversalQueue.capacity) (hr : r.capacity = h.traversalQueue.capacity)
    (hqr : q.toList = r.toList) :
    Alike { g with traversalQueue := q } { h with traversalQueue := r } where
  shape := ⟨hgh.shape.1, hgh.shape.2.1, (hq.trans hgh.shape.2.2).trans hr.symm⟩
  flags := hgh.flags
  queued := hqr

theorem Alike.pushTraversal (hgh : Alike g h) (k : Key) :
    Alike (g.pushTraversal k) (h.pushTraversal k) := by
  refine hgh.setQueue (FixedSizeQueue.capacity_push _ k) (FixedSizeQueue.capacity_push _ k) ?_
  have hcapacity := hgh.shape.2.2
  by_cases hroom : g.traversalQueue.toList.length < g.traversalQueue.capacity
  · rw [FixedSizeQueue.toList_push hroom, FixedSizeQueue.toList_push (by
      rwa [← hgh.queued, ← hcapacity]), hgh.queued]
  · have hfull := Nat.le_of_not_lt hroom
    rw [FixedSizeQueue.push_refused hfull, FixedSizeQueue.push_refused (by
      rwa [← hgh.queued, ← hcapacity])]
    exact hgh.queued

theorem Alike.setVisited (hgh : Alike g h) {k : Key} (hk : k ∈ g.keys) :
    Alike (g.setVisited k) (h.setVisited k) where
  shape := ((sameShape_setVisited g k).symm.trans hgh.shape).trans (sameShape_setVisited h k)
  flags j := by
    rw [visited_setVisited hk, visited_setVisited (hgh.shape.keys_eq ▸ hk), hgh.flags]
  queued := hgh.queued

theorem Alike.visitNeighbor (hgh : Alike g h) (n : Key) :
    Option.Rel Alike (g.visitNeighbor n) (h.visitNeighbor n) := by
  unfold DependencyGraph.visitNeighbor
  rw [← hgh.shape.keys_eq, ← hgh.flags]
  split
  · next hn =>
    split
    · exact .some hgh
    · exact .some ((hgh.pushTraversal n).setVisited hn)
  · exact .none

theorem Alike.visitNeighbors (hgh : Alike g h) (ns : List Key) :
    Option.Rel Alike (ns.foldlM DependencyGraph.visitNeighbor g)
      (ns.foldlM DependencyGraph.visitNeighbor h) := by
  induction ns generalizing g h with
  | nil => exact .some hgh
  | cons n ns ih =>
    have hstep := hgh.visitNeighbor n
    rw [foldlM_cons, foldlM_cons]
    generalize g.visitNeighbor n = x at hstep ⊢
    generalize h.visitNeighbor n = y at hstep ⊢
    cases hstep with
    | none => exact .none
    | some hgh' => exact ih hgh'

theorem Alike.empty_eq (hgh : Alike g h) : g.traversalQueue.empty = h.traversalQueue.empty := by
  rw [Bool.eq_iff_iff, FixedSizeQueue.empty_iff, FixedSizeQueue.empty_iff, hgh.queued]

theorem Alike.traverseLoop {σ : Type w} (perNode : Key → σ → σ × List Key) (fuel : Nat) (s : σ)
    (hgh : Alike g h) : (DependencyGraph.traverseLoop perNode fuel g s).map Prod.snd =
      (DependencyGraph.traverseLoop perNode fuel h s).map Prod.snd := by
  induction fuel generalizing g h s with
  | zero =>
    rw [DependencyGraph.traverseLoop, DependencyGraph.traverseLoop, hgh.empty_eq]
    split <;> rfl
  | succ fuel ih =>
    rw [DependencyGraph.traverseLoop, DependencyGraph.traverseLoop, hgh.empty_eq]
    split
    · rfl
    · next hne =>
      cases hq : h.traversalQueue.toList with
      | nil => exact absurd ((FixedSizeQueue.empty_iff _).mpr hq) hne
      | cons current rest =>
        obtain ⟨hpop, hrest⟩ := FixedSizeQueue.tryPop_cons hq
        obtain ⟨hpop', hrest'⟩ := FixedSizeQueue.tryPop_cons (hgh.queued.trans hq)
        rw [← Prod.eta g.traversalQueue.tryPop, ← Prod.eta h.traversalQueue.tryPop, hpop, hpop']
        have hstep := (hgh.setQueue (FixedSizeQueue.capacity_tryPop _)
          (FixedSizeQueue.capacity_tryPop _) (hrest'.trans hrest.symm)).visitNeighbors
          (perNode current s).2
        simp only
        generalize List.foldlM DependencyGraph.visitNeighbor
          { g with traversalQueue := g.traversalQueue.tryPop.2 } (perNode current s).2 = x
          at hstep ⊢
        generalize List.foldlM DependencyGraph.visitNeighbor
          { h with traversalQueue := h.traversalQueue.tryPop.2 } (perNode current s).2 = y
          at hstep ⊢
        cases hstep with
        | none => rfl
        | some hgh' => exact ih _ hgh'

theorem SameShape.traverse_eq {σ : Type w} (hgh : SameShape g h)
    (hqueued : g.traversalQueue.toList = h.traversalQueue.toList) (start : Key)
    (perNode : Key → σ → σ × List Key) (s : σ) :
    (g.traverse start perNode s).map Prod.snd = (h.traverse start perNode s).map Prod.snd := by
  have hcleared : Alike g.resetVisited h.resetVisited :=
    ⟨((sameShape_resetVisited g).symm.trans hgh).trans (sameShape_resetVisited h),
      fun k => by rw [visited_resetVisited, visited_resetVisited], hqueued⟩
  have hfuel : g.traversalQueue.size = h.traversalQueue.size := by
    have hlength := congrArg List.length hqueued
    rwa [FixedSizeQueue.toList_length, FixedSizeQueue.toList_length] at hlength
  unfold traverse
  rw [← hgh.keys_eq, hgh.size_eq, hfuel]
  split
  · next hs =>
    have hs' : start ∈ (g.resetVisited.pushTraversal start).keys := by
      change start ∈ g.resetVisited.keys
      rwa [keys_resetVisited]
    exact Alike.traverseLoop perNode _ s ((hcleared.pushTraversal start).setVisited hs')
  · rfl

end Alike

/-- A graph for `count` nodes in use: nodes and edges are added in any order, also between
traversals. -/
inductive Constructed (count : Nat) : DependencyGraph Key T → Prop
  | new : Constructed count (new count)
  | tryEmplace {g : DependencyGraph Key T} (key : Key) (value : T) (hg : Constructed count g) :
      Constructed count (g.tryEmplace key value)
  | addDependency {g h : DependencyGraph Key T} {node dependency : Key} (hg : Constructed count g)
      (hadd : g.addDependency node dependency = some h) : Constructed count h
  | traverse {g h : DependencyGraph Key T} {start : Key} {σ : Type}
      {perNode : Key → σ → σ × List Key} {s t : σ} (hg : Constructed count g)
      (hfollows : ∀ k s, (perNode k s).2 = g.dependsOn k)
      (hrun : g.traverse start perNode s = some (h, t)) : Constructed count h

theorem Constructed.wellFormed {count : Nat} (hc : count < 2 ^ 64) (hg : Constructed count g)
    (hsize : g.size ≤ count) : g.WellFormed ∧ g.capacity = count := by
  induction hg with
  | new => exact ⟨wellFormed_new hc, rfl⟩
  | @tryEmplace g key value _ ih =>
    by_cases hmem : key ∈ g.nodes.keys
    · have hsame : g.tryEmplace key value = g := by
        rw [DependencyGraph.tryEmplace, UnorderedMap.keys_tryEmplace_of_mem hmem]
      rw [hsame] at hsize ⊢
      exact ih hsize
    · have hgrown : (g.tryEmplace key value).size = g.size + 1 :=
        UnorderedMap.size_tryEmplace_of_not_mem hmem _
      obtain ⟨hwf, hcapacity⟩ := ih (by omega)
      exact ⟨hwf.tryEmplace value (by omega), hcapacity⟩
  | addDependency _ hadd ih =>
    obtain ⟨-, -, -, hsame, hcapacity, -⟩ := addDependency_keys hadd
    obtain ⟨hwf, hcapacity'⟩ := ih (by omega)
    exact ⟨hwf.addDependency hadd, hcapacity.trans hcapacity'⟩
  | @traverse g h start σ perNode s t _ hfollows hrun ih =>
    obtain ⟨hs, hshape⟩ := sameShape_traverse hrun
    obtain ⟨hwf, hcapacity⟩ := ih (hshape.size_eq ▸ hsize)
    obtain ⟨g', ws, hrun', -, hidle, -⟩ := traverse_spec perNode hwf hs hfollows s
    rw [hrun] at hrun'
    cases hrun'
    exact ⟨hshape.wellFormed hwf hidle, hshape.2.1.symm.trans hcapacity⟩

theorem constructed_of_build {count : Nat} {nodes : List (Key × T)} {edges : List (Key × Key)}
    (hbuild : build count nodes edges = some g) : Constructed count g := by
  have hnodes : ∀ h : DependencyGraph Key T, Constructed count h →
      Constructed count (nodes.foldl (fun g n => g.tryEmplace n.1 n.2) h) := by
    clear hbuild
    induction nodes with
    | nil => exact fun _ hh => hh
    | cons n nodes ih => exact fun h hh => ih _ (Constructed.tryEmplace n.1 n.2 hh)
  have hedges : ∀ h : DependencyGraph Key T, Constructed count h →
      edges.foldlM (fun g e => g.addDependency e.1 e.2) h = some g → Constructed count g := by
    clear hbuild
    induction edges with
    | nil =>
      rintro h hh ⟨⟩
      exact hh
    | cons e edges ih =>
      intro h hh hadd
      rw [foldlM_cons] at hadd
      obtain ⟨h₁, hone, hrest⟩ := Option.bind_eq_some_iff.mp hadd
      exact ih h₁ (Constructed.addDependency hh hone) hrest
  exact hedges _ (hnodes _ .new) hbuild

/-- A traversal calls the visitor once for each node that `start` reaches, and can be repeated. -/
theorem traverse_visits_reachable_once {count : Nat} (hc : count < 2 ^ 64)
    (hg : Constructed count g) (hsize : g.size ≤ count) (hs : start ∈ g.keys) {σ : Type w}
    (perNode : Key → σ → σ × List Key) (follows : ∀ k s, (perNode k s).2 = g.dependsOn k)
    (s : σ) :
    g.traversalQueue.capacity = max count 2 - 1 ∧
    ∃ (g' : DependencyGraph Key T) (ws : List Key), g.assertedTraverse start perNode s =
        some (g', ws.foldl (fun s k => (perNode k s).1) s) ∧
      g.traverse start perNode s = some (g', ws.foldl (fun s k => (perNode k s).1) s) ∧
      ws.Nodup ∧ (∀ k, k ∈ ws ↔ g.Reaches start k) ∧ g'.traversalQueue.empty = true ∧
      ∀ (σ' : Type w) (next : Key) (perNode' : Key → σ' → σ' × List Key) (s' : σ'),
        (g'.traverse next perNode' s').map Prod.snd =
          (g.traverse next perNode' s').map Prod.snd := by
  obtain ⟨hwf, hcapacity⟩ := hg.wellFormed hc hsize
  refine ⟨hcapacity ▸ hwf.queue_capacity, ?_⟩
  obtain ⟨g', ws, hrun, hshape, hidle, hnodup, hvisited⟩ :=
    assertedTraverse_spec perNode hwf hs follows s
  refine ⟨g', ws, hrun, traverse_of_asserted hrun, hnodup, hvisited,
    (FixedSizeQueue.empty_iff _).mpr hidle, fun σ' next perNode' s' => ?_⟩
  exact (hshape.traverse_eq (hwf.queue_idle.trans hidle.symm) next perNode' s').symm

/-- Nodes 0 and 1 depend on each other and 0 on itself, one edge stands twice; 2 is not reached. -/
def cyclic : DependencyGraph Nat Unit :=
  (build 3 [(0, ()), (1, ()), (2, ())] [(0, 1), (0, 1), (1, 0), (0, 0)]).get rfl

theorem traverse_visits_reachable_once_cyclic :
    ∃ (g' : DependencyGraph Nat Unit) (ws : List Nat),
      cyclic.assertedTraverse 0 (fun k seen => (k :: seen, cyclic.dependsOn k)) [] =
        some (g', ws.foldl (fun seen k => k :: seen) []) ∧
      ws.Nodup ∧ ∀ k, k ∈ ws ↔ cyclic.Reaches 0 k := by
  have hbuilt : Constructed 3 cyclic := constructed_of_build (Option.some_get rfl).symm
  obtain ⟨-, g', ws, hrun, -, hnodup, hvisited, -⟩ := traverse_visits_reachable_once
    (by decide) hbuilt (by decide) (by decide : 0 ∈ cyclic.keys)
    (fun k seen => (k :: seen, cyclic.dependsOn k)) (fun _ _ => rfl) []
  exact ⟨g', ws, hrun, hnodup, hvisited⟩

end LaunchManager.DependencyGraph
