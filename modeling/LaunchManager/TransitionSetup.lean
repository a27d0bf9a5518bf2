import LaunchManager.Transition

/-!
# Setting up the two phases

Both set-up functions count the nodes of their phase and queue those that are
ready from the start. Here the results of the two are computed: which nodes are
counted, which are queued, and that no push is refused.
-/

namespace LaunchManager.Transition

open List

set_option autoImplicit false

universe u v
variable {Key : Type u} {T : Type v}

theorem popAll_spec (n : Nat) (q : FixedSizeQueue Key) (h : q.toList.length ≤ n) :
    (popAll n q).toList = [] ∧ (popAll n q).capacity = q.capacity := by
  induction n generalizing q with
  | zero => exact ⟨length_eq_zero_iff.mp (by simpa [popAll] using h), rfl⟩
  | succ n ih =>
    rw [popAll]
    split
    · rename_i he
      exact ⟨(FixedSizeQueue.empty_iff q).mp he, rfl⟩
    · cases hq : q.toList with
      | nil => simp_all [FixedSizeQueue.empty_iff]
      | cons x xs =>
        have hrest := (FixedSizeQueue.tryPop_cons hq).2
        have := ih q.tryPop.2 (by rw [hrest]; rw [hq, length_cons] at h; omega)
        simpa using this

theorem toList_clearNextNodes (t : Transition Key T) : t.clearNextNodes.nextNodes.toList = [] :=
  (popAll_spec _ _ (by simp [FixedSizeQueue.size])).1

theorem capacity_clearNextNodes (t : Transition Key T) :
    t.clearNextNodes.nextNodes.capacity = t.nextNodes.capacity :=
  (popAll_spec _ _ (by simp [FixedSizeQueue.size])).2

/-- The effect of counting the due nodes of a list and queueing the ready ones among them. -/
structure Counted (due ready : Key → Bool) (ks : List Key) (t t' : Transition Key T) : Prop where
  pending : t'.pending = t.pending + (ks.filter due).length
  queue : t'.nextNodes.toList = t.nextNodes.toList ++ ks.filter fun k => due k && ready k
  capacity : t'.nextNodes.capacity = t.nextNodes.capacity
  pushes : ∀ b ∈ t'.pushResults, b = true ∨ b ∈ t.pushResults
  root : t'.targetRoot = t.targetRoot
  phase : t'.phase = t.phase
  info : t'.nodeInformation = t.nodeInformation
  graph : t'.graph = t.graph

variable {t : Transition Key T} {g : DependencyGraph Key T}

theorem counted_countNode (due ready : Key → Bool) {k : Key}
    (hdue : due k = true) (hroom : t.nextNodes.toList.length < t.nextNodes.capacity)
    (hpend : t.pending + 1 < 2 ^ 64) : Counted due ready [k] t (t.countNode k (ready k)) := by
  have hmod : (t.pending + 1) % 2 ^ 64 = t.pending + 1 := Nat.mod_eq_of_lt hpend
  unfold countNode
  rw [hmod]
  by_cases hr : ready k = true
  · constructor <;> simp [hr, hdue, pushNext]
    · exact FixedSizeQueue.toList_push hroom k
    · rw [FixedSizeQueue.push_accepted hroom]
      exact .inl rfl
  · constructor <;> simp [hr, hdue]

theorem fold_counted (due ready : Key → Bool) (ks : List Key) (t : Transition Key T)
    (hroom : t.nextNodes.toList.length + ks.length ≤ t.nextNodes.capacity)
    (hpend : t.pending + ks.length < 2 ^ 64) : Counted due ready ks t
      (ks.foldl (fun t k => if due k then t.countNode k (ready k) else t) t) := by
  induction ks generalizing t with
  | nil => constructor <;> simp
  | cons k ks ih =>
    rw [length_cons] at hroom hpend
    rw [foldl_cons]
    by_cases hdue : due k = true
    · rw [if_pos hdue]
      have hone := counted_countNode due ready hdue (t := t) (by omega) (by omega)
      have hlen : (t.countNode k (ready k)).nextNodes.toList.length ≤
          t.nextNodes.toList.length + 1 := by
        rw [hone.queue, length_append]
        have := length_filter_le (fun k => due k && ready k) [k]
        rw [length_singleton] at this
        omega
      have hrest := ih (t.countNode k (ready k)) (by rw [hone.capacity]; omega)
        (by rw [hone.pending]; simp [hdue]; omega)
      refine ⟨?_, ?_, hrest.capacity.trans hone.capacity,
        fun b hb => (hrest.pushes b hb).elim Or.inl (hone.pushes b), hrest.root.trans hone.root,
        hrest.phase.trans hone.phase, hrest.info.trans hone.info, hrest.graph.trans hone.graph⟩
      · rw [hrest.pending, hone.pending]
        simp [hdue]
        omega
      · rw [hrest.queue, hone.queue, append_assoc, ← filter_append,
          singleton_append]
    · rw [if_neg hdue]
      have hrest := ih t (by omega) (by omega)
      exact { hrest with
        pending := by simp [hrest.pending, hdue]
        queue := by simp [hrest.queue, hdue] }

theorem nodeInformation_countNode (t : Transition Key T) (k : Key) (b : Bool) :
    (t.countNode k b).nodeInformation = t.nodeInformation := by
  unfold countNode
  split <;> rfl

theorem graph_countNode (t : Transition Key T) (k : Key) (b : Bool) :
    (t.countNode k b).graph = t.graph := by
  unfold countNode
  split <;> rfl

variable [DecidableEq Key]

/-- What holds of the object from the end of the first traversal on: the marks of the target
subgraph are exact and no push has been refused. -/
structure Informed (g : DependencyGraph Key T) (target : Key) (t : Transition Key T) : Prop where
  shape : DependencyGraph.SameShape g t.graph
  idle : t.graph.traversalQueue.toList = []
  root : t.targetRoot = target
  capacity : t.nextNodes.capacity = g.capacity
  known : ∀ k, k ∈ t.nodeInformation.keys ↔ k ∈ g.keys
  marked : ∀ k ∈ g.keys, ((t.info k).inTargetSubgraph = true ↔ g.Reaches target k)
  pushed : ∀ b ∈ t.pushResults, b = true

section Informed
variable {target : Key} {u : Transition Key T}

theorem Informed.recount (h : Informed g target t) (pending : Nat) (phase : Phase) :
    Informed g target { t with pending := pending, phase := phase } := { h with }

theorem Informed.traversed (h : Informed g target t) {g' : DependencyGraph Key T}
    (hshape : DependencyGraph.SameShape t.graph g') (hidle : g'.traversalQueue.toList = []) :
    Informed g target { t with graph := g' } :=
  { h with shape := h.shape.trans hshape, idle := hidle }

theorem Informed.counted {due ready : Key → Bool} {ks : List Key} (h : Informed g target t)
    (hcount : Counted due ready ks t u) : Informed g target u where
  shape := hcount.graph ▸ h.shape
  idle := hcount.graph ▸ h.idle
  root := hcount.root.trans h.root
  capacity := hcount.capacity.trans h.capacity
  known := hcount.info ▸ h.known
  marked k hk := by
    rw [info, hcount.info]
    exact h.marked k hk
  pushed b hb := (hcount.pushes b hb).elim id (h.pushed b)

theorem Informed.wellFormed (h : Informed g target t) (hg : g.WellFormed) : t.WellFormed where
  graph := h.shape.wellFormed hg h.idle
  known k hk := h.shape.keys_eq ▸ (h.known k).mp hk
  queue_capacity := h.capacity.trans h.shape.2.1

end Informed

theorem wellFormed_new [Inhabited Key] (hg : g.WellFormed) : (new g).WellFormed where
  graph := hg
  known := by simp [new, UnorderedMap.keys, UnorderedMap.empty]
  queue_capacity := FixedSizeQueue.capacity_new g.capacity

section Shape

variable {h : DependencyGraph Key T}

theorem allDepsActive_congr (hgh : DependencyGraph.SameShape g h)
    (active : Key → Bool) (k : Key) : allDepsActive active h k = allDepsActive active g k := by
  rw [allDepsActive, allDepsActive, hgh.dependsOn_eq]

theorem allDependentsStopped_congr
    (hgh : DependencyGraph.SameShape g h) (active : Key → Bool) (k : Key) :
    allDependentsStopped active h k = allDependentsStopped active g k := by
  rw [allDependentsStopped, allDependentsStopped, hgh.dependents_eq]

theorem length_le_capacity (hg : g.WellFormed) {ks : List Key} (hnodup : ks.Nodup)
    (hsub : ∀ k ∈ ks, k ∈ g.keys) : ks.length ≤ g.capacity := by
  have hle := (hnodup.subperm hsub).length_le
  rw [DependencyGraph.keys, UnorderedMap.keys_length] at hle
  exact Nat.le_trans hle hg.size_le

end Shape

section Information

theorem info_markTarget (t : Transition Key T) (k j : Key) : (t.markTarget k).info j =
      if j = k then { t.info k with inTargetSubgraph := true } else t.info j := by
  simp only [info, markTarget, UnorderedMap.find?_upsert]
  split <;> rfl

theorem markTarget_eq_self {k : Key} (hk : k ∈ t.nodeInformation.keys)
    (hm : (t.info k).inTargetSubgraph = true) : t.markTarget k = t := by
  have hself : t.nodeInformation.modify k (fun i => { i with inTargetSubgraph := true }) =
      t.nodeInformation := by
    apply UnorderedMap.modify_eq_self
    intro i hi
    simp only [info, hi, Option.getD_some] at hm
    cases i
    simp_all
  simp only [markTarget, UnorderedMap.upsert_of_mem hk, hself]

theorem fold_markTarget (ws : List Key) (t : Transition Key T) :
    ∃ m, ws.foldl (fun t k => t.markTarget k) t = { t with nodeInformation := m } ∧
      (∀ k, k ∈ m.keys ↔ k ∈ ws ∨ k ∈ t.nodeInformation.keys) ∧
      ∀ k, (m.find? k).getD {} =
        { t.info k with inTargetSubgraph := decide (k ∈ ws) || (t.info k).inTargetSubgraph } := by
  induction ws generalizing t with
  | nil => exact ⟨t.nodeInformation, rfl, by simp, by simp [info]⟩
  | cons w ws ih =>
    obtain ⟨m, hfold, hkeys, hinfo⟩ := ih (t.markTarget w)
    refine ⟨m, by rw [foldl_cons, hfold]; rfl, ?_, ?_⟩
    · intro k
      rw [hkeys]
      simp only [markTarget, UnorderedMap.mem_keys_upsert, mem_cons]
      tauto
    · intro k
      rw [hinfo, info_markTarget]
      by_cases hk : k = w
      · subst k
        simp
      · simp [hk]

theorem info_resetInformation (t : Transition Key T) :
    (∀ k, k ∈ t.resetInformation.nodeInformation.keys ↔
      k ∈ t.graph.keys ∨ k ∈ t.nodeInformation.keys) ∧
    ∀ k, k ∈ t.graph.keys → t.resetInformation.info k = {} := by
  have hfold : ∀ (ks : List Key) (m : UnorderedMap Key NodeInfo),
      (∀ k, k ∈ (ks.foldl (fun m k => m.upsert k {} fun _ => ({} : NodeInfo)) m).keys ↔
        k ∈ ks ∨ k ∈ m.keys) ∧
      ∀ k, (k ∈ ks ∨ m.find? k = some {}) →
        (ks.foldl (fun m k => m.upsert k {} fun _ => ({} : NodeInfo)) m).find? k = some {} := by
    intro ks
    induction ks with
    | nil => exact fun m => ⟨by simp, by simp⟩
    | cons j ks ih =>
      intro m
      obtain ⟨hkeys, hfind⟩ := ih (m.upsert j {} fun _ => ({} : NodeInfo))
      constructor
      · intro k
        rw [foldl_cons, hkeys, UnorderedMap.mem_keys_upsert, mem_cons]
        tauto
      · intro k hk
        rw [foldl_cons]
        apply hfind
        rw [UnorderedMap.find?_upsert]
        by_cases hkj : k = j
        · exact .inr (by simp [hkj])
        · rcases hk with hk | hk
          · exact .inl ((mem_cons.mp hk).resolve_left hkj)
          · exact .inr (by simp [hkj, hk])
  obtain ⟨hkeys, hfind⟩ := hfold t.graph.keys t.nodeInformation
  refine ⟨hkeys, fun k hk => ?_⟩
  have := hfind k (.inl hk)
  simp only [resetInformation, info]
  rw [this, Option.getD_some]

theorem info_resetEnqueued (t : Transition Key T) (k : Key) :
    t.resetEnqueued.info k = { t.info k with enqueued := false } := by
  simp only [info, resetEnqueued, UnorderedMap.find?_mapValues]
  cases t.nodeInformation.find? k <;> rfl

end Information

section Setup
variable {target : Key}

theorem fold_activationVisitor (active : Key → Bool) (h : DependencyGraph Key T) (ws : List Key)
    (t : Transition Key T) (hmarked : ∀ k ∈ ws, t.markTarget k = t) :
    ws.foldl (fun t k => (activationVisitor active h k t).1) t =
      ws.foldl (fun t k => if !active k then t.countNode k (allDepsActive active h k) else t)
        t := by
  induction ws generalizing t with
  | nil => rfl
  | cons w ws ih =>
    have hw : t.markTarget w = t := hmarked w mem_cons_self
    simp only [foldl_cons, activationVisitor, hw]
    apply ih
    intro k hk
    have hold := hmarked k (mem_cons_of_mem w hk)
    have hinfo : (t.nodeInformation.upsert k {} fun i => { i with inTargetSubgraph := true }) =
        t.nodeInformation := congrArg Transition.nodeInformation hold
    split
    · simp only [markTarget, nodeInformation_countNode, hinfo]
      rw [← nodeInformation_countNode t w (allDepsActive active h w)]
    · exact hold

theorem fold_scanEntry (active : Key → Bool) (inside : Key → Bool) (es : List (Key × NodeInfo))
    (t : Transition Key T) (hinside : ∀ e ∈ es, e.2.inTargetSubgraph = inside e.1) :
    es.foldl (scanEntry active) t =
      (es.map Prod.fst).foldl
        (fun t' k => if !inside k && active k then
          t'.countNode k (allDependentsStopped active t.graph k) else t') t := by
  induction es generalizing t with
  | nil => rfl
  | cons e es ih =>
    simp only [foldl_cons, map_cons]
    have hgraph : (scanEntry active t e).graph = t.graph := by
      unfold scanEntry
      split
      · exact graph_countNode _ _ _
      · rfl
    rw [ih _ fun e' he' => hinside e' (mem_cons_of_mem e he'), hgraph]
    congr 1
    rw [scanEntry, hinside e mem_cons_self]

theorem Informed.cleared (h : Informed g target t) (phase : Phase) (pending : Nat) :
    Informed g target ({ t with phase, pending }.clearNextNodes).resetEnqueued where
  shape := h.shape
  idle := h.idle
  root := h.root
  capacity := (capacity_clearNextNodes _).trans h.capacity
  known k := by
    rw [← h.known k]
    simp [resetEnqueued, UnorderedMap.keys_mapValues, clearNextNodes]
  marked k hk := by
    rw [info_resetEnqueued]
    exact h.marked k hk
  pushed := h.pushed

/-- Both phases count nodes of the graph, each once, from an empty queue on. -/
theorem fold_counted_fresh (hg : g.WellFormed) (hcapacity : t.nextNodes.capacity = g.capacity)
    (hempty : t.nextNodes.toList = []) (hzero : t.pending = 0) {ks : List Key} (hnodup : ks.Nodup)
    (hin : ∀ k ∈ ks, k ∈ g.keys) (due ready : Key → Bool) : Counted due ready ks t
      (ks.foldl (fun t k => if due k then t.countNode k (ready k) else t) t) := by
  have hlen := length_le_capacity hg hnodup hin
  have hlt := hg.capacity_lt
  exact fold_counted due ready ks t (by rw [hempty, hcapacity]; simpa using hlen) (by omega)

/-- Entering the starting phase. The nodes counted are those of `ws` that are not active. -/
theorem advanceToStarting_spec (hg : g.WellFormed) (ht : target ∈ g.keys)
    (h : Informed g target t) (active : Key → Bool) :
    ∃ (t' : Transition Key T) (ws : List Key), t.advanceToStarting active = some t' ∧
      Informed g target t' ∧ (∀ k, (t'.info k).enqueued = false) ∧
      ws.Nodup ∧ (∀ k, k ∈ ws ↔ g.Reaches target k) ∧
      t'.nextNodes.toList = ws.filter (fun k => !active k && allDepsActive active g k) ∧
      t'.pending = (ws.filter fun k => !active k).length ∧
      t'.phase = if t'.pending = 0 then .done else .starting := by
  obtain ⟨c, hc⟩ : ∃ c,
      c = ({ t with phase := .starting, pending := 0 }.clearNextNodes).resetEnqueued := ⟨_, rfl⟩
  have hcleared : Informed g target c := hc ▸ h.cleared .starting 0
  have hempty : c.nextNodes.toList = [] := by rw [hc]; exact toList_clearNextNodes _
  have hzero : c.pending = 0 := by rw [hc]; rfl
  obtain ⟨g', ws, htrav, hshape, hidle, hnodup, hws⟩ := DependencyGraph.traverse_spec
    (activationVisitor active c.graph) (hcleared.shape.wellFormed hg hcleared.idle)
    (hcleared.shape.keys_eq ▸ ht) (fun _ _ => rfl) c
  have hreach : ∀ k, k ∈ ws ↔ g.Reaches target k := by
    intro k
    rw [hws, hcleared.shape.reaches_iff]
  have hin : ∀ k ∈ ws, k ∈ g.keys := fun k hk =>
    DependencyGraph.mem_keys_of_reaches hg ht ((hreach k).mp hk)
  have hself : ∀ k ∈ ws, c.markTarget k = c := fun k hk =>
    markTarget_eq_self ((hcleared.known k).mpr (hin k hk))
      ((hcleared.marked k (hin k hk)).mpr ((hreach k).mp hk))
  have hcount := fold_counted_fresh hg hcleared.capacity hempty hzero hnodup hin
    (fun k => !active k) (allDepsActive active c.graph)
  rw [fold_activationVisitor active c.graph ws c hself] at htrav
  generalize ws.foldl (fun t k => if !active k then
    t.countNode k (allDepsActive active c.graph k) else t) c = u at htrav hcount
  have hphase : u.phase = .starting := by rw [hcount.phase, hc]; rfl
  have hadv : t.advanceToStarting active = some
      { u with graph := g', phase := if u.pending = 0 then .done else .starting } := by
    rw [advanceToStarting, ← hc, setupActivation, hcleared.root, htrav]
    simp only [Option.map_some, Option.some.injEq]
    split
    · rfl
    · rw [← hphase]
  have hinformed := (hcleared.counted hcount).traversed (hcount.graph.symm ▸ hshape) hidle
  refine ⟨_, ws, hadv, hinformed.recount u.pending _, ?_, hnodup, hreach, ?_, ?_, rfl⟩
  · intro k
    change (u.info k).enqueued = false
    rw [info, hcount.info, hc]
    exact congrArg NodeInfo.enqueued (info_resetEnqueued _ k)
  · change u.nextNodes.toList = _
    rw [hcount.queue, hempty, nil_append]
    simp only [allDepsActive_congr hcleared.shape]
  · change u.pending = _
    rw [hcount.pending, hzero, Nat.zero_add]

/-- The stopping phase. The nodes counted are the active ones outside the target subgraph. -/
theorem setupDeactivation_spec (hg : g.WellFormed) (ht : target ∈ g.keys)
    (hshape : DependencyGraph.SameShape g t.graph) (hidle : t.graph.traversalQueue.toList = [])
    (hroot : t.targetRoot = target) (hcapacity : t.nextNodes.capacity = g.capacity)
    (hempty : t.nextNodes.toList = []) (hzero : t.pending = 0) (hpushed : t.pushResults = [])
    (hknown : ∀ k, k ∈ t.nodeInformation.keys ↔ k ∈ g.keys)
    (hfresh : ∀ k ∈ g.keys, t.info k = {}) (active : Key → Bool) :
    ∃ (t' : Transition Key T) (ks : List Key), t.setupDeactivation active target = some t' ∧
      Informed g target t' ∧ (∀ k ∈ g.keys, (t'.info k).enqueued = false) ∧
      ks.Nodup ∧ (∀ k, k ∈ ks ↔ k ∈ g.keys) ∧ t'.phase = t.phase ∧
      t'.nextNodes.toList = ks.filter (fun k => (!(t'.info k).inTargetSubgraph && active k) &&
        allDependentsStopped active g k) ∧
      t'.pending = (ks.filter fun k => !(t'.info k).inTargetSubgraph && active k).length := by
  obtain ⟨g', ws, htrav, hsh, hid, -, hws⟩ := DependencyGraph.traverse_spec
    (fun k (t' : Transition Key T) => (t'.markTarget k, t.graph.dependsOn k))
    (hshape.wellFormed hg hidle) (hshape.keys_eq ▸ ht) (fun _ _ => rfl) t
  obtain ⟨m, hfold, hkeys, hinfo⟩ := fold_markTarget ws t
  have hreach : ∀ k, k ∈ ws ↔ g.Reaches target k := by
    intro k
    rw [hws, hshape.reaches_iff]
  have hmkeys : ∀ k, k ∈ m.keys ↔ k ∈ g.keys := by
    intro k
    rw [hkeys, hknown]
    exact ⟨fun hk => hk.elim
      (fun hk => DependencyGraph.mem_keys_of_reaches hg ht ((hreach k).mp hk)) id, Or.inr⟩
  have hstate : ∀ k ∈ g.keys, (m.find? k).getD {} = { inTargetSubgraph := decide (k ∈ ws) } := by
    intro k hk
    rw [hinfo, hfresh k hk]
    simp
  obtain ⟨c, hc⟩ : ∃ c : Transition Key T, c = { t with nodeInformation := m, graph := g' } :=
    ⟨_, rfl⟩
  have hmarked : Informed g target c := by
    rw [hc]
    refine ⟨hshape.trans hsh, hid, hroot, hcapacity, hmkeys, fun k hk => ?_, ?_⟩
    · change ((m.find? k).getD {}).inTargetSubgraph = true ↔ _
      rw [hstate k hk, ← hreach]
      simp
    · simp [hpushed]
  have hcempty : c.nextNodes.toList = [] := by rw [hc]; exact hempty
  have hczero : c.pending = 0 := by rw [hc]; exact hzero
  have hentries : ∀ e ∈ c.nodeInformation.entries,
      e.2.inTargetSubgraph = (c.info e.1).inTargetSubgraph := by
    intro e he
    rw [info, UnorderedMap.find?_of_mem_entries he, Option.getD_some]
  have hcount := fold_counted_fresh hg hmarked.capacity hcempty hczero m.keys_nodup
    (fun k hk => (hmkeys k).mp hk) (fun k => !(c.info k).inTargetSubgraph && active k)
    (allDependentsStopped active c.graph)
  have hscan := fold_scanEntry active (fun k => (c.info k).inTargetSubgraph)
    c.nodeInformation.entries c hentries
  have hmap : c.nodeInformation.entries.map Prod.fst = m.keys := by rw [hc]; rfl
  rw [hmap] at hscan
  rw [← hscan] at hcount
  generalize hu : c.nodeInformation.entries.foldl (scanEntry active) c = u at hcount
  have hset : t.setupDeactivation active target = some u := by
    rw [setupDeactivation, htrav]
    simp only [Option.map_some, hfold, Option.some.injEq]
    rw [← hu, hc]
  have hcinfo : ∀ k, c.info k = u.info k := fun k => by rw [info, info, hcount.info]
  refine ⟨u, m.keys, hset, hmarked.counted hcount, ?_, m.keys_nodup, hmkeys, ?_, ?_, ?_⟩
  · intro k hk
    rw [← hcinfo, hc]
    exact congrArg NodeInfo.enqueued (hstate k hk)
  · rw [hcount.phase, hc]
  · rw [hcount.queue, hcempty, nil_append]
    simp only [allDependentsStopped_congr hmarked.shape, hcinfo]
  · rw [hcount.pending, hczero, Nat.zero_add]
    simp only [hcinfo]

/-- What the whole set-up does: either there is something to stop, or the object goes on to
the starting phase at once. -/
theorem createTransition_spec (h : t.WellFormed) (hg : g.WellFormed)
    (hshape : DependencyGraph.SameShape g t.graph) (ht : target ∈ g.keys) (active : Key → Bool) :
    ∃ (t₁ : Transition Key T) (ks : List Key),
      t.createTransition active target =
        (if t₁.pending = 0 then t₁.advanceToStarting active else some t₁) ∧
      Informed g target t₁ ∧ (∀ k ∈ g.keys, (t₁.info k).enqueued = false) ∧
      ks.Nodup ∧ (∀ k, k ∈ ks ↔ k ∈ g.keys) ∧ t₁.phase = .stopping ∧
      t₁.nextNodes.toList = ks.filter (fun k => (!(t₁.info k).inTargetSubgraph && active k) &&
        allDependentsStopped active g k) ∧
      t₁.pending = (ks.filter fun k => !(t₁.info k).inTargetSubgraph && active k).length := by
  obtain ⟨hkeys, hinfo⟩ := info_resetInformation t
  have hknown : ∀ k, k ∈ t.resetInformation.nodeInformation.keys ↔ k ∈ g.keys := by
    intro k
    rw [hkeys, hshape.keys_eq]
    exact ⟨fun hk => hk.elim id (h.known k), Or.inl⟩
  have hfresh : ∀ k ∈ g.keys, t.resetInformation.info k = {} := by
    rw [hshape.keys_eq]
    exact hinfo
  obtain ⟨t₁, ks, hset, hinf, henq, hnodup, hks, hphase, hqueue, hpend⟩ :=
    setupDeactivation_spec
      (t := { ({ t.resetInformation with
                  targetRoot := target, pushResults := [] } : Transition Key T).clearNextNodes with
                pending := 0, phase := .stopping })
      hg ht hshape h.graph.queue_idle rfl
      ((capacity_clearNextNodes _).trans (h.queue_capacity.trans hshape.2.1.symm))
      (toList_clearNextNodes _) rfl rfl hknown hfresh active
  refine ⟨t₁, ks, ?_, hinf, henq, hnodup, hks, hphase, hqueue, hpend⟩
  have hvalid : t.isValidNode target = true := by simp [isValidNode, ← hshape.keys_eq, ht]
  rw [createTransition, if_pos hvalid, setupTransition]
  simp only [hset, Option.bind_some]

end Setup

end LaunchManager.Transition
