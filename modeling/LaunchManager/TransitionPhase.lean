import LaunchManager.Library.Wavefront
import LaunchManager.TransitionSetup

/-!
# The phase invariant

Each phase of a transition is a wave: stopping walks from dependents to
dependencies, starting the other way. `flying` are the nodes handed out and
not yet reported, `stopped` and `started` those reported in the two phases.
`active₀` are the flags at set-up and `active` the live ones.
-/

namespace LaunchManager.Transition

open FixedSizeQueue List

set_option autoImplicit false

open Wavefront (Wave)

universe u v
variable {Key : Type u} {T : Type v}

section Frontier
variable {t t' : Transition Key T}

theorem nextReady_nil (h : t.nextNodes.toList = []) : t.nextReady = (none, t) := by
  rw [nextReady, if_pos ((empty_iff _).mpr h)]

theorem nextReady_cons {k : Key} {rest : List Key} (h : t.nextNodes.toList = k :: rest) :
    ∃ t', t.nextReady = (some ⟨k, t.currentAction⟩, t') ∧
      t' = { t with nextNodes := t.nextNodes.tryPop.2 } ∧ t'.nextNodes.toList = rest := by
  have hne : ¬ t.nextNodes.empty = true := by
    rw [empty_iff, h]
    simp
  obtain ⟨hpop, hrest⟩ := tryPop_cons h
  refine ⟨_, ?_, rfl, hrest⟩
  rw [nextReady, if_neg hne, hpop]
  rfl

theorem nextReady_eq_some {rn : ReadyNode Key} (h : t.nextReady = (some rn, t')) :
    rn.action = t.currentAction ∧ t' = { t with nextNodes := t.nextNodes.tryPop.2 } ∧
      t.nextNodes.toList = rn.node :: t'.nextNodes.toList := by
  cases hq : t.nextNodes.toList with
  | nil =>
    rw [nextReady_nil hq] at h
    cases h
  | cons k rest =>
    obtain ⟨u, hnext, hu, hrest⟩ := nextReady_cons hq
    cases hnext.symm.trans h
    exact ⟨rfl, hu, by rw [hrest]⟩

end Frontier

variable [DecidableEq Key]

def stopNodes (g : DependencyGraph Key T) (target : Key) (active₀ : Key → Bool) : List Key :=
  g.keys.filter fun k => active₀ k && !decide (k ∈ g.subgraph target)

def startNodes (g : DependencyGraph Key T) (target : Key) (active₀ : Key → Bool) : List Key :=
  g.keys.filter fun k => !active₀ k && decide (k ∈ g.subgraph target)

section Nodes
variable {g : DependencyGraph Key T} {target : Key} {active₀ : Key → Bool}

theorem mem_stopNodes (hg : g.WellFormed) (ht : target ∈ g.keys) (k : Key) :
    k ∈ stopNodes g target active₀ ↔
      k ∈ g.keys ∧ active₀ k = true ∧ ¬ g.Reaches target k := by
  simp [stopNodes, DependencyGraph.mem_subgraph hg ht]

theorem mem_startNodes (hg : g.WellFormed) (ht : target ∈ g.keys) (k : Key) :
    k ∈ startNodes g target active₀ ↔ active₀ k = false ∧ g.Reaches target k := by
  simp only [startNodes, mem_filter, Bool.and_eq_true, Bool.not_eq_true', decide_eq_true_eq,
    DependencyGraph.mem_subgraph hg ht]
  constructor
  · rintro ⟨_, hoff, hr⟩
    exact ⟨hoff, hr⟩
  · rintro ⟨hoff, hr⟩
    exact ⟨DependencyGraph.mem_keys_of_reaches hg ht hr, hoff, hr⟩

theorem stopNodes_nodup : (stopNodes g target active₀).Nodup := g.nodes.keys_nodup.filter _

theorem startNodes_nodup : (startNodes g target active₀).Nodup := g.nodes.keys_nodup.filter _

theorem not_mem_startNodes_of_mem_stopNodes {k : Key} (h : k ∈ stopNodes g target active₀) :
    k ∉ startNodes g target active₀ := by
  simp only [stopNodes, startNodes, mem_filter, Bool.and_eq_true] at h ⊢
  rintro ⟨_, hoff, _⟩
  simp [h.2.1] at hoff

end Nodes

def stopWave (g : DependencyGraph Key T) (target : Key) (active₀ : Key → Bool)
    (t : Transition Key T) (active : Key → Bool) (flying stopped : List Key) : Wave Key where
  members := stopNodes g target active₀
  queue := t.nextNodes.toList
  inFlight := flying
  finished := stopped
  marked := fun k => (t.info k).enqueued
  todo := active

def startWave (g : DependencyGraph Key T) (target : Key) (active₀ : Key → Bool)
    (t : Transition Key T) (active : Key → Bool) (flying started : List Key) : Wave Key where
  members := startNodes g target active₀
  queue := t.nextNodes.toList
  inFlight := flying
  finished := started
  marked := fun k => (t.info k).enqueued
  todo := fun k => !active k

structure Stopping (g : DependencyGraph Key T) (target : Key) (active₀ : Key → Bool)
    (t : Transition Key T) (active : Key → Bool) (flying stopped started : List Key) :
    Prop where
  phase : t.phase = .stopping
  wave : (stopWave g target active₀ t active flying stopped).Sound g.dependents
  counted : t.pending + stopped.length = (stopNodes g target active₀).length
  pending : 0 < t.pending
  unchanged : ∀ k, k ∉ stopNodes g target active₀ → active k = active₀ k
  none_started : started = []

structure Starting (g : DependencyGraph Key T) (target : Key) (active₀ : Key → Bool)
    (t : Transition Key T) (active : Key → Bool) (flying stopped started : List Key) :
    Prop where
  phase : t.phase = .starting
  wave : (startWave g target active₀ t active flying started).Sound g.dependsOn
  counted : t.pending + started.length = (startNodes g target active₀).length
  pending : 0 < t.pending
  unchanged : ∀ k, g.Reaches target k → k ∉ startNodes g target active₀ → active k = true
  all_stopped : ∀ k, k ∈ stopped ↔ k ∈ stopNodes g target active₀
  outside_off : ∀ k ∈ g.keys, ¬ g.Reaches target k → active k = false

structure Finished (g : DependencyGraph Key T) (target : Key) (active₀ : Key → Bool)
    (t : Transition Key T) (active : Key → Bool) (flying stopped started : List Key) :
    Prop where
  phase : t.phase = .done
  queue : t.nextNodes.toList = []
  none_flying : flying = []
  pending : t.pending = 0
  all_stopped : ∀ k, k ∈ stopped ↔ k ∈ stopNodes g target active₀
  all_started : ∀ k, k ∈ started ↔ k ∈ startNodes g target active₀
  exact : ∀ k ∈ g.keys, (active k = true ↔ g.Reaches target k)

/-- What holds between any two operations of a transition that was set up with the flags
`active₀`, as long as every component does what it is told. -/
structure InPhase (g : DependencyGraph Key T) (target : Key) (active₀ : Key → Bool)
    (t : Transition Key T) (active : Key → Bool) (flying stopped started : List Key) :
    Prop where
  informed : Informed g target t
  current : Stopping g target active₀ t active flying stopped started ∨
    Starting g target active₀ t active flying stopped started ∨
    Finished g target active₀ t active flying stopped started

section Enter
variable {g : DependencyGraph Key T} {target : Key} {active₀ active : Key → Bool}
variable {t : Transition Key T}

theorem InPhase.stopping {flying stopped started : List Key}
    (h : InPhase g target active₀ t active flying stopped started) (hp : t.phase = .stopping) :
    Stopping g target active₀ t active flying stopped started := by
  refine h.current.resolve_right ?_
  rintro (hs | hs) <;> exact absurd (hp.symm.trans hs.phase) nofun

theorem allDepsActive_iff (active : Key → Bool) (k : Key) :
    allDepsActive active g k = true ↔ ∀ p ∈ g.dependsOn k, (!active p) = false := by
  simp [allDepsActive]

theorem allDependentsStopped_iff (active : Key → Bool) (k : Key) :
    allDependentsStopped active g k = true ↔ ∀ p ∈ g.dependents k, active p = false := by
  simp [allDependentsStopped]

theorem advanceToStarting_inPhase (hg : g.WellFormed) (ht : target ∈ g.keys)
    (hinf : Informed g target t) {stopped : List Key}
    (hall : ∀ k, k ∈ stopped ↔ k ∈ stopNodes g target active₀)
    (hoff : ∀ k ∈ g.keys, ¬ g.Reaches target k → active k = false)
    (hsame : ∀ k, g.Reaches target k → active k = active₀ k) :
    ∃ t', t.advanceToStarting active = some t' ∧
      InPhase g target active₀ t' active [] stopped [] := by
  obtain ⟨t', ws, hadv, hinf', henq, hnodup, hws, hqueue, hpend, hphase⟩ :=
    advanceToStarting_spec hg ht hinf active
  have hmem : ∀ k, k ∈ ws.filter (fun k => !active k) ↔ k ∈ startNodes g target active₀ := by
    intro k
    rw [mem_startNodes hg ht, mem_filter, hws]
    constructor
    · rintro ⟨hr, hk⟩
      rw [hsame k hr] at hk
      exact ⟨by simpa using hk, hr⟩
    · rintro ⟨hk, hr⟩
      rw [← hsame k hr] at hk
      exact ⟨hr, by simpa using hk⟩
  have hperm : (ws.filter fun k => !active k).Perm (startNodes g target active₀) :=
    (perm_ext_iff_of_nodup (hnodup.filter _) startNodes_nodup).mpr hmem
  rw [hperm.length_eq] at hpend
  refine ⟨t', hadv, hinf', .inr ?_⟩
  have hready : ∀ k, k ∈ t'.nextNodes.toList ↔ k ∈ startNodes g target active₀ ∧
      ∀ p ∈ g.dependsOn k, (!active p) = false := by
    intro k
    rw [hqueue, ← filter_filter, mem_filter, mem_filter, ← hmem, mem_filter,
      ← allDepsActive_iff]
    tauto
  by_cases hzero : t'.pending = 0
  · right
    rw [if_pos hzero] at hphase
    have hnone : startNodes g target active₀ = [] :=
      length_eq_zero_iff.mp (hpend.symm.trans hzero)
    refine ⟨hphase, ?_, rfl, hzero, hall, by simp [hnone], ?_⟩
    · apply eq_nil_iff_forall_not_mem.mpr
      intro k hk
      simpa [hnone] using ((hready k).mp hk).1
    · intro k hk
      constructor
      · intro hon
        by_contra hr
        rw [hoff k hk hr] at hon
        cases hon
      · intro hr
        by_contra hon
        have : k ∈ startNodes g target active₀ := by
          rw [mem_startNodes hg ht, ← hsame k hr]
          exact ⟨by simpa using hon, hr⟩
        simp [hnone] at this
  · left
    rw [if_neg hzero] at hphase
    refine ⟨hphase, ?_, by simpa using hpend, by omega, ?_, hall, hoff⟩
    · apply Wave.Sound.start startNodes_nodup
      · rw [hqueue]
        exact hnodup.filter _
      · intro k hk
        rw [← hmem, mem_filter] at hk
        exact hk.2
      · intro k hk p hp hoffp
        have hr : g.Reaches target p := ((mem_startNodes hg ht k).mp hk).2.tail hp
        rw [mem_startNodes hg ht, ← hsame p hr]
        exact ⟨by simpa using hoffp, hr⟩
      · exact fun k _ => henq k
      · exact hready
    · intro k hr hk
      rw [mem_startNodes hg ht, ← hsame k hr] at hk
      by_contra hon
      exact hk ⟨by simpa using hon, hr⟩

theorem createTransition_inPhase (h : t.WellFormed) (hg : g.WellFormed)
    (hshape : DependencyGraph.SameShape g t.graph) (ht : target ∈ g.keys) (active₀ : Key → Bool) :
    ∃ t', t.createTransition active₀ target = some t' ∧
      InPhase g target active₀ t' active₀ [] [] [] := by
  obtain ⟨t₁, ks, hcreate, hinf, henq, hnodup, hks, hphase, hqueue, hpend⟩ :=
    createTransition_spec h hg hshape ht active₀
  have hin : ∀ k ∈ g.keys,
      ((!(t₁.info k).inTargetSubgraph) = true ↔ ¬ g.Reaches target k) := by
    intro k hk
    rw [← hinf.marked k hk]
    simp
  have hmem : ∀ k, k ∈ ks.filter (fun k => !(t₁.info k).inTargetSubgraph && active₀ k) ↔
      k ∈ stopNodes g target active₀ := by
    intro k
    rw [mem_stopNodes hg ht, mem_filter, hks, Bool.and_eq_true]
    constructor
    · rintro ⟨hk, hr, hon⟩
      exact ⟨hk, hon, (hin k hk).mp hr⟩
    · rintro ⟨hk, hon, hr⟩
      exact ⟨hk, (hin k hk).mpr hr, hon⟩
  have hperm : (ks.filter fun k => !(t₁.info k).inTargetSubgraph && active₀ k).Perm
      (stopNodes g target active₀) :=
    (perm_ext_iff_of_nodup (hnodup.filter _) stopNodes_nodup).mpr hmem
  rw [hperm.length_eq] at hpend
  by_cases hzero : t₁.pending = 0
  · rw [if_pos hzero] at hcreate
    have hnone : stopNodes g target active₀ = [] :=
      length_eq_zero_iff.mp (hpend.symm.trans hzero)
    rw [hcreate]
    apply advanceToStarting_inPhase hg ht hinf (by simp [hnone]) _ (fun _ _ => rfl)
    intro k hk hr
    by_contra hon
    have : k ∈ stopNodes g target active₀ :=
      (mem_stopNodes hg ht k).mpr ⟨hk, by simpa using hon, hr⟩
    simp [hnone] at this
  · rw [if_neg hzero] at hcreate
    refine ⟨t₁, hcreate, hinf, .inl ⟨hphase, ?_, by simpa using hpend, by omega,
      fun _ _ => rfl, rfl⟩⟩
    apply Wave.Sound.start stopNodes_nodup
    · rw [hqueue]
      exact hnodup.filter _
    · exact fun k hk => ((mem_stopNodes hg ht k).mp hk).2.1
    · intro k hk p hp hon
      rw [mem_stopNodes hg ht] at hk ⊢
      refine ⟨hg.dependents_mem k p hp, hon, fun hr => hk.2.2 ?_⟩
      exact hr.tail ((hg.mirror p k).mpr hp)
    · exact fun k hk => henq k ((mem_stopNodes hg ht k).mp hk).1
    · intro k
      rw [hqueue, ← hmem, ← allDependentsStopped_iff]
      simp only [mem_filter, Bool.and_eq_true]
      tauto

end Enter

section Report
variable {g : DependencyGraph Key T} {target : Key} {active : Key → Bool} {t : Transition Key T}

theorem isReady_congr {t' : Transition Key T} (hphase : t'.phase = t.phase)
    (hgraph : t'.graph = t.graph)
    (hinfo : ∀ k, (t'.info k).inTargetSubgraph = (t.info k).inTargetSubgraph) (s : Key) :
    t'.isReady active s = t.isReady active s := by
  simp only [isReady, hphase, hgraph, hinfo]

theorem info_markEnqueued {s : Key} (hs : s ∈ t.nodeInformation.keys) (k : Key) :
    (t.markEnqueued s).info k =
      if k = s then { t.info k with enqueued := true } else t.info k := by
  obtain ⟨i, hi⟩ := UnorderedMap.exists_of_mem hs
  simp only [info, markEnqueued, UnorderedMap.find?_modify]
  by_cases hk : k = s
  · subst k
    simp [hi]
  · simp [hk]

theorem enqueueSuccessor_ready {s : Key} (hinf : Informed g target t) (hs : s ∈ g.keys)
    (hready : t.isReady active s = true) (hfresh : (t.info s).enqueued = false)
    (hroom : t.nextNodes.toList.length < t.nextNodes.capacity) :
    ∃ t', enqueueSuccessor active t s = some t' ∧ Informed g target t' ∧
      t'.phase = t.phase ∧ t'.pending = t.pending ∧ t'.graph = t.graph ∧
      (∀ k, (t'.info k).inTargetSubgraph = (t.info k).inTargetSubgraph) ∧
      t'.nextNodes.toList = t.nextNodes.toList ++ [s] ∧
      (fun k => (t'.info k).enqueued) =
        Wavefront.mark (fun k => (t.info k).enqueued) s := by
  have hmem : s ∈ t.nodeInformation.keys := (hinf.known s).mpr hs
  have hinfo : ∀ k, ((t.markEnqueued s).pushNext s).info k =
      if k = s then { t.info k with enqueued := true } else t.info k := info_markEnqueued hmem
  have hmark : ∀ k, (((t.markEnqueued s).pushNext s).info k).inTargetSubgraph =
      (t.info k).inTargetSubgraph := by
    intro k
    rw [hinfo]
    split <;> rfl
  have hpush : (t.nextNodes.push s).1 = true := push_accepted hroom s
  refine ⟨(t.markEnqueued s).pushNext s, ?_, ?_, rfl, rfl, rfl, hmark,
    toList_push hroom s, ?_⟩
  · rw [enqueueSuccessor, if_pos hmem, if_pos (by simp [hready, hfresh]), if_pos hpush]
  · constructor
    · exact hinf.shape
    · exact hinf.idle
    · exact hinf.root
    · exact (capacity_push _ _).trans hinf.capacity
    · intro k
      rw [← hinf.known k]
      simp [pushNext, markEnqueued, UnorderedMap.keys_modify]
    · intro k hk
      rw [hmark, hinf.marked k hk]
    · intro b hb
      rcases mem_cons.mp hb with rfl | hb
      · exact hpush
      · exact hinf.pushed b hb
  · funext k
    rw [hinfo, Wavefront.mark]
    by_cases hk : k = s <;> simp [hk]

theorem fold_enqueueSuccessor (ss : List Key) (hinf : Informed g target t)
    (hss : ∀ s ∈ ss, s ∈ g.keys)
    (hroom : t.nextNodes.toList.length + (Wavefront.enqueueReady (t.isReady active) ss
      fun k => (t.info k).enqueued).length ≤ t.nextNodes.capacity) :
    ∃ t', ss.foldlM (enqueueSuccessor active) t = some t' ∧ Informed g target t' ∧
      t'.phase = t.phase ∧ t'.pending = t.pending ∧
      t'.nextNodes.toList = t.nextNodes.toList ++ Wavefront.enqueueReady (t.isReady active) ss
        (fun k => (t.info k).enqueued) ∧
      ∀ k, (t'.info k).enqueued = true ↔ (t.info k).enqueued = true ∨
        k ∈ Wavefront.enqueueReady (t.isReady active) ss fun k => (t.info k).enqueued := by
  induction ss generalizing t with
  | nil =>
    exact ⟨t, rfl, hinf, rfl, rfl, by simp [Wavefront.enqueueReady],
      by simp [Wavefront.enqueueReady]⟩
  | cons s ss ih =>
    have hs : s ∈ g.keys := hss s mem_cons_self
    have hrest : ∀ j ∈ ss, j ∈ g.keys := fun j hj => hss j (mem_cons_of_mem s hj)
    simp only [foldlM_cons]
    by_cases hcond : (t.isReady active s && !(t.info s).enqueued) = true
    · have hboth := hcond
      simp only [Bool.and_eq_true, Bool.not_eq_true'] at hboth
      simp only [Wavefront.enqueueReady, hcond, if_true, length_cons] at hroom ⊢
      obtain ⟨t₁, hone, hinf₁, hphase, hpend, hgraph, hmark, hqueue, henq⟩ :=
        enqueueSuccessor_ready hinf hs hboth.1 hboth.2 (by omega)
      have hready : t₁.isReady active = t.isReady active :=
        funext (isReady_congr hphase hgraph hmark)
      obtain ⟨t', hfold, hinf', hphase', hpend', hqueue', henq'⟩ := ih hinf₁ hrest
        (by
          rw [hready, henq, hqueue, hinf₁.capacity, ← hinf.capacity, length_append,
            length_singleton]
          omega)
      rw [hready, henq, hqueue, append_assoc, singleton_append] at hqueue'
      refine ⟨t', by simp [hone, hfold], hinf', hphase'.trans hphase, hpend'.trans hpend,
        hqueue', ?_⟩
      intro k
      have hk : (t₁.info k).enqueued = Wavefront.mark (fun k => (t.info k).enqueued) s k :=
        congrFun henq k
      rw [henq', hready, henq, hk, mem_cons, Wavefront.mark]
      simp only [Bool.or_eq_true, decide_eq_true_eq]
      tauto
    · have hmem : s ∈ t.nodeInformation.keys := (hinf.known s).mpr hs
      have hskip : enqueueSuccessor active t s = some t := by
        rw [enqueueSuccessor, if_pos hmem, if_neg hcond]
      simp only [Wavefront.enqueueReady, hcond] at hroom ⊢
      obtain ⟨t', hfold, hrest'⟩ := ih hinf hrest hroom
      exact ⟨t', by simp [hskip, hfold], hrest'⟩

/-- A report inside a phase, for either direction: `before`, `todo` and `members` describe the
wave and `ss` are the successors of the finished node. -/
theorem report_wave (active : Key → Bool) (ss : List Key) {before : Key → List Key}
    {members flying rest finished : List Key} {todo : Key → Bool} {k : Key} (hg : g.WellFormed)
    (hinf : Informed g target t) (hwave : Wave.Sound before
      ⟨members, t.nextNodes.toList, flying, finished, fun k => (t.info k).enqueued, todo⟩)
    (hmembers : ∀ k ∈ members, k ∈ g.keys) (hfly : flying.Perm (k :: rest))
    (hdone : todo k = false) (hss : ∀ s, s ∈ ss ↔ k ∈ before s) (hkeys : ∀ s ∈ ss, s ∈ g.keys)
    (hready : ∀ s ∈ ss, (t.isReady active s = true ↔
      s ∈ members ∧ todo s = true ∧ ∀ p ∈ before s, todo p = false)) :
    ∃ t', ss.foldlM (enqueueSuccessor active) t = some t' ∧ Informed g target t' ∧
      t'.phase = t.phase ∧ t'.pending = t.pending ∧
      (∀ c ∈ t'.nextNodes.toList, c ∈ t.nextNodes.toList ∨ c ∈ ss) ∧
      Wave.Sound before ⟨members, t'.nextNodes.toList, rest, k :: finished,
        fun k => (t'.info k).enqueued, todo⟩ := by
  have hmem := Wavefront.mem_enqueueReady (t.isReady active) ss fun k => (t.info k).enqueued
  have hfinish := fun marked hmarked => hwave.finish marked hfly hdone
    (Wavefront.enqueueReady_nodup (t.isReady active) ss fun k => (t.info k).enqueued)
    (by
      intro s hs
      obtain ⟨hs, hr, hm⟩ := (hmem s).mp hs
      obtain ⟨hsm, _, hclear⟩ := (hready s hs).mp hr
      exact ⟨hsm, hm, (hss s).mp hs, hclear⟩)
    (by
      intro s hs hk htodo hclear
      have hin := (hss s).mpr hk
      by_cases hm : (t.info s).enqueued = true
      · exact .inl hm
      · exact .inr ((hmem s).mpr
          ⟨hin, (hready s hin).mpr ⟨hs, htodo, hclear⟩, by simpa using hm⟩))
    hmarked
  have hlen : t.nextNodes.toList.length + (Wavefront.enqueueReady (t.isReady active) ss
      fun k => (t.info k).enqueued).length ≤ t.nextNodes.capacity := by
    have hle := (hfinish (fun s => (t.info s).enqueued || decide (s ∈ Wavefront.enqueueReady
      (t.isReady active) ss fun k => (t.info k).enqueued)) (by simp)).length_le
    have hcap : members.length ≤ g.capacity :=
      length_le_capacity hg hwave.members_nodup hmembers
    simp only [length_append] at hle
    rw [hinf.capacity]
    omega
  obtain ⟨t', hfold, hinf', hphase, hpend, hqueue, henq⟩ :=
    fold_enqueueSuccessor ss hinf hkeys hlen
  refine ⟨t', hfold, hinf', hphase, hpend, ?_, ?_⟩
  · intro c hc
    rw [hqueue, mem_append] at hc
    exact hc.imp_right fun hc => ((hmem c).mp hc).1
  · rw [hqueue]
    exact hfinish _ henq

end Report

end LaunchManager.Transition
