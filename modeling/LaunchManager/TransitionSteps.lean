import LaunchManager.TransitionPhase

/-!
# The operations of a transition keep the phase invariant

One lemma for each thing that can happen between set-up and the end: a node is
handed out, a component in flight changes its flag, a completion is reported.
The safety and progress facts of the protocol are read off the invariant.
-/

namespace LaunchManager.Transition

open Function List

set_option autoImplicit false

open Wavefront (Wave)

universe u v
variable {Key : Type u} {T : Type v} [DecidableEq Key]

namespace InPhase
variable {g : DependencyGraph Key T} {target : Key} {active₀ active : Key → Bool}
variable {t t' : Transition Key T} {flying stopped started : List Key}

def told (t : Transition Key T) : Bool := t.phase == .starting

theorem perm (h : InPhase g target active₀ t active flying stopped started) {flying' : List Key}
    (hp : flying'.Perm flying) : InPhase g target active₀ t active flying' stopped started := by
  refine ⟨h.informed, ?_⟩
  rcases h.current with hs | hs | hs
  · exact .inl { hs with wave := hs.wave.reorder hp }
  · exact .inr (.inl { hs with wave := hs.wave.reorder hp })
  · exact .inr (.inr { hs with none_flying := (hs.none_flying ▸ hp).eq_nil })

theorem nextReady (h : InPhase g target active₀ t active flying stopped started)
    {rn : ReadyNode Key} (hn : t.nextReady = (some rn, t')) :
    InPhase g target active₀ t' active (rn.node :: flying) stopped started ∧
      rn.action = t.currentAction ∧ t'.phase = t.phase := by
  obtain ⟨hact, rfl, hq⟩ := nextReady_eq_some hn
  refine ⟨⟨{ h.informed with
    capacity := (FixedSizeQueue.capacity_tryPop _).trans h.informed.capacity }, ?_⟩, hact, rfl⟩
  rcases h.current with hs | hs | hs
  · exact .inl { hs with wave := hs.wave.pop hq }
  · exact .inr (.inl { hs with wave := hs.wave.pop hq })
  · rw [hs.queue] at hq
    cases hq

theorem act (h : InPhase g target active₀ t active flying stopped started) {k : Key}
    (hk : k ∈ flying) (hg : g.WellFormed) (ht : target ∈ g.keys) :
    InPhase g target active₀ t (Function.update active k (told t)) flying stopped started := by
  refine ⟨h.informed, ?_⟩
  rcases h.current with hs | hs | hs
  · left
    have htold : told t = false := by rw [told, hs.phase]; rfl
    have hmem : k ∈ stopNodes g target active₀ := hs.wave.mem_of_inFlight hk
    rw [htold]
    refine { hs with wave := ?_, unchanged := fun j hj => ?_ }
    · exact hs.wave.act hk (update_self k false active)
        fun j hj => update_of_ne hj false active
    · have hjk : j ≠ k := fun he => hj (he ▸ hmem)
      rw [update_of_ne hjk]
      exact hs.unchanged j hj
  · right; left
    have htold : told t = true := by rw [told, hs.phase]; rfl
    have hmem : k ∈ startNodes g target active₀ := hs.wave.mem_of_inFlight hk
    rw [htold]
    refine { hs with wave := ?_, unchanged := fun j hr hj => ?_, outside_off := fun j hj hr => ?_ }
    · apply hs.wave.act hk
      · simp
      · intro j hj
        simp [startWave, update_of_ne hj]
    · have hjk : j ≠ k := fun he => hj (he ▸ hmem)
      rw [update_of_ne hjk]
      exact hs.unchanged j hr hj
    · have hjk : j ≠ k := fun he => hr (he ▸ ((mem_startNodes hg ht k).mp hmem).2)
      rw [update_of_ne hjk]
      exact hs.outside_off j hj hr
  · rw [hs.none_flying] at hk
    cases hk

theorem decrement (hinf : Informed g target t) (hg : g.WellFormed) {members finished : List Key}
    (hnodup : members.Nodup) (hmem : ∀ j ∈ members, j ∈ g.keys) {k : Key} (hk : k ∈ members)
    (hcounted : t.pending + finished.length = members.length) (hpos : 0 < t.pending) :
    t.isValidNode k = true ∧ (t.pending + (2 ^ 64 - 1)) % 2 ^ 64 = t.pending - 1 := by
  refine ⟨by simpa [isValidNode, ← hinf.shape.keys_eq] using hmem k hk, ?_⟩
  have hle := Nat.lt_of_le_of_lt (length_le_capacity hg hnodup hmem) hg.capacity_lt
  have hsplit : t.pending + (2 ^ 64 - 1) = (t.pending - 1) + 2 ^ 64 := by omega
  rw [hsplit, Nat.add_mod_right, Nat.mod_eq_of_lt (by omega)]

theorem isReady_stopping (hs : Stopping g target active₀ t active flying stopped started)
    (hinf : Informed g target t) (hg : g.WellFormed) (ht : target ∈ g.keys) {s : Key}
    (hk : s ∈ g.keys) :
    t.isReady active s = true ↔ s ∈ stopNodes g target active₀ ∧ active s = true ∧
      ∀ p ∈ g.dependents s, active p = false := by
  have hnot : ¬ t.phase = .starting := by rw [hs.phase]; simp
  rw [isReady, if_neg hnot, allDependentsStopped_congr hinf.shape, Bool.and_eq_true,
    Bool.and_eq_true, allDependentsStopped_iff, Bool.not_eq_true', ← Bool.not_eq_true,
    hinf.marked s hk]
  constructor
  · rintro ⟨⟨hr, hon⟩, hclear⟩
    refine ⟨?_, hon, hclear⟩
    by_contra hmem
    rw [hs.unchanged s hmem] at hon
    exact hmem ((mem_stopNodes hg ht s).mpr ⟨hk, hon, hr⟩)
  · rintro ⟨hmem, hon, hclear⟩
    exact ⟨⟨((mem_stopNodes hg ht s).mp hmem).2.2, hon⟩, hclear⟩

theorem isReady_starting (hs : Starting g target active₀ t active flying stopped started)
    (hinf : Informed g target t) (hg : g.WellFormed) (ht : target ∈ g.keys) {s : Key}
    (hk : s ∈ g.keys) :
    t.isReady active s = true ↔ s ∈ startNodes g target active₀ ∧ (!active s) = true ∧
      ∀ p ∈ g.dependsOn s, (!active p) = false := by
  rw [isReady, if_pos hs.phase, allDepsActive_congr hinf.shape, Bool.and_eq_true,
    Bool.and_eq_true, allDepsActive_iff, hinf.marked s hk]
  constructor
  · rintro ⟨⟨hr, hoff⟩, hclear⟩
    refine ⟨?_, hoff, hclear⟩
    by_contra hmem
    rw [hs.unchanged s hr hmem] at hoff
    cases hoff
  · rintro ⟨hmem, hoff, hclear⟩
    exact ⟨⟨((mem_startNodes hg ht s).mp hmem).2, hoff⟩, hclear⟩

theorem report_stopping (hs : Stopping g target active₀ t active flying stopped started)
    (hinf : Informed g target t) (hg : g.WellFormed) (ht : target ∈ g.keys) {k : Key}
    {rest : List Key} (hfly : flying.Perm (k :: rest)) (hdone : active k = false) :
    ∃ t', t.onNodeFinished active k = some t' ∧
      InPhase g target active₀ t' active rest (k :: stopped) started ∧
      (rest ≠ [] → t'.phase = t.phase) ∧
      (t'.phase = .stopping →
        ∀ c ∈ t'.nextNodes.toList, c ∈ t.nextNodes.toList ∨ c ∈ g.dependsOn k) := by
  have hmem : ∀ j ∈ stopNodes g target active₀, j ∈ g.keys := fun j hj =>
    ((mem_stopNodes hg ht j).mp hj).1
  obtain ⟨hvalid, hdec⟩ := decrement hinf hg stopNodes_nodup hmem
    (hs.wave.mem_of_inFlight (hfly.mem_iff.mpr mem_cons_self)) hs.counted hs.pending
  rw [onNodeFinished, if_pos hvalid]
  simp only [hdec]
  by_cases hlast : t.pending - 1 = 0
  · rw [if_pos hlast, if_pos hs.phase]
    have hlen : stopped.length + 1 = (stopNodes g target active₀).length := by
      have hcounted := hs.counted
      have hpos := hs.pending
      omega
    obtain ⟨_, hrest, hall⟩ := hs.wave.last hfly hlen
    have hoff : ∀ j ∈ g.keys, ¬ g.Reaches target j → active j = false := by
      intro j hj hr
      by_cases hjm : j ∈ stopNodes g target active₀
      · rcases mem_cons.mp ((hall j).mpr hjm) with rfl | hjs
        · exact hdone
        · exact hs.wave.finished_done j hjs
      · rw [hs.unchanged j hjm]
        by_contra hon
        exact hjm ((mem_stopNodes hg ht j).mpr ⟨hj, by simpa using hon, hr⟩)
    have hsame : ∀ j, g.Reaches target j → active j = active₀ j := by
      intro j hr
      apply hs.unchanged
      rw [mem_stopNodes hg ht]
      exact fun hj => hj.2.2 hr
    obtain ⟨t', hadv, hphase⟩ := advanceToStarting_inPhase hg ht
      (hinf.recount (t.pending - 1) t.phase) hall hoff hsame
    rw [hrest, hs.none_started]
    refine ⟨t', hadv, hphase, fun hne => absurd rfl hne, fun hstop => ?_⟩
    have hnew := hphase.stopping hstop
    have hpos := hnew.pending
    have hcounted : t'.pending + (k :: stopped).length = _ := hnew.counted
    rw [length_cons] at hcounted
    omega
  · have hnot : ¬ t.phase = .starting := by rw [hs.phase]; simp
    rw [if_neg hlast, if_neg hnot]
    obtain ⟨t', hfold, hinf', hphase, hpend, hfrom, hwave⟩ :=
      report_wave active (t.graph.dependsOn k) hg
        (hinf.recount (t.pending - 1) t.phase) hs.wave hmem hfly hdone
        (by
          intro s
          rw [← hinf.shape.dependsOn_eq]
          exact hg.mirror k s)
        (by
          intro s hsk
          rw [← hinf.shape.dependsOn_eq] at hsk
          exact hg.dependsOn_mem k s hsk)
        (by
          intro s hsk
          rw [← hinf.shape.dependsOn_eq] at hsk
          exact isReady_stopping hs hinf hg ht (hg.dependsOn_mem k s hsk))
    have hpend' : t'.pending = t.pending - 1 := hpend
    refine ⟨t', hfold, ⟨hinf', .inl ⟨hphase.trans hs.phase, hwave, ?_, ?_, hs.unchanged,
      hs.none_started⟩⟩, fun _ => hphase, ?_⟩
    · have hcounted := hs.counted
      rw [hpend', length_cons]
      omega
    · omega
    · intro _ c hc
      rw [hinf.shape.dependsOn_eq]
      exact hfrom c hc

theorem report_starting (hs : Starting g target active₀ t active flying stopped started)
    (hinf : Informed g target t) (hg : g.WellFormed) (ht : target ∈ g.keys) {k : Key}
    {rest : List Key} (hfly : flying.Perm (k :: rest)) (hdone : active k = true) :
    ∃ t', t.onNodeFinished active k = some t' ∧
      InPhase g target active₀ t' active rest stopped (k :: started) ∧
      (rest ≠ [] → t'.phase = t.phase) := by
  have hmem : ∀ j ∈ startNodes g target active₀, j ∈ g.keys := fun j hj =>
    DependencyGraph.mem_keys_of_reaches hg ht ((mem_startNodes hg ht j).mp hj).2
  obtain ⟨hvalid, hdec⟩ := decrement hinf hg startNodes_nodup hmem
    (hs.wave.mem_of_inFlight (hfly.mem_iff.mpr mem_cons_self)) hs.counted hs.pending
  rw [onNodeFinished, if_pos hvalid]
  simp only [hdec]
  by_cases hlast : t.pending - 1 = 0
  · have hnot : ¬ t.phase = .stopping := by rw [hs.phase]; simp
    rw [if_pos hlast, if_neg hnot]
    have hlen : started.length + 1 = (startNodes g target active₀).length := by
      have hcounted := hs.counted
      have hpos := hs.pending
      omega
    obtain ⟨hqueue, hrest, hall⟩ := hs.wave.last hfly hlen
    refine ⟨_, rfl, ⟨hinf.recount _ _,
      Or.inr (.inr ⟨rfl, hqueue, hrest, hlast, hs.all_stopped, hall, ?_⟩)⟩,
      fun hne => absurd hrest hne⟩
    intro j hj
    constructor
    · intro hon
      by_contra hr
      rw [hs.outside_off j hj hr] at hon
      cases hon
    · intro hr
      by_cases hjm : j ∈ startNodes g target active₀
      · rcases mem_cons.mp ((hall j).mpr hjm) with rfl | hjs
        · exact hdone
        · have hflag := hs.wave.finished_done j hjs
          simpa [startWave] using hflag
      · exact hs.unchanged j hr hjm
  · rw [if_neg hlast, if_pos hs.phase]
    obtain ⟨t', hfold, hinf', hphase, hpend, -, hwave⟩ :=
      report_wave active (t.graph.dependents k) hg
        (hinf.recount (t.pending - 1) t.phase) hs.wave hmem hfly (by simp [hdone])
        (by
          intro s
          rw [← hinf.shape.dependents_eq]
          exact (hg.mirror s k).symm)
        (by
          intro s hsk
          rw [← hinf.shape.dependents_eq] at hsk
          exact hg.dependents_mem k s hsk)
        (by
          intro s hsk
          rw [← hinf.shape.dependents_eq] at hsk
          exact isReady_starting hs hinf hg ht (hg.dependents_mem k s hsk))
    have hpend' : t'.pending = t.pending - 1 := hpend
    refine ⟨t', hfold, ⟨hinf', .inr (.inl ⟨hphase.trans hs.phase, hwave, ?_, ?_, hs.unchanged,
      hs.all_stopped, hs.outside_off⟩)⟩, fun _ => hphase⟩
    · have hcounted := hs.counted
      rw [hpend', length_cons]
      omega
    · omega

/-- A report by a component that has done what it was told. As long as something else is in
flight, the phase does not change. -/
theorem report (h : InPhase g target active₀ t active flying stopped started) (hg : g.WellFormed)
    (ht : target ∈ g.keys) {k : Key} {rest : List Key} (hfly : flying.Perm (k :: rest))
    (hdone : active k = told t) : ∃ t', t.onNodeFinished active k = some t' ∧
      InPhase g target active₀ t' active rest
        (if told t then stopped else k :: stopped) (if told t then k :: started else started) ∧
      (rest ≠ [] → t'.phase = t.phase) := by
  rcases h.current with hs | hs | hs
  · have htold : told t = false := by rw [told, hs.phase]; rfl
    simp only [htold] at hdone ⊢
    obtain ⟨t', hfin, hnew, hsame, -⟩ := report_stopping hs h.informed hg ht hfly hdone
    exact ⟨t', hfin, hnew, hsame⟩
  · have htold : told t = true := by rw [told, hs.phase]; rfl
    simp only [htold] at hdone ⊢
    exact report_starting hs h.informed hg ht hfly hdone
  · rw [hs.none_flying] at hfly
    cases hfly.nil_eq

structure Dispatch (g : DependencyGraph Key T) (target : Key) (active₀ active : Key → Bool)
    (flying stopped started : List Key) (rn : ReadyNode Key) : Prop where
  fresh : rn.node ∉ flying ∧ rn.node ∉ stopped ∧ rn.node ∉ started
  stop : rn.action = .stop → active rn.node = true ∧ ¬ g.Reaches target rn.node ∧
    started = [] ∧ ∀ d ∈ g.dependents rn.node, active d = false
  start : rn.action = .start → active rn.node = false ∧ g.Reaches target rn.node ∧
    (∀ d ∈ g.dependsOn rn.node, active d = true) ∧ ∀ k ∈ stopNodes g target active₀, k ∈ stopped

theorem dispatch (h : InPhase g target active₀ t active flying stopped started)
    (hg : g.WellFormed) (ht : target ∈ g.keys) {rn : ReadyNode Key}
    (hn : t.nextReady = (some rn, t')) :
    Dispatch g target active₀ active flying stopped started rn := by
  obtain ⟨hact, -, hq⟩ := nextReady_eq_some hn
  rcases h.current with hs | hs | hs
  · replace hact : rn.action = .stop := hact.trans (by simp [currentAction, hs.phase])
    obtain ⟨hmem, hfresh, htodo, hclear⟩ := hs.wave.head hq
    refine ⟨⟨hfresh.1, hfresh.2, by simp [hs.none_started]⟩, fun _ => ?_, by simp [hact]⟩
    exact ⟨htodo, ((mem_stopNodes hg ht _).mp hmem).2.2, hs.none_started, hclear⟩
  · replace hact : rn.action = .start := hact.trans (by simp [currentAction, hs.phase])
    obtain ⟨hmem, hfresh, htodo, hclear⟩ := hs.wave.head hq
    refine ⟨⟨hfresh.1, fun hks => ?_, hfresh.2⟩, by simp [hact], fun _ => ?_⟩
    · exact not_mem_startNodes_of_mem_stopNodes ((hs.all_stopped _).mp hks) hmem
    · exact ⟨by simpa [startWave] using htodo, ((mem_startNodes hg ht _).mp hmem).2,
        fun d hd => by simpa [startWave] using hclear d hd, fun j hj => (hs.all_stopped j).mpr hj⟩
  · rw [hs.queue] at hq
    cases hq

def unreported (g : DependencyGraph Key T) (target : Key) (active₀ : Key → Bool) (phase : Phase)
    (stopped started : List Key) : List Key :=
  match phase with
  | .stopping => (stopNodes g target active₀).filter (· ∉ stopped)
  | .starting => (startNodes g target active₀).filter (· ∉ started)
  | .done => []

theorem pending_eq (h : InPhase g target active₀ t active flying stopped started) :
    t.pending = (unreported g target active₀ t.phase stopped started).length := by
  rcases h.current with hs | hs | hs
  · rw [hs.phase]
    exact Nat.add_right_cancel (hs.counted.trans hs.wave.length_unfinished.symm)
  · rw [hs.phase]
    exact Nat.add_right_cancel (hs.counted.trans hs.wave.length_unfinished.symm)
  · rw [hs.phase, hs.pending]
    rfl

theorem pending_pos (h : InPhase g target active₀ t active flying stopped started)
    (hp : t.phase ≠ .done) : 0 < t.pending := by
  rcases h.current with hs | hs | hs
  · exact hs.pending
  · exact hs.pending
  · exact absurd hs.phase hp

theorem not_done_of_flying (h : InPhase g target active₀ t active flying stopped started)
    (hf : flying ≠ []) : t.phase ≠ .done := by
  rcases h.current with hs | hs | hs
  · rw [hs.phase]
    simp
  · rw [hs.phase]
    simp
  · exact absurd hs.none_flying hf

theorem flying_nodup (h : InPhase g target active₀ t active flying stopped started) :
    flying.Nodup := by
  rcases h.current with hs | hs | hs
  · exact hs.wave.nodup_parts.1
  · exact hs.wave.nodup_parts.1
  · rw [hs.none_flying]
    exact nodup_nil

theorem wellFounded_edges (hg : g.WellFormed) (members : List Key)
    (hac : ∀ k ∈ members, ¬ Relation.TransGen (fun a b => b ∈ g.dependsOn a) k k) :
    WellFounded (fun p k => p ∈ g.dependsOn k ∧ p ∈ members) ∧
      WellFounded (fun p k => p ∈ g.dependents k ∧ p ∈ members) := by
  have hmem : ∀ a b, b ∈ g.dependsOn a → a ∈ g.keys ∧ b ∈ g.keys := by
    intro a b hab
    exact ⟨hg.dependents_mem b a ((hg.mirror a b).mp hab), hg.dependsOn_mem a b hab⟩
  constructor
  · refine Wavefront.wellFounded_of_acyclic g.keys (fun a b hab => (hmem b a hab.1).symm) ?_
    intro a ha
    obtain ⟨b, hab, -⟩ := Relation.TransGen.head'_iff.mp ha
    apply hac a hab.2
    apply Relation.transGen_swap.mp
    exact Relation.TransGen.mono (fun x y hxy => hxy.1) _ _ ha
  · refine Wavefront.wellFounded_of_acyclic g.keys
      (fun a b hab => hmem a b ((hg.mirror a b).mpr hab.1)) ?_
    intro a ha
    obtain ⟨b, hab, -⟩ := Relation.TransGen.head'_iff.mp ha
    apply hac a hab.2
    exact Relation.TransGen.mono (fun x y hxy => (hg.mirror x y).mpr hxy.1) _ _ ha

/-- Deadlock freedom needs no more than that nothing the transition stops or starts is on a
cycle. -/
theorem progress_of_nodes (h : InPhase g target active₀ t active flying stopped started)
    (hg : g.WellFormed) (hstop : ∀ k ∈ stopNodes g target active₀,
      ¬ Relation.TransGen (fun a b => b ∈ g.dependsOn a) k k)
    (hstart : ∀ k ∈ startNodes g target active₀,
      ¬ Relation.TransGen (fun a b => b ∈ g.dependsOn a) k k)
    (hp : t.phase ≠ .done) : t.nextNodes.toList ≠ [] ∨ flying ≠ [] := by
  rcases h.current with hs | hs | hs
  · apply hs.wave.progress (wellFounded_edges hg _ hstop).2
    have hcounted := hs.counted
    have hpos := hs.pending
    simp only [stopWave]
    omega
  · apply hs.wave.progress (wellFounded_edges hg _ hstart).1
    have hcounted := hs.counted
    have hpos := hs.pending
    simp only [startWave]
    omega
  · exact absurd hs.phase hp

theorem progress (h : InPhase g target active₀ t active flying stopped started)
    (hg : g.WellFormed) (hac : g.Acyclic) (hp : t.phase ≠ .done) :
    t.nextNodes.toList ≠ [] ∨ flying ≠ [] :=
  h.progress_of_nodes hg (fun k _ => hac k) (fun k _ => hac k) hp

theorem exact_of_done (h : InPhase g target active₀ t active flying stopped started)
    (hp : t.phase = .done) : ∀ k ∈ g.keys, (active k = true ↔ g.Reaches target k) := by
  rcases h.current with hs | hs | hs
  · rw [hs.phase] at hp
    cases hp
  · rw [hs.phase] at hp
    cases hp
  · exact hs.exact

end InPhase

end LaunchManager.Transition
