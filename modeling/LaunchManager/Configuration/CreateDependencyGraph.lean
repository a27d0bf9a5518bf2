import LaunchManager.Configuration.CyclicDependencies
import LaunchManager.Graph
import LaunchManager.TransitionRun

/-!
# From a validated configuration to the graph

`custom_validations` of the configuration mapping and `CreateDependencyGraph` of
the daemon. The graph has a node for every component and every run target, and
two more run targets: one named `Off`, unless it is configured, and the fallback
run target. A node whose name is taken is not inserted, and wiring up a dependency
that has no node throws.
-/

namespace LaunchManager

open List

set_option autoImplicit false

universe u

def offStateName : String := "Off"

def recoveryStateName : String := "fallback_run_target"

inductive ValidationError where
  | twoReadyConditions (component : String)
  | reportingReadyCondition (component : String)
  | reservedRunTarget
  | collidingNames (names : List String)
  | recoveryTarget
  | dependency (error : DependencyError String)
deriving DecidableEq

def ValidationError.message : ValidationError → String
  | twoReadyConditions component =>
    "Component '" ++ component ++ "': ready_condition must configure either " ++
      "\"process_state\" or \"file_state\", but not both."
  | reportingReadyCondition component =>
    "Component '" ++ component ++ "': application_type = 'Reporting' only currently supports a " ++
      "'Running' process state as a ready condition"
  | reservedRunTarget =>
    "RunTarget name \"fallback_run_target\" is reserved, please choose a different name."
  | collidingNames names =>
    "The following names are used for both a Component and a RunTarget, " ++
      "please choose different names: " ++
      String.intercalate ", " (names.mergeSort fun a b => decide (a ≤ b)) ++ "."
  | recoveryTarget =>
    "For any switch_run_target recovery action, the recovery RunTarget must be set to " ++
      "\"fallback_run_target\"."
  | dependency error => error.message

namespace Configuration

def componentErrors (name : String) (properties : ComponentProperties String) :
    List ValidationError :=
  (if properties.processState.isSome ∧ properties.fileState then [.twoReadyConditions name]
    else []) ++
  (if properties.processState = some .terminated ∧
      properties.applicationType = some .reporting then [.reportingReadyCondition name]
    else [])

def runTargetErrors (properties : RunTargetProperties String) : List ValidationError :=
  if properties.recoveryTarget.getD recoveryStateName ≠ recoveryStateName then [.recoveryTarget]
  else []

def collidingNames (config : Configuration String) : List String :=
  config.components.keys.filter (· ∈ config.runTargets.keys)

/-- The errors reported; the configuration is accepted when there are none. -/
def customValidations (config : Configuration String) (fuel : Nat) :
    Option (List ValidationError) :=
  let errors :=
    config.components.entries.flatMap (fun e => componentErrors e.1 e.2) ++
    (if recoveryStateName ∈ config.runTargets.keys then [.reservedRunTarget] else []) ++
    (if config.collidingNames ≠ [] then [.collidingNames config.collidingNames] else []) ++
    config.runTargets.entries.flatMap (fun e => runTargetErrors e.2)
  match config.checkCyclicDependencies fuel with
  | .outOfFuel => none
  | .raised error => some (errors ++ [.dependency error])
  | .returned _ _ => some errors

def graphNodes (config : Configuration String) : List (String × Component) :=
  config.components.entries.map (fun e => (e.1, .processInfoNode)) ++
  config.runTargets.entries.map (fun e => (e.1, .runTarget)) ++
  (if offStateName ∈ config.runTargets.keys then [] else [(offStateName, .runTarget)]) ++
  [(recoveryStateName, .runTarget)]

def pendingDependencies (config : Configuration String) : List (String × List String) :=
  config.components.entries.map (fun e => (e.1, e.2.dependsOn)) ++
  config.runTargets.entries.map (fun e => (e.1, e.2.dependsOn)) ++
  [(recoveryStateName, config.fallbackRunTarget.getD [])]

def offStateTransitionTimeout (config : Configuration String) : Nat :=
  ((config.runTargets.find? offStateName).map (·.transitionTimeoutMs)).getD 3000

/-- `hash` is the constructor of `IdentifierHash`. The number of nodes is a `uint32_t`. The
second result is the timeout of the transition to `Off`. -/
def createDependencyGraph {Key : Type u} [DecidableEq Key] (hash : String → Key)
    (config : Configuration String) : Option (DependencyGraph Key Component × Nat) :=
  (DependencyGraph.build ((config.components.size + config.runTargets.size + 2) % 2 ^ 32)
    (config.graphNodes.map fun n => (hash n.1, n.2))
    (config.pendingDependencies.flatMap fun p => p.2.map fun d => (hash p.1, hash d))).map
    fun g => (g, config.offStateTransitionTimeout)

/-! ## Names of nodes -/

def NodeName (config : Configuration String) (name : String) : Prop :=
  config.Known name ∨ name = offStateName ∨ name = recoveryStateName

def nodeDependsOn (config : Configuration String) (name : String) : List String :=
  if name = recoveryStateName then config.fallbackRunTarget.getD [] else config.dependsOn name

/-- What the validation leaves open: no component has the name of one of the two run targets that
are added, the dependencies of every component have a node, and the initial run target is a run
target. -/
structure Unambiguous (config : Configuration String) : Prop where
  off : offStateName ∉ config.components.keys
  recovery : recoveryStateName ∉ config.components.keys
  dependencies : ∀ c ∈ config.components.keys, ∀ d ∈ config.dependsOn c, config.NodeName d
  initial : config.initialRunTarget ∈ config.runTargets.keys ∨
    config.initialRunTarget = offStateName ∨ config.initialRunTarget = recoveryStateName

structure Accepted (config : Configuration String) : Prop where
  disjoint : config.Disjoint
  reserved : recoveryStateName ∉ config.runTargets.keys
  inOrder : ∀ root ∈ config.roots, ∀ n ∈ root, config.InOrder n

section Names
variable {config : Configuration String} {fuel : Nat} {name d : String}

theorem accepted_of_customValidations (h : config.customValidations fuel = some []) :
    config.Accepted := by
  simp only [customValidations] at h
  split at h
  · cases h
  · simp at h
  · rename_i out a hcheck
    simp only [Option.some.injEq, append_eq_nil_iff] at h
    obtain ⟨⟨⟨-, hreserved⟩, hcolliding⟩, -⟩ := h
    have hnone : config.collidingNames = [] := by
      by_contra hne
      simp [hne] at hcolliding
    refine ⟨fun n hc hr => ?_, fun hr => ?_, fun root hroot => ?_⟩
    · have hmem : n ∈ config.collidingNames := mem_filter.mpr ⟨hc, by simpa using hr⟩
      rw [hnone] at hmem
      cases hmem
    · simp [hr] at hreserved
    · rcases config.checkRoots_cases fuel config.roots with
        ⟨root', -, r, -, hbad, hr⟩ | ⟨hall, -⟩
      · exact absurd (hr.symm.trans hcheck) (hbad out a)
      · obtain ⟨out', a', hreturned⟩ := hall root hroot
        exact inOrder_of_returned ⟨out', a', hreturned⟩

theorem mem_graphNodes_iff : name ∈ config.graphNodes.map Prod.fst ↔ config.NodeName name := by
  have hoff : name ∈ (if offStateName ∈ config.runTargets.keys then []
      else [(offStateName, Component.runTarget)]).map Prod.fst ↔
      offStateName ∉ config.runTargets.keys ∧ name = offStateName := by
    split <;> simp [*]
  simp only [graphNodes, map_append, mem_append, map_map, hoff]
  simp only [NodeName, Known, UnorderedMap.keys, map_cons, map_nil, mem_singleton,
    Function.comp_def]
  constructor
  · rintro (((hc | hr) | ⟨-, ho⟩) | hf)
    · exact .inl (.inl hc)
    · exact .inl (.inr hr)
    · exact .inr (.inl ho)
    · exact .inr (.inr hf)
  · rintro ((hc | hr) | ho | hf)
    · exact .inl (.inl (.inl hc))
    · exact .inl (.inl (.inr hr))
    · by_cases hmem : offStateName ∈ config.runTargets.entries.map Prod.fst
      · exact .inl (.inl (.inr (ho ▸ hmem)))
      · exact .inl (.inr ⟨hmem, ho⟩)
    · exact .inr hf

theorem lookup_graphNodes_component (h : name ∈ config.components.keys) :
    UnorderedMap.lookup name config.graphNodes = some .processInfoNode := by
  obtain ⟨properties, hfind⟩ := UnorderedMap.exists_of_mem h
  have hlookup : UnorderedMap.lookup name
      (config.components.entries.map fun e => (e.1, Component.processInfoNode)) =
      some .processInfoNode := by
    rw [UnorderedMap.lookup_map name fun _ _ => Component.processInfoNode]
    exact congrArg (Option.map _) hfind
  simp [graphNodes, UnorderedMap.lookup_append, hlookup]

theorem lookup_graphNodes_runTarget (hname : config.NodeName name)
    (h : name ∉ config.components.keys) :
    UnorderedMap.lookup name config.graphNodes = some .runTarget := by
  have hnone : UnorderedMap.lookup name
      (config.components.entries.map fun e => (e.1, Component.processInfoNode)) = none := by
    rw [UnorderedMap.lookup_eq_none_iff, map_map]
    exact h
  cases hlookup : UnorderedMap.lookup name config.graphNodes with
  | none =>
    rw [UnorderedMap.lookup_eq_none_iff] at hlookup
    exact absurd (mem_graphNodes_iff.mpr hname) hlookup
  | some kind =>
    rw [graphNodes, append_assoc, append_assoc, UnorderedMap.lookup_append, hnone,
      Option.none_or] at hlookup
    have hmem := UnorderedMap.mem_of_lookup hlookup
    have hkind : ∀ c, (name, c) ∈ (if offStateName ∈ config.runTargets.keys then []
        else [(offStateName, Component.runTarget)]) → c = .runTarget := by
      intro c hc
      split at hc <;> simp_all
    rcases mem_append.mp hmem with hmem | hmem
    · obtain ⟨e, -, he⟩ := mem_map.mp hmem
      rw [← (Prod.mk.inj he).2]
    · rcases mem_append.mp hmem with hmem | hmem
      · rw [hkind kind hmem]
      · rw [(Prod.mk.inj (mem_singleton.mp hmem)).2]

theorem Unambiguous.not_component (h : config.Unambiguous) (hd : config.Disjoint)
    (hname : name ∈ config.runTargets.keys ∨ name = offStateName ∨ name = recoveryStateName) :
    name ∉ config.components.keys := by
  rcases hname with hname | rfl | rfl
  · exact fun hc => hd name hc hname
  · exact h.off
  · exact h.recovery

theorem nodeDependsOn_known (h : config.Unambiguous) (ha : config.Accepted)
    (hname : config.Known name) : config.nodeDependsOn name = config.dependsOn name := by
  have hne : name ≠ recoveryStateName := by
    rintro rfl
    exact hname.elim h.recovery ha.reserved
  rw [nodeDependsOn, if_neg hne]

theorem mem_pendingDependencies_iff (h : config.Unambiguous) (ha : config.Accepted) :
    (∃ ds, (name, ds) ∈ config.pendingDependencies ∧ d ∈ ds) ↔ d ∈ config.nodeDependsOn name := by
  have hcomponent : ∀ {properties}, (name, properties) ∈ config.components.entries →
      config.nodeDependsOn name = properties.dependsOn := fun hmem => by
    have hfind := UnorderedMap.find?_of_mem_entries hmem
    rw [nodeDependsOn_known h ha (.inl (UnorderedMap.mem_of_find? hfind)),
      dependsOn_component hfind]
  have hrunTarget : ∀ {properties}, (name, properties) ∈ config.runTargets.entries →
      config.nodeDependsOn name = properties.dependsOn := fun hmem => by
    have hfind := UnorderedMap.find?_of_mem_entries hmem
    have hkey := UnorderedMap.mem_of_find? hfind
    have hnone := (UnorderedMap.find?_eq_none_iff _ _).mpr fun hc => ha.disjoint name hc hkey
    rw [nodeDependsOn_known h ha (.inr hkey), dependsOn_runTarget hnone hfind]
  constructor
  · rintro ⟨ds, hmem, hd⟩
    rw [pendingDependencies, mem_append, mem_append] at hmem
    rcases hmem with (hmem | hmem) | hmem
    · obtain ⟨⟨n, properties⟩, hentry, heq⟩ := mem_map.mp hmem
      cases heq
      rw [hcomponent hentry]
      exact hd
    · obtain ⟨⟨n, properties⟩, hentry, heq⟩ := mem_map.mp hmem
      cases heq
      rw [hrunTarget hentry]
      exact hd
    · cases mem_singleton.mp hmem
      rw [nodeDependsOn, if_pos rfl]
      exact hd
  · intro hd
    by_cases hrecovery : name = recoveryStateName
    · subst hrecovery
      rw [nodeDependsOn, if_pos rfl] at hd
      exact ⟨_, mem_append.mpr (.inr (mem_singleton.mpr rfl)), hd⟩
    rw [nodeDependsOn, if_neg hrecovery, dependsOn] at hd
    split at hd
    · rename_i properties hfind
      have hentry := mem_map_of_mem (f := fun e => (e.1, e.2.dependsOn))
        (UnorderedMap.mem_of_lookup hfind)
      exact ⟨_, mem_append_left _ (mem_append_left _ hentry), hd⟩
    · split at hd
      · rename_i properties hfind
        have hentry := mem_map_of_mem (f := fun e => (e.1, e.2.dependsOn))
          (UnorderedMap.mem_of_lookup hfind)
        exact ⟨_, mem_append_left _ (mem_append_right _ hentry), hd⟩
      · cases hd

theorem inOrder_of_mem_nodeDependsOn (ha : config.Accepted)
    (hname : name ∉ config.components.keys) (hd : d ∈ config.nodeDependsOn name) :
    config.InOrder d := by
  rw [nodeDependsOn] at hd
  split at hd
  · cases hfallback : config.fallbackRunTarget with
    | none =>
      rw [hfallback] at hd
      cases hd
    | some root =>
      rw [hfallback] at hd
      exact ha.inOrder root (mem_append_right _ (by simp [hfallback])) d hd
  · rw [dependsOn, (UnorderedMap.find?_eq_none_iff _ _).mpr hname] at hd
    dsimp only at hd
    split at hd
    · rename_i properties hfind
      exact ha.inOrder _ (mem_append_left _ (mem_map_of_mem
        (f := fun e => e.2.dependsOn) (UnorderedMap.mem_of_lookup hfind))) d hd
    · cases hd

theorem nodeName_of_mem_nodeDependsOn (h : config.Unambiguous) (ha : config.Accepted)
    (hd : d ∈ config.nodeDependsOn name) : config.NodeName d := by
  by_cases hname : name ∈ config.components.keys
  · rw [nodeDependsOn_known h ha (.inl hname)] at hd
    exact h.dependencies name hname d hd
  · exact .inl (inOrder_of_mem_nodeDependsOn ha hname hd).known

end Names

/-! ## The graph -/

section Graph
variable {Key : Type u} [DecidableEq Key] {hash : String → Key} {config : Configuration String}
variable {g : DependencyGraph Key Component}

/-- The names that have a node hash without collision. -/
def HashesApart (hash : String → Key) (config : Configuration String) : Prop :=
  ∀ m n, config.NodeName m → config.NodeName n → hash m = hash n → m = n

/-- A name that has a node, is the initial run target or is listed as a dependency. -/
def Mentioned (config : Configuration String) (name : String) : Prop :=
  config.NodeName name ∨ name = config.initialRunTarget ∨ ∃ n, name ∈ config.dependsOn n

/-- The graph shows the configuration, name by name. -/
structure Represents (hash : String → Key) (config : Configuration String)
    (g : DependencyGraph Key Component) : Prop where
  keys : ∀ k, g.value? k ≠ none → ∃ n, config.NodeName n ∧ k = hash n
  value : ∀ n, config.NodeName n → g.value? (hash n) = UnorderedMap.lookup n config.graphNodes
  edges : ∀ n, config.NodeName n → ∀ d,
    d ∈ g.dependsOn (hash n) ↔ ∃ m ∈ config.nodeDependsOn n, d = hash m

theorem nodeName_of_mem_pending (h : config.Unambiguous) (ha : config.Accepted)
    {p : String × List String} (hp : p ∈ config.pendingDependencies) {d : String} (hd : d ∈ p.2) :
    config.NodeName p.1 ∧ config.NodeName d := by
  have hdep := (mem_pendingDependencies_iff h ha).mp ⟨p.2, hp, hd⟩
  refine ⟨?_, nodeName_of_mem_nodeDependsOn h ha hdep⟩
  rw [pendingDependencies, mem_append, mem_append] at hp
  rcases hp with (hp | hp) | hp
  · obtain ⟨e, he, rfl⟩ := mem_map.mp hp
    exact .inl (.inl (mem_map_of_mem he))
  · obtain ⟨e, he, rfl⟩ := mem_map.mp hp
    exact .inl (.inr (mem_map_of_mem he))
  · rw [mem_singleton.mp hp]
    exact .inr (.inr rfl)

variable {timeout : Nat}

theorem lookup_of_createDependencyGraph
    (h : config.createDependencyGraph hash = some (g, timeout)) (k : Key) :
    g.value? k = UnorderedMap.lookup k (config.graphNodes.map fun n => (hash n.1, n.2)) := by
  obtain ⟨g', hbuild, heq⟩ := Option.map_eq_some_iff.mp h
  cases heq
  exact DependencyGraph.value?_of_build hbuild k

theorem nodeName_of_createDependencyGraph
    (h : config.createDependencyGraph hash = some (g, timeout)) {k : Key}
    (hk : g.value? k ≠ none) : ∃ n, config.NodeName n ∧ k = hash n := by
  rw [lookup_of_createDependencyGraph h, ne_eq, UnorderedMap.lookup_eq_none_iff, not_not,
    map_map] at hk
  obtain ⟨e, he, rfl⟩ := mem_map.mp hk
  exact ⟨e.1, mem_graphNodes_iff.mp (mem_map_of_mem he), rfl⟩

theorem createDependencyGraph_represents (h : config.Unambiguous) (ha : config.Accepted)
    (hsize : config.components.size + config.runTargets.size + 2 < 2 ^ 32)
    (hash : String → Key) (hapart : HashesApart hash config) :
    ∃ g, config.createDependencyGraph hash = some (g, config.offStateTransitionTimeout) ∧
      Represents hash config g ∧ g.WellFormed := by
  have hnode : ∀ n, config.NodeName n →
      hash n ∈ (config.graphNodes.map fun n => (hash n.1, n.2)).map Prod.fst := by
    intro n hn
    obtain ⟨e, he, rfl⟩ := mem_map.mp (mem_graphNodes_iff.mpr hn)
    rw [map_map]
    exact mem_map.mpr ⟨e, he, rfl⟩
  have hname : ∀ e ∈ config.graphNodes, config.NodeName e.1 := fun e he =>
    mem_graphNodes_iff.mp (mem_map_of_mem he)
  obtain ⟨g, hbuild, hdeps⟩ := DependencyGraph.build_spec
    ((config.components.size + config.runTargets.size + 2) % 2 ^ 32)
    (config.graphNodes.map fun n => (hash n.1, n.2))
    (config.pendingDependencies.flatMap fun p => p.2.map fun d => (hash p.1, hash d)) (by
      intro e he
      obtain ⟨p, hp, he⟩ := mem_flatMap.mp he
      obtain ⟨d, hd, rfl⟩ := mem_map.mp he
      have hboth := nodeName_of_mem_pending h ha hp hd
      exact ⟨hnode _ hboth.1, hnode _ hboth.2⟩)
  have hcreate : config.createDependencyGraph hash =
      some (g, config.offStateTransitionTimeout) := by
    rw [createDependencyGraph, hbuild]
    rfl
  refine ⟨g, hcreate, ⟨fun k => nodeName_of_createDependencyGraph hcreate, fun n hn => ?_,
    fun n hn d => ?_⟩, ?_⟩
  · rw [lookup_of_createDependencyGraph hcreate]
    exact UnorderedMap.lookup_rename hash n _ fun e he heq => hapart _ _ (hname e he) hn heq
  · rw [hdeps]
    constructor
    · intro hmem
      obtain ⟨p, hp, hmem⟩ := mem_flatMap.mp hmem
      obtain ⟨m, hm, heq⟩ := mem_map.mp hmem
      obtain ⟨hkey, rfl⟩ := Prod.mk.inj heq
      obtain rfl := hapart _ _ (nodeName_of_mem_pending h ha hp hm).1 hn hkey
      exact ⟨m, (mem_pendingDependencies_iff h ha).mp ⟨p.2, hp, hm⟩, rfl⟩
    · rintro ⟨m, hm, rfl⟩
      obtain ⟨ds, hp, hd⟩ := (mem_pendingDependencies_iff h ha).mpr hm
      exact mem_flatMap.mpr ⟨(n, ds), hp, mem_map.mpr ⟨m, hd, rfl⟩⟩
  · refine DependencyGraph.wellFormed_build ?_ ?_ hbuild
    · exact (Nat.mod_lt _ (by decide)).trans (by decide)
    · rw [Nat.mod_eq_of_lt hsize]
      simp only [graphNodes, length_map, length_append, UnorderedMap.size]
      split <;> simp

section Cycles
variable (hr : Represents hash config g) (h : config.Unambiguous) (ha : config.Accepted)
include hr h ha

variable {n : String}

theorem reaches_inOrder {k : Key} (hn : config.InOrder n)
    (hpath : g.Reaches (hash n) k) : ∃ m, config.InOrder m ∧ k = hash m := by
  induction hpath with
  | refl => exact ⟨n, hn, rfl⟩
  | tail _ hedge ih =>
    obtain ⟨m, hm, rfl⟩ := ih
    obtain ⟨d, hd, rfl⟩ := (hr.edges m (.inl hm.known) _).mp hedge
    rw [nodeDependsOn_known h ha hm.known] at hd
    exact ⟨d, hm.edge hd, rfl⟩

theorem not_cyclic_inOrder (hn : config.InOrder n) :
    ¬ Relation.TransGen (fun a b => b ∈ g.dependsOn a) (hash n) (hash n) := by
  induction hn with
  | intro n known _ ih =>
    intro hcycle
    obtain ⟨k, hedge, hback⟩ := Relation.TransGen.head'_iff.mp hcycle
    obtain ⟨d, hd, rfl⟩ := (hr.edges n (.inl known) k).mp hedge
    rw [nodeDependsOn_known h ha known] at hd
    exact ih d hd (Relation.TransGen.tail' hback hedge)

theorem not_cyclic_of_runTarget (hapart : HashesApart hash config) (hname : config.NodeName n)
    (hn : n ∉ config.components.keys) {k : Key} (hpath : g.Reaches (hash n) k) :
    ¬ Relation.TransGen (fun a b => b ∈ g.dependsOn a) k k := by
  have hbelow : ∀ {d}, d ∈ g.dependsOn (hash n) → ∃ m, config.InOrder m ∧ d = hash m := by
    intro d hd
    obtain ⟨m, hm, rfl⟩ := (hr.edges n hname d).mp hd
    exact ⟨m, inOrder_of_mem_nodeDependsOn ha hn hm, rfl⟩
  rcases hpath.cases_head with rfl | ⟨d, hd, hrest⟩
  · intro hcycle
    obtain ⟨d, hd, hback⟩ := Relation.TransGen.head'_iff.mp hcycle
    obtain ⟨m, hm, rfl⟩ := hbelow hd
    obtain ⟨m', hm', heq⟩ := reaches_inOrder hr h ha hm hback
    obtain rfl := hapart _ _ hname (.inl hm'.known) heq
    exact not_cyclic_inOrder hr h ha hm' hcycle
  · obtain ⟨m, hm, rfl⟩ := hbelow hd
    obtain ⟨m', hm', rfl⟩ := reaches_inOrder hr h ha hm hrest
    exact not_cyclic_inOrder hr h ha hm'

end Cycles

/-- The graph has a node of its own kind for every name; `Off`, the fallback and the initial run
target are run targets; every dependency is wired up to a node; nothing that is reachable from a
run target is on a cycle; and whichever components that run targets need are running, every
transition to a run target can be driven to its end. -/
structure Faithful [Inhabited Key] (hash : String → Key) (config : Configuration String)
    (g : DependencyGraph Key Component) : Prop where
  components : ∀ c ∈ config.components.keys, g.value? (hash c) = some .processInfoNode
  runTargets : ∀ r ∈ config.runTargets.keys, g.value? (hash r) = some .runTarget
  added : ∀ r ∈ [offStateName, recoveryStateName, config.initialRunTarget],
    g.value? (hash r) = some .runTarget
  dependencies : ∀ n, config.NodeName n → ∀ d ∈ config.nodeDependsOn n,
    hash d ∈ g.dependsOn (hash n) ∧ hash d ∈ g.keys
  acyclic : ∀ r k, g.value? r = some .runTarget → g.Reaches r k →
    ¬ Relation.TransGen (fun a b => b ∈ g.dependsOn a) k k
  transitions : ∀ r, g.value? r = some .runTarget → ∀ active₀ : Key → Bool,
    (∀ k, active₀ k = true → ∃ r', g.value? r' = some .runTarget ∧ g.Reaches r' k) →
    ∃ s₀, TransitionRun.start (Transition.new g) r active₀ = some s₀ ∧
      ∀ s, Runs.Run TransitionRun.step Runs.anyStep s₀ s →
        ∃ s', Runs.Run TransitionRun.step Runs.anyStep s s' ∧ s'.transition.isFinished = true

theorem Unambiguous.faithful [Inhabited Key] (h : config.Unambiguous) (ha : config.Accepted)
    (hsize : config.components.size + config.runTargets.size + 2 < 2 ^ 32)
    (hapart : HashesApart hash config) :
    ∃ g timeout, config.createDependencyGraph hash = some (g, timeout) ∧
      Faithful hash config g := by
  obtain ⟨g, hcreate, hr, hg⟩ := createDependencyGraph_represents h ha hsize hash hapart
  have hrunTarget : ∀ r, r ∈ config.runTargets.keys ∨ r = offStateName ∨ r = recoveryStateName →
      g.value? (hash r) = some .runTarget := by
    intro r hmem
    have hname : config.NodeName r := hmem.imp .inr id
    rw [hr.value r hname]
    exact lookup_graphNodes_runTarget hname (h.not_component ha.disjoint hmem)
  have hcomponent : ∀ c ∈ config.components.keys, g.value? (hash c) = some .processInfoNode := by
    intro c hc
    rw [hr.value c (.inl (.inl hc))]
    exact lookup_graphNodes_component hc
  have hacyclic : ∀ r k, g.value? r = some .runTarget → g.Reaches r k →
      ¬ Relation.TransGen (fun a b => b ∈ g.dependsOn a) k k := by
    intro r k hkind hpath
    obtain ⟨n, hn, rfl⟩ := hr.keys r (by rw [hkind]; simp)
    refine not_cyclic_of_runTarget hr h ha hapart hn (fun hc => ?_) hpath
    rw [hcomponent n hc] at hkind
    cases hkind
  refine ⟨g, _, hcreate, hcomponent, fun r hmem => hrunTarget r (.inl hmem), ?_, ?_, hacyclic,
    ?_⟩
  · intro r hmem
    simp only [mem_cons, not_mem_nil, or_false] at hmem
    rcases hmem with rfl | rfl | rfl
    · exact hrunTarget _ (.inr (.inl rfl))
    · exact hrunTarget _ (.inr (.inr rfl))
    · exact hrunTarget _ h.initial
  · intro n hn d hd
    have hedge := (hr.edges n hn (hash d)).mpr ⟨d, hd, rfl⟩
    exact ⟨hedge, hg.dependsOn_mem _ _ hedge⟩
  · intro r hkind active₀ hactive
    have hkey : r ∈ (Transition.new g).graph.keys := by
      change r ∈ g.keys
      rw [DependencyGraph.mem_keys_iff_value?, hkind]
      simp
    have hwf := Transition.wellFormed_new hg
    obtain ⟨s₀, hs₀, -⟩ := TransitionRun.start_valid hwf hkey active₀
    refine ⟨s₀, hs₀, fun s hrun => ?_⟩
    have hv := TransitionRun.reachable_valid hwf hkey hs₀ hrun
    refine hv.can_finish hg hkey (fun k hk => ?_) fun k hk => ?_
    · obtain ⟨-, hon, -⟩ := (Transition.mem_stopNodes hg hkey k).mp hk
      obtain ⟨r', hkind', hpath⟩ := hactive k hon
      exact hacyclic r' k hkind' hpath
    · exact hacyclic r k hkind ((Transition.mem_startNodes hg hkey k).mp hk).2

/-- A name that is mentioned has a node if its hash has one. -/
theorem nodeName_of_value? (h : config.createDependencyGraph hash = some (g, timeout))
    (hapart : ∀ m n, config.Mentioned m → config.Mentioned n → hash m = hash n → m = n)
    {n : String} (hn : config.Mentioned n) (hvalue : g.value? (hash n) ≠ none) :
    config.NodeName n := by
  obtain ⟨m, hm, heq⟩ := nodeName_of_createDependencyGraph h hvalue
  rwa [hapart n m hn (.inl hm) heq]

theorem Faithful.unambiguous [Inhabited Key] (hf : Faithful hash config g)
    (h : config.createDependencyGraph hash = some (g, timeout))
    (hapart : ∀ m n, config.Mentioned m → config.Mentioned n → hash m = hash n → m = n) :
    config.Unambiguous := by
  have hadded : ∀ {r}, r ∈ [offStateName, recoveryStateName, config.initialRunTarget] →
      r ∉ config.components.keys := fun {r} hr hc => by
    cases (hf.components r hc).symm.trans (hf.added r hr)
  have hrecovery : recoveryStateName ∉ config.components.keys := hadded (by simp)
  refine ⟨hadded (by simp), hrecovery, fun c hc d hd => ?_, ?_⟩
  · have hown : config.nodeDependsOn c = config.dependsOn c :=
      if_neg fun heq : c = recoveryStateName => hrecovery (heq ▸ hc)
    have hkey := (hf.dependencies c (.inl (.inl hc)) d (hown ▸ hd)).2
    exact nodeName_of_value? h hapart (.inr (.inr ⟨c, hd⟩))
      ((g.mem_keys_iff_value? _).mp hkey)
  · have hinitial := hf.added config.initialRunTarget (by simp)
    have hname := nodeName_of_value? h hapart (.inr (.inl rfl)) (by rw [hinitial]; simp)
    exact hname.imp_left fun hknown => hknown.resolve_left (hadded (by simp))

/-- An accepted configuration becomes a graph that shows it faithfully exactly when it is
unambiguous. -/
theorem createDependencyGraph_sound [Inhabited Key] {fuel : Nat}
    (hvalid : config.customValidations fuel = some [])
    (hsize : config.components.size + config.runTargets.size + 2 < 2 ^ 32) (hash : String → Key)
    (hapart : ∀ m n, config.Mentioned m → config.Mentioned n → hash m = hash n → m = n) :
    config.Unambiguous ↔ ∃ g timeout, config.createDependencyGraph hash = some (g, timeout) ∧
      Faithful hash config g := by
  constructor
  · intro h
    exact h.faithful (accepted_of_customValidations hvalid) hsize
      fun m n hm hn => hapart m n (.inl hm) (.inl hn)
  · rintro ⟨g, timeout, hcreate, hf⟩
    exact hf.unambiguous hcreate hapart

/-- `Startup` needs `A`; `B` is not needed by anything and needs `A` as well. -/
def smallSample : Configuration String where
  components := ⟨[("A", {}), ("B", { dependsOn := ["A"] })], by decide⟩
  runTargets := ⟨[("Startup", { dependsOn := ["A"] })], by decide⟩
  initialRunTarget := "Startup"
  fallbackRunTarget := some []

theorem createDependencyGraph_sound_small :
    ∃ g timeout, smallSample.createDependencyGraph id = some (g, timeout) ∧
      g.value? "Off" = some .runTarget ∧ g.value? "B" = some .processInfoNode ∧
      "A" ∈ g.dependsOn "B" := by
  have hnames : ∀ c ∈ smallSample.components.keys, ∀ d ∈ smallSample.dependsOn c,
      d ∈ smallSample.components.keys := by decide
  obtain ⟨g, timeout, hcreate, hf⟩ :=
    (createDependencyGraph_sound (show smallSample.customValidations 4 = some [] by decide +kernel)
      (by decide) id (fun _ _ _ _ heq => heq)).mp
      ⟨by decide, by decide, fun c hc d hd => .inl (.inl (hnames c hc d hd)), .inl (by decide)⟩
  exact ⟨g, timeout, hcreate, hf.added "Off" (by decide), hf.components "B" (by decide),
    (hf.dependencies "B" (.inl (.inl (by decide))) "A" (by decide)).1⟩

def offComponentSample : Configuration String where
  components := ⟨[("Off", {})], by decide⟩
  runTargets := ⟨[("Startup", {})], by decide⟩
  initialRunTarget := "Startup"
  fallbackRunTarget := some []

def danglingSample : Configuration String where
  components := ⟨[("A", { dependsOn := ["Missing"] })], by decide⟩
  runTargets := ⟨[("Startup", {})], by decide⟩
  initialRunTarget := "Startup"
  fallbackRunTarget := some []

def initialSample : Configuration String where
  components := ⟨[], by decide⟩
  runTargets := ⟨[("Main", {})], by decide⟩
  initialRunTarget := "Startup"
  fallbackRunTarget := some []

/-- `Off` is not a run target, the wiring of the graph throws, or the initial run target has no
node. -/
theorem accepted_without_run_targets :
    (offComponentSample.customValidations 3 = some [] ∧
      (offComponentSample.createDependencyGraph id).map (fun p => p.1.value? offStateName) =
        some (some .processInfoNode)) ∧
    (danglingSample.customValidations 3 = some [] ∧
      (danglingSample.createDependencyGraph id).isNone = true) ∧
    (initialSample.customValidations 3 = some [] ∧
      (initialSample.createDependencyGraph id).map
        (fun p => p.1.value? initialSample.initialRunTarget) = some none) := by
  decide +kernel

end Graph

end Configuration

end LaunchManager
